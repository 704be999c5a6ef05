import Mathlib.Data.List.Induction
import TernLang.Proofs.Diagnostics
import TernLang.Proofs.Munch
import TernLang.Proofs.Parser.Heads

/-! # The index lists the declarations

**The index of a document lists the names that the document declares, in the order of
their first declarations, each as the declaration that defines it** (`build_lists`): the
last function of that name or, if no function has it, the first variable. The
declarations are all those in the statements that could be parsed, in the order of the
text. The diagnostics are those of a check.

The traversal that finds the declarations runs on a stack of its own size, whatever the
limit on calls is. So a document can be parsed, and be without a mistake, and still be
nested too deeply for an index (`build_lists_tooDeep`).
-/

namespace TernLang

/-- The symbol that a declaration gives. -/
def DocumentSymbol.ofDeclaration (lines : List Text.Line) (declared : Declaration) :
    DocumentSymbol :=
  let line := declared.line - 1
  ⟨declared.name, declared.kind, line, Index.column lines line declared.kind declared.name,
    declared.params⟩

/-- Of all declarations of its name this one defines it: it is the last function or, if
there is no function, the first variable. -/
structure Declaration.Defines (before : List Declaration) (declared : Declaration)
    (behind : List Declaration) : Prop where
  last : ∀ later ∈ behind, later.name = declared.name → later.kind = .var
  first : declared.kind = .var → ∀ earlier ∈ before, earlier.name ≠ declared.name

namespace Index

/-- The symbols are the names of the declarations, in the order of their first
declarations, each with the declaration that defines it. -/
structure Lists (lines : List Text.Line) (declared : List Declaration)
    (symbols : List DocumentSymbol) : Prop where
  names : symbols.map DocumentSymbol.name = (declared.map Declaration.name).eraseDups
  defined : ∀ symbol ∈ symbols, ∃ before defining behind,
    declared = before ++ defining :: behind ∧ defining.Defines before behind ∧
      symbol = .ofDeclaration lines defining

variable {lines : List Text.Line} {declared : List Declaration} {symbols : List DocumentSymbol}
  {symbol other : DocumentSymbol} {next : Declaration}

/-! ## One more symbol -/

/-- Putting a symbol adds its name at the end, unless the name is listed. -/
theorem map_name_put (symbols : List DocumentSymbol) (symbol : DocumentSymbol) :
    (put symbols symbol).map DocumentSymbol.name =
      if symbol.name ∈ symbols.map DocumentSymbol.name then symbols.map DocumentSymbol.name
      else symbols.map DocumentSymbol.name ++ [symbol.name] := by
  induction symbols with
  | nil => rfl
  | cons old rest ih =>
      rw [put]
      by_cases same : old.name = symbol.name
      · simp [same]
      · simp only [if_neg same, List.map_cons, ih, List.mem_cons, Ne.symm same, false_or]
        split <;> rfl

/-- The symbol itself, and those with other names. -/
theorem mem_put (distinct : (symbols.map DocumentSymbol.name).Nodup)
    (mem : other ∈ put symbols symbol) :
    other = symbol ∨ (other ∈ symbols ∧ other.name ≠ symbol.name) := by
  induction symbols with
  | nil => exact .inl (List.mem_singleton.mp mem)
  | cons old rest ih =>
      obtain ⟨fresh, distinct⟩ := List.nodup_cons.mp distinct
      rw [put] at mem
      by_cases same : old.name = symbol.name
      · rw [if_pos same] at mem
        rcases List.mem_cons.mp mem with rfl | later
        · exact .inl rfl
        · refine .inr ⟨List.mem_cons_of_mem _ later, fun again => fresh ?_⟩
          rw [same, ← again]
          exact List.mem_map_of_mem later
      · rw [if_neg same] at mem
        rcases List.mem_cons.mp mem with rfl | later
        · exact .inr ⟨List.mem_cons_self, same⟩
        · exact (ih distinct later).imp_right (And.imp_left (List.mem_cons_of_mem _))

/-- Erasing duplicates drops a name at the end that has occurred before. -/
theorem eraseDups_concat (names : List String) (name : String) :
    (names ++ [name]).eraseDups =
      if name ∈ names then names.eraseDups else names.eraseDups ++ [name] := by
  rw [List.eraseDups_append]
  by_cases known : name ∈ names <;> simp [known, List.removeAll, List.eraseDups_cons]

theorem eraseDups_nodup (names : List String) : names.eraseDups.Nodup := by
  induction names using List.reverseRecOn with
  | nil => exact .nil
  | append_singleton names name ih =>
      rw [eraseDups_concat]
      by_cases known : name ∈ names
      · rwa [if_pos known]
      · rw [if_neg known]
        have fresh : ∀ other ∈ names, other ≠ name := fun other mem same => known (same ▸ mem)
        exact List.nodup_append.mpr ⟨ih, by simp, by simpa using fresh⟩

/-! ## One more declaration -/

/-- A symbol stays the one that is defined, if the next declaration does not define its
name. -/
theorem Lists.keeps (listed : Lists lines declared symbols) (mem : symbol ∈ symbols)
    (other : next.name = symbol.name → next.kind = .var) :
    ∃ before defining behind, declared ++ [next] = before ++ defining :: behind ∧
      defining.Defines before behind ∧ symbol = .ofDeclaration lines defining := by
  obtain ⟨before, defining, behind, rfl, defines, rfl⟩ := listed.defined symbol mem
  refine ⟨before, defining, behind ++ [next], by simp, ⟨?_, defines.first⟩, rfl⟩
  intro later inside same
  rcases List.mem_append.mp inside with old | new
  · exact defines.last later old same
  · cases List.mem_singleton.mp new
    exact other same

/-- The names listed are the names declared. -/
theorem Lists.mem_names (listed : Lists lines declared symbols) {name : String} :
    name ∈ symbols.map DocumentSymbol.name ↔ name ∈ declared.map Declaration.name := by
  rw [listed.names, List.mem_eraseDups]

/-- The next declaration takes the place of its name, if it defines it. -/
theorem Lists.put (listed : Lists lines declared symbols)
    (defines : next.kind = .var → ∀ earlier ∈ declared, earlier.name ≠ next.name) :
    Lists lines (declared ++ [next]) (Index.put symbols (.ofDeclaration lines next)) where
  names := by
    rw [map_name_put, List.map_append, List.map_singleton, eraseDups_concat, ← listed.names]
    exact if_congr listed.mem_names rfl rfl
  defined := by
    intro symbol mem
    rcases mem_put (listed.names ▸ eraseDups_nodup _) mem with rfl | ⟨old, other⟩
    · exact ⟨declared, next, [], rfl, ⟨nofun, defines⟩, rfl⟩
    · exact listed.keeps old fun same => absurd same.symm other

/-- Adding the next declaration lists it with the others: under its name, or behind the
last. -/
theorem Lists.add (listed : Lists lines declared symbols) :
    Lists lines (declared ++ [next]) (Index.add lines symbols next) := by
  cases kind : next.kind with
  | function =>
      have added : Index.add lines symbols next =
          Index.put symbols (.ofDeclaration lines next) := by
        simp only [Index.add, kind, DocumentSymbol.ofDeclaration]
      rw [added]
      exact listed.put fun var => by simp [kind] at var
  | var =>
      have added : Index.add lines symbols next =
          if symbols.any (·.name == next.name) then symbols
          else Index.put symbols (.ofDeclaration lines next) := by
        simp only [Index.add, kind, DocumentSymbol.ofDeclaration]
      have known : symbols.any (·.name == next.name) = true ↔
          next.name ∈ declared.map Declaration.name := by
        rw [← listed.mem_names]
        simp
      rw [added]
      by_cases old : next.name ∈ declared.map Declaration.name
      · rw [if_pos (known.mpr old)]
        refine ⟨?_, fun symbol mem => listed.keeps mem fun _ => kind⟩
        rw [List.map_append, List.map_singleton, eraseDups_concat, if_pos old, listed.names]
      · rw [if_neg (mt known.mp old)]
        refine listed.put fun _ earlier mem same => old ?_
        exact same ▸ List.mem_map_of_mem mem

/-- Adding the declarations one by one lists them all. -/
theorem foldl_add_lists (lines : List Text.Line) (declared : List Declaration) :
    Lists lines declared (declared.foldl (Index.add lines) []) := by
  induction declared using List.reverseRecOn with
  | nil => exact ⟨rfl, nofun⟩
  | append_singleton declared next ih =>
      rw [List.foldl_append]
      exact ih.add

/-! ## The index of a text -/

/-- The declarations of a text, with the places of their keywords for lines. -/
def placed (maxCallDepth : Int) (text : String) : List Declaration :=
  Declaration.among
    (parse (parsingRoom maxCallDepth) (numbered (lex text).tokens)).statements

/-- The declarations of a text that is split are the placed ones. -/
theorem among_programOf {maxCallDepth : Int} {text : String} (split : (lex text).error? = none) :
    Declaration.among (programOf maxCallDepth text) =
        (placed maxCallDepth text).map (Declaration.mapLine (lineAt (lex text).tokens)) ∧
      Declaration.Stand (lex text).tokens (placed maxCallDepth text) :=
  parse_places (exists_endOfInput split)

/-- The index of an analyzed text exists exactly when its nesting fits the traversal. -/
theorem build_of_analyze {maxCallDepth : Int} {text : String} {analysis : Analysis}
    (analyzed : analyze maxCallDepth text = .ok analysis) :
    build maxCallDepth text =
      if Stmt.nestingAll analysis.statements < room then
        .ok (ofDeclarations text (Declaration.among analysis.statements) analysis.diagnostics)
      else .error .nestedTooDeeply := by
  unfold build
  simp only [analyzed, Declaration.inside_eq]
  split <;> simp_all

/-- **The index lists the declarations that were parsed.** They are the declarations
among the nodes of the statements, which stand at their keywords in the order of the
text. The names are listed in the order of their first declarations, and each symbol is
that of the declaration which defines its name. The diagnostics are those of a check,
and a text that is not split into tokens has no symbols. There is no index only where
there are no statements either, because the limit on calls is too large, and where the
statements are nested too deeply for the stack of the traversal. -/
theorem build_lists (maxCallDepth : Int) (text : String) :
    (∀ refused, analyze maxCallDepth text = .error refused →
      build maxCallDepth text = .error (.limit refused)) ∧
    ∀ analysis, analyze maxCallDepth text = .ok analysis →
      let declared := Declaration.among analysis.statements
      ((lex text).error? = none →
        declared = (placed maxCallDepth text).map (Declaration.mapLine (lineAt (lex text).tokens)) ∧
        Declaration.Stand (lex text).tokens (placed maxCallDepth text)) ∧
      (Stmt.nestingAll analysis.statements < room →
        ∃ index, build maxCallDepth text = .ok index ∧
          Lists (Text.lines text.toList) declared index.symbols ∧
          check maxCallDepth text = .ok index.diagnostics ∧
          ((lex text).error? ≠ none → index.symbols = [])) ∧
      (room ≤ Stmt.nestingAll analysis.statements →
        build maxCallDepth text = .error .nestedTooDeeply) := by
  refine ⟨?_, ?_⟩
  · intro refused analyzed
    simp only [build, analyzed]
  · intro analysis analyzed declared
    have built := build_of_analyze analyzed
    have cases := analyze_cases analyzed
    refine ⟨?_, ?_, ?_⟩
    · intro split
      -- the statements are those that the parser has kept
      rcases cases with ⟨error, found, -⟩ | ⟨-, rfl⟩
      · rw [split] at found
        cases found
      · exact among_programOf split
    · intro fits
      rw [if_pos fits] at built
      refine ⟨_, built, foldl_add_lists _ _, ?_, ?_⟩
      · rw [check, analyzed]
        rfl
      · -- a text that cannot be split into tokens has no statements
        intro stuck
        rcases cases with ⟨error, -, rfl⟩ | ⟨split, -⟩
        · rfl
        · exact absurd split stuck
    · intro deep
      rwa [if_neg (Nat.not_lt_of_le deep)] at built

/-- A document with a mistake in it, and with names that are declared again. -/
def recovered : String :=
  "def f(x) { if (x) { var a; } }\nvar f; ) var a;\ndef f(y, z) { var b; }"

/-- The last function and the first variables are listed, where their names stood
first. -/
theorem build_lists_recovered :
    ∃ index, build 255 recovered = .ok index ∧ index.diagnostics.length = 1 ∧
      index.symbols = [⟨"f", .function, 2, 4, ["y", "z"]⟩, ⟨"a", .var, 0, 24, []⟩,
        ⟨"b", .var, 2, 18, []⟩] ∧
      index.symbols.map DocumentSymbol.name = ["f", "a", "f", "a", "f", "b"].eraseDups := by
  have lexes : (lex recovered).error? = none := by decide +kernel
  have analyzed := @analyze_eq_ok 255 recovered lexes (by decide)
  have fits : Stmt.nestingAll (programOf 255 recovered) < room := by decide +kernel
  obtain ⟨index, built, lists, -⟩ := ((build_lists 255 recovered).2 _ analyzed).2.1 fits
  have names : (Declaration.among (programOf 255 recovered)).map Declaration.name =
      ["f", "a", "f", "a", "f", "b"] := by decide +kernel
  have same := build_of_analyze analyzed
  rw [if_pos fits, built] at same
  refine ⟨index, built, ?_, ?_, names ▸ lists.names⟩
  · rw [Except.ok.inj same]
    decide +kernel
  · rw [Except.ok.inj same]
    decide +kernel

/-- A declaration in many blocks. -/
def deepDocument : List Char :=
  List.replicate 1000 '{' ++ "var a;".toList ++ List.replicate 1000 '}'

/-- The tokens of the declaration in many blocks. -/
def deepTokens : List Token :=
  List.replicate 1000 ⟨.symbol .leftBrace, 1⟩ ++
    [⟨.keyword .varKw, 1⟩, ⟨.identifier "a", 1⟩, ⟨.symbol .semicolon, 1⟩] ++
    List.replicate 1000 ⟨.symbol .rightBrace, 1⟩ ++ [⟨.endOfInput, 1⟩]

/-- What the tokens of a text tell about its index, if they are nested too deeply. -/
theorem build_tooDeep {maxCallDepth : Int} {text : String} {tokens : List Token} {deeper : Nat}
    {declared : List Declaration} (split : lex text = ⟨tokens, none⟩)
    (allowed : nestingBudget maxCallDepth ≤ maxNesting)
    (accepted : (parse (parsingRoom maxCallDepth) tokens).errors.length = 0)
    (found : Declaration.inside deeper (parse (parsingRoom maxCallDepth) tokens).statements =
      some declared)
    (deep : Declaration.inside room (parse (parsingRoom maxCallDepth) tokens).statements = none) :
    ∃ analysis, analyze maxCallDepth text = .ok analysis ∧ analysis.diagnostics = [] ∧
      Declaration.among analysis.statements = declared ∧
      build maxCallDepth text = .error .nestedTooDeeply := by
  have analyzed := @analyze_eq_ok maxCallDepth text (congrArg Lexed.error? split) allowed
  rw [programOf, split] at analyzed
  refine ⟨_, analyzed, ?_, Declaration.among_eq_of_inside found, ?_⟩
  · exact List.map_eq_nil_iff.mpr (List.length_eq_zero_iff.mp accepted)
  · simp only [build, analyzed, deep]

set_option maxRecDepth 20000 in
/-- A document can be parsed without a mistake and still have no index. -/
theorem build_lists_tooDeep :
    ∃ analysis, analyze 255 (String.ofList deepDocument) = .ok analysis ∧
      analysis.diagnostics = [] ∧ Declaration.among analysis.statements = [⟨"a", .var, [], 1⟩] ∧
      build 255 (String.ofList deepDocument) = .error .nestedTooDeeply := by
  have split : lex (String.ofList deepDocument) = ⟨deepTokens, none⟩ :=
    (lex_ofList deepDocument).trans (by decide +kernel)
  have parsed : (parse (parsingRoom 255) deepTokens).errors.length = 0 ∧
      Declaration.inside 1001 (parse (parsingRoom 255) deepTokens).statements =
        some [⟨"a", .var, [], 1⟩] ∧
      Declaration.inside room (parse (parsingRoom 255) deepTokens).statements = none := by
    decide +kernel
  exact build_tooDeep split (by decide) parsed.1 parsed.2.1 parsed.2.2

end Index

end TernLang
