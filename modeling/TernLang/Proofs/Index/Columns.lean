import Mathlib.Data.List.Infix
import TernLang.Editor
import TernLang.Proofs.Index.Search
import TernLang.Proofs.Index.Symbols
import TernLang.Proofs.Token.Places

/-! # Where symbols point

A symbol has the line of its declaration, and the column that a search finds on that line
of the editor. **It points at the name that was declared exactly if the declaration is the
first one that the search can take for it** (`symbols_point`): nothing on the line reads
like it in front of it, and its keyword starts a word. So it does if only white space is
in front of the declaration. The lines of the editor and of the lexer are the same as far
as only line feeds end lines.

A string, or another declaration of the name, can mislead the search
(`symbols_point_elsewhere`).
-/

namespace TernLang

/-- On other lines the same declarations define their names. -/
theorem Declaration.Defines.of_mapLine {f : Nat → Nat} {defining : Declaration}
    {before behind : List Declaration}
    (defines : (defining.mapLine f).Defines (before.map (mapLine f)) (behind.map (mapLine f))) :
    defining.Defines before behind where
  last later mem := defines.last (later.mapLine f) (List.mem_map_of_mem mem)
  first var earlier mem := defines.first var (earlier.mapLine f) (List.mem_map_of_mem mem)

theorem SymbolKind.chars_word (kind : SymbolKind) :
    (TokenKind.keyword kind.word).chars = kind.keyword.toList := by
  cases kind <;> rfl

/-! ## Characters -/

/-- Every space of the lexer is one for the search as well. -/
theorem isBlank_of_isSpace {c : Char} (space : isSpace c = true) : Text.isBlank c = true := by
  rcases (IsBlank.cases (.inl space)) with rfl | rfl | rfl | rfl | rfl | rfl <;> rfl

theorem isBlank_of_isLineEnd {c : Char} (ends : Text.isLineEnd c = true) :
    Text.isBlank c = true := by
  simp only [Text.isLineEnd, Bool.or_eq_true, beq_iff_eq, or_assoc] at ends
  rcases ends with rfl | rfl | rfl | rfl | rfl | rfl | rfl | rfl | rfl | rfl <;> rfl

/-- In a name is no white space of any kind. -/
theorem not_blank_of_isNameChar {c : Char} (name : isNameChar c = true) :
    Text.isBlank c = false := by
  have zero : '0'.val.toNat = 48 := rfl
  have nine : '9'.val.toNat = 57 := rfl
  have upper : 'A'.val.toNat = 65 := rfl
  have upperEnd : 'Z'.val.toNat = 90 := rfl
  have lower : 'a'.val.toNat = 97 := rfl
  have lowerEnd : 'z'.val.toNat = 122 := rfl
  have ascii : 48 ≤ c.val.toNat ∧ c.val.toNat ≤ 122 := by
    unfold isNameChar Char.isAlphanum Char.isAlpha Char.isUpper Char.isLower Char.isDigit at name
    simp only [Bool.or_eq_true, Bool.and_eq_true, decide_eq_true_eq, ge_iff_le, beq_iff_eq,
      UInt32.le_iff_toNat_le] at name
    rcases name with ((bounds | bounds) | bounds) | rfl
    · omega
    · omega
    · omega
    · decide
  have code : c.toNat = c.val.toNat := rfl
  simp only [Text.isBlank, Text.blanks, Text.Ranges.contains]
  rw [if_neg (by omega), if_neg (by omega), if_pos (by omega)]
  simp only [decide_eq_false_iff_not]
  omega

theorem not_isLineEnd_of_isNameChar {c : Char} (name : isNameChar c = true) :
    Text.isLineEnd c = false := by
  rw [← Bool.not_eq_true]
  intro ends
  have blank := isBlank_of_isLineEnd ends
  rw [not_blank_of_isNameChar name] at blank
  cases blank

/-- No space of the lexer is part of a word. -/
theorem not_isWordChar_of_isSpace {c : Char} (space : isSpace c = true) :
    Text.isWordChar c = false := by
  rcases (IsBlank.cases (.inl space)) with rfl | rfl | rfl | rfl | rfl | rfl <;> decide

namespace Editor

/-- The characters of a line in a range that starts and ends on it. -/
def Range.select (range : Range) (line : List Char) : List Char :=
  (line.take range.endChar).drop range.startChar

/-- A symbol at the column of its name selects it. -/
theorem select_symbolRange {symbol : DocumentSymbol} {line front rest : List Char}
    (column : symbol.column = front.length) (parts : line = front ++ (symbol.name.toList ++ rest)) :
    (symbolRange symbol).select line = symbol.name.toList := by
  have stop : symbol.column + symbol.name.length =
      (front ++ symbol.name.toList).length := by
    rw [column, List.length_append, String.length_toList]
  rw [Range.select, symbolRange, stop, column, parts, ← List.append_assoc, List.take_left,
    List.drop_left]

end Editor

namespace Index

variable {maxCallDepth : Int} {text : String} {index : DocumentIndex} {symbol : DocumentSymbol}
  {defining : Declaration} {number : Nat} {token : Token}

/-- The symbol is that of a declaration which defines its name. Its line is the number of
its keyword among the tokens. -/
def DefinedBy (maxCallDepth : Int) (text : String) (symbol : DocumentSymbol)
    (defining : Declaration) : Prop :=
  ∃ before behind, placed maxCallDepth text = before ++ defining :: behind ∧
    defining.Defines before behind ∧
    symbol = .ofDeclaration (Text.lines text.toList) (defining.mapLine (lineAt (lex text).tokens))

/-- The symbol has the line and the column of the token behind a keyword with a number: the
column counts the characters behind the last line feed. -/
def PointsAt (text : String) (number : Nat) (symbol : DocumentSymbol) : Prop :=
  ∃ token front behind, Stands text.toList (lex text).tokens (number + 1) token front behind ∧
    symbol.line = front.count '\n' ∧ symbol.column = (Text.lastLine front).length

/-! ## The declaration of a symbol -/

/-- An index is that of the declarations of the analyzed statements. -/
theorem exists_of_build (built : build maxCallDepth text = .ok index) :
    ∃ analysis, analyze maxCallDepth text = .ok analysis ∧
      index = ofDeclarations text (Declaration.among analysis.statements) analysis.diagnostics := by
  cases analyzed : analyze maxCallDepth text with
  | error refused => simp [build, analyzed] at built
  | ok analysis =>
      rw [build_of_analyze analyzed] at built
      split at built
      · exact ⟨analysis, rfl, (Except.ok.inj built).symm⟩
      · cases built

/-- Every symbol has a declaration, and then the text is split. -/
theorem exists_definedBy (built : build maxCallDepth text = .ok index)
    (mem : symbol ∈ index.symbols) :
    (lex text).error? = none ∧ ∃ defining, DefinedBy maxCallDepth text symbol defining := by
  obtain ⟨analysis, analyzed, rfl⟩ := exists_of_build built
  obtain ⟨before, defining, behind, declared, defines, same⟩ :=
    (foldl_add_lists (Text.lines text.toList) _).defined symbol mem
  rcases analyze_cases analyzed with ⟨error, -, rfl⟩ | ⟨split, rfl⟩
  · simp at declared
  · refine ⟨split, ?_⟩
    have places := (@among_programOf maxCallDepth text split).1
    obtain ⟨first, others, parts, rfl, more⟩ :=
      List.map_eq_append_iff.mp (places.symm.trans declared)
    obtain ⟨defining, behind, rfl, rfl, rfl⟩ := List.map_eq_cons_iff.mp more
    exact ⟨defining, first, behind, parts, .of_mapLine defines, same⟩

/-- The tokens of a text stand in it. -/
theorem exists_stands (split : (lex text).error? = none)
    (found : (lex text).tokens[number]? = some token) (more : token.kind ≠ .endOfInput) :
    ∃ front behind, Stands text.toList (lex text).tokens number token front behind := by
  have lexed : lex text = ⟨(lex text).tokens, none⟩ := by rw [← split]
  obtain ⟨body, scans, tokens⟩ := lex_eq_tokens_iff.mp lexed
  rw [tokens] at found ⊢
  have inside : number < body.length := by
    have bound := (List.getElem?_eq_some_iff.mp found).1
    rw [List.length_append, List.length_singleton] at bound
    by_contra last
    have same : number = body.length := by omega
    rw [same, List.getElem?_concat_length] at found
    exact more (congrArg Token.kind (Option.some.inj found)).symm
  rw [List.getElem?_append_left inside] at found
  obtain ⟨front, behind, stands⟩ := scans.exists_stands found
  refine ⟨front, behind, { stands with found := ?_, scans := ?_ }⟩
  · rw [List.getElem?_append_left inside, found]
  · rw [List.take_append_of_le_length (Nat.le_of_lt inside)]
    exact stands.scans

/-- The declaration of a symbol stands on one line of a text: behind `front` its keyword,
white space and its name, and `rest` behind it. -/
structure OnLine (text : String) (number : Nat) (symbol : DocumentSymbol)
    (front gap rest : List Char) : Prop where
  keyword : Stands text.toList (lex text).tokens number
    ⟨.keyword symbol.kind.word, symbol.line + 1⟩ front (gap ++ (symbol.name.toList ++ rest))
  name : Stands text.toList (lex text).tokens (number + 1)
    ⟨.identifier symbol.name, symbol.line + 1⟩ (front ++ (symbol.kind.keyword.toList ++ gap)) rest
  space : gap ≠ []
  spaces : gap.all isSpace = true

/-- The line of the declaration, up to where an editor ends it. -/
def editorLine (symbol : DocumentSymbol) (front gap rest : List Char) : List Char :=
  Text.lastLine front ++ (symbol.kind.keyword.toList ++
    (gap ++ (symbol.name.toList ++ rest.takeWhile fun c => !Text.isLineEnd c)))

/-- The keyword and the name of a declaration stand in the text, and if they are on one
line, then only white space is between them. -/
theorem DefinedBy.exists_onLine (split : (lex text).error? = none)
    (defined : DefinedBy maxCallDepth text symbol defining)
    (oneLine : lineAt (lex text).tokens defining.line =
      lineAt (lex text).tokens (defining.line + 1)) :
    ∃ front gap rest, OnLine text defining.line symbol front gap rest := by
  obtain ⟨before, later, parts, -, rfl⟩ := defined
  have mem : defining ∈ placed maxCallDepth text := by simp [parts]
  obtain ⟨-, keywords, names⟩ := (@among_programOf maxCallDepth text split).2
  have keyword := keywords defining mem
  obtain ⟨⟨kind, line⟩, found, rfl⟩ := Option.map_eq_some_iff.mp (names defining mem)
  have sameLine : lineAt (lex text).tokens defining.line = line := by
    rw [oneLine, lineAt, found]
    rfl
  obtain ⟨front, behind, stands⟩ := exists_stands split keyword (by simp)
  obtain ⟨front', rest, stands'⟩ := exists_stands split found (by simp)
  obtain ⟨gap, rfl, space, spaces⟩ := stands.spaced stands' rfl rfl sameLine
  -- behind the keyword are the gap, the name and what is behind the name
  have texts := stands.parts.symm.trans stands'.parts
  rw [List.append_assoc, List.append_assoc] at texts
  obtain rfl := List.append_cancel_left (List.append_cancel_left texts)
  have counted : lineAt (lex text).tokens defining.line = 1 + front.count '\n' := stands.line
  have placed : lineAt (lex text).tokens defining.line - 1 + 1 = line := by omega
  replace stands' : Stands text.toList (lex text).tokens (defining.line + 1)
      ⟨.identifier defining.name, line⟩ (front ++ (defining.kind.keyword.toList ++ gap)) rest := by
    rw [← defining.kind.chars_word]
    exact stands'
  refine ⟨front, gap, rest, ?_, ?_, space, spaces⟩
  · show Stands _ _ _ ⟨_, lineAt (lex text).tokens defining.line - 1 + 1⟩ _ _
    rw [placed, ← sameLine]
    exact stands
  · show Stands _ _ _ ⟨_, lineAt (lex text).tokens defining.line - 1 + 1⟩ _ _
    rw [placed]
    exact stands'

/-- A keyword does not end with white space. -/
theorem stops_keyword (kind : SymbolKind) (front : List Char) :
    Stops Text.isBlank (front ++ kind.keyword.toList).reverse := by
  rw [List.reverse_append]
  cases kind <;> exact stops_cons.mpr rfl

/-- Both keywords begin with a character that is no space. -/
theorem exists_keyword (kind : SymbolKind) :
    ∃ c more, kind.keyword.toList = c :: more ∧ isSpace c = false := by
  cases kind <;> exact ⟨_, _, rfl, rfl⟩

namespace OnLine

variable {front gap rest : List Char} {line : Text.Line}

theorem word (onLine : OnLine text number symbol front gap rest) :
    isWord symbol.name.toList = true :=
  onLine.name.longest.valid.1

theorem isNameChar (onLine : OnLine text number symbol front gap rest) :
    ∀ c ∈ symbol.name.toList, TernLang.isNameChar c = true :=
  List.all_eq_true.mp (all_isNameChar_of_isWord onLine.word)

theorem exists_cons (onLine : OnLine text number symbol front gap rest) :
    ∃ c more, symbol.name.toList = c :: more := by
  refine List.exists_cons_of_ne_nil fun none => ?_
  have word := onLine.word
  rw [none] at word
  cases word

theorem line_eq (onLine : OnLine text number symbol front gap rest) :
    symbol.line = (front ++ (symbol.kind.keyword.toList ++ gap)).count '\n' := by
  have line := onLine.name.line
  rw [Nat.add_comm] at line
  exact Nat.add_left_cancel line

/-- The keyword and the blanks behind it stand on the last line of what is in front of the
name. -/
theorem lastLine_eq (onLine : OnLine text number symbol front gap rest) :
    Text.lastLine (front ++ (symbol.kind.keyword.toList ++ gap)) =
      Text.lastLine front ++ (symbol.kind.keyword.toList ++ gap) := by
  refine Text.lastLine_append front fun feed => ?_
  rcases List.mem_append.mp feed with inside | inside
  · revert inside
    cases symbol.kind <;> decide
  · exact absurd (List.all_eq_true.mp onLine.spaces _ inside) (by decide)

/-- What the symbol has to be to point at the declaration. -/
theorem pointsAt_iff (onLine : OnLine text number symbol front gap rest) :
    PointsAt text number symbol ↔ symbol.column =
      (Text.lastLine front).length + (symbol.kind.keyword.toList.length + gap.length) := by
  rw [← List.length_append, ← List.length_append, ← onLine.lastLine_eq]
  constructor
  · rintro ⟨_, front', _, stands, -, column⟩
    rwa [stands.unique onLine.name] at column
  · exact fun column => ⟨_, _, _, onLine.name, onLine.line_eq, column⟩

/-- The line of the editor, if only line feeds end lines in front of the name. -/
theorem exists_line (onLine : OnLine text number symbol front gap rest)
    (feeds : Text.feedsOnly (front ++ (symbol.kind.keyword.toList ++ gap)) = true) :
    ∃ line, (Text.lines text.toList)[symbol.line]? = some line ∧
      line.text = editorLine symbol front gap rest := by
  have run : ∀ c ∈ symbol.name.toList, (!Text.isLineEnd c) = true := by
    intro c mem
    rw [not_isLineEnd_of_isNameChar (onLine.isNameChar c mem), Bool.not_false]
  obtain ⟨c, more, chars⟩ := onLine.exists_cons
  have ink : Text.isLineEnd c = false := by simpa using run c (by simp [chars])
  have taken : c :: (more ++ rest).takeWhile (fun d => !Text.isLineEnd d) =
      symbol.name.toList ++ rest.takeWhile fun d => !Text.isLineEnd d := by
    rw [← List.takeWhile_append_of_pos run, chars, List.cons_append,
      List.takeWhile_cons_of_pos (by simp [ink])]
  have parts : text.toList = (front ++ (symbol.kind.keyword.toList ++ gap)) ++
      c :: (more ++ rest) := by
    rw [← List.cons_append, ← chars]
    exact onLine.name.parts
  have found := @Text.lines_getElem? c _ (more ++ rest) feeds ink
  rw [← parts, ← onLine.line_eq, onLine.lastLine_eq, taken] at found
  obtain ⟨line, here, same⟩ := Option.map_eq_some_iff.mp found
  exact ⟨line, here, by simpa [editorLine] using same⟩

theorem stops_name (onLine : OnLine text number symbol front gap rest) :
    Stops Text.isBlank symbol.name.toList := by
  intro c mem
  exact not_blank_of_isNameChar (onLine.isNameChar c (List.mem_of_mem_head? mem))

/-- On its line the declaration is followed by no character of a word. -/
theorem whole (onLine : OnLine text number symbol front gap rest)
    (split : (lex text).error? = none) :
    Stops Text.isWordChar (rest.takeWhile fun c => !Text.isLineEnd c) := by
  have stops : Stops Text.isWordChar rest := onLine.name.stops_word rfl (by rwa [← lex_eq_lexAt])
  intro c mem
  refine stops c ?_
  cases rest with
  | nil => exact mem
  | cons d more =>
      rw [List.takeWhile_cons] at mem
      split at mem
      · exact mem
      · cases mem

theorem all_isBlank (onLine : OnLine text number symbol front gap rest) :
    gap.all Text.isBlank = true := by
  refine List.all_eq_true.mpr fun c mem => ?_
  exact isBlank_of_isSpace (List.all_eq_true.mp onLine.spaces c mem)

/-- The search finds the declaration exactly if nothing in front of it reads like it. -/
theorem pointsAt_iff_first (onLine : OnLine text number symbol front gap rest)
    (split : (lex text).error? = none)
    (found : (Text.lines text.toList)[symbol.line]? = some line)
    (parts : line.text = editorLine symbol front gap rest)
    (column : symbol.column =
      Index.column (Text.lines text.toList) symbol.line symbol.kind symbol.name) :
    PointsAt text number symbol ↔
      OccursFirst symbol.kind.keyword.toList symbol.name.toList line.text
        (Text.lastLine front) := by
  have some : symbol.name.toList ≠ [] := by
    obtain ⟨c, more, chars⟩ := onLine.exists_cons
    rw [chars]
    exact List.cons_ne_nil c more
  rw [Index.column, found] at column
  rw [onLine.pointsAt_iff, column]
  exact getD_findName_eq_iff some onLine.stops_name (stops_keyword symbol.kind) parts
    onLine.space onLine.all_isBlank (onLine.whole split)

/-- If only white space is in front of the declaration, then it is the first one on its
line. -/
theorem first_of_spaces (onLine : OnLine text number symbol front gap rest)
    (split : (lex text).error? = none)
    (parts : line.text = editorLine symbol front gap rest)
    (spaces : (Text.lastLine front).all isSpace = true) :
    OccursFirst symbol.kind.keyword.toList symbol.name.toList line.text
      (Text.lastLine front) := by
  obtain ⟨c, more, start, ink⟩ := exists_keyword symbol.kind
  have opens : ∀ c ∈ (Text.lastLine front).getLast?, Text.isWordChar c = false := by
    intro c mem
    exact not_isWordChar_of_isSpace (List.all_eq_true.mp spaces c (List.mem_of_getLast? mem))
  have occurs : Occurs _ _ line.text _ _ _ :=
    ⟨parts, opens, onLine.space, onLine.all_isBlank, onLine.whole split⟩
  exact occurs.first_of_spaces start ink spaces

end OnLine

/-- The symbol of a name is the one that is found for it. -/
theorem find?_name {symbols : List DocumentSymbol}
    (distinct : (symbols.map DocumentSymbol.name).Nodup) (mem : symbol ∈ symbols) :
    symbols.find? (·.name == symbol.name) = some symbol := by
  induction symbols with
  | nil => cases mem
  | cons first others ih =>
      obtain ⟨fresh, distinct⟩ := List.nodup_cons.mp distinct
      rcases List.mem_cons.mp mem with rfl | later
      · exact List.find?_cons_of_pos (beq_self_eq_true _)
      · have differ : first.name ≠ symbol.name :=
          fun same => fresh (same ▸ List.mem_map_of_mem later)
        rw [List.find?_cons_of_neg (by simpa using differ), ih distinct later]

/-- The help on the name of a symbol shows the place of the symbol, unless the word has
another meaning. -/
theorem describe_symbol (built : build maxCallDepth text = .ok index)
    (mem : symbol ∈ index.symbols) (plain : builtinHelp.lookup symbol.name = none)
    (free : methodHelp.lookup symbol.name = none) :
    describe symbol.name index.symbols =
      some s!"{symbol.signature} (defined at {symbol.line + 1}:{symbol.column + 1})" := by
  obtain ⟨analysis, -, rfl⟩ := exists_of_build built
  have names := (foldl_add_lists (Text.lines text.toList)
    (Declaration.among analysis.statements)).names
  have found := find?_name (names ▸ eraseDups_nodup _) mem
  simp only [describe, plain, free]
  rw [found]

/-! ## The place of a symbol -/

/-- **Symbols point at the first place that reads like their declaration.** Each symbol is
that of a declaration which defines its name. Let the keyword and the name of it stand on
one line, and let only line feeds end lines in front of the name. Then the editor's line
of the symbol is that line, and the symbol points at the name exactly if no other place
in the line, up to there, reads like the declaration, and the keyword starts a word. So
it does if only white space is in front of the keyword. And if it does, the range of the
symbol is its name. -/
theorem symbols_point (built : build maxCallDepth text = .ok index)
    (mem : symbol ∈ index.symbols) :
    (builtinHelp.lookup symbol.name = none → methodHelp.lookup symbol.name = none →
      describe symbol.name index.symbols =
        some s!"{symbol.signature} (defined at {symbol.line + 1}:{symbol.column + 1})") ∧
    ∃ defining, DefinedBy maxCallDepth text symbol defining ∧
      (lineAt (lex text).tokens defining.line = lineAt (lex text).tokens (defining.line + 1) →
        ∃ front gap rest, OnLine text defining.line symbol front gap rest ∧
          (Text.feedsOnly (front ++ (symbol.kind.keyword.toList ++ gap)) = true →
            ∃ line, (Text.lines text.toList)[symbol.line]? = some line ∧
              line.text = editorLine symbol front gap rest ∧
              (PointsAt text defining.line symbol ↔
                OccursFirst symbol.kind.keyword.toList symbol.name.toList line.text
                  (Text.lastLine front)) ∧
              ((Text.lastLine front).all isSpace = true → PointsAt text defining.line symbol) ∧
              (PointsAt text defining.line symbol →
                (Editor.symbolRange symbol).select line.text = symbol.name.toList))) := by
  refine ⟨describe_symbol built mem, ?_⟩
  obtain ⟨split, defining, defined⟩ := exists_definedBy built mem
  refine ⟨defining, defined, fun oneLine => ?_⟩
  obtain ⟨front, gap, rest, onLine⟩ := defined.exists_onLine split oneLine
  refine ⟨front, gap, rest, onLine, fun feeds => ?_⟩
  obtain ⟨line, found, parts⟩ := onLine.exists_line feeds
  have column : symbol.column =
      Index.column (Text.lines text.toList) symbol.line symbol.kind symbol.name := by
    obtain ⟨_, _, _, _, rfl⟩ := defined
    rfl
  have first := onLine.pointsAt_iff_first split found parts column
  refine ⟨line, found, parts, first, ?_, ?_⟩
  · exact fun spaces => first.mpr (onLine.first_of_spaces split parts spaces)
  · intro points
    -- the column counts what is in front of the name on the line
    have place := onLine.pointsAt_iff.mp points
    rw [← List.length_append, ← List.length_append] at place
    have name : line.text = (Text.lastLine front ++ (symbol.kind.keyword.toList ++ gap)) ++
        (symbol.name.toList ++ rest.takeWhile fun c => !Text.isLineEnd c) := by
      rw [parts, editorLine, List.append_assoc, List.append_assoc]
    exact Editor.select_symbolRange place name

/-- What can be in front of a token: so many tokens are in it, and the token comes behind
it. -/
def fronts (source : List Char) (number : Nat) (kind : TokenKind) : List (List Char) :=
  source.inits.filter fun front =>
    (lexAt 1 front).tokens.length == number + 1 && (front ++ kind.chars).isPrefixOf source

/-- The text in front of a token is one the search for its word comes by. -/
theorem mem_fronts {source : List Char} {tokens : List Token} {front behind : List Char}
    (stands : Stands source tokens number token front behind) :
    front ∈ fronts source number token.kind := by
  have comes : (front ++ token.kind.chars).isPrefixOf source = true := by
    refine List.isPrefixOf_iff_prefix.mpr ⟨behind, ?_⟩
    rw [stands.parts, List.append_assoc]
  rw [fronts, List.mem_filter, List.mem_inits, stands.lexAt_front, comes]
  exact ⟨stands.scans.front, by simp⟩

/-- A symbol that points at a token has the column of a place of it. -/
theorem PointsAt.column_mem (points : PointsAt text number symbol)
    (found : (lex text).tokens[number + 1]? = some token) :
    symbol.column ∈ (fronts text.toList (number + 1) token.kind).map fun front =>
      (Text.lastLine front).length := by
  obtain ⟨_, front, behind, stands, -, column⟩ := points
  cases found.symm.trans stands.found
  rw [column]
  exact List.mem_map_of_mem (mem_fronts stands)

def secondLine : String :=
  "def f() {}\r\n\tvar x = f;"

/-- The symbol on the second line points at its name. -/
theorem symbols_point_secondLine :
    ∃ index, build 255 secondLine = .ok index ∧ ⟨"x", .var, 1, 5, []⟩ ∈ index.symbols ∧
      PointsAt secondLine 6 ⟨"x", .var, 1, 5, []⟩ ∧
      describe "x" index.symbols = some "var x (defined at 2:6)" := by
  have built : build 255 secondLine =
      .ok ⟨[⟨"f", .function, 0, 4, []⟩, ⟨"x", .var, 1, 5, []⟩], []⟩ := by
    decide +kernel
  have mem : (⟨"x", .var, 1, 5, []⟩ : DocumentSymbol) ∈
      [⟨"f", .function, 0, 4, []⟩, ⟨"x", .var, 1, 5, []⟩] := by simp
  obtain ⟨help, defining, defined, oneLine⟩ := symbols_point built mem
  have found : placed 255 secondLine = [⟨"f", .function, [], 0⟩, ⟨"x", .var, [], 6⟩] := by
    decide +kernel
  obtain rfl : defining = ⟨"x", .var, [], 6⟩ := by
    obtain ⟨before, behind, parts, -, same⟩ := defined
    have inside : defining ∈ [⟨"f", .function, [], 0⟩, ⟨"x", .var, [], 6⟩] := by
      rw [← found, parts]
      simp
    have name : "x" = defining.name := congrArg DocumentSymbol.name same
    rcases List.mem_cons.mp inside with rfl | last
    · exact absurd name (by decide)
    · exact List.mem_singleton.mp last
  obtain ⟨front, gap, rest, onLine, points⟩ := oneLine (by decide +kernel)
  have inFront : fronts secondLine.toList 6 (.keyword .varKw) = ["def f() {}\r\n\t".toList] := by
    decide +kernel
  have before : fronts secondLine.toList 7 (.identifier "x") =
      ["def f() {}\r\n\tvar ".toList] := by
    decide +kernel
  have frontIs := inFront ▸ mem_fronts onLine.keyword
  have nameIs := before ▸ mem_fronts onLine.name
  obtain ⟨line, -, -, -, spaces, -⟩ := points (by
    rw [List.mem_singleton.mp nameIs]
    decide +kernel)
  refine ⟨_, built, mem, spaces ?_, help (by decide) (by decide)⟩
  rw [List.mem_singleton.mp frontIs]
  decide +kernel

/-- A text with a string and a declaration that read like later declarations. -/
def mentioned : String :=
  "print \"var x\"; var x; def f() {} def f(y) {}"

/-- A symbol can point at a string, and at a declaration that does not define it. -/
theorem symbols_point_elsewhere :
    ∃ index, build 255 mentioned = .ok index ∧ index.diagnostics = [] ∧
      ∀ symbol ∈ index.symbols, ∃ defining, DefinedBy 255 mentioned symbol defining ∧
        lineAt (lex mentioned).tokens defining.line =
          lineAt (lex mentioned).tokens (defining.line + 1) ∧
        ¬ PointsAt mentioned defining.line symbol := by
  have built : build 255 mentioned =
      .ok ⟨[⟨"x", .var, 0, 11, []⟩, ⟨"f", .function, 0, 26, ["y"]⟩], []⟩ := by
    decide +kernel
  have found : placed 255 mentioned =
      [⟨"x", .var, [], 3⟩, ⟨"f", .function, [], 6⟩, ⟨"f", .function, ["y"], 12⟩] := by
    decide +kernel
  have name : (lex mentioned).tokens[4]? = some ⟨.identifier "x", 1⟩ := by decide +kernel
  have name' : (lex mentioned).tokens[13]? = some ⟨.identifier "f", 1⟩ := by decide +kernel
  refine ⟨_, built, rfl, List.forall_mem_cons.mpr ⟨?_, List.forall_mem_singleton.mpr ?_⟩⟩
  · refine ⟨⟨"x", .var, [], 3⟩, ⟨[], _, found, ?_, by decide +kernel⟩, by decide +kernel, ?_⟩
    · exact ⟨by simp, nofun⟩
    · exact fun points => absurd (points.column_mem name) (by decide +kernel)
  · refine ⟨⟨"f", .function, ["y"], 12⟩, ⟨[_, _], [], found, ?_, by decide +kernel⟩,
      by decide +kernel, ?_⟩
    · exact ⟨nofun, nofun⟩
    · exact fun points => absurd (points.column_mem name') (by decide +kernel)

end Index

end TernLang
