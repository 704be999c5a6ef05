import TernLang.Proofs.Index.Symbols
import TernLang.Proofs.Parser.Nesting

/-! # Which documents have an index

A document is parsed with room that grows with the limit on calls. The traversal for the
index has frames for a fixed nesting, and one frame takes one level. **A document has an
index exactly if its statements are nested less deeply than that**, whatever the limit is
(`build_survives`). So it has one if its tokens can open fewer levels. One and a half
times the room of the parser would be frames enough for all documents.

As it is, a document without a mistake can be nested too deeply under every limit
(`build_loops`).
-/

namespace TernLang

namespace Index

variable {maxCallDepth : Int} {text : String}

/-- Under a limit that is allowed every text is analyzed, and so is one with a lexical
error under any limit. -/
theorem exists_analyze
    (allowed : nestingBudget maxCallDepth ≤ maxNesting ∨ (lex text).error? ≠ none) :
    ∃ analysis, analyze maxCallDepth text = .ok analysis := by
  cases split : (lex text).error? with
  | some error => exact ⟨_, by rw [analyze, split]⟩
  | none => exact ⟨_, analyze_eq_ok split (allowed.resolve_right fun some => some split)⟩

/-- **Which documents have an index.** There is none if the text is split into tokens but
the host refuses the limit. Else the text is analyzed, and there is an index exactly if its
statements are nested less deeply than the traversal has frames; if not, that is what the
failure says. Statements are nested at most one and a half times as deeply as the parser
has room, so that with more frames than this the traversal would find the declarations of
every document. And they are nested at most as deeply as the tokens can open levels. -/
theorem build_survives (maxCallDepth : Int) (text : String) :
    ((lex text).error? = none → maxNesting < nestingBudget maxCallDepth →
      build maxCallDepth text = .error (.limit ⟨maxCallDepth⟩)) ∧
    (nestingBudget maxCallDepth ≤ maxNesting ∨ (lex text).error? ≠ none →
      ∃ analysis, analyze maxCallDepth text = .ok analysis ∧
        ((∃ index, build maxCallDepth text = .ok index) ↔
          Stmt.nestingAll analysis.statements < room) ∧
        (room ≤ Stmt.nestingAll analysis.statements →
          build maxCallDepth text = .error .nestedTooDeeply) ∧
        2 * Stmt.nestingAll analysis.statements ≤ 3 * parsingRoom maxCallDepth ∧
        (∀ frames, 3 * parsingRoom maxCallDepth < 2 * frames →
          Declaration.inside frames analysis.statements =
            some (Declaration.among analysis.statements)) ∧
        (Token.levelsAll (lex text).tokens < room →
          ∃ index, build maxCallDepth text = .ok index)) := by
  refine ⟨fun split refused => ?_, fun allowed => ?_⟩
  · have analyzed : analyze maxCallDepth text = .error ⟨maxCallDepth⟩ := by
      simp only [analyze, split, if_pos refused]
    simp only [build, analyzed]
  · obtain ⟨analysis, analyzed⟩ := exists_analyze allowed
    have built := build_of_analyze analyzed
    -- the parser runs out of room before statements are nested deeper
    have nesting : 2 * Stmt.nestingAll analysis.statements ≤ 3 * parsingRoom maxCallDepth ∧
        Stmt.nestingAll analysis.statements ≤ Token.levelsAll (lex text).tokens := by
      rcases analyze_cases analyzed with ⟨error, -, rfl⟩ | ⟨-, rfl⟩
      · exact ⟨Nat.zero_le _, Nat.zero_le _⟩
      · exact parse_nesting _ _
    have indexed : (∃ index, build maxCallDepth text = .ok index) ↔
        Stmt.nestingAll analysis.statements < room := by
      rw [built]
      by_cases fits : Stmt.nestingAll analysis.statements < room <;> simp [fits]
    refine ⟨analysis, analyzed, indexed, fun deep => ?_, nesting.1, fun frames enough => ?_, ?_⟩
    · rw [built, if_neg (Nat.not_lt_of_le deep)]
    · rw [Declaration.inside_eq, if_pos (by omega)]
    · exact fun few => indexed.mpr (Nat.lt_of_le_of_lt nesting.2 few)

/-- A text with a mistake, whose tokens open a few levels. -/
def stepped : String :=
  "def f(x) { for (;;) { while (x) { var a; } } } )"

/-- The text has an index. -/
theorem build_survives_stepped : ∃ index, build 255 stepped = .ok index := by
  obtain ⟨analysis, -, -, -, -, -, indexed⟩ :=
    (build_survives 255 stepped).2 (.inl (by decide))
  exact indexed (by decide +kernel)

/-- A declaration in many loops. -/
def loops : List Char :=
  (List.replicate 480 "for(;;)".toList).flatten ++ "{var a;}".toList

/-- The tokens of the declaration in many loops. -/
def loopTokens : List Token :=
  (List.replicate 480 [⟨.keyword .forKw, 1⟩, ⟨.symbol .leftParen, 1⟩, ⟨.symbol .semicolon, 1⟩,
    ⟨.symbol .semicolon, 1⟩, ⟨.symbol .rightParen, 1⟩]).flatten ++
    [⟨.symbol .leftBrace, 1⟩, ⟨.keyword .varKw, 1⟩, ⟨.identifier "a", 1⟩, ⟨.symbol .semicolon, 1⟩,
      ⟨.symbol .rightBrace, 1⟩, ⟨.endOfInput, 1⟩]

set_option maxRecDepth 20000 in
/-- Under every limit the loops are parsed without a mistake, and have no index. -/
theorem build_loops (allowed : nestingBudget maxCallDepth ≤ maxNesting) :
    ∃ analysis, analyze maxCallDepth (String.ofList loops) = .ok analysis ∧
      analysis.diagnostics = [] ∧ Declaration.among analysis.statements = [⟨"a", .var, [], 1⟩] ∧
      build maxCallDepth (String.ofList loops) = .error .nestedTooDeeply := by
  have split : lex (String.ofList loops) = ⟨loopTokens, none⟩ :=
    (lex_ofList loops).trans (by decide +kernel)
  have least : (parse 992 loopTokens).errors.length = 0 ∧
      Declaration.inside 1500 (parse 992 loopTokens).statements = some [⟨"a", .var, [], 1⟩] ∧
      Declaration.inside room (parse 992 loopTokens).statements = none := by
    decide +kernel
  -- more room than the least changes nothing
  have same : parse (parsingRoom maxCallDepth) loopTokens = parse 992 loopTokens := by
    have base := baseNesting_le_nestingBudget maxCallDepth
    have parts : parsingRoom maxCallDepth = parsingRoom maxCallDepth - 992 + 992 := by
      simp only [parsingRoom, baseNesting] at base ⊢
      omega
    rw [parts]
    refine Parse.parse_extra_room (by decide) loopTokens (fun error noted => ?_) _
    rw [List.length_eq_zero_iff.mp least.1] at noted
    cases noted
  rw [← same] at least
  exact build_tooDeep split allowed least.1 least.2.1 least.2.2

/-- A document can have no mistake and still no index. -/
theorem build_survives_loops :
    ∃ analysis, analyze 255 (String.ofList loops) = .ok analysis ∧ analysis.diagnostics = [] ∧
      build 255 (String.ofList loops) = .error .nestedTooDeeply := by
  obtain ⟨analysis, analyzed, clean, -, fails⟩ := @build_loops 255 (by decide)
  exact ⟨analysis, analyzed, clean, fails⟩

end Index

end TernLang
