import TernLang.Proofs.Grammar.Neighbours
import TernLang.Proofs.Index.Columns
import TernLang.Proofs.Problems

/-! # Words and names

An editor asks for the word at a position. **The word is the run of letters, digits and
underscores, in any script, that touches the position**, and there is none if nothing of
the kind touches it (`Editor.wordAt_eq_some_iff`). The lexer has names of its own, which are
ASCII. **In a text without mistakes, the word at a name is that name** (`Editor.words_agree`):
behind a name comes no letter of any script, because the lexer would be stuck there, and in
front of it comes none either. A number could be there, as in `5x`, but the grammar has no
name next to a number.
-/

namespace TernLang

/-! ## In front of a name -/

theorem TokenKind.isNumber_of_initial {kind : TokenKind} (sort : kind.initial = .digit) :
    kind.isNumber = true := by
  obtain ⟨whole, fraction, rfl⟩ := kind.eq_number sort
  rfl

/-- Symbols are no characters of words. -/
theorem not_isWordChar_of_symbol {c : Char} (symbol : initial c = .symbol) :
    Text.isWordChar c = false := by
  rw [← Bool.not_eq_true]
  intro word
  cases name : isNameChar c with
  | false =>
      have none := (initial_of_isWordChar word name).1
      rw [symbol] at none
      cases none
  | true =>
      -- a character of names is a digit or starts a name
      simp only [isNameChar, Char.isAlphanum, Bool.or_eq_true] at name
      rcases name with (letter | digit) | underscore
      · rw [initial_of_isNameStart (by simp [isNameStart, letter])] at symbol
        cases symbol
      · rw [initial_of_isDigit digit] at symbol
        cases symbol
      · rw [initial_of_isNameStart (by simp [isNameStart, underscore])] at symbol
        cases symbol

theorem stops_front {p : Char → Bool} {first rest : List Char} (front : first <+: rest)
    (stops : Stops p rest) : Stops p first := by
  intro c mem
  obtain ⟨more, rfl⟩ := List.head?_eq_some_iff.mp mem
  obtain ⟨others, rfl⟩ := front
  exact stops c rfl

theorem stops_reverse_concat {p : Char → Bool} {front : List Char} {c : Char}
    (stop : p c = false) : Stops p (front ++ [c]).reverse := by
  rw [List.reverse_append]
  exact stops_cons.mpr stop

/-- **In front of a name is no character of a word**, unless it ends a number. -/
theorem Scans.opens {source front rest : List Char} {tokens : List Token} {c : Char}
    (scans : Scans source front tokens) (parts : source = front ++ c :: rest)
    (start : isNameStart c = true) :
    Stops Text.isWordChar front.reverse ∨
      ∃ token ∈ tokens.getLast?, token.kind.isNumber = true := by
  cases scans with
  | start => exact .inl stops_nil
  | @gap before piece rest' _ _ here gap =>
      rw [here, List.append_assoc] at parts
      obtain rfl := List.append_cancel_left (List.append_cancel_left parts)
      left
      cases gap with
      | blank blank =>
          refine stops_reverse_concat ?_
          rcases blank with space | rfl
          · exact not_isWordChar_of_isSpace space
          · decide
      | comment _ ends =>
          obtain rfl := ends c rfl
          cases start
  | @token before text rest' tokens kind _ here longest _ =>
      rw [here, longest.text_eq, List.append_assoc] at parts
      obtain rfl := List.append_cancel_left (List.append_cancel_left parts)
      have name := isNameStart_isNameChar start
      cases sort : kind.initial with
      | digit =>
          refine .inr ⟨_, List.getLast?_concat, ?_⟩
          exact TokenKind.isNumber_of_initial sort
      -- the letter that starts the name would have made the word longer
      | letter =>
          have stops := stops_cons.mp (longest.stops_word sort)
          rw [name] at stops
          cases stops
      | quote =>
          obtain ⟨contents, rfl⟩ := kind.eq_string sort
          left
          rw [chars_string, ← List.cons_append, ← List.append_assoc]
          exact stops_reverse_concat (by decide)
      | symbol =>
          obtain ⟨s, rfl⟩ := kind.eq_symbol sort
          left
          -- a symbol ends with a character of symbols, which is in no word
          have chars : (TokenKind.symbol s).chars ≠ [] := by
            obtain ⟨first, more, chars, -⟩ := longest.valid.first
            simp [chars]
          rw [← List.dropLast_append_getLast chars, ← List.append_assoc]
          refine stops_reverse_concat (not_isWordChar_of_symbol ?_)
          exact s.initial_eq _ (List.getLast_mem chars)
      | none => exact absurd sort longest.valid.initial_ne_none

/-- In a text that is accepted, no number comes in front of a name. -/
theorem apart_of_accepted {maxCallDepth : Int} {text : String} {statements : List Stmt}
    (accepted : analyze maxCallDepth text = .ok ⟨statements, []⟩) :
    (lex text).error? = none ∧ NamesApart (lex text).tokens := by
  rcases analyze_cases accepted with ⟨_, _, same⟩ | ⟨split, same⟩
  · cases same
  · refine ⟨split, ?_⟩
    have none := List.map_eq_nil_iff.mp (Analysis.mk.inj same).2.symm
    have lexed : lex text = ⟨(lex text).tokens, Option.none⟩ := by rw [← split]
    obtain ⟨body, scans, tokens⟩ := lex_eq_tokens_iff.mp lexed
    rw [tokens] at none ⊢
    refine (Parse.declarations_of_accepted (five_le_parsingRoom maxCallDepth) ?_ none).apart
      (.singleton _)
    intro token mem atEnd
    have valid := scans.valid token mem
    rw [atEnd] at valid
    exact valid

/-- **In a text without mistakes a name is a word of its own.** -/
theorem Stands.opens {text : String} {number line : Nat} {name : String}
    {front behind : List Char} (apart : NamesApart (lex text).tokens)
    (stands : Stands text.toList (lex text).tokens number ⟨.identifier name, line⟩ front behind) :
    Stops Text.isWordChar front.reverse := by
  obtain ⟨c, more, chars, sort⟩ := stands.longest.valid.first
  have start : isNameStart c = true := by
    have word : isWord name.toList = true := stands.longest.valid.1
    rw [show name.toList = c :: more from chars, isWord, Bool.and_eq_true] at word
    exact word.1
  have parts : text.toList = front ++ c :: (more ++ behind) := by
    rw [stands.parts, chars, List.cons_append]
  rcases stands.scans.opens parts start with opens | ⟨token, last, isNumber⟩
  · exact opens
  · -- the number would be the token in front of the name
    have inside := (List.getElem?_eq_some_iff.mp stands.found).1
    rw [List.getLast?_eq_getElem?, List.length_take, Nat.min_eq_left (Nat.le_of_lt inside)] at last
    cases number with
    | zero => cases last
    | succ number =>
        rw [Option.mem_def, List.getElem?_take_of_lt (by omega)] at last
        have noName := apart.getElem? last stands.found isNumber
        cases noName

/-! ## Words of a line -/

namespace Text

/-- A word of a line: a run of letters, digits and underscores that goes on neither in front
nor behind. -/
structure WordIn (line before word after : List Char) : Prop where
  parts : line = before ++ (word ++ after)
  run : word.all isWordChar = true
  opens : Stops isWordChar before.reverse
  ends : Stops isWordChar after

variable {line before word after : List Char} {place : Nat}

/-- From a place in a line, the search goes back and forth to the ends of a word. -/
theorem wordIn_of_takeWhile (line : List Char) (place : Nat) :
    ∃ before after, WordIn line before
      (((line.take place).reverse.takeWhile isWordChar).reverse ++
        (line.drop place).takeWhile isWordChar) after ∧
      before.length + ((line.take place).reverse.takeWhile isWordChar).length =
        min place line.length := by
  have front : (line.take place).reverse =
      (line.take place).reverse.takeWhile isWordChar ++
        (line.take place).reverse.dropWhile isWordChar := List.takeWhile_append_dropWhile.symm
  refine ⟨((line.take place).reverse.dropWhile isWordChar).reverse,
    (line.drop place).dropWhile isWordChar, ⟨?_, ?_, ?_, stops_dropWhile _ _⟩, ?_⟩
  · rw [List.append_assoc, List.takeWhile_append_dropWhile, ← List.append_assoc,
      ← List.reverse_append, ← front, List.reverse_reverse, List.take_append_drop]
  · rw [List.all_append, List.all_reverse, List.all_takeWhile, List.all_takeWhile]
    rfl
  · rw [List.reverse_reverse]
    exact stops_dropWhile _ _
  · rw [List.length_reverse, Nat.add_comm, ← List.length_append, ← front, List.length_reverse,
      List.length_take]

/-- The word that touches a place is what the search finds there. -/
theorem WordIn.takeWhile_eq (found : WordIn line before word after)
    (least : before.length ≤ min place line.length)
    (most : min place line.length ≤ before.length + word.length) :
    ((line.take place).reverse.takeWhile isWordChar).reverse ++
      (line.drop place).takeWhile isWordChar = word := by
  obtain ⟨offset, inside⟩ := Nat.exists_eq_add_of_le least
  have short : offset ≤ word.length := by omega
  -- the place splits the word
  have front : line.take place = before ++ word.take offset := by
    rw [List.take_eq_take_min, inside, found.parts, List.take_length_add_append,
      List.take_append_of_le_length short]
  have behind : line.drop place = word.drop offset ++ after := by
    rw [List.drop_eq_drop_min, inside, found.parts, List.drop_length_add_append,
      List.drop_append_of_le_length short]
  have run := found.run
  rw [← List.take_append_drop offset word, List.all_append, Bool.and_eq_true] at run
  rw [front, behind, List.reverse_append, takeWhile_run (by rw [List.all_reverse, run.1])
    found.opens, takeWhile_run run.2 found.ends, List.reverse_reverse, List.take_append_drop]

end Text

namespace Editor

variable {text : String} {position : Position} {word : String}

/-- **The word at a position is the word of its line that touches it**, or the end of the
line if the position is beyond it. -/
theorem wordAt_eq_some_iff :
    wordAt text position = some word ↔
      ∃ line before after, fullLine? text position.line = some line ∧ word ≠ "" ∧
        Text.WordIn line before word.toList after ∧
        before.length ≤ min position.character line.length ∧
        min position.character line.length ≤ before.length + word.length := by
  rw [wordAt]
  cases given : fullLine? text position.line with
  | none => simp
  | some line =>
      constructor
      · intro found
        simp only [Option.ite_none_left_eq_some, Option.some.injEq, List.isEmpty_iff] at found
        obtain ⟨some, rfl⟩ := found
        obtain ⟨before, after, found, length⟩ :=
          Text.wordIn_of_takeWhile line position.character
        refine ⟨line, before, after, rfl, ?_, ?_, by omega, ?_⟩
        · rwa [Ne, ← String.toList_eq_nil_iff, String.toList_ofList]
        · rwa [String.toList_ofList]
        · rw [String.length_ofList, List.length_append, List.length_reverse]
          omega
      · rintro ⟨_, before, after, same, some, found, least, most⟩
        cases same
        rw [← String.length_toList] at most
        have chars : word.toList ≠ [] := fun none => some (String.toList_eq_nil_iff.mp none)
        simp only [found.takeWhile_eq least most, String.ofList_toList, List.isEmpty_iff]
        rw [if_neg chars]

end Editor

/-! ## The line of a name -/

namespace Text

/-- All lines but the last end with the end of a line. -/
theorem getLast?_full_lines (cs : List Char) :
    ∀ line ∈ (lines cs).dropLast, ∃ c ∈ line.full.getLast?, isLineEnd c = true := by
  have cons {line first : Line} {more : List Line} (mem : line ∈ (first :: more).dropLast) :
      line = first ∨ line ∈ more.dropLast := by
    cases more with
    | nil => cases mem
    | cons second others => exact List.mem_cons.mp mem
  fun_induction lines cs with
  | case1 =>
      intro line mem
      cases mem
  | case2 rest ih =>
      intro line mem
      rcases cons mem with rfl | later
      · exact ⟨'\n', rfl, rfl⟩
      · exact ih line later
  | case3 c rest _ ends ih =>
      intro line mem
      rcases cons mem with rfl | later
      · exact ⟨c, rfl, ends⟩
      · exact ih line later
  | case4 c rest _ _ none ih =>
      intro line mem
      cases mem
  | case5 c rest _ _ first more found ih =>
      intro line mem
      rw [found] at ih
      cases more with
      | nil => cases mem
      | cons second others =>
          rcases List.mem_cons.mp mem with rfl | later
          · obtain ⟨d, last, ends⟩ := ih first List.mem_cons_self
            obtain ⟨front, full⟩ := List.getLast?_eq_some_iff.mp last
            have pushed : (first.push c).full = c :: first.full := rfl
            exact ⟨d, by rw [pushed, full, ← List.cons_append, List.getLast?_concat]; rfl, ends⟩
          · exact ih line (List.mem_cons_of_mem first later)

/-- Each character of a text stands on one of its lines. -/
theorem exists_line_of_flatMap {all : List Line} {front rest : List Char} {c : Char}
    (parts : all.flatMap Line.full = front ++ c :: rest) :
    ∃ earlier line later before behind, all = earlier ++ line :: later ∧
      line.full = before ++ c :: behind ∧ front = earlier.flatMap Line.full ++ before ∧
      rest = behind ++ later.flatMap Line.full := by
  induction all generalizing front with
  | nil => exact absurd parts.symm (by simp)
  | cons first others ih =>
      have split : (∃ more, front = first.full ++ more ∧
            others.flatMap Line.full = more ++ c :: rest) ∨
          ∃ piece, first.full = front ++ c :: piece ∧ rest = piece ++ others.flatMap Line.full := by
        rw [List.flatMap_cons, List.append_eq_append_iff] at parts
        rcases parts with behind | ⟨_ | ⟨d, piece⟩, same, parts⟩
        · exact .inl behind
        · refine .inl ⟨[], ?_, parts.symm⟩
          rw [same, List.append_nil, List.append_nil]
        · obtain ⟨rfl, rest⟩ := List.cons.inj parts
          exact .inr ⟨piece, same, rest⟩
      rcases split with ⟨more, rfl, inOthers⟩ | ⟨piece, same, rest⟩
      · obtain ⟨earlier, line, later, before, behind, rfl, full, rfl, rest⟩ := ih inOthers
        refine ⟨first :: earlier, line, later, before, behind, rfl, full, ?_, rest⟩
        rw [List.flatMap_cons, List.append_assoc]
      · exact ⟨[], first, others, front, piece, rfl, same, rfl, rest⟩

end Text

namespace Editor

variable {text : String} {front run rest : List Char}

/-- A run of characters stands on a line of the editor, behind `before`. In front of it in
the text are the lines with smaller numbers, and `before`. -/
structure Located (text : String) (front run : List Char) (number : Nat)
    (before after : List Char) : Prop where
  line : fullLine? text number = some (before ++ (run ++ after))
  front : front = ((Text.lines text.toList).take number).flatMap Text.Line.full ++ before

/-- **A run of characters that end no line stands on one line.** -/
theorem exists_located (parts : text.toList = front ++ (run ++ rest)) (some : run ≠ [])
    (ink : ∀ c ∈ run, Text.isLineEnd c = false) :
    ∃ number before after, Located text front run number before after := by
  obtain ⟨c, more, rfl⟩ := List.exists_cons_of_ne_nil some
  obtain ⟨earlier, line, later, before, behind, lines, full, rfl, same⟩ :=
    Text.exists_line_of_flatMap ((Text.flatMap_full_lines text.toList).trans parts)
  -- the line does not end before the run does
  have whole : ∃ after, behind = more ++ after := by
    rcases List.append_eq_append_iff.mp same with ⟨after, here, -⟩ | ⟨piece, here, ended⟩
    · exact ⟨after, here⟩
    · cases later with
      | nil =>
          obtain ⟨rfl, -⟩ := List.append_eq_nil_iff.mp ended.symm
          exact ⟨[], by rw [here, List.append_nil, List.append_nil]⟩
      | cons next others =>
          have mem : line ∈ (Text.lines text.toList).dropLast := by
            rw [lines, List.dropLast_append_of_ne_nil (List.cons_ne_nil _ _)]
            exact List.mem_append_right _ List.mem_cons_self
          obtain ⟨d, last, ends⟩ := Text.getLast?_full_lines _ line mem
          rw [full, List.getLast?_append_cons] at last
          have inside : d ∈ c :: more := by
            rw [here, ← List.cons_append]
            exact List.mem_append_left _ (List.mem_of_getLast? last)
          rw [ink d inside] at ends
          cases ends
  obtain ⟨after, rfl⟩ := whole
  refine ⟨earlier.length, before, after, ?_, ?_⟩
  · rw [fullLine?, lines, List.getElem?_append_right le_rfl, Nat.sub_self]
    exact congrArg Option.some full
  · rw [lines, List.take_left]

/-- What is behind the run on its line is behind it in the text. -/
theorem Located.behind {number : Nat} {before after : List Char}
    (located : Located text front run number before after)
    (parts : text.toList = front ++ (run ++ rest)) : after <+: rest := by
  obtain ⟨line, found, full⟩ := Option.map_eq_some_iff.mp located.line
  have lines : (Text.lines text.toList).take number ++
      line :: (Text.lines text.toList).drop (number + 1) = Text.lines text.toList := by
    obtain ⟨inside, rfl⟩ := List.getElem?_eq_some_iff.mp found
    rw [← List.drop_eq_getElem_cons inside, List.take_append_drop]
  have same : ((Text.lines text.toList).take number).flatMap Text.Line.full ++
      (line.full ++ ((Text.lines text.toList).drop (number + 1)).flatMap Text.Line.full) =
        front ++ (run ++ rest) := by
    rw [← parts, ← List.flatMap_cons, ← List.flatMap_append, lines, Text.flatMap_full_lines]
  rw [located.front, full] at same
  simp only [List.append_assoc, List.append_cancel_left_eq] at same
  exact ⟨_, same⟩

/-- A name of a text without mistakes is a word of its line. -/
theorem Located.wordIn {number place line : Nat} {name : String} {before after : List Char}
    (located : Located text front name.toList number before after)
    (stands : Stands text.toList (lex text).tokens place ⟨.identifier name, line⟩ front rest)
    (split : (lex text).error? = none) (apart : NamesApart (lex text).tokens) :
    Text.WordIn (before ++ (name.toList ++ after)) before name.toList after where
  parts := rfl
  run := by
    refine List.all_eq_true.mpr fun c mem => Text.isWordChar_of_isAsciiWord ?_
    exact List.all_eq_true.mp (all_isNameChar_of_isWord stands.longest.valid.1) c mem
  opens := by
    have inFront : before.reverse <+: front.reverse := by
      rw [located.front, List.reverse_append]
      exact List.prefix_append _ _
    exact stops_front inFront (stands.opens apart)
  ends := by
    refine stops_front (located.behind stands.parts) (stands.stops_word rfl ?_)
    rwa [← lex_eq_lexAt]

/-- **An editor's words agree with the names of the lexer.** The word at a position is the
run of letters, digits and underscores of the line that touches the position, or the end of
the line if the position is beyond it; there is no word if there is no such run. In a text
without mistakes each name stands on one line of the editor, and the word at every position
from its first character to behind its last one is the name. -/
theorem words_agree (maxCallDepth : Int) (text : String) :
    (∀ position word, wordAt text position = some word ↔
      ∃ line before after, fullLine? text position.line = some line ∧ word ≠ "" ∧
        Text.WordIn line before word.toList after ∧
        before.length ≤ min position.character line.length ∧
        min position.character line.length ≤ before.length + word.length) ∧
    (check maxCallDepth text = .ok [] → ∀ place name line,
      (lex text).tokens[place]? = some ⟨.identifier name, line⟩ →
        ∃ front behind,
          Stands text.toList (lex text).tokens place ⟨.identifier name, line⟩ front behind ∧
          (∃ number before after, Located text front name.toList number before after) ∧
          ∀ number before after, Located text front name.toList number before after →
            ∀ character, before.length ≤ character →
              character ≤ before.length + name.length →
                wordAt text ⟨number, character⟩ = some name) := by
  refine ⟨fun position word => wordAt_eq_some_iff, fun clean place name line found => ?_⟩
  obtain ⟨⟨statements, diagnostics⟩, analyzed, rfl⟩ := exists_of_check clean
  obtain ⟨split, apart⟩ := apart_of_accepted analyzed
  obtain ⟨front, behind, stands⟩ := Index.exists_stands split found (by simp)
  obtain ⟨c, more, chars, -⟩ := stands.longest.valid.first
  replace chars : name.toList = c :: more := chars
  have nonempty : name.toList ≠ [] := by
    rw [chars]
    exact List.cons_ne_nil c more
  have ink : ∀ c ∈ name.toList, Text.isLineEnd c = false := by
    intro c mem
    have names := all_isNameChar_of_isWord stands.longest.valid.1
    exact not_isLineEnd_of_isNameChar (List.all_eq_true.mp names c mem)
  refine ⟨front, behind, stands, exists_located stands.parts nonempty ink, ?_⟩
  intro number before after located character least most
  -- a touching column is inside of the line, so that it is not clamped
  have inside : min character (before ++ (name.toList ++ after)).length = character := by
    rw [List.length_append, List.length_append, String.length_toList]
    omega
  refine wordAt_eq_some_iff.mpr ⟨_, before, after, located.line, ?_,
    located.wordIn stands split apart, ?_, ?_⟩
  · exact fun none => nonempty (String.toList_eq_nil_iff.mpr none)
  · rwa [inside]
  · rwa [inside]

/-- A text of two lines, with a letter beyond ASCII in a string. -/
def accented : String :=
  "var s1 = \"é\";\r\nprint s1;"

/-- The name on the second line is the word in front of it, inside it and behind it. -/
theorem words_agree_accented :
    check 255 accented = .ok [] ∧
      ∀ character, 6 ≤ character → character ≤ 8 → wordAt accented ⟨1, character⟩ = some "s1" := by
  have clean : check 255 accented = .ok [] := by decide +kernel
  obtain ⟨front, behind, stands, -, words⟩ :=
    (words_agree 255 accented).2 clean 6 "s1" 2 (by decide +kernel)
  have fronts : Index.fronts accented.toList 6 (.identifier "s1") =
      ["var s1 = \"é\";\r\nprint ".toList] := by
    decide +kernel
  have here := fronts ▸ Index.mem_fronts stands
  obtain rfl := List.mem_singleton.mp here
  exact ⟨clean, words 1 "print ".toList [';'] ⟨by decide +kernel, by decide +kernel⟩⟩

end Editor

end TernLang
