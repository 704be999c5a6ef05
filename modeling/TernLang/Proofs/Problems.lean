import TernLang.Editor
import TernLang.Proofs.Diagnostics
import TernLang.Proofs.Index.Search

/-! # Problems cover their lines

The lexer counts line feeds, and a diagnostic has the number of one of its lines. An editor
ends lines at other characters too, and a problem covers the line of the editor with that
number. As long as line feeds, and carriage returns in front of them, are the only ends of
lines, the two are the same (`Text.lines_getD`). So a problem starts where the line of its
diagnostic does, and **behind lines of this kind it covers that line exactly if the line is
of this kind too**, and else it ends too early (`Editor.problems_cover`).

A form feed in front of a mistake is enough to let its problem cover another line
(`Editor.problems_cover_elsewhere`).
-/

namespace TernLang

namespace Text

/-- A line between line feeds, without the carriage return at its end. -/
def withoutReturn (line : List Char) : List Char :=
  if line.getLast? = some '\r' then line.dropLast else line

/-- The front of a line, up to where an editor ends it. -/
def untilLineEnd (line : List Char) : List Char :=
  line.takeWhile fun c => !isLineEnd c

/-- An editor does not end the line before a line feed does. -/
def isWhole (line : List Char) : Bool :=
  (withoutReturn line).all fun c => !isLineEnd c

/-- The width of a line between line feeds, without a carriage return at its end; a line
that does not exist has none. Lines count from zero. -/
def feedWidth (text : List Char) (number : Nat) : Nat :=
  match (text.splitOn '\n')[number]? with
  | some line => (withoutReturn line).length
  | none => 0

/-- The first lines between line feeds are whole. -/
def WholeBefore (text : List Char) (number : Nat) : Prop :=
  ∀ earlier < number, ∀ line ∈ (text.splitOn '\n')[earlier]?, isWhole line = true

variable {line first rest text : List Char} {number : Nat}

/-! ## One line -/

/-- A line is what is left of it, and a carriage return or nothing. -/
theorem eq_withoutReturn (line : List Char) :
    line = withoutReturn line ∨ line = withoutReturn line ++ ['\r'] := by
  unfold withoutReturn
  split
  · rename_i last
    obtain ⟨front, rfl⟩ := List.getLast?_eq_some_iff.mp last
    exact .inr (by simp)
  · exact .inl rfl

/-- A carriage return at the end is beyond what an editor takes. -/
theorem untilLineEnd_eq (line : List Char) :
    untilLineEnd line = (withoutReturn line).takeWhile fun c => !isLineEnd c := by
  rcases eq_withoutReturn line with same | same
  · rw [untilLineEnd, ← same]
  · have ending : ['\r'].takeWhile (fun c => !isLineEnd c) = [] := by decide
    rw [untilLineEnd]
    nth_rewrite 1 [same]
    rw [List.takeWhile_append, ending, List.append_nil]
    split
    · rename_i all
      rw [(List.takeWhile_prefix _).eq_of_length all]
    · rfl

theorem untilLineEnd_front (line : List Char) : untilLineEnd line <+: withoutReturn line := by
  rw [untilLineEnd_eq]
  exact List.takeWhile_prefix _

/-- What an editor takes is all exactly of a whole line. -/
theorem length_untilLineEnd_iff :
    (untilLineEnd line).length = (withoutReturn line).length ↔ isWhole line = true := by
  have whole : untilLineEnd line = withoutReturn line ↔ isWhole line = true := by
    rw [untilLineEnd_eq, List.takeWhile_eq_self_iff, isWhole, List.all_eq_true]
  rw [← whole]
  exact ⟨(untilLineEnd_front line).eq_of_length, congrArg List.length⟩

/-! ## The lines of a text -/

/-- A run without ends of lines is in front of the line behind it. -/
theorem lines_run {found : Line} {more : List Line} (run : ∀ c ∈ first, isLineEnd c = false)
    (behind : lines rest = found :: more) :
    lines (first ++ rest) = ⟨first ++ found.text, found.ending⟩ :: more := by
  induction first with
  | nil => exact behind
  | cons c first ih =>
      rw [List.cons_append, lines_ink (run c List.mem_cons_self),
        ih fun d mem => run d (List.mem_cons_of_mem c mem)]
      rfl

/-- A whole line is a line of the editor. -/
theorem lines_whole (whole : isWhole line = true) (rest : List Char) :
    ∃ ending, lines (line ++ '\n' :: rest) = ⟨withoutReturn line, ending⟩ :: lines rest := by
  have run : ∀ c ∈ withoutReturn line, isLineEnd c = false := by
    simpa [isWhole] using whole
  rcases eq_withoutReturn line with same | same
  · refine ⟨['\n'], ?_⟩
    rw [← same] at run ⊢
    rw [lines_run run (lines_feed rest), List.append_nil]
  · refine ⟨['\r', '\n'], ?_⟩
    have text : line ++ '\n' :: rest = withoutReturn line ++ '\r' :: '\n' :: rest := by
      nth_rewrite 1 [same]
      simp
    rw [text, lines_run run (lines_return rest), List.append_nil]

/-- The first line of an editor runs up to the first end of a line. -/
theorem head?_lines_getD (text : List Char) :
    (((lines text).head?).map Line.text).getD [] = untilLineEnd text := by
  cases text with
  | nil => rfl
  | cons c rest =>
      cases ends : isLineEnd c with
      | false =>
          rw [head?_lines ends]
          simp [untilLineEnd, ends]
      | true =>
          obtain ⟨ending, others, found⟩ := exists_lines_lineEnd ends rest
          simp [found, untilLineEnd, ends]

/-- A text is its only line, or its first line, a line feed and the other lines. -/
theorem splitOn_cases (text : List Char) :
    text.splitOn '\n' = [text] ∨ ∃ first rest, text = first ++ '\n' :: rest ∧
      text.splitOn '\n' = first :: rest.splitOn '\n' := by
  by_cases feed : '\n' ∈ text
  · obtain ⟨first, rest, rfl, oneLine⟩ := List.eq_append_cons_of_mem feed
    exact .inr ⟨first, rest, rfl, List.splitOn_append_cons_self_of_not_mem oneLine rest⟩
  · exact .inl (List.splitOn_eq_singleton feed)

/-- There is a line behind each line feed, and one in front of them all. -/
theorem length_splitOn (text : List Char) :
    (text.splitOn '\n').length = text.count '\n' + 1 := by
  induction text with
  | nil => rfl
  | cons c rest ih =>
      rw [List.splitOn_cons_eq_if_modifyHead, List.count_cons]
      split <;> simp [ih]

theorem untilLineEnd_feed (first rest : List Char) :
    untilLineEnd (first ++ '\n' :: rest) = untilLineEnd first := by
  have stop : ('\n' :: rest).takeWhile (fun c => !isLineEnd c) = [] := rfl
  rw [untilLineEnd, List.takeWhile_append, stop, List.append_nil]
  split
  · rename_i all
    exact ((List.takeWhile_prefix _).eq_of_length all).symm
  · rfl

/-- **Behind whole lines, an editor's line is the front of the line between line feeds.** -/
theorem lines_getD (whole : WholeBefore text number)
    (found : (text.splitOn '\n')[number]? = some line) :
    (((lines text)[number]?).map Line.text).getD [] = untilLineEnd line := by
  induction number generalizing text with
  | zero =>
      rw [← List.head?_eq_getElem?, head?_lines_getD]
      rcases splitOn_cases text with alone | ⟨first, rest, rfl, parts⟩
      · rw [alone] at found
        cases found
        rfl
      · rw [parts] at found
        cases found
        exact untilLineEnd_feed line rest
  | succ number ih =>
      rcases splitOn_cases text with alone | ⟨first, rest, rfl, parts⟩
      · rw [alone] at found
        cases found
      · rw [parts, List.getElem?_cons_succ] at found
        obtain ⟨ending, same⟩ := lines_whole (whole 0 (Nat.succ_pos _) first (by simp [parts])) rest
        rw [same, List.getElem?_cons_succ]
        refine ih (fun earlier before other mem => ?_) found
        exact whole (earlier + 1) (Nat.succ_lt_succ before) other (by rwa [parts])

end Text

namespace Editor

variable {text : String} {maxCallDepth : Int} {diagnostics : List Diagnostic}

/-- The range of a line starts at its first column and ends behind its last one. -/
theorem lineRange_eq (lines : List Text.Line) (number : Nat) :
    lineRange lines number =
      ⟨number, 0, number, (((lines[number]?).map Text.Line.text).getD []).length⟩ := by
  unfold lineRange
  cases lines[number]? <;> rfl

/-- What is checked is analyzed. -/
theorem exists_of_check (checked : check maxCallDepth text = .ok diagnostics) :
    ∃ analysis, analyze maxCallDepth text = .ok analysis ∧ analysis.diagnostics = diagnostics := by
  unfold check at checked
  cases analyzed : analyze maxCallDepth text with
  | error refused => simp [analyzed, Except.map] at checked
  | ok analysis => exact ⟨analysis, rfl, by simpa [analyzed, Except.map] using checked⟩

/-- **Problems cover the lines of their diagnostics** as far as editors see the same lines.
A check of a text finds diagnostics with lines of the text, and there is a problem for each
of them, in the same place. It starts where the line of the diagnostic does. Let the lines
in front be ended by line feeds only, with a carriage return in front or not. Then the
problem covers the line of the diagnostic exactly if the line is ended like this, too. Else
the problem ends too early. -/
theorem problems_cover (checked : check maxCallDepth text = .ok diagnostics) :
    (problems text diagnostics).length = diagnostics.length ∧
    ∀ (place : Nat) (diagnostic : Diagnostic), diagnostics[place]? = some diagnostic →
      ∃ (number width : Nat) (line : List Char) (problem : Problem),
        diagnostic.line = some (number + 1) ∧
        (text.toList.splitOn '\n')[number]? = some line ∧
        (problems text diagnostics)[place]? = some problem ∧
        problem.message = diagnostic.message ∧ problem.code = diagnostic.kind ∧
        problem.range = ⟨number, 0, number, width⟩ ∧
        (Text.WholeBefore text.toList number →
          (Text.isWhole line = true → width = Text.feedWidth text.toList number) ∧
          (Text.isWhole line = false → width < Text.feedWidth text.toList number)) := by
  refine ⟨List.length_map _, fun place diagnostic found => ?_⟩
  have located : ∃ number, diagnostic.line = some (number + 1) ∧
      number ≤ text.toList.count '\n' := by
    obtain ⟨analysis, analyzed, rfl⟩ := exists_of_check checked
    obtain ⟨line, given, ⟨least, most⟩, -⟩ :=
      analyze_located analyzed diagnostic (List.mem_of_getElem? found)
    obtain ⟨number, rfl⟩ := Nat.exists_eq_add_of_le' least
    exact ⟨number, given, by omega⟩
  obtain ⟨number, given, most⟩ := located
  have inside : number < (text.toList.splitOn '\n').length := by
    rw [Text.length_splitOn]
    exact Nat.lt_succ_of_le most
  have split := List.getElem?_eq_getElem inside
  have line : problemLine diagnostic = number := by
    rw [problemLine, given]
    rfl
  refine ⟨number, (((Text.lines text.toList)[number]?.map Text.Line.text).getD []).length, _,
    ⟨lineRange (Text.lines text.toList) (problemLine diagnostic), diagnostic.message,
      diagnostic.kind⟩, given, split, ?_, rfl, rfl, ?_, fun whole => ?_⟩
  · rw [problems, List.getElem?_map, found]
    rfl
  · rw [line, lineRange_eq]
  · have width : Text.feedWidth text.toList number =
        (Text.withoutReturn (text.toList.splitOn '\n')[number]).length := by
      rw [Text.feedWidth, split]
    rw [Text.lines_getD whole split, width]
    refine ⟨Text.length_untilLineEnd_iff.mpr, fun ended => ?_⟩
    refine Nat.lt_of_le_of_ne (Text.untilLineEnd_front _).length_le fun same => ?_
    exact Bool.false_ne_true (ended.symm.trans (Text.length_untilLineEnd_iff.mp same))

/-- A text with a mistake behind a string of two lines. All lines end with a carriage return
and a line feed. -/
def mistaken : String :=
  "var s = \"one\r\ntwo\";\r\nprint ;\r\n"

/-- The problem covers the line of the mistake. -/
theorem problems_cover_mistaken :
    ∃ diagnostics problem, check 255 mistaken = .ok diagnostics ∧
      problems mistaken diagnostics = [problem] ∧ problem.range = ⟨2, 0, 2, 7⟩ := by
  have checked : check 255 mistaken =
      .ok [⟨.parse, some 3, "Expected expression but found ';'", "ParseError"⟩] := by
    decide +kernel
  obtain ⟨length, covers⟩ := problems_cover checked
  obtain ⟨number, width, line, problem, given, split, found, -, -, range, covered⟩ := covers 0 _ rfl
  obtain rfl : 2 = number := Nat.succ.inj (Option.some.inj given)
  have whole : Text.WholeBefore mistaken.toList 2 := by
    intro earlier before other mem
    have all : ∀ number < 3, ((mistaken.toList.splitOn '\n')[number]?).all Text.isWhole = true := by
      decide +kernel
    have here := all earlier (Nat.lt_succ_of_lt before)
    rwa [Option.mem_def.mp mem] at here
  obtain rfl : "print ;\r".toList = line := by
    have third : (mistaken.toList.splitOn '\n')[2]? = some "print ;\r".toList := by decide +kernel
    exact Option.some.inj (third.symm.trans split)
  refine ⟨_, problem, checked, ?_, ?_⟩
  · obtain ⟨other, same⟩ := List.length_eq_one_iff.mp length
    rw [same] at found ⊢
    exact congrArg (fun p => [p]) (Option.some.inj found)
  · rw [range, (covered whole).1 (by decide)]
    decide +kernel

/-- A text with a form feed on a line of its own, and a mistake behind it. -/
def formFeed : String :=
  "var a = 1;\n\x0c\nprint ;\n"

/-- The editor has one line more in front of the mistake, so that the problem covers an
empty line. -/
theorem problems_cover_elsewhere :
    ∃ diagnostic problem, check 255 formFeed = .ok [diagnostic] ∧ diagnostic.line = some 3 ∧
      problems formFeed [diagnostic] = [problem] ∧ problem.range = ⟨2, 0, 2, 0⟩ ∧
      Text.feedWidth formFeed.toList 2 = 7 := by
  refine ⟨⟨.parse, some 3, "Expected expression but found ';'", "ParseError"⟩,
    ⟨⟨2, 0, 2, 0⟩, "Expected expression but found ';'", "ParseError"⟩, ?_, rfl, ?_, rfl, ?_⟩
  · decide +kernel
  · decide +kernel
  · decide +kernel

end Editor

end TernLang
