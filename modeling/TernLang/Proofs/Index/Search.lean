import TernLang.Index
import TernLang.Proofs.Token.Lexemes

/-! # The search for a name on a line

The column of a declaration is searched in the text of its line. **The search finds the
first place where a word starts with the keyword, blanks and the whole name**
(`findName_eq_some_iff`), whatever that place is: code, or a string, or another
declaration.

The line is one of an editor, which ends lines at more characters than line feeds. **Up to
a place in front of which only line feeds end lines, the editor's line is the line of the
lexer** (`lines_getElem?`).
-/

namespace TernLang

namespace Index

/-! ## Occurrences -/

/-- A word starts behind `front` in a line, and it is the keyword, with blanks and then the
whole name behind it. -/
structure Occurs (keyword name line front gap rest : List Char) : Prop where
  parts : line = front ++ (keyword ++ (gap ++ (name ++ rest)))
  opens : ∀ c ∈ front.getLast?, Text.isWordChar c = false
  space : gap ≠ []
  blank : gap.all Text.isBlank = true
  whole : Stops Text.isWordChar rest

/-- The first occurrence in a line is behind `front`. -/
def OccursFirst (keyword name line front : List Char) : Prop :=
  (∃ gap rest, Occurs keyword name line front gap rest) ∧
    ∀ front' gap rest, Occurs keyword name line front' gap rest → front.length ≤ front'.length

variable {keyword name line front gap rest text : List Char}

/-- A word matches exactly the texts that begin with it. -/
theorem afterWord?_eq_some_iff {word : List Char} :
    afterWord? word text = some rest ↔ text = word ++ rest := by
  induction word generalizing text with
  | nil => simp [afterWord?]
  | cons w word ih =>
      cases text with
      | nil => simp [afterWord?]
      | cons c text =>
          rw [afterWord?]
          by_cases same : w = c
          · simp [same, ih]
          · simp [same, Ne.symm same]

/-- A word ends where no word character follows. -/
theorem atWordEnd_iff : atWordEnd text = true ↔ Stops Text.isWordChar text := by
  cases text <;> simp [atWordEnd, Stops]

/-- The gap is as long as the blanks go, for the name does not start with one. -/
theorem nameOffset?_eq_some_iff (some : name ≠ []) (ink : Stops Text.isBlank name) {offset : Nat} :
    nameOffset? keyword name text = .some offset ↔
      ∃ gap rest, text = keyword ++ (gap ++ (name ++ rest)) ∧ gap ≠ [] ∧
        gap.all Text.isBlank = true ∧ Stops Text.isWordChar rest ∧
        offset = keyword.length + gap.length := by
  constructor
  · intro found
    simp only [nameOffset?, Option.bind_eq_bind, Option.bind_eq_some_iff, afterWord?_eq_some_iff]
      at found
    obtain ⟨behind, rfl, remaining, parts, found⟩ := found
    split at found
    · rename_i ends
      simp only [Bool.and_eq_true, Bool.not_eq_true', List.isEmpty_eq_false_iff,
        atWordEnd_iff] at ends
      refine ⟨behind.takeWhile Text.isBlank, remaining, ?_, ends.1, List.all_takeWhile, ends.2, ?_⟩
      · rw [← parts, List.takeWhile_append_dropWhile]
      · exact (Option.some.inj found).symm
    · cases found
  · rintro ⟨gap, rest, rfl, space, blank, ends, rfl⟩
    have stops : Stops Text.isBlank (name ++ rest) := by
      obtain ⟨c, more, rfl⟩ := List.exists_cons_of_ne_nil some
      exact stops_cons.mpr (stops_cons.mp ink)
    have behind : afterWord? keyword (keyword ++ (gap ++ (name ++ rest))) =
        .some (gap ++ (name ++ rest)) := afterWord?_eq_some_iff.mpr rfl
    have remaining : afterWord? name (name ++ rest) = .some rest := afterWord?_eq_some_iff.mpr rfl
    simp only [nameOffset?, behind, Option.bind_eq_bind, Option.bind_some,
      takeWhile_run blank stops, dropWhile_run blank stops, remaining]
    exact if_pos (by simp [space, atWordEnd_iff.mpr ends])

/-- What the search looks at in one place. -/
theorem occurs_iff (some : name ≠ []) (ink : Stops Text.isBlank name) {offset : Nat} :
    (if front.getLast?.any Text.isWordChar then none else nameOffset? keyword name text) =
        .some offset ↔
      ∃ gap rest, Occurs keyword name (front ++ text) front gap rest ∧
        offset = keyword.length + gap.length := by
  have opens : front.getLast?.any Text.isWordChar = false ↔
      ∀ c ∈ front.getLast?, Text.isWordChar c = false := by
    cases front.getLast? <;> simp
  constructor
  · intro found
    split at found
    · cases found
    · rename_i start
      obtain ⟨gap, rest, rfl, space, blank, ends, rfl⟩ :=
        (nameOffset?_eq_some_iff some ink).mp found
      exact ⟨gap, rest, ⟨rfl, opens.mp (Bool.eq_false_iff.mpr start), space, blank, ends⟩, rfl⟩
  · rintro ⟨gap, rest, occurs, rfl⟩
    rw [opens.mpr occurs.opens, if_neg (by simp)]
    exact (nameOffset?_eq_some_iff some ink).mpr ⟨gap, rest,
      List.append_cancel_left occurs.parts, occurs.space, occurs.blank, occurs.whole, rfl⟩

/-- The search from a place on finds the first occurrence that is not in front of it. -/
theorem findName_from (some : name ≠ []) (ink : Stops Text.isBlank name) {column : Nat}
    (parts : line = front ++ text) :
    findName keyword name (front.getLast?.any Text.isWordChar) front.length text = .some column ↔
      ∃ found gap rest, Occurs keyword name line found gap rest ∧ front.length ≤ found.length ∧
        column = found.length + (keyword.length + gap.length) ∧
        ∀ found' gap' rest', Occurs keyword name line found' gap' rest' →
          front.length ≤ found'.length → found.length ≤ found'.length := by
  induction text generalizing front with
  | nil =>
      refine ⟨nofun, ?_⟩
      rintro ⟨found, gap, rest, occurs, behind, -⟩
      have long := congrArg List.length (occurs.parts.symm.trans parts)
      have space := List.length_pos_iff.mpr occurs.space
      simp only [List.length_append, List.length_nil] at long
      omega
  | cons c text ih =>
      have here := @occurs_iff keyword name front (c :: text) some ink
      rw [← parts] at here
      -- an occurrence that starts at the place is the one that is looked at there
      have atPlace {found gap rest : List Char} (occurs : Occurs keyword name line found gap rest)
          (same : found.length = front.length) : found = front :=
        (List.append_inj (occurs.parts.symm.trans parts) same).1
      rw [findName]
      cases looked : (if front.getLast?.any Text.isWordChar then none
          else nameOffset? keyword name (c :: text)) with
      | some offset =>
          obtain ⟨gap, rest, occurs, rfl⟩ := here.mp looked
          constructor
          · intro found
            exact ⟨front, gap, rest, occurs, Nat.le_refl _, (Option.some.inj found).symm,
              fun _ _ _ _ behind => behind⟩
          · rintro ⟨found, gap', rest', occurs', behind, rfl, first⟩
            have early := first _ _ _ occurs (Nat.le_refl _)
            obtain rfl := atPlace occurs' (Nat.le_antisymm early behind)
            have same := looked.symm.trans (here.mpr ⟨gap', rest', occurs', rfl⟩)
            exact congrArg (Option.some ∘ (found.length + ·)) (Option.some.inj same)
      | none =>
          have nothing {found gap rest : List Char}
              (occurs : Occurs keyword name line found gap rest) : found.length ≠ front.length := by
            intro same
            obtain rfl := atPlace occurs same
            rw [here.mpr ⟨gap, rest, occurs, rfl⟩] at looked
            cases looked
          have later := @ih (front ++ [c]) (by rw [parts, List.append_assoc]; rfl)
          rw [List.getLast?_concat, List.length_append] at later
          refine later.trans ?_
          have beyond {found gap rest : List Char}
              (occurs : Occurs keyword name line found gap rest) :
              front.length + [c].length ≤ found.length ↔ front.length ≤ found.length := by
            have differ := nothing occurs
            rw [List.length_singleton]
            omega
          constructor
          · rintro ⟨found, gap, rest, occurs, behind, place, first⟩
            exact ⟨found, gap, rest, occurs, (beyond occurs).mp behind, place,
              fun f g r occurs' behind' => first f g r occurs' ((beyond occurs').mpr behind')⟩
          · rintro ⟨found, gap, rest, occurs, behind, place, first⟩
            exact ⟨found, gap, rest, occurs, (beyond occurs).mpr behind, place,
              fun f g r occurs' behind' => first f g r occurs' ((beyond occurs').mp behind')⟩

/-- **The search finds the first occurrence** of the declaration in the line. -/
theorem findName_eq_some_iff (some : name ≠ []) (ink : Stops Text.isBlank name) {column : Nat} :
    findName keyword name false 0 line = .some column ↔
      ∃ front gap rest, Occurs keyword name line front gap rest ∧
        column = front.length + (keyword.length + gap.length) ∧
        OccursFirst keyword name line front := by
  refine (@findName_from keyword name line [] line some ink column rfl).trans ?_
  constructor
  · rintro ⟨front, gap, rest, occurs, -, place, first⟩
    exact ⟨front, gap, rest, occurs, place, ⟨gap, rest, occurs⟩,
      fun f g r occurs' => first f g r occurs' (Nat.zero_le _)⟩
  · rintro ⟨front, gap, rest, occurs, place, -, first⟩
    exact ⟨front, gap, rest, occurs, Nat.zero_le _, place,
      fun f g r occurs' _ => first f g r occurs'⟩

/-- What is in front of blanks is determined, if it does not end with one. -/
theorem eq_of_append_blank {front front' gap gap' : List Char}
    (same : front ++ gap = front' ++ gap') (blank : gap.all Text.isBlank = true)
    (blank' : gap'.all Text.isBlank = true)
    (ink : Stops Text.isBlank front.reverse) (ink' : Stops Text.isBlank front'.reverse) :
    front = front' := by
  have run {front gap : List Char} (blank : gap.all Text.isBlank = true)
      (ink : Stops Text.isBlank front.reverse) :
      (front ++ gap).reverse.dropWhile Text.isBlank = front.reverse := by
    rw [List.reverse_append]
    exact dropWhile_run (by rwa [List.all_reverse]) ink
  have back := run blank ink
  rw [same, run blank' ink'] at back
  exact (List.reverse_inj.mp back).symm

/-- **The column that is searched for is the one of a declaration exactly if the declaration
is the first occurrence.** -/
theorem getD_findName_eq_iff (some : name ≠ []) (ink : Stops Text.isBlank name)
    (ends : ∀ front : List Char, Stops Text.isBlank (front ++ keyword).reverse)
    (parts : line = front ++ (keyword ++ (gap ++ (name ++ rest)))) (space : gap ≠ [])
    (blank : gap.all Text.isBlank = true) (whole : Stops Text.isWordChar rest) :
    (findName keyword name false 0 line).getD 0 = front.length + (keyword.length + gap.length) ↔
      OccursFirst keyword name line front := by
  have positive := List.length_pos_iff.mpr space
  have found : (findName keyword name false 0 line).getD 0 =
        front.length + (keyword.length + gap.length) ↔
      findName keyword name false 0 line =
        .some (front.length + (keyword.length + gap.length)) := by
    cases findName keyword name false 0 line with
    | none =>
        simp only [Option.getD_none, reduceCtorEq, iff_false]
        omega
    | some place => simp
  rw [found, findName_eq_some_iff some ink]
  constructor
  · rintro ⟨front', gap', rest', occurs, place, first⟩
    -- both end in the same place, and the blanks there are the same
    have texts : ((front ++ keyword) ++ gap) ++ (name ++ rest) =
        ((front' ++ keyword) ++ gap') ++ (name ++ rest') := by
      simpa using parts.symm.trans occurs.parts
    have same := (List.append_inj texts (by simp only [List.length_append]; omega)).1
    have fronts := eq_of_append_blank same blank occurs.blank (ends front) (ends front')
    rwa [List.append_cancel_right fronts]
  · rintro first
    obtain ⟨gap', rest', occurs⟩ := first.1
    have own : Occurs keyword name line front gap rest := ⟨parts, occurs.opens, space, blank, whole⟩
    exact ⟨front, gap, rest, own, rfl, first⟩

/-- A declaration is the first occurrence if it is the first on its line. -/
theorem Occurs.first_of_spaces {first : Char} {more : List Char}
    (occurs : Occurs keyword name line front gap rest) (start : keyword = first :: more)
    (ink : isSpace first = false) (spaces : front.all isSpace = true) :
    OccursFirst keyword name line front := by
  refine ⟨⟨gap, rest, occurs⟩, fun front' gap' rest' occurs' => ?_⟩
  by_contra shorter
  have here : (line.drop front'.length).head? = some first := by
    rw [occurs'.parts, start, List.drop_left]
    rfl
  rw [List.head?_drop, occurs.parts,
    List.getElem?_append_left (Nat.lt_of_not_le shorter)] at here
  have space := List.all_eq_true.mp spaces first (List.mem_of_getElem? here)
  rw [ink] at space
  cases space

end Index

namespace Text

/-! ## Lines -/

/-- The part of a text behind its last line feed. -/
def lastLine : List Char → List Char
  | [] => []
  | c :: rest => if '\n' ∈ c :: rest then lastLine rest else c :: rest

/-- The lines of a text end with line feeds, and with carriage returns in front of them,
only. -/
def feedsOnly : List Char → Bool
  | [] => true
  | '\r' :: '\n' :: rest => feedsOnly rest
  | c :: rest => (!isLineEnd c || c == '\n') && feedsOnly rest

variable {c : Char} {front line rest : List Char}

theorem lastLine_eq_self (oneLine : '\n' ∉ line) : lastLine line = line := by
  cases line with
  | nil => rfl
  | cons c rest => rw [lastLine, if_neg oneLine]

theorem lastLine_feed (rest : List Char) : lastLine ('\n' :: rest) = lastLine rest := by
  rw [lastLine, if_pos List.mem_cons_self]

/-- Characters without a line feed stay on the line they are written on. -/
theorem lastLine_append (front : List Char) (oneLine : '\n' ∉ line) :
    lastLine (front ++ line) = lastLine front ++ line := by
  induction front with
  | nil => exact lastLine_eq_self oneLine
  | cons c rest ih =>
      rw [List.cons_append, lastLine, lastLine]
      by_cases feed : '\n' ∈ c :: rest
      · have later : '\n' ∈ c :: (rest ++ line) := List.mem_append_left line feed
        rw [if_pos feed, if_pos later, ih]
      · rw [if_neg feed, if_neg]
        · rfl
        · rw [← List.cons_append, List.mem_append, not_or]
          exact ⟨feed, oneLine⟩

/-- A line end that is no carriage return in front of a line feed ends a line by itself. -/
theorem lines_lineEnd (ends : isLineEnd c = true) (alone : c = '\r' → rest.head? ≠ some '\n') :
    lines (c :: rest) = ⟨[], [c]⟩ :: lines rest := by
  rw [lines.eq_def]
  split
  · rename_i same
    cases same
  · rename_i same
    cases same
    exact absurd rfl (alone rfl)
  · rename_i same
    cases same
    rw [if_pos ends]

theorem lines_return (rest : List Char) :
    lines ('\r' :: '\n' :: rest) = ⟨[], ['\r', '\n']⟩ :: lines rest := rfl

theorem lines_feed (rest : List Char) : lines ('\n' :: rest) = ⟨[], ['\n']⟩ :: lines rest :=
  lines_lineEnd rfl fun same => absurd same (by decide)

/-- Any other character goes onto the front of the first line. -/
theorem lines_ink (ink : isLineEnd c = false) :
    lines (c :: rest) = match lines rest with
      | [] => [⟨[c], []⟩]
      | line :: more => line.push c :: more := by
  rw [lines.eq_def]
  split
  · rename_i same
    cases same
  · rename_i same
    cases same
    cases ink
  · rename_i same
    cases same
    exact if_neg (by simp [ink])

theorem exists_lines_lineEnd (ends : isLineEnd c = true) (rest : List Char) :
    ∃ ending others, lines (c :: rest) = ⟨[], ending⟩ :: others := by
  by_cases both : c = '\r' ∧ rest.head? = some '\n'
  · obtain ⟨rfl, feed⟩ := both
    obtain ⟨more, rfl⟩ := List.head?_eq_some_iff.mp feed
    exact ⟨_, _, lines_return more⟩
  · exact ⟨_, _, lines_lineEnd ends fun return' feed => both ⟨return', feed⟩⟩

/-- The first line of a text runs up to the first end of a line. -/
theorem head?_lines (ink : isLineEnd c = false) (rest : List Char) :
    ((lines (c :: rest)).head?).map Line.text =
      some (c :: rest.takeWhile fun d => !isLineEnd d) := by
  induction rest generalizing c with
  | nil =>
      rw [lines_ink ink]
      rfl
  | cons d more ih =>
      rw [lines_ink ink]
      cases ends : isLineEnd d with
      | true =>
          obtain ⟨ending, others, first⟩ := exists_lines_lineEnd ends more
          simp [first, ends, Line.push]
      | false =>
          obtain ⟨line, first, text⟩ := Option.map_eq_some_iff.mp (ih ends)
          obtain ⟨others, found⟩ := List.head?_eq_some_iff.mp first
          simp [found, ends, Line.push, text]

/-- **An editor's line is a line of the lexer**, up to a character in front of which only
line feeds end lines; from there on it runs up to the first end of a line. -/
theorem lines_getElem? (feeds : feedsOnly front = true) (ink : isLineEnd c = false) :
    ((lines (front ++ c :: rest))[front.count '\n']?).map Line.text =
      some (lastLine front ++ c :: rest.takeWhile fun d => !isLineEnd d) := by
  fun_induction feedsOnly front with
  | case1 =>
      rw [List.nil_append, List.count_nil, ← List.head?_eq_getElem?]
      exact head?_lines ink rest
  | case2 front ih =>
      have last : lastLine ('\r' :: '\n' :: front) = lastLine front := by
        rw [lastLine, if_pos (by simp), lastLine_feed]
      rw [last, ← ih feeds, List.cons_append, List.cons_append, lines_return,
        List.count_cons_of_ne (by decide), List.count_cons_self, List.getElem?_cons_succ]
  | case3 d front alone ih =>
      rw [Bool.and_eq_true, Bool.or_eq_true, Bool.not_eq_true', beq_iff_eq] at feeds
      obtain ⟨lineEnd, feeds⟩ := feeds
      specialize ih feeds
      by_cases feed : d = '\n'
      · subst feed
        rw [lastLine_feed, List.count_cons_self, List.cons_append, lines_feed,
          List.getElem?_cons_succ, ih]
      · have inside := lineEnd.resolve_right feed
        obtain ⟨found, here, text⟩ := Option.map_eq_some_iff.mp ih
        rw [List.cons_append, lines_ink inside, List.count_cons_of_ne feed]
        -- the character is in front of the line that is looked at, or on it
        cases first : lines (front ++ c :: rest) with
        | nil => simp [first] at here
        | cons line others =>
            rw [first] at here
            by_cases later : '\n' ∈ front
            · obtain ⟨n, more⟩ := Nat.exists_eq_add_one.mpr (List.count_pos_iff.mpr later)
              rw [more, List.getElem?_cons_succ] at here
              rw [more, List.getElem?_cons_succ, here, Option.map_some, text, lastLine,
                if_pos (List.mem_cons_of_mem d later)]
            · have oneLine : '\n' ∉ d :: front := by simp [later, Ne.symm feed]
              rw [List.count_eq_zero.mpr later, List.getElem?_cons_zero] at here
              cases here
              rw [lastLine_eq_self later] at text
              rw [List.count_eq_zero.mpr later, lastLine_eq_self oneLine]
              simp [Line.push, text]

end Text

end TernLang
