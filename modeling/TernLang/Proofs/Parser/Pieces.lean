import TernLang.Proofs.Parser.Completeness.Statement
import TernLang.Proofs.Parser.Excerpt.Statement
import TernLang.Proofs.Parser.Soundness.Statement

/-! # The pieces of a program

A piece of a program `Stands` for some statements and some mistakes if that is what
parsing makes of it wherever it stands. Pieces that stand for something can be put
together (`Stands.append`), in a block (`Stands.block`), and in front of any other tokens
(`Stands.parse_append`).

**A token list that is accepted on its own stands for its statements**
(`Accepted.stands`), if no `else` follows it.
-/

namespace TernLang

open Grammar

namespace Parse

/-- A declaration in front of others. -/
theorem declarations_cons {inBlock : Bool} {decl : Parse (Option Stmt)} {passes : Nat}
    {c d e : Cursor} {result : Option Stmt} {others : List Stmt}
    (more : c.peek.kind ≠ .endOfInput) (inner : inBlock = true → c.peek.kind ≠ .symbol .rightBrace)
    (first : decl c = .ok result d) (rest : declarations inBlock decl passes d = .ok others e) :
    declarations inBlock decl (passes + 1) c = .ok (result.toList ++ others) e := by
  refine peek_bind ?_
  rw [if_neg (by simpa using ⟨more, inner⟩)]
  exact bind_of_ok first (bind_of_ok rest rfl)

/-- One declaration after the other is read, up to some place. -/
inductive Steps (inBlock : Bool) (decl : Parse (Option Stmt)) :
    Cursor → List Stmt → Cursor → Prop
  | here {c} : Steps inBlock decl c [] c
  | step {c d e stmt stmts} : c.peek.kind ≠ .endOfInput →
      (inBlock = true → c.peek.kind ≠ .symbol .rightBrace) → decl c = .ok stmt d →
      d.rest.length < c.rest.length → Steps inBlock decl d stmts e →
      Steps inBlock decl c (stmt.toList ++ stmts) e

namespace Steps

variable {inBlock : Bool} {decl : Parse (Option Stmt)} {c d e : Cursor} {stmts others : List Stmt}

theorem trans (first : Steps inBlock decl c stmts d) (second : Steps inBlock decl d others e) :
    Steps inBlock decl c (stmts ++ others) e := by
  induction first with
  | here => exact second
  | step more inner run less _ ih =>
      rw [List.append_assoc]
      exact .step more inner run less (ih second)

/-- The loop over declarations goes on where the steps have ended. -/
theorem declarations (steps : Steps inBlock decl c stmts d) {n : Nat} (enough : c.rest.length ≤ n) :
    ∃ i, d.rest.length ≤ i ∧ ∀ {others e}, Parse.declarations inBlock decl i d = .ok others e →
      Parse.declarations inBlock decl n c = .ok (stmts ++ others) e := by
  induction steps generalizing n with
  | here => exact ⟨n, enough, fun run => run⟩
  | @step c d e stmt stmts more inner run less _ ih =>
      obtain ⟨n, rfl⟩ := Nat.exists_eq_add_of_le' (show 1 ≤ n by omega)
      obtain ⟨i, enough, rest⟩ := ih (show d.rest.length ≤ n by omega)
      refine ⟨i, enough, fun final => ?_⟩
      rw [List.append_assoc]
      exact declarations_cons more inner run (rest final)

end Steps

/-- Wherever the tokens stand, reading them gives the statements and notes the mistakes.
What is behind them, and the number of blocks around them, must satisfy `follow`. -/
def Stands (room : Nat) (tokens : List Token) (stmts : List Stmt) (errors : List SyntaxError)
    (follow : Nat → List Token → Prop) : Prop :=
  ∀ (size : Nat) (c : Cursor) (tail : List Token) (inBlock : Bool), c.rest = tokens ++ tail →
    c.rest.length ≤ size → follow c.openBlocks tail →
    ∃ last, Steps inBlock (declaration size room) c stmts
      ⟨tail, last, c.errors ++ errors.toArray, c.openBlocks⟩

/-- Anything but an `else` follows. -/
def Apart (_ : Nat) (tail : List Token) : Prop :=
  ∀ token others, tail = token :: others → token.kind ≠ .keyword .elseKw

/-- The brace that closes the open block follows, on the given line. -/
def Enclosed (line blocks : Nat) (tail : List Token) : Prop :=
  0 < blocks ∧ ∃ others, tail = sym .rightBrace line :: others

/-- What encloses a body can follow any part of it. -/
theorem Enclosed.apart {line blocks : Nat} {tail : List Token}
    (enclosed : Enclosed line blocks tail) : Apart blocks tail := by
  obtain ⟨-, others, rfl⟩ := enclosed
  intro token rest same
  cases same
  nofun

section Stands

variable {room : Nat} {tokens others : List Token} {stmts stmts' : List Stmt}
  {errors errors' : List SyntaxError} {follow follow' : Nat → List Token → Prop}

/-- A part that stands before something stands before what is less. -/
theorem Stands.weaken (stands : Stands room tokens stmts errors follow)
    (stronger : ∀ blocks tail, follow' blocks tail → follow blocks tail) :
    Stands room tokens stmts errors follow' :=
  fun size c tail inBlock rest enough follows =>
    stands size c tail inBlock rest enough (stronger _ _ follows)

theorem Stands.append (first : Stands room tokens stmts errors follow)
    (second : Stands room others stmts' errors' follow')
    (behind : ∀ blocks tail, follow' blocks tail → follow blocks (others ++ tail)) :
    Stands room (tokens ++ others) (stmts ++ stmts') (errors ++ errors') follow' := by
  intro size c tail inBlock rest enough follows
  rw [List.append_assoc] at rest
  obtain ⟨last, steps⟩ := first size c _ inBlock rest enough (behind _ _ follows)
  rw [rest, List.length_append] at enough
  obtain ⟨last', steps'⟩ := second size
    ⟨others ++ tail, last, c.errors ++ errors.toArray, c.openBlocks⟩ tail inBlock rfl
    (Nat.le_trans (Nat.le_add_left _ _) enough) follows
  refine ⟨last', ?_⟩
  have joined : c.errors ++ (errors ++ errors').toArray =
      c.errors ++ errors.toArray ++ errors'.toArray := by simp
  rw [joined]
  exact steps.trans steps'

theorem stands_nil : Stands room [] [] [] follow := by
  intro size c tail inBlock rest _ _
  refine ⟨c.last, ?_⟩
  have same : (⟨tail, c.last, c.errors ++ ([] : List SyntaxError).toArray, c.openBlocks⟩ : Cursor) =
      c := by
    cases c
    simp_all
  rw [same]
  exact .here

/-- What is left outside of all blocks is parsed as on its own. -/
theorem declarations_whole (enough : 5 ≤ room) {size i : Nat} {d : Cursor} (outside : d.openBlocks = 0)
    (short : d.rest.length ≤ size) (fits : d.rest.length ≤ i) :
    ∃ e, declarations false (declaration size room) i d =
        .ok (parse room d.rest).statements e ∧
      e.errors = d.errors ++ (parse room d.rest).errors.toArray := by
  obtain ⟨trees, e, alone⟩ := declarations_ok (declaration_ok d.rest.length enough) false
    d.rest.length (Cursor.start d.rest)
  rw [parse_of_ok alone]
  by_cases none : d.rest = []
  · have ended : d.peek.kind = .endOfInput := by rw [Cursor.peek, none]
    rw [none] at alone
    cases alone
    exact ⟨d, declarations_stop (by simp [ended]), by simp [Cursor.start]⟩
  · let E : Excerpt := ⟨[], d.errors, 0⟩
    have shows' : E.Shows d.rest.length (Cursor.start d.rest) d :=
      ⟨(List.append_nil _).symm, .inr none, Array.append_empty.symm, outside, Nat.le_refl _⟩
    have recovers : Recovers E d.rest.length (declaration d.rest.length room)
        (declaration size room) := by
      refine declaration_recovers ⟨Nat.le_refl _, short⟩ ?_ room
      intro token others tail
      cases tail
    have follows := declarations_follows recovers false (Nat.le_refl _) (Nat.le_refl _) fits shows'
      (.inr rfl)
    have agree := (follows.resolve_left fun ended => ended.1 rfl).resolve_left
      fun excused => excused.1 ⟨rfl, rfl⟩
    rw [alone] at agree
    generalize declarations false (declaration size room) i d = result at agree
    cases agree with
    | ok _ shown => exact ⟨_, rfl, shown.errors⟩

/-- A piece is parsed alike in front of any tokens that may follow it. -/
theorem Stands.parse_append (stands : Stands room tokens stmts errors follow)
    (follows : follow 0 others) (enough : 5 ≤ room) :
    parse room (tokens ++ others) =
      ⟨stmts ++ (parse room others).statements, errors ++ (parse room others).errors⟩ := by
  let start := Cursor.start (tokens ++ others)
  obtain ⟨last, steps⟩ := stands _ start others false rfl (Nat.le_refl _) follows
  obtain ⟨i, fits, rest⟩ := steps.declarations (Nat.le_refl _)
  have short : others.length ≤ (tokens ++ others).length := by simp
  obtain ⟨e, run, noted⟩ := declarations_whole enough (d := ⟨others, last, _, 0⟩) rfl short fits
  have parsed : parse room (tokens ++ others) = ⟨_, e.errors.toList⟩ := parse_of_ok (rest run)
  rw [parsed, noted]
  simp [start, Cursor.start]

/-- A piece is parsed to what it stands for. -/
theorem Stands.parse_eq (stands : Stands room tokens stmts errors follow) (follows : follow 0 [])
    (enough : 5 ≤ room) : parse room tokens = ⟨stmts, errors⟩ := by
  obtain ⟨room, rfl⟩ := Nat.exists_eq_add_of_le' enough
  have parsed := stands.parse_append follows enough
  have nothing : parse (room + 5) [] = ⟨[], []⟩ := rfl
  simpa [nothing] using parsed

/-! ## Pieces that are accepted -/

/-- The tokens hold no end of input, and are parsed without a mistake. -/
structure Accepted (room : Nat) (tokens : List Token) : Prop where
  inner : ∀ token ∈ tokens, token.kind ≠ .endOfInput
  clean : (parse room tokens).errors = []

end Stands

section Accepted

variable {E : Excerpt} {m k size size' room : Nat} {inBlock : Bool}

/-- Declarations that are read without a mistake are read alike where they stand. -/
theorem steps_of_declarations (fits : E.Fits m size size') (separate : E.Separate) {n : Nat}
    {c d e : Cursor} {stmts : List Stmt}
    (run : declarations false (declaration size room) n c = .ok stmts e)
    (clean : e.errors.size ≤ c.errors.size) (bound : k ≤ m) (shows' : E.Shows k c d) (enough : k ≤ n) :
    ∃ d', Steps inBlock (declaration size' room) d stmts d' ∧ E.Shows k e d' ∧
      e.peek.kind = .endOfInput := by
  have recovers := declaration_recovers fits separate room
  have part := fits.part
  induction n generalizing k c d stmts with
  | zero =>
      have left : c.rest = [] := List.eq_nil_of_length_eq_zero (by have := shows'.short; omega)
      obtain ⟨rfl, rfl⟩ := of_pure_ok run
      exact ⟨d, .here, shows', by rw [Cursor.peek, left]⟩
  | succ n ih =>
      obtain ⟨stops, rfl, rfl⟩ | ⟨⟨more, -⟩, stmt, others, c', first, rest, rfl⟩ :=
        of_declarations_ok run
      · exact ⟨d, .here, shows', by simpa using stops⟩
      · have grows := recovers.travels.size_le first
        have grows' := (declarations_travels recovers.travels false n).size_le rest
        have short := shows'.short
        -- the declaration is one of the grammar, so it does not start with a brace
        obtain ⟨tokens, reads, tree, rfl, phrase⟩ :=
          declaration_yields size room _ _ _ first (by omega) (by omega)
        obtain ⟨token, others', rfl, begins⟩ := phrase.head
        have notBrace : c.peek.kind ≠ .symbol .rightBrace := by
          rw [reads.peek_eq]
          exact begins.notBrace
        have less := reads.length_eq
        rw [List.length_cons] at less
        have agree := (recovers.run k bound c d shows').resolve_left <| by
          rintro ⟨-, mistaken⟩
          rw [first] at mistaken
          exact absurd mistaken (by simp only [Mistaken]; omega)
        rw [first] at agree
        generalize inside : declaration size' room d = result at agree
        cases agree with
        | @ok _ d' _ shown =>
            obtain ⟨k, rfl, -⟩ := shows'.read more
            have shown' : E.Shows k c' d' := { shown with short := by omega }
            obtain ⟨d'', steps, shown'', atEnd⟩ := ih rest (by omega) (by omega) shown' (by omega)
            have peeked := shows'.peek (.inr (by rw [reads.rest]; simp))
            refine ⟨d'', .step ?_ ?_ inside ?_ steps, shown''.mono (Nat.le_succ k), atEnd⟩
            · rwa [peeked]
            · rw [peeked]
              exact fun _ => notBrace
            · rw [shown.rest, shows'.rest, List.length_append, List.length_append]
              omega

/-- An end of input that is none of the tokens comes behind all of them. -/
theorem rest_eq_nil {tokens : List Token} {e : Cursor}
    (inner : ∀ token ∈ tokens, token.kind ≠ .endOfInput) (read : ∃ read, tokens = read ++ e.rest)
    (atEnd : e.peek.kind = .endOfInput) : e.rest = [] := by
  obtain ⟨read, rfl⟩ := read
  cases ahead : e.rest with
  | nil => rfl
  | cons token others =>
      have first : e.peek = token := by rw [Cursor.peek, ahead]
      exact absurd atEnd (first ▸ inner token (by simp [ahead]))

/-- An accepted piece is a list of declarations of the grammar. -/
theorem Accepted.declarations {tokens : List Token} (accepted : Accepted room tokens)
    (enough : 5 ≤ room) : Declarations tokens (parse room tokens).statements := by
  obtain ⟨stmts, e, run⟩ := declarations_ok (declaration_ok tokens.length enough) false
    tokens.length (Cursor.start tokens)
  have clean := accepted.clean
  rw [parse_of_ok run] at clean ⊢
  obtain ⟨read, reads, phrases, ending⟩ := declarations_yields
    (declaration_travels tokens.length room) (declaration_yields tokens.length room) false
    tokens.length run (by simpa [Cursor.start] using clean) (Nat.le_refl _) (Nat.le_refl _)
  have left : e.rest = [] :=
    rest_eq_nil accepted.inner ⟨read, reads.rest⟩ (by simpa using ending)
  have all : tokens = read ++ e.rest := reads.rest
  rwa [all, left, List.append_nil]

/-- **An accepted piece stands for its statements**, unless an `else` follows it. -/
theorem Accepted.stands {tokens : List Token} (accepted : Accepted room tokens) (enough : 5 ≤ room) :
    Stands room tokens (parse room tokens).statements [] Apart := by
  intro size d tail inBlock rest short apart
  obtain ⟨stmts, e, run⟩ := declarations_ok (declaration_ok tokens.length enough) false
    tokens.length (Cursor.start tokens)
  have clean := accepted.clean
  rw [parse_of_ok run] at clean ⊢
  by_cases none : tokens = []
  · subst none
    cases run
    exact stands_nil size d tail inBlock rest short apart
  · let E : Excerpt := ⟨tail, d.errors, d.openBlocks⟩
    have shows' : E.Shows tokens.length (Cursor.start tokens) d :=
      ⟨rest, .inr none, Array.append_empty.symm, (Nat.zero_add _).symm, Nat.le_refl _⟩
    have fits : E.Fits tokens.length tokens.length size :=
      ⟨Nat.le_refl _, by rw [rest, List.length_append] at short; exact short⟩
    have noMistake : e.errors = #[] := by simpa using clean
    have moves := (declarations_travels (declaration_travels _ room) false _).ok run
    obtain ⟨d', steps, shown, atEnd⟩ := steps_of_declarations fits apart run (by simp [noMistake])
      (Nat.le_refl _) shows' (Nat.le_refl _)
    refine ⟨d'.last, ?_⟩
    have left : e.rest = [] := rest_eq_nil accepted.inner moves.suffix atEnd
    have reached := shown.eq_mk
    rw [left, noMistake, moves.openBlocks] at reached
    rw [reached] at steps
    simpa [E, Cursor.start] using steps

end Accepted

/-! ## Blocks -/

section Block

variable {room : Nat} {body : List Token} {stmts : List Stmt} {errors : List SyntaxError}

/-- A body is read up to the brace that closes the block. -/
theorem Stands.block {line : Nat} (stands : Stands room body stmts errors (Enclosed line))
    (size : Nat) {c : Cursor} {tail : List Token} (rest : c.rest = body ++ sym .rightBrace line :: tail)
    (enough : c.rest.length ≤ size) :
    Parse.block size (room + 1) c = .ok stmts
      ⟨tail, some (sym .rightBrace line), c.errors ++ errors.toArray, c.openBlocks⟩ := by
  obtain ⟨last, steps⟩ := stands size { c with openBlocks := c.openBlocks + 1 }
    (sym .rightBrace line :: tail) true rest enough ⟨Nat.succ_pos _, tail, rfl⟩
  obtain ⟨i, -, loop⟩ := steps.declarations enough
  have inside := insideBlock_run_ok (loop (declarations_stop rfl))
  rw [List.append_nil] at inside
  exact bind_of_ok inside rfl

end Block

end Parse

end TernLang
