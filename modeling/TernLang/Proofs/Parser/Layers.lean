import TernLang.Proofs.Nodes
import TernLang.Proofs.Parser.Gap
import TernLang.Proofs.Parser.Tasks

/-! # What is around a block

A block of a program is in a statement: it is the statement itself, or the body of a
function, a branch of an `if` or the body of a loop, or in one of them that is part of the
statement in turn. An `Opening` says how. What is around the block in the whole program is
a list of `Layer`s, from the statements of the program to those next to the block.

**The block of a gap is in some layers that depend on nothing in it**
(`declarations_surround`): whatever body is put into the gap, the program is parsed to the
statements of the body in these layers, and to the mistakes of the body. Each layer costs
some room, so that the body is parsed with less room than the program.
-/

namespace TernLang

/-- How a block stands in a statement. -/
inductive Opening where
  | block (line : Nat)
  | function (name : String) (params : List String) (line : Nat)
  | thenBranch (condition : Expr) (inner : Opening) (elseBranch : Option Stmt) (line : Nat)
  | elseBranch (condition : Expr) (thenBranch : Stmt) (inner : Opening) (line : Nat)
  | whileBody (condition : Expr) (inner : Opening) (line : Nat)
  | forBody (initial : Option Stmt) (condition : Expr) (advance : Option Expr) (inner : Opening)
      (line : Nat)

namespace Opening

/-- The statement, with the given statements in the block. -/
def tree : Opening → List Stmt → Stmt
  | block line, body => .block body line
  | function name params line, body => .funDecl name params body line
  | thenBranch condition inner other line, body => .ifElse condition (inner.tree body) other line
  | elseBranch condition first inner line, body =>
      .ifElse condition first (some (inner.tree body)) line
  | whileBody condition inner line, body => .whileLoop condition (inner.tree body) line
  | forBody initial condition advance inner line, body =>
      .forLoop initial condition advance (inner.tree body) line

/-- How much less room there is for a declaration in the block than for the statement. -/
def cost : Opening → Nat
  | block _ | function _ _ _ => 3
  | thenBranch _ inner _ _ | elseBranch _ _ inner _ | whileBody _ inner _
  | forBody _ _ _ inner _ => inner.cost + 2

end Opening

/-- A statement around a block, with the statements before and after it. -/
structure Layer where
  before : List Stmt
  opening : Opening
  after : List Stmt

/-- The statements of a layer, with the given ones in its block. -/
def Layer.around (layer : Layer) (body : List Stmt) : List Stmt :=
  layer.before ++ layer.opening.tree body :: layer.after

/-- The statements of some layers around those of a body, the outermost layer first. -/
def enclose (layers : List Layer) (body : List Stmt) : List Stmt :=
  layers.foldr Layer.around body

/-- How much less room there is inside of the layers. -/
def layersCost : List Layer → Nat
  | [] => 0
  | layer :: layers => layer.opening.cost + layersCost layers

/-- The nodes of the statement around a body pay for the body and for the way to it. -/
theorem Opening.cost_le (opening : Opening) (body : List Stmt) :
    opening.cost + 3 * (Stmt.nodesAll body).length ≤ 3 * (opening.tree body).nodes.length := by
  induction opening with
  | block | function =>
      simp only [cost, tree, Stmt.nodes, List.length_cons]
      omega
  | thenBranch condition inner elseBranch line ih
  | elseBranch condition thenBranch inner line ih =>
      simp only [cost, tree, Stmt.nodes, Stmt.nodesOption, List.length_cons, List.length_append]
      omega
  | whileBody condition inner line ih =>
      simp only [cost, tree, Stmt.nodes, List.length_cons, List.length_append]
      omega
  | forBody initial condition advance inner line ih =>
      cases initial <;>
        simp only [cost, tree, Stmt.forLoop, Option.toList, List.nil_append, List.cons_append,
          Stmt.nodes, Stmt.nodesAll, List.length_cons, List.length_append] <;>
        omega

/-- So do the nodes of the statements of a layer. -/
theorem Layer.cost_le (layer : Layer) (body : List Stmt) :
    layer.opening.cost + 3 * (Stmt.nodesAll body).length ≤
      3 * (Stmt.nodesAll (layer.around body)).length := by
  have inside := layer.opening.cost_le body
  simp only [around]
  induction layer.before with
  | nil =>
      simp only [List.nil_append, Stmt.nodesAll, List.length_append]
      omega
  | cons stmt before ih =>
      simp only [List.cons_append, Stmt.nodesAll, List.length_append]
      omega

/-- The layers around a block cost three units at most for each node of the program. -/
theorem layersCost_le (layers : List Layer) (body : List Stmt) :
    layersCost layers ≤ 3 * (Stmt.nodesAll (enclose layers body)).length := by
  induction layers with
  | nil => exact Nat.zero_le _
  | cons layer layers ih =>
      have outer := layer.cost_le (enclose layers body)
      simp only [layersCost, enclose, List.foldr_cons] at ih outer ⊢
      omega

namespace Parse

open Grammar

namespace Gap

variable {gap : Gap} {inner n room : Nat} {body tokens : List Token} {c d e : Cursor}

/-- The cursor is behind an opening brace: the one of the gap, or one in front of it. -/
def Opened (gap : Gap) (c : Cursor) : Prop :=
  gap.Ahead c ∨ (c.rest = sym .rightBrace gap.closing :: gap.behind ∧ c.errors = #[])

/-- The two cursors are at the same place, in front of the gap or at its start. -/
inductive Enters (gap : Gap) (body : List Token) (c d : Cursor) : Prop
  | ahead : gap.Faces body c d → Enters gap body c d
  | inside : c.rest = sym .rightBrace gap.closing :: gap.behind →
      d.rest = body ++ sym .rightBrace gap.closing :: gap.behind → c.errors = #[] →
      d.errors = #[] → d.openBlocks = c.openBlocks → Enters gap body c d

/-- With a body in the gap that stands for some statements in the given room, the step
gives `value` of these statements, and notes the mistakes of the body. It ends where it
ends without the body. -/
def Fills (gap : Gap) (inner : Nat) {α : Type} (step : Nat → Parse α) (value : List Stmt → α)
    (c e : Cursor) : Prop :=
  ∀ {body : List Token} {stmts : List Stmt} {errors : List SyntaxError},
    Stands inner body stmts errors (Enclosed gap.closing) → ∀ {size : Nat} {d : Cursor},
    gap.Enters body c d → d.rest.length ≤ size →
    ∃ e', step size d = .ok (value stmts) e' ∧
      (Excerpt.noted errors.toArray).Shows e.rest.length e e'

/-- The step reads a statement around the gap. -/
def Surrounds (gap : Gap) (room : Nat) (step : Nat → Parse Stmt) (c : Cursor) (tree : Stmt)
    (e : Cursor) : Prop :=
  ∃ (opening : Opening) (layers : List Layer) (inner : Nat),
    room = inner + (opening.cost + layersCost layers) ∧ tree = opening.tree (enclose layers []) ∧
    gap.Fills inner step (fun body => opening.tree (enclose layers body)) c e

/-! ## Reading up to the gap -/

/-- A gap still ahead has not been entered. -/
theorem Ahead.not_inside (ahead : gap.Ahead c) :
    c.rest ≠ sym .rightBrace gap.closing :: gap.behind := by
  intro rest
  have long := ahead.length_le
  simp only [rest, holding, List.nil_append, List.length_cons] at long
  omega

theorem Enters.faces (enters : gap.Enters body c d) (ahead : gap.Ahead c) :
    gap.Faces body c d := by
  cases enters with
  | ahead faces => exact faces
  | inside rest => exact absurd rest ahead.not_inside

theorem Faces.advance_of (faces : gap.Faces body c d) (ahead : gap.Ahead c.advance) :
    gap.Faces body c.advance d.advance :=
  faces.advance.resolve_left (Nat.not_lt.mpr ahead.length_le)

/-- What is read in front of the gap is read where a body is ahead. -/
theorem Faces.reads (faces : gap.Faces body c d) (reads : c.Reads tokens e)
    (ahead : gap.Ahead e) : ∃ e', d.Reads tokens e' ∧ gap.Faces body e e' := by
  obtain ⟨front, rest, rest'⟩ := faces.front
  obtain ⟨others, left⟩ := ahead.front
  rw [reads.rest, left, ← List.append_assoc, List.append_cancel_right_eq] at rest
  subst rest
  refine ⟨⟨others ++ gap.holding body, tokens.getLast?.or d.last, d.errors, d.openBlocks⟩,
    ⟨by rw [rest', List.append_assoc], rfl, rfl, rfl⟩, ⟨others, left, rfl⟩, ahead.clean,
    faces.clean', faces.blocks.trans reads.openBlocks.symm⟩

/-- An opening brace that is read in front of the gap, or is its own. -/
theorem Ahead.opened {line : Nat} (ahead : gap.Ahead c) (reads : c.Reads [sym .leftBrace line] e) :
    gap.Opened e := by
  obtain ⟨front, rest⟩ := ahead.front
  have clean := reads.errors.trans ahead.clean
  rw [reads.rest] at rest
  cases front with
  | nil => exact .inr ⟨(List.cons.inj rest).2, clean⟩
  | cons token front => exact .inl ⟨⟨front, (List.cons.inj rest).2⟩, clean⟩

/-- The brace in front of the gap leads both cursors into it. -/
theorem Faces.enters {line : Nat} (faces : gap.Faces body c d)
    (reads : c.Reads [sym .leftBrace line] e) :
    ∃ e', d.Reads [sym .leftBrace line] e' ∧ gap.Enters body e e' := by
  obtain ⟨front, rest, rest'⟩ := faces.front
  have clean := reads.errors.trans faces.clean
  have blocks := faces.blocks.trans reads.openBlocks.symm
  rw [reads.rest] at rest
  cases front with
  | nil =>
      obtain ⟨same, left⟩ := List.cons.inj rest
      refine ⟨⟨body ++ sym .rightBrace gap.closing :: gap.behind, some (sym .leftBrace line),
        d.errors, d.openBlocks⟩, ⟨?_, rfl, rfl, rfl⟩, ?_⟩
      · rw [rest', same]
        rfl
      · exact .inside left rfl clean faces.clean' blocks
  | cons token front =>
      obtain ⟨rfl, left⟩ := List.cons.inj rest
      refine ⟨⟨front ++ gap.holding body, some (sym .leftBrace line), d.errors, d.openBlocks⟩,
        ⟨rest', rfl, rfl, rfl⟩, ?_⟩
      exact .ahead ⟨⟨front, left, rfl⟩, clean, faces.clean', blocks⟩

/-- A step that does the same from the same token surrounds the gap alike. -/
theorem Surrounds.congr {step step' : Nat → Parse Stmt} {tree : Stmt}
    (surrounds : gap.Surrounds room step' c tree e) (ahead : gap.Ahead c)
    (same : ∀ size d, d.peek = c.peek → step size d = step' size d) :
    gap.Surrounds room step c tree e := by
  obtain ⟨opening, layers, inner, cost, rfl, fills⟩ := surrounds
  refine ⟨opening, layers, inner, cost, rfl, ?_⟩
  intro body stmts errors stands size d enters fits
  rw [same size d (enters.faces ahead).peek]
  exact fills stands enters fits

/-- A step that reads a token first surrounds the gap as it does one token on. -/
theorem Surrounds.behind {step step' : Nat → Parse Stmt} {tree : Stmt}
    (surrounds : gap.Surrounds room step' c.advance tree e) (ahead : gap.Ahead c)
    (ahead' : gap.Ahead c.advance)
    (same : ∀ size d, d.peek = c.peek → step size d = step' size d.advance) :
    gap.Surrounds room step c tree e := by
  obtain ⟨opening, layers, inner, cost, rfl, fills⟩ := surrounds
  refine ⟨opening, layers, inner, cost, rfl, ?_⟩
  intro body stmts errors stands size d enters fits
  have faces := enters.faces ahead
  have shorter := (Cursor.Moves.read .here : d.Moves d.advance).length_le
  rw [same size d faces.peek]
  exact fills stands (.ahead (faces.advance_of ahead')) (Nat.le_trans shorter fits)

/-! ## Heads and branches -/

section Branches

variable {q : Nat → Parse Expr} {branch : Nat → Parse Stmt} {line : Nat} {tree : Stmt}

/-- The head of an `if` or a `while` is read in front of the gap. -/
theorem Ahead.condition {opening closing : Expectation} {value : Expr} {p : Parse Expr}
    (ahead : gap.Ahead c) (yields : Yields n p (Expression .assignment))
    (run : Parse.condition p opening closing c = .ok value e) (clean : e.errors = #[])
    (fits : c.rest.length ≤ n) : gap.Ahead e ∧ e.rest.length ≤ c.rest.length := by
  obtain ⟨_, reads, paren, inner, close, phrase, rfl⟩ :=
    condition_yields yields _ _ _ _ _ run (by simp [clean]) fits
  have shorter := reads.length_eq
  exact ⟨ahead.reads reads (by simpa using phrase.braceless), by omega⟩

/-- What is known of the branches of a statement. -/
structure Branch (gap : Gap) (n room : Nat) (branch : Nat → Parse Stmt) : Prop where
  comparable : Comparable branch
  yields : YieldsStatement n (branch n)
  surrounds {c e : Cursor} {tree : Stmt} : branch n c = .ok tree e → gap.Ahead c → gap.Passed e →
    c.rest.length ≤ n → gap.Surrounds (room + 1) branch c tree e

theorem Branch.travels (known : gap.Branch n room branch) : (branch n).Travels :=
  (known.comparable.agrees gap [] n).travels

/-- A while loop that ends behind the gap has it in its body. -/
theorem whileStmt_surrounds (comparable : Comparable q)
    (value : Yields n (q n) (Expression .assignment)) (known : gap.Branch n room branch)
    (run : whileStmt (q n) (branch n) line c = .ok tree e) (ahead : gap.Ahead c)
    (passed : gap.Passed e) (fits : c.rest.length ≤ n) :
    gap.Surrounds (room + 3) (fun size => whileStmt (q size) (branch size) line) c tree e := by
  obtain ⟨test, body, e₁, head, bodyRun, rfl⟩ := of_whileStmt_ok run
  have clean := (known.travels.ok bodyRun).clean passed.clean
  obtain ⟨ahead', shorter⟩ := ahead.condition value head clean fits
  have fits₁ := Nat.le_trans shorter fits
  obtain ⟨opening, layers, inner, cost, rfl, fills⟩ :=
    known.surrounds bodyRun ahead' passed fits₁
  refine ⟨.whileBody test opening line, layers, inner, ?_, rfl, ?_⟩
  · simp only [Opening.cost]
    omega
  · intro body stmts errors stands size d enters fits'
    obtain ⟨d₁, headed, faces, fits₁'⟩ :=
      (comparable.condition _ _).run_ahead head (enters.faces ahead) ahead' fits fits'
    obtain ⟨e', ran, shown⟩ := fills stands (.ahead faces) fits₁'
    refine ⟨e', (congrFun whileStmt_eq d).trans ?_, shown⟩
    exact bind_of_ok headed (bind_of_ok ran rfl)

theorem forStmt_surrounds (known : gap.Branch n room branch)
    (run : forStmt n room (branch n) line c = .ok tree e) (ahead : gap.Ahead c)
    (passed : gap.Passed e) (fits : c.rest.length ≤ n) :
    gap.Surrounds (room + 3) (fun size => forStmt size room (branch size) line) c tree e := by
  obtain ⟨initial, value, advance, body, e₁, head, bodyRun, rfl⟩ := of_forStmt_ok run
  have clean := (known.travels.ok bodyRun).clean passed.clean
  obtain ⟨_, reads, paren, first, test, given, semicolon, change, close, firstPhrase, testPhrase, -,
    changePhrase, rfl⟩ := forClauses_yields n room _ _ _ head (by simp [clean]) fits
  have shorter := reads.length_eq
  have ahead' := ahead.reads reads (by
    simpa using ⟨firstPhrase.braceless, testPhrase.braceless, changePhrase.braceless⟩)
  obtain ⟨opening, layers, inner, cost, rfl, fills⟩ :=
    known.surrounds bodyRun ahead' passed (by omega)
  refine ⟨.forBody initial value advance opening line, layers, inner, ?_, rfl, ?_⟩
  · simp only [Opening.cost]
    omega
  · intro body stmts errors stands size d enters fits'
    obtain ⟨d₁, headed, faces, fits₁'⟩ :=
      (Comparable.forClauses room).run_ahead head (enters.faces ahead) ahead' fits fits'
    obtain ⟨e', ran, shown⟩ := fills stands (.ahead faces) fits₁'
    refine ⟨e', (congrFun forStmt_eq d).trans ?_, shown⟩
    exact bind_of_ok headed (bind_of_ok ran rfl)

/-- The gap is in the first branch of an `if`, or in the second one. -/
theorem ifStmt_surrounds (comparable : Comparable q)
    (value : Yields n (q n) (Expression .assignment)) (known : gap.Branch n room branch)
    (run : ifStmt (q n) (branch n) line c = .ok tree e) (ahead : gap.Ahead c)
    (passed : gap.Passed e) (fits : c.rest.length ≤ n) :
    gap.Surrounds (room + 3) (fun size => ifStmt (q size) (branch size) line) c tree e := by
  obtain ⟨test, thenBranch, e₁, e₂, head, thenRun, other⟩ := of_ifStmt_ok run
  have moves : e₂.Moves e := by
    obtain ⟨-, rfl, -⟩ | ⟨_, _, -, elseRun, -⟩ := other
    · exact .here
    · exact .read (known.travels.ok elseRun)
  have clean₂ := moves.clean passed.clean
  have clean₁ := (known.travels.ok thenRun).clean clean₂
  obtain ⟨ahead₁, shorter₁⟩ := ahead.condition value head clean₁ fits
  have fits₁ := Nat.le_trans shorter₁ fits
  obtain ⟨dangling, tokens, reads, phrase, -⟩ :=
    known.yields _ _ _ thenRun (by simp [clean₂]) fits₁
  have shorter := reads.length_eq
  -- the first branch ends in front of the gap or behind it
  rcases ahead₁.reads_closed reads (.inr phrase.ends) with ahead₂ | passed₂
  · obtain ⟨-, rfl, -⟩ | ⟨elseBranch, elseLine, readElse, elseRun, rfl⟩ := other
    · exact absurd passed ahead₂.not_passed
    · -- the gap is in the second branch, as the statement ends behind it
      have ahead₃ := ahead₂.reads readElse (by simp)
      have shorter' := readElse.length_eq
      obtain ⟨opening, layers, inner, cost, rfl, fills⟩ :=
        known.surrounds elseRun ahead₃ passed (by omega)
      refine ⟨.elseBranch test thenBranch opening line, layers, inner, ?_, rfl, ?_⟩
      · simp only [Opening.cost]
        omega
      · intro body stmts errors stands size d enters fits'
        obtain ⟨d₁, headed, faces₁, fits₁'⟩ :=
          (comparable.condition _ _).run_ahead head (enters.faces ahead) ahead₁ fits fits'
        obtain ⟨d₂, thenRan, faces₂, fits₂'⟩ :=
          known.comparable.run_ahead thenRun faces₁ ahead₂ fits₁ fits₁'
        have less := (Cursor.Moves.read .here : d₂.Moves d₂.advance).length_le
        obtain ⟨e', ran, shown⟩ :=
          fills stands (.ahead (faces₂.advance_of ahead₃)) (Nat.le_trans less fits₂')
        refine ⟨e', (congrFun ifStmt_eq d).trans ?_, shown⟩
        refine bind_of_ok headed (bind_of_ok thenRan (peek_bind ?_))
        rw [faces₂.peek, readElse.peek_eq]
        exact next_bind (bind_of_ok ran rfl)
  · obtain ⟨opening, layers, inner, cost, rfl, fills⟩ :=
      known.surrounds thenRun ahead₁ passed₂ fits₁
    -- the gap is in the first branch; a second one is read behind the gap
    have costs : ∀ given, room + 3 =
        inner + ((Opening.thenBranch test opening given line).cost + layersCost layers) := by
      intro given
      simp only [Opening.cost]
      omega
    obtain ⟨noElse, rfl, rfl⟩ | ⟨elseBranch, elseLine, readElse, elseRun, rfl⟩ := other
    · refine ⟨.thenBranch test opening none line, layers, inner, costs _, rfl, ?_⟩
      intro body stmts errors stands size d enters fits'
      obtain ⟨d₁, headed, faces₁, fits₁'⟩ :=
        (comparable.condition _ _).run_ahead head (enters.faces ahead) ahead₁ fits fits'
      obtain ⟨e', ran, shown⟩ := fills stands (.ahead faces₁) fits₁'
      refine ⟨e', (congrFun ifStmt_eq d).trans ?_, shown⟩
      refine bind_of_ok headed (bind_of_ok ran (peek_bind ?_))
      rw [shown.peek (.inl rfl)]
      generalize e.peek.kind = kind at noElse
      split
      · exact absurd rfl noElse
      · rfl
    · refine ⟨.thenBranch test opening (some elseBranch) line, layers, inner, costs _, rfl, ?_⟩
      intro body stmts errors stands size d enters fits'
      obtain ⟨d₁, headed, faces₁, fits₁'⟩ :=
        (comparable.condition _ _).run_ahead head (enters.faces ahead) ahead₁ fits fits'
      obtain ⟨d₂, ran, shown⟩ := fills stands (.ahead faces₁) fits₁'
      have faces := enters.faces ahead
      have longer := faces.length_eq
      have shorter' := readElse.length_eq
      obtain ⟨e', elseRan, shown'⟩ :=
        known.comparable.run_behind elseRun (shown.advance (.inl rfl)).tight (by omega)
          (show _ ≤ size by omega)
      refine ⟨e', (congrFun ifStmt_eq d).trans ?_, shown'⟩
      refine bind_of_ok headed (bind_of_ok ran (peek_bind ?_))
      rw [shown.peek (.inl rfl), readElse.peek_eq]
      exact next_bind (bind_of_ok elseRan rfl)

end Branches

/-! ## Declarations around the gap -/

/-- Declarations behind the gap are read where mistakes were noted before. -/
theorem declarations_run_behind {inBlock : Bool} {passes passes' size : Nat} {trees : List Stmt}
    {errors : Array SyntaxError}
    (run : declarations inBlock (declaration n room) passes c = .ok trees e)
    (shows' : (Excerpt.noted errors).Shows c.rest.length c d)
    (outside : inBlock = true ∨ c.openBlocks = 0) (fits : c.rest.length ≤ n)
    (bounded : c.rest.length ≤ passes) (fits' : c.rest.length ≤ size)
    (bounded' : c.rest.length ≤ passes') :
    ∃ e', declarations inBlock (declaration size room) passes' d = .ok trees e' ∧
      (Excerpt.noted errors).Shows e.rest.length e e' := by
  have whole : (Excerpt.noted errors).Fits c.rest.length n size := Excerpt.noted_fits fits fits'
  have recovers := declaration_recovers whole Excerpt.noted_separate room
  exact (declarations_follows recovers inBlock (Nat.le_refl _) bounded bounded' shows'
    outside).run_ok run

/-- Declarations in front of the gap are kept, and so are those behind it. -/
theorem declarations_surround {inBlock : Bool} {passes : Nat} {trees : List Stmt}
    (each : ∀ {c e : Cursor} {result : Option Stmt}, declaration n room c = .ok result e →
      gap.Ahead c → gap.Passed e → c.rest.length ≤ n →
      ∃ (tree : Stmt) (step : Nat → Parse Stmt), result = some tree ∧
        (∀ size, declaration size room = recover (step size)) ∧ gap.Surrounds room step c tree e)
    (run : declarations inBlock (declaration n room) passes c = .ok trees e) (ahead : gap.Ahead c)
    (passed : gap.Passed e) (outside : inBlock = true ∨ c.openBlocks = 0)
    (fits : c.rest.length ≤ n) (bounded : c.rest.length ≤ passes) :
    ∃ (layer : Layer) (layers : List Layer) (inner : Nat),
      room = inner + layersCost (layer :: layers) ∧ trees = enclose (layer :: layers) [] ∧
      ∀ {body : List Token} {stmts : List Stmt} {errors : List SyntaxError},
        Stands inner body stmts errors (Enclosed gap.closing) →
        ∀ {size passes : Nat} {d : Cursor}, gap.Faces body c d → d.rest.length ≤ size →
        d.rest.length ≤ passes →
        ∃ e', declarations inBlock (declaration size room) passes d =
            .ok (enclose (layer :: layers) stmts) e' ∧
          (Excerpt.noted errors.toArray).Shows e.rest.length e e' := by
  induction passes generalizing c trees with
  | zero =>
      have long := ahead.length_le
      simp only [holding, List.nil_append, List.length_cons] at long
      omega
  | succ passes ih =>
      obtain ⟨-, rfl, rfl⟩ | ⟨⟨more, notBrace⟩, result, others, e₁, first, rest, rfl⟩ :=
        of_declarations_ok run
      · exact absurd passed ahead.not_passed
      · have travels := declaration_travels n room
        have clean := ((declarations_travels travels inBlock passes).ok rest).clean passed.clean
        obtain ⟨tokens, reads, tree, rfl, phrase⟩ :=
          declaration_yields n room _ _ _ first (by simp [clean]) fits
        have shorter := reads.length_eq
        have some := List.length_pos_iff.mpr phrase.ne_nil
        have outside₁ : inBlock = true ∨ e₁.openBlocks = 0 := by rwa [reads.openBlocks]
        -- the declaration is one in front of the layer's statement, or that statement itself
        rcases ahead.reads_closed reads (.inr phrase.ends) with ahead₁ | passed₁
        · obtain ⟨layer, layers, inner, cost, rfl, fills⟩ :=
            ih rest ahead₁ outside₁ (by omega) (by omega)
          refine ⟨{ layer with before := tree :: layer.before }, layers, inner, cost, rfl, ?_⟩
          intro body stmts errors stands size passes d faces fits' bounded'
          have longer := faces.length_eq
          obtain ⟨d₁, ran₁, faces₁, fits₁⟩ :=
            (Comparable.declaration room).run_ahead first faces ahead₁ fits fits'
          have longer₁ := faces₁.length_eq
          obtain ⟨passes, rfl⟩ := Nat.exists_eq_add_of_le' (show 1 ≤ passes by omega)
          obtain ⟨e', ran, shown⟩ := fills stands faces₁ fits₁ (show _ ≤ passes by omega)
          rw [← faces.peek] at more notBrace
          exact ⟨e', declarations_cons more notBrace ran₁ ran, shown⟩
        · obtain ⟨_, step, same, recovers, opening, layers, inner, cost, rfl, fills⟩ :=
            each first ahead passed₁ fits
          cases same
          refine ⟨⟨[], opening, others⟩, layers, inner, ?_, rfl, ?_⟩
          · simpa [layersCost] using cost
          · intro body stmts errors stands size passes d faces fits' bounded'
            have longer := faces.length_eq
            obtain ⟨passes, rfl⟩ := Nat.exists_eq_add_of_le' (show 1 ≤ passes by omega)
            obtain ⟨d₁, ran₁, shown₁⟩ := fills stands (.ahead faces) fits'
            have recovered : declaration size room d =
                .ok (.some (opening.tree (enclose layers stmts))) d₁ := by
              rw [recovers]
              exact recover_run_ok ran₁
            obtain ⟨e', ran, shown⟩ := declarations_run_behind rest shown₁ outside₁ (by omega)
              (by omega) (show _ ≤ size by omega) (show _ ≤ passes by omega)
            rw [← faces.peek] at more notBrace
            exact ⟨e', declarations_cons more notBrace recovered ran, shown⟩

/-- The block of the gap holds what is put into it. -/
theorem block_fills {trees : List Stmt} (run : block n (room + 1) c = .ok trees e)
    (rest : c.rest = sym .rightBrace gap.closing :: gap.behind) (clean : c.errors = #[]) :
    trees = [] ∧ gap.Fills room (block · (room + 1)) id c e := by
  obtain ⟨e₁, loop, closed⟩ := of_block_ok run
  have stops : declarations true (declaration n room) n { c with openBlocks := c.openBlocks + 1 } =
      .ok [] { c with openBlocks := c.openBlocks + 1 } :=
    declarations_stop (by simp [Cursor.peek, rest])
  rw [stops] at loop
  cases loop
  obtain ⟨line, reads⟩ := of_expect_ok closed
  obtain ⟨left, last, errors, blocks⟩ := reads
  obtain ⟨brace, left⟩ := List.cons.inj (rest.symm.trans left)
  refine ⟨rfl, ?_⟩
  intro body stmts errors' stands size d enters fits
  cases enters with
  | ahead faces => exact absurd rest faces.ahead.not_inside
  | inside _ rest' _ clean' blocks' =>
      refine ⟨_, stands.block size rest' fits, ?_, ?_, ?_, ?_, Nat.le_refl _⟩
      · simpa [Excerpt.noted] using left
      · exact .inl (by rw [last, brace]; rfl)
      · simp [Excerpt.noted, clean', errors, clean]
      · exact blocks'.trans blocks.symm

mutual

/-- A declaration that ends behind the gap surrounds it with layers. -/
theorem declaration_surrounds (gap : Gap) (n : Nat) {c e : Cursor} {result : Option Stmt} : ∀ room,
    declaration n room c = .ok result e → gap.Ahead c → gap.Passed e → c.rest.length ≤ n →
    ∃ (tree : Stmt) (step : Nat → Parse Stmt), result = some tree ∧
      (∀ size, declaration size room = recover (step size)) ∧ gap.Surrounds room step c tree e
  | 0, run, _, _, _ | 1, run, _, _, _ | 2, run, _, _, _ | 3, run, _, _, _ | 4, run, _, _, _ => by
      cases run
  | room + 5, run, ahead, passed, fits => by
      obtain ⟨tree, rfl, parsed⟩ := of_recover_clean (declared_travels n (room + 4)) run
        (by simp [passed.clean])
      refine ⟨tree, (declared · (room + 4)), rfl, fun size => declaration_eq_recover size room, ?_⟩
      replace parsed := of_peek_bind parsed
      generalize found : c.peek.kind = kind at parsed
      split at parsed
      · replace parsed := of_next_bind parsed
        have readDef := reads_kind found (by simp)
        have shorter := readDef.length_eq
        have ahead' := ahead.reads readDef (by simp)
        have surrounds := function_surrounds gap n _ (room + 4) parsed ahead' passed (by omega)
        refine surrounds.behind ahead ahead' fun size d same => peek_bind ?_
        rw [same, found]
        exact next_bind rfl
      · replace parsed := of_next_bind parsed
        have readVar := reads_kind found (by simp)
        have shorter := readVar.length_eq
        obtain ⟨tokens, reads, name, initial, phrase, -⟩ :=
          varDecl_yields n _ (room + 4) _ _ _ parsed (by simp [passed.clean]) (by omega)
        have ahead' := (ahead.reads readVar (by simp)).reads reads phrase.braceless
        exact absurd passed ahead'.not_passed
      · have surrounds := statement_surrounds gap n (room + 4) parsed ahead passed fits
        refine surrounds.congr ahead fun size d same => peek_bind ?_
        rw [same, found]
        split
        · exact absurd rfl ‹_›
        · exact absurd rfl ‹_›
        · rfl

theorem function_surrounds (gap : Gap) (n line : Nat) {c e : Cursor} {tree : Stmt} : ∀ room,
    function n line room c = .ok tree e → gap.Ahead c → gap.Passed e → c.rest.length ≤ n →
    gap.Surrounds (room + 1) (fun size => function size line room) c tree e
  | 0, run, _, _, _ => by cases run
  | room + 1, run, ahead, passed, fits => by
      obtain ⟨name, params, body, e₁, head, bodyRun, rfl⟩ := of_function_ok run
      have clean := ((block_travels n room).ok bodyRun).clean passed.clean
      obtain ⟨_, reads, nameLine, paren, names, close, brace, phrase, rfl⟩ :=
        functionHead_yields n _ _ _ head (by simp [clean]) fits
      -- the brace is the last token of the head
      have split : ident name nameLine :: sym .leftParen paren ::
          (names ++ [sym .rightParen close, sym .leftBrace brace]) =
          (ident name nameLine :: sym .leftParen paren :: (names ++ [sym .rightParen close])) ++
            [sym .leftBrace brace] := by simp
      have shorter := reads.length_eq
      rw [split] at reads
      obtain ⟨c₁, readHead, readBrace⟩ := reads.split
      have ahead₁ := ahead.reads readHead (by simpa using phrase.braceless)
      obtain ⟨layers, inner, cost, rfl, fills⟩ :=
        block_surrounds gap n room bodyRun (ahead₁.opened readBrace) passed (by omega)
      refine ⟨.function name params line, layers, inner, ?_, rfl, ?_⟩
      · simp only [Opening.cost]
        omega
      · intro body stmts errors stands size d enters fits'
        have faces := enters.faces ahead
        obtain ⟨d₁, readHead', faces₁⟩ := faces.reads readHead ahead₁
        obtain ⟨d₂, readBrace', enters₂⟩ := faces₁.enters readBrace
        have reads' := readHead'.trans readBrace'
        rw [← split] at reads'
        have shorter' := reads'.length_eq
        have headed := functionHead_accepts size phrase (by
          simp only [List.length_cons, List.length_append] at shorter'
          omega) _ _ reads' trivial
        obtain ⟨e', ran, shown⟩ := fills stands enters₂ (show _ ≤ size by omega)
        exact ⟨e', bind_of_ok headed (bind_of_ok ran rfl), shown⟩

/-- A block that ends behind the gap has it in one of its statements, or is the block of the
gap. -/
theorem block_surrounds (gap : Gap) (n : Nat) {c e : Cursor} {trees : List Stmt} : ∀ room,
    block n room c = .ok trees e → gap.Opened c → gap.Passed e → c.rest.length ≤ n →
    ∃ (layers : List Layer) (inner : Nat), room = inner + (1 + layersCost layers) ∧
      trees = enclose layers [] ∧ gap.Fills inner (block · room) (enclose layers) c e
  | 0, run, _, _, _ => by cases run
  | room + 1, run, opened, passed, fits => by
      -- the block has the gap in one of its statements, or it is the block of the gap
      rcases opened with ahead | ⟨rest, clean⟩
      · obtain ⟨e₁, loop, closed⟩ := of_block_ok run
        obtain ⟨line, readBrace⟩ := of_expect_ok closed
        have clean₁ : e₁.errors = #[] := readBrace.errors.symm.trans passed.clean
        have ahead' : gap.Ahead { c with openBlocks := c.openBlocks + 1 } :=
          ⟨ahead.front, ahead.clean⟩
        have travels := declarations_travels (declaration_travels n room) true n
        obtain ⟨tokens, reads, phrases, -⟩ := declarations_yields (declaration_travels n room)
          (declaration_yields n room) true n loop (by simp [clean₁]) fits fits
        have passed₁ : gap.Passed e₁ := by
          refine (ahead'.reads_closed reads phrases.ends).resolve_left fun ahead₁ => ?_
          have ahead₂ : gap.Ahead { e₁ with openBlocks := e₁.openBlocks - 1 } :=
            ⟨ahead₁.front, ahead₁.clean⟩
          exact (ahead₂.reads readBrace (by simp)).not_passed passed
        obtain ⟨layer, layers, inner, cost, rfl, fills⟩ := declarations_surround
          (fun run => declaration_surrounds gap n room run) loop ahead' passed₁ (.inl rfl) fits fits
        refine ⟨layer :: layers, inner, by omega, rfl, ?_⟩
        intro body stmts errors stands size d enters fits'
        have faces := enters.faces ahead
        have entered : gap.Faces body { c with openBlocks := c.openBlocks + 1 }
            { d with openBlocks := d.openBlocks + 1 } :=
          (gap.facing body).enter faces
        obtain ⟨d₁, ran, shown⟩ := fills stands entered fits' fits'
        have within : 0 < e₁.openBlocks := by
          rw [(travels.ok loop).openBlocks]
          exact Nat.succ_pos _
        obtain ⟨e', closed', shown'⟩ := (expect_open _ _).run_ok closed (shown.leave within)
        exact ⟨e', bind_of_ok (insideBlock_run_ok ran) (bind_of_ok closed' rfl), shown'⟩
      · obtain ⟨rfl, fills⟩ := block_fills run rest clean
        exact ⟨[], room, rfl, rfl, fills⟩

/-- A statement that ends behind the gap surrounds it with layers. -/
theorem statement_surrounds (gap : Gap) (n : Nat) {c e : Cursor} {tree : Stmt} : ∀ room,
    statement n room c = .ok tree e → gap.Ahead c → gap.Passed e → c.rest.length ≤ n →
    gap.Surrounds (room + 1) (statement · room) c tree e
  | 0, run, _, _, _ | 1, run, _, _, _ => by cases run
  | room + 2, run, ahead, passed, fits => by
      have value := expression_yields n room
      have known : gap.Branch n room (statement · room) :=
        ⟨Comparable.statement room, statement_yields n room,
          fun run => statement_surrounds gap n room run⟩
      replace run := of_peek_bind run
      generalize found : c.peek.kind = kind at run
      have reads : kind ≠ .endOfInput → c.Reads [⟨kind, c.peek.line⟩] c.advance := reads_kind found
      -- a statement that has no block in it cannot read the brace of the gap
      split at run
      · replace run := of_next_bind run
        have read := reads (by simp)
        have shorter := read.length_eq
        have ahead' := ahead.reads read (by simp)
        have surrounds := forStmt_surrounds known run ahead' passed (by omega)
        refine surrounds.behind ahead ahead' fun size d same => peek_bind ?_
        rw [same, found]
        exact next_bind rfl
      · replace run := of_next_bind run
        have read := reads (by simp)
        have shorter := read.length_eq
        have ahead' := ahead.reads read (by simp)
        have surrounds :=
          ifStmt_surrounds (Comparable.expression room) value known run ahead' passed (by omega)
        refine surrounds.behind ahead ahead' fun size d same => peek_bind ?_
        rw [same, found]
        exact next_bind rfl
      · replace run := of_next_bind run
        obtain ⟨shown, e₁, parsed, close, rfl⟩ := of_printStmt_ok run
        have read := reads (by simp)
        have shorter := read.length_eq
        obtain ⟨tokens, semicolon, readValue, phrase⟩ :=
          of_closed_ok value parsed close (by simp [passed.clean]) (by omega)
        have ahead' := ahead.reads (read.trans readValue) (by simpa using phrase.braceless)
        exact absurd passed ahead'.not_passed
      · replace run := of_next_bind run
        obtain ⟨given, e₁, optional, close, rfl⟩ := of_returnStmt_ok run
        obtain ⟨semicolon, readClose⟩ := of_expect_ok close
        have read := reads (by simp)
        have shorter := read.length_eq
        have clean : e₁.errors = #[] := readClose.errors.symm.trans passed.clean
        obtain ⟨tokens, readValue, phrase⟩ := optional.yields value (by simp [clean]) (by omega)
        have ahead' := ahead.reads (read.trans (readValue.trans readClose))
          (by simpa using phrase.braceless)
        exact absurd passed ahead'.not_passed
      · replace run := of_next_bind run
        have read := reads (by simp)
        have shorter := read.length_eq
        have ahead' := ahead.reads read (by simp)
        have surrounds :=
          whileStmt_surrounds (Comparable.expression room) value known run ahead' passed (by omega)
        refine surrounds.behind ahead ahead' fun size d same => peek_bind ?_
        rw [same, found]
        exact next_bind rfl
      · obtain ⟨body, e₁, parsed, run⟩ := of_bind_ok (of_next_bind run)
        obtain ⟨rfl, rfl⟩ := of_pure_ok run
        have readBrace := reads (by simp)
        have shorter := readBrace.length_eq
        obtain ⟨layers, inner, cost, rfl, fills⟩ :=
          block_surrounds gap n (room + 1) parsed (ahead.opened readBrace) passed (by omega)
        refine ⟨.block c.peek.line, layers, inner, ?_, rfl, ?_⟩
        · simp only [Opening.cost]
          omega
        · intro body stmts errors stands size d enters fits'
          have faces := enters.faces ahead
          obtain ⟨d₁, readBrace', enters₁⟩ := faces.enters readBrace
          have same : d.advance = d₁ := (readBrace'.advance (by simp)).eq_of_nil
          have shorter' := readBrace'.length_eq
          obtain ⟨e', ran, shown⟩ := fills stands enters₁ (show _ ≤ size by omega)
          refine ⟨e', peek_bind ?_, shown⟩
          rw [faces.peek, found]
          refine next_bind ?_
          rw [same]
          exact bind_of_ok ran rfl
      · obtain ⟨_, readAll, tokens, shown, semicolon, phrase, rfl, -⟩ :=
          expressionStmt_yields n (room + 1) _ _ _ run (by simp [passed.clean]) fits
        have ahead' := ahead.reads readAll (by simpa using phrase.braceless)
        exact absurd passed ahead'.not_passed

end

end Gap

/-- **The block of a gap is in layers.** A program with a gap that is accepted is parsed to
some layers around nothing. With a body in the gap it is parsed to the same layers around
the statements of the body, and to the mistakes of the body. -/
theorem Accepted.in_layers {gap : Gap} {front : List Token} {whole : Nat} (enough : 5 ≤ whole)
    (accepted : Accepted whole (front ++ gap.holding [])) :
    ∃ (layers : List Layer) (inner : Nat), whole = inner + layersCost layers ∧
      (parse whole (front ++ gap.holding [])).statements = enclose layers [] ∧
      ∀ {body : List Token} {stmts : List Stmt} {errors : List SyntaxError},
        Stands inner body stmts errors (Enclosed gap.closing) →
        parse whole (front ++ gap.holding body) = ⟨enclose layers stmts, errors⟩ := by
  generalize shell : front ++ gap.holding [] = tokens at accepted ⊢
  obtain ⟨trees, e, run⟩ := declarations_ok (declaration_ok tokens.length enough) false
    tokens.length (Cursor.start tokens)
  have clean := accepted.clean
  rw [parse_of_ok run] at clean ⊢
  have noMistake : e.errors = #[] := by simpa using clean
  obtain ⟨read, reads, -, ending⟩ := declarations_yields
    (declaration_travels tokens.length whole) (declaration_yields tokens.length whole) false
    tokens.length run (by simp [noMistake]) (Nat.le_refl _) (Nat.le_refl _)
  -- a program that is accepted is read to its end
  have left : e.rest = [] :=
    rest_eq_nil accepted.inner ⟨read, reads.rest⟩ (by simpa using ending)
  have ahead : gap.Ahead (Cursor.start tokens) := ⟨⟨front, shell.symm⟩, rfl⟩
  have passed : gap.Passed e := ⟨by simp [left], noMistake⟩
  obtain ⟨layer, layers, inner, cost, rfl, fills⟩ := Gap.declarations_surround
    (fun run => Gap.declaration_surrounds gap tokens.length whole run) run ahead passed (.inr rfl)
    (Nat.le_refl _) (Nat.le_refl _)
  refine ⟨layer :: layers, inner, cost, rfl, ?_⟩
  intro body stmts errors stands
  have faces : gap.Faces body (Cursor.start tokens) (Cursor.start (front ++ gap.holding body)) :=
    ⟨⟨front, shell.symm, rfl⟩, rfl, rfl, rfl⟩
  obtain ⟨e', filled, shown⟩ := fills stands faces (Nat.le_refl _) (Nat.le_refl _)
  have parsed : parse whole (front ++ gap.holding body) = ⟨_, e'.errors.toList⟩ :=
    parse_of_ok filled
  have noted : e'.errors = errors.toArray ++ e.errors := shown.errors
  rw [parsed, noted, noMistake]
  simp

end Parse

end TernLang
