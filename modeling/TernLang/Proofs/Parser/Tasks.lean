import Mathlib.Data.Prod.Lex
import Mathlib.Logic.Relation
import TernLang.Proofs.Parser.Braces
import TernLang.Proofs.Parser.Runs

/-! # The tasks of a parse

A parse is made of tasks: declarations one after the other, one of them, the attempt to
read it as it is written, a function, a block, a statement. While a task is carried out
it starts other tasks, one after the other. `Task.calls` lists them, each with the cursor
that the parsing in front of it has left, and `Reaches` follows them, so that it gives
**every place in which a parse begins a declaration, a block or a statement**.

Between its calls a task reads balanced tokens, except for the brace in front of a block
(`Legs`). Every call has less room than the task that makes it, or less to do
(`Task.decreases_of_mem_calls`), which is what inductions over the tasks of a parse go by.
-/

namespace TernLang.Parse

open Grammar (sym)

/-- A declaration or statement as it is written, without leaving it after a mistake. -/
def declared (size room : Nat) : Parse Stmt := do
  let token ← peek
  match token.kind with
  | .keyword .defKw => do
      let _ ← next
      function size token.line room
  | .keyword .varKw => do
      let _ ← next
      varDecl size token.line room
  | _ => statement size room

/-- With room for it, a declaration is the reading of one with recovery around it. -/
theorem declaration_eq_recover (size room : Nat) :
    declaration size (room + 5) = recover (declared size (room + 4)) := rfl

theorem declared_travels (size room : Nat) : (declared size room).Travels := by
  refine peek_travels.bind fun token => ?_
  split
  · exact next_travels.bind fun _ => function_travels size token.line room
  · exact next_travels.bind fun _ => varDecl_travels size token.line room
  · exact statement_travels size room

section Heads

variable {expr : Parse Expr} {body : Parse Stmt} {line size room : Nat}

theorem condition_even (even : expr.Even) (opening closing : Expectation) :
    (condition expr opening closing).Even :=
  (even_expect rfl _).bind fun _ => even.bind fun _ => (even_expect rfl _).bind fun _ => even_pure _

theorem forInitial_even (size room : Nat) : (forInitial size room).Even := by
  refine even_of_peek fun c => ?_
  generalize found : c.peek.kind = kind
  split
  · exact climbs_next_bind (found ▸ rfl) fun _ => even_pure none
  · exact climbs_next_bind (found ▸ rfl) fun _ => (varDecl_even size _ room).map some
  · exact (expressionStmt_even size room).map some c

theorem forCondition_even (even : expr.Even) : (forCondition expr).Even := by
  refine even_of_peek fun c => ?_
  split
  · exact even_pure _ c
  · exact even c

theorem forClauses_even (size room : Nat) : (forClauses size room).Even := by
  have value := expression_even size room
  refine (even_expect rfl _).bind fun _ => (forInitial_even size room).bind fun initial => ?_
  refine (forCondition_even value).bind fun condition => (even_expect rfl _).bind fun _ => ?_
  refine (even_at _).bind fun closed => ?_
  have later : ∀ advance, Even (do
      expect .rightParen .parenAfterClauses
      pure ((initial, condition, advance) : Option Stmt × Expr × Option Expr)) :=
    fun advance => (even_expect rfl _).bind fun _ => even_pure _
  exact .ite ((even_pure none).bind later) ((value.map some).bind later)

theorem parameters_even (size : Nat) (before : List String) : (parameters size before).Even := by
  induction size generalizing before with
  | zero => exact even_pure before
  | succ size ih =>
      have later : Even (do
          let named ← identifier .parameterName
          if ← accept .comma then parameters size (before ++ [named.1])
          else pure (before ++ [named.1])) :=
        (even_identifier _).bind fun _ => (even_accept rfl).bind fun _ =>
          .ite (ih _) (even_pure _)
      exact .ite (even_peek.bind fun token => (even_note _ token).bind fun _ => later) later

end Heads

/-! ## The head of a function -/

/-- The step reads balanced tokens and then an opening brace. Where it stops, it has not
read the brace. -/
structure Opens {α : Type} (step : Parse α) : Prop where
  ok : ∀ c a d, step c = .ok a d →
    c.Climbs 0 1 d ∧ ∃ line, d.last = some (sym .leftBrace line)
  error : ∀ c stop d, step c = .error stop d → c.Climbs 0 0 d

section Opens

variable {α β : Type} {p q : Parse α} {f : α → Parse β}

theorem Even.opens (even : p.Even) (opens : ∀ a, (f a).Opens) : (p >>= f).Opens where
  ok c b d run := by
    obtain ⟨a, e, first, second⟩ := of_bind_ok run
    obtain ⟨climbs, brace⟩ := (opens a).ok e b d second
    exact ⟨(even.ok first).trans climbs, brace⟩
  error c stop d run := by
    cases first : p c with
    | error stop' e =>
        rw [bind_run_error first] at run
        cases run
        exact even.error first
    | ok a e =>
        rw [bind_run_ok first] at run
        exact (even.ok first).trans ((opens a).error e stop d run)

theorem Opens.ite {condition : Prop} [Decidable condition] (thenStep : p.Opens)
    (elseStep : q.Opens) : (if condition then p else q).Opens := by
  split
  · exact thenStep
  · exact elseStep

theorem opens_brace (expected : Expectation) (a : α) :
    Opens (do expect .leftBrace expected; pure a) where
  ok c b d run := by
    obtain ⟨⟨⟩, e, first, second⟩ := of_bind_ok run
    obtain ⟨-, rfl⟩ := of_pure_ok second
    obtain ⟨line, reads⟩ := of_expect_ok first
    exact ⟨climbs_expect_ok rfl first, line, by simp [reads.last]⟩
  error c stop d run := by
    cases first : expect .leftBrace expected c with
    | ok a e =>
        rw [bind_run_ok first] at run
        cases run
    | error stop' e =>
        rw [bind_run_error first] at run
        cases run
        rw [expect_error first]
        exact .refl

theorem functionHead_opens (size : Nat) : (functionHead size).Opens := by
  refine (even_identifier _).opens fun (name, _) => (even_expect rfl _).opens fun _ => ?_
  refine (even_at _).opens fun closed => ?_
  have later : ∀ params : List String, Opens (do
      expect .rightParen .parenAfterParameters
      expect .leftBrace .braceBeforeBody
      pure (name, params)) :=
    fun params => (even_expect rfl _).opens fun _ => opens_brace _ _
  exact .ite ((even_pure []).opens later) ((parameters_even size []).opens later)

end Opens

/-! ## Tasks -/

/-- What the parser can be asked to do, with the room it has. -/
inductive Task where
  | declarations (inBlock : Bool) (passes room : Nat)
  | declaration (room : Nat)
  | declared (room : Nat)
  | function (line room : Nat)
  | block (room : Nat)
  | statement (room : Nat)
  deriving DecidableEq, Repr

/-- What is called behind a step, if it succeeds. -/
def behind {α : Type} (step : Parse α) (c : Cursor) (calls : Cursor → List (Task × Cursor)) :
    List (Task × Cursor) :=
  match step c with
  | .ok _ d => calls d
  | .error _ _ => []

theorem mem_behind {α : Type} {step : Parse α} {c : Cursor}
    {calls : Cursor → List (Task × Cursor)} {call : Task × Cursor}
    (mem : call ∈ behind step c calls) : ∃ a d, step c = .ok a d ∧ call ∈ calls d := by
  unfold behind at mem
  split at mem
  · exact ⟨_, _, ‹_›, mem⟩
  · cases mem

namespace Task

/-- The cursor that a task leaves behind, however it ends. -/
def after (size : Nat) : Task → Cursor → Cursor
  | declarations inBlock passes room =>
      (Parse.declarations inBlock (Parse.declaration size room) passes).after
  | declaration room => (Parse.declaration size room).after
  | declared room => (Parse.declared size room).after
  | function line room => (Parse.function size line room).after
  | block room => (Parse.block size room).after
  | statement room => (Parse.statement size room).after

/-- The tasks that a task starts, in their order, each with the cursor it starts at. -/
def calls (size : Nat) : Task → Cursor → List (Task × Cursor)
  | declarations inBlock (passes + 1) room, c =>
      if c.peek.kind == .endOfInput || (inBlock && c.peek.kind == .symbol .rightBrace) then []
      else (declaration room, c) :: behind (Parse.declaration size room) c fun d =>
        [(declarations inBlock passes room, d)]
  | declaration (room + 5), c => [(declared (room + 4), c)]
  | declared room, c =>
      match c.peek.kind with
      | .keyword .defKw => [(function c.peek.line room, c.advance)]
      | .keyword .varKw => []
      | _ => [(statement room, c)]
  | function _ (room + 1), c => behind (functionHead size) c fun d => [(block room, d)]
  | block (room + 1), c =>
      [(declarations true size room, { c with openBlocks := c.openBlocks + 1 })]
  | statement (room + 2), c =>
      match c.peek.kind with
      | .keyword .forKw => behind (forClauses size room) c.advance fun d => [(statement room, d)]
      | .keyword .ifKw =>
          behind (condition (expression size room) .parenAfterIf .parenAfterIfCondition)
            c.advance fun d => (statement room, d) :: behind (Parse.statement size room) d fun e =>
              match e.peek.kind with
              | .keyword .elseKw => [(statement room, e.advance)]
              | _ => []
      | .keyword .whileKw =>
          behind (condition (expression size room) .parenAfterWhile .parenAfterWhileCondition)
            c.advance fun d => [(statement room, d)]
      | .symbol .leftBrace => [(block (room + 1), c.advance)]
      | _ => []
  | _, _ => []

/-- The blocks that a task closes in the end: a block is started behind its brace. -/
def opened : Task → Nat
  | block _ => 1
  | _ => 0

def room : Task → Nat
  | declarations _ _ room => room
  | declaration room => room
  | declared room => room
  | function _ room => room
  | block room => room
  | statement room => room

/-- How much is left to do with the same room. -/
def remaining : Task → Nat
  | declarations _ passes _ => passes + 2
  | declaration _ => 1
  | declared _ => 1
  | function _ _ => 0
  | block _ => 0
  | statement _ => 0

/-- A task calls only tasks with less room, or with the same room and less left to do. -/
theorem decreases_of_mem_calls {size : Nat} {task : Task} {c : Cursor} {call : Task × Cursor}
    (mem : call ∈ task.calls size c) :
    Prod.Lex (· < ·) (· < ·) (call.1.room, call.1.remaining) (task.room, task.remaining) := by
  rw [Prod.lex_def]
  unfold calls at mem
  split at mem
  · -- the next declaration, or those behind it
    split at mem
    · cases mem
    · rcases List.mem_cons.mp mem with rfl | later
      · simp [room, remaining]
      · obtain ⟨_, d, -, mem⟩ := mem_behind later
        cases List.mem_singleton.mp mem
        simp [room, remaining]
  · cases List.mem_singleton.mp mem
    simp [room]
  · split at mem
    · cases List.mem_singleton.mp mem
      simp [room, remaining]
    · cases mem
    · cases List.mem_singleton.mp mem
      simp [room, remaining]
  · obtain ⟨_, d, -, mem⟩ := mem_behind mem
    cases List.mem_singleton.mp mem
    simp [room]
  · cases List.mem_singleton.mp mem
    simp [room]
  · -- a statement has more room than what is inside of it
    refine .inl ?_
    split at mem
    · obtain ⟨_, d, -, mem⟩ := mem_behind mem
      cases List.mem_singleton.mp mem
      exact Nat.lt_add_of_pos_right (Nat.succ_pos 1)
    · obtain ⟨_, d, -, mem⟩ := mem_behind mem
      rcases List.mem_cons.mp mem with rfl | later
      · exact Nat.lt_add_of_pos_right (Nat.succ_pos 1)
      · obtain ⟨_, e, -, mem⟩ := mem_behind later
        split at mem
        · cases List.mem_singleton.mp mem
          exact Nat.lt_add_of_pos_right (Nat.succ_pos 1)
        · cases mem
    · obtain ⟨_, d, -, mem⟩ := mem_behind mem
      cases List.mem_singleton.mp mem
      exact Nat.lt_add_of_pos_right (Nat.succ_pos 1)
    · cases List.mem_singleton.mp mem
      exact Nat.lt_succ_self _
    · cases mem
  · cases mem

end Task

/-- Carrying out the first task at its cursor starts the second one at its cursor. -/
def Starts (size : Nat) (task call : Task × Cursor) : Prop :=
  call ∈ task.1.calls size task.2

/-- Carrying out the first task at its cursor comes to carry out the second one at its
cursor. -/
def Reaches (size : Nat) : Task × Cursor → Task × Cursor → Prop :=
  Relation.ReflTransGen (Starts size)

section Reaches

variable {size : Nat} {task other call : Task × Cursor}

theorem Starts.reaches (starts : Starts size task call) : Reaches size task call :=
  .single starts

/-- A call of a reached call is reached. -/
theorem Reaches.trans (first : Reaches size task other) (second : Reaches size other call) :
    Reaches size task call :=
  Relation.ReflTransGen.trans first second

/-- What passes to a task from the tasks that it calls holds of every task. -/
theorem Task.induction (size : Nat) {P : Task × Cursor → Prop}
    (step : ∀ task, (∀ call, Starts size task call → P call) → P task) (task : Task × Cursor) :
    P task :=
  step task fun call _ => Task.induction size step call
termination_by (task.1.room, task.1.remaining)
decreasing_by exact decreases_of_mem_calls ‹_›

end Reaches

/-! ## Between the calls -/

/-- If the task is a block, it starts right behind an opening brace. -/
def Task.Braced (task : Task) (c : Cursor) : Prop :=
  task.opened = 0 ∨ ∃ line, c.last = some (sym .leftBrace line)

/-- From the first cursor to the last one the calls are carried out one after the other,
with balanced tokens in front of each and behind the last one, and an opening brace in
front of a block. -/
inductive Legs (size : Nat) : Cursor → List (Task × Cursor) → Cursor → Prop
  | done {c d} : c.Climbs 0 0 d → Legs size c [] d
  | call {c d e task calls} : c.Climbs 0 task.opened d → task.Braced d →
      Legs size (task.after size d) calls e → Legs size c ((task, d) :: calls) e

section Legs

variable {size : Nat} {task : Task} {c d e : Cursor} {calls : Cursor → List (Task × Cursor)}
  {α β : Type} {p : Parse α} {f : α → Parse β}

theorem Legs.lead {all : List (Task × Cursor)} (first : c.Climbs 0 0 d) (legs : Legs size d all e) :
    Legs size c all e := by
  cases legs with
  | done last => exact .done (first.trans last)
  | call here braced later => exact .call (first.trans here) braced later

/-- In front of the body of a block stands its opening brace. -/
theorem Legs.braced {all : List (Task × Cursor)} (legs : Legs size c all e) :
    ∀ call ∈ all, call.1.Braced call.2 := by
  induction legs with
  | done _ => nofun
  | call _ braced _ ih => exact List.forall_mem_cons.mpr ⟨braced, ih⟩

theorem legs_single (here : c.Climbs 0 task.opened d) (braced : task.Braced d) :
    Legs size c [(task, d)] (task.after size d) :=
  .call here braced (.done .refl)

theorem legs_bind (even : p.Even)
    (later : ∀ a d, p c = .ok a d → Legs size d (calls d) ((f a).after d)) :
    Legs size c (behind p c calls) ((p >>= f).after c) := by
  unfold behind
  cases run : p c with
  | ok a d =>
      rw [after_bind_ok run]
      exact (later a d run).lead (even.ok run)
  | error stop d =>
      rw [after_bind_error run]
      exact .done (even.error run)

theorem legs_call (same : task.after size d = p.after d) (plain : task.opened = 0)
    (later : ∀ a e, p d = .ok a e → Legs size e (calls e) ((f a).after e)) :
    Legs size d ((task, d) :: behind p d calls) ((p >>= f).after d) := by
  refine .call (plain ▸ .refl) (.inl plain) ?_
  rw [same]
  unfold behind
  cases run : p d with
  | ok a e =>
      rw [after_bind_ok run, after_ok run]
      exact later a e run
  | error stop e =>
      rw [after_bind_error run, after_error run]
      exact .done .refl

theorem declarations_legs (inBlock : Bool) (passes room : Nat) (c : Cursor) :
    Legs size c ((Task.declarations inBlock passes room).calls size c)
      ((Task.declarations inBlock passes room).after size c) := by
  cases passes with
  | zero => exact .done .refl
  | succ passes =>
      show Legs size c (if _ then _ else _) (Parse.after (if _ then _ else _) c)
      split
      · exact .done .refl
      · refine legs_call rfl rfl fun stmt d _ => ?_
        rw [after_bind_pure]
        exact legs_single .refl (.inl rfl)

theorem declared_legs (room : Nat) (c : Cursor) :
    Legs size c ((Task.declared room).calls size c) ((Task.declared room).after size c) := by
  rw [Task.after, Parse.declared, after_peek_bind, Task.calls]
  generalize found : c.peek.kind = kind
  split
  · exact legs_single (Cursor.climbs_advance (by rw [found]; rfl)) (.inl rfl)
  · exact .done (climbs_next_bind (by rw [found]; rfl) fun _ => varDecl_even size _ room)
  · exact legs_single .refl (.inl rfl)

theorem function_legs (line room : Nat) (c : Cursor) :
    Legs size c ((Task.function line room).calls size c)
      ((Task.function line room).after size c) := by
  cases room with
  | zero => exact .done .refl
  | succ room =>
      have opens := functionHead_opens size
      show Legs size c (behind (functionHead size) c _) (Parse.after (functionHead size >>= _) c)
      unfold behind
      cases run : functionHead size c with
      | ok head d =>
          rw [after_bind_ok run, after_bind_pure]
          obtain ⟨climbs, brace⟩ := opens.ok c head d run
          exact legs_single climbs (.inr brace)
      | error stop d =>
          rw [after_bind_error run]
          exact .done (opens.error c stop d run)

/-- A statement with one inner statement behind its head. -/
theorem head_legs {head : Parse α} {tree : α → Stmt → Stmt} {room : Nat} (even : head.Even)
    (c : Cursor) :
    Legs size c (behind head c fun d => [(Task.statement room, d)])
      (Parse.after (do let a ← head; let body ← statement size room; pure (tree a body)) c) := by
  refine legs_bind even fun a d _ => ?_
  rw [after_bind_pure]
  exact legs_single .refl (.inl rfl)

/-- The second branch of an `if`, behind its keyword. -/
theorem else_legs (tree : Option Stmt → Stmt) (room : Nat) (c : Cursor) :
    Legs size c
      (match c.peek.kind with
        | .keyword .elseKw => [(Task.statement room, c.advance)]
        | _ => [])
      (Parse.after
        (do
          let token ← peek
          match token.kind with
          | .keyword .elseKw => do
              let _ ← next
              let elseBranch ← statement size room
              pure (tree (some elseBranch))
          | _ => pure (tree none)) c) := by
  show Legs size c _ (Parse.after (match c.peek.kind with | .keyword .elseKw => _ | _ => _) c)
  generalize found : c.peek.kind = kind
  split
  · rw [after_next_bind, after_bind_pure]
    exact legs_single (Cursor.climbs_advance (by rw [found]; rfl)) (.inl rfl)
  · exact .done .refl

/-- The calls of a statement are carried out one after the other, with balanced tokens
between them. -/
theorem statement_legs (room : Nat) (c : Cursor) :
    Legs size c ((Task.statement room).calls size c) ((Task.statement room).after size c) := by
  rcases room with _ | _ | room
  · exact .done .refl
  · exact .done .refl
  · have value := expression_even size room
    rw [Task.after, Parse.statement, after_peek_bind, Task.calls]
    generalize found : c.peek.kind = kind
    have keyword : ∀ {all : List (Task × Cursor)} {step : Parse Stmt},
        kind.openBehind 0 = some 0 → Legs size c.advance all (step.after c.advance) →
        Legs size c all ((next >>= fun _ => step : Parse Stmt).after c) :=
      fun plain legs => legs.lead (Cursor.climbs_advance (by rwa [found]))
    split
    · refine keyword rfl ?_
      rw [forStmt_eq]
      exact head_legs (forClauses_even size room) _
    · refine keyword rfl ?_
      rw [ifStmt_eq]
      refine legs_bind (condition_even value _ _) fun test d _ => ?_
      refine legs_call rfl rfl fun thenBranch e _ => ?_
      exact else_legs (fun elseBranch => .ifElse test thenBranch elseBranch c.peek.line) room e
    · refine keyword rfl ?_
      rw [whileStmt_eq]
      exact head_legs (condition_even value _ _) _
    · rw [after_next_bind, after_bind_pure]
      exact legs_single (Cursor.climbs_advance (by rw [found]; rfl))
        (.inr ⟨_, (reads_kind found (by simp)).last⟩)
    · -- the other statements have none inside of them
      rename_i notFor notIf notWhile notBrace
      refine .done ?_
      split
      · exact (notFor rfl).elim
      · exact (notIf rfl).elim
      · exact climbs_next_bind (by rw [found]; rfl) fun _ => printStmt_even value _
      · exact climbs_next_bind (by rw [found]; rfl) fun _ => returnStmt_even value _
      · exact (notWhile rfl).elim
      · exact (notBrace rfl).elim
      · exact expressionStmt_even size (room + 1) c

end Legs

end TernLang.Parse
