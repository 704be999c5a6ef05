import TernLang.Proofs.Diagnostics
import TernLang.Proofs.Eval.Frames
import TernLang.Proofs.Eval.Tasks

/-! # What a run carries out is part of the program

**In every state that the run of a program comes to, the expression to be evaluated or
the statement to be executed is part of the program, and so are the bodies of all
functions** (`Reaches.madeOf`). What holds of the nodes of every program that parses
therefore holds of whatever the run carries out.

One such fact is that no declaration stands alone in a branch or under a loop: the
grammar never puts one there (`Phrase.isHoused`).
-/

namespace TernLang

/-! ## Programs that parse -/

namespace Grammar

/-- A statement of the grammar is no declaration. -/
theorem Statement.declared_eq_nil {dangling : Bool} {tokens : List Token} {tree : Stmt}
    (statement : Statement dangling tokens tree) : tree.declared = [] := by
  cases statement with
  | forLoop => rw [forTree_eq]; rfl
  | _ => rfl

/-- Every statement of the grammar is a node of the kinds a program is made of. -/
theorem Statement.isHoused {dangling : Bool} {tokens : List Token} {tree : Stmt}
    (statement : Statement dangling tokens tree) : (Node.stmt tree).IsHoused := by
  intro branch mem
  cases statement with
  | ifThen _ inner =>
      cases List.mem_singleton.mp mem
      exact inner.declared_eq_nil
  | ifElse _ inner other =>
      rcases List.mem_cons.mp mem with rfl | second
      · exact inner.declared_eq_nil
      · cases List.mem_singleton.mp second
        exact other.declared_eq_nil
  | whileLoop _ inner =>
      cases List.mem_singleton.mp mem
      exact inner.declared_eq_nil
  | forLoop =>
      rw [forTree_eq] at mem
      cases mem
  | expression | print | returnValue | block => cases mem

/-- What was read from tokens is housed. -/
theorem Phrase.isHoused {tokens : List Token} {node : Node} (phrase : Phrase tokens node) :
    node.IsHoused := by
  cases phrase with
  | expression _ => trivial
  | declaration declared =>
      cases declared with
      | function | varDecl =>
          intro branch mem
          cases mem
      | statement inner => exact inner.isHoused
  | loop _ _ _ inner =>
      -- the body of the loop of a `for` statement is a block
      intro branch mem
      cases List.mem_singleton.mp mem
      rfl
  | pass | advance =>
      intro branch mem
      cases mem

/-- Nodes with a span in the tokens are nodes of a program. -/
theorem Spanned.housed {tokens : List Token} {nodes : List Node} (spanned : Spanned tokens nodes) :
    Node.Housed nodes := by
  intro node mem
  by_cases constant : node.IsConstant
  · cases node with
    | expr e => trivial
    | stmt s => exact constant.elim
  · obtain ⟨_, _, phrase, _⟩ := spanned node mem constant
    exact phrase.isHoused

end Grammar

/-- Every part of a program without mistakes was read from a part of its text. -/
theorem spanned_of_analyze {maxCallDepth : Int} {source : String} {stmts : List Stmt}
    (analyzed : analyze maxCallDepth source = .ok ⟨stmts, []⟩) :
    Grammar.Spanned (lex source).tokens (Stmt.nodesAll stmts) := by
  rcases analyze_cases analyzed with ⟨_, _, parsed⟩ | ⟨_, parsed⟩
  · cases parsed
  · obtain ⟨rfl, mistakes⟩ := Analysis.mk.inj parsed
    have accepted := List.map_eq_nil_iff.mp mistakes.symm
    exact parse_spanned (five_le_parsingRoom maxCallDepth) accepted

/-- No declaration of a program without mistakes stands alone in a branch. -/
theorem housed_of_analyze {maxCallDepth : Int} {source : String} {stmts : List Stmt}
    (analyzed : analyze maxCallDepth source = .ok ⟨stmts, []⟩) :
    Node.Housed (Stmt.nodesAll stmts) :=
  (spanned_of_analyze analyzed).housed

namespace Eval

variable {limits : Limits}

/-! ## Every state of a run -/

/-- What the task has to do is part of the nodes. -/
def Task.MadeOf (nodes : List Node) : Task → Prop
  | .expr _ _ tree => tree.nodes ⊆ nodes
  | .exprs _ _ all => Expr.nodesAll all ⊆ nodes
  | .call _ _ _ => True
  | .stmt _ _ tree => tree.nodes ⊆ nodes
  | .stmts _ _ all => Stmt.nodesAll all ⊆ nodes
  | .loop _ _ condition body _ => condition.nodes ⊆ nodes ∧ body.nodes ⊆ nodes
  | .program _ _ all => Stmt.nodesAll all ⊆ nodes

section Starts

variable {nodes : List Node}

/-- An evaluation that keeps the frames keeps the heap made of the program's functions. -/
theorem madeOf_of_ok {α : Type} {action : Eval α} (keeps : KeepsFrames nodes action)
    {m n : Machine} {a : α} (made : m.heap.MadeOf nodes) (ran : action m = .ok a n) :
    n.heap.MadeOf nodes := by
  have kept := (keeps m made).made
  rwa [ran] at kept

/-- After a statement of the program every function in the heap is still one of the
program's. -/
theorem madeOf_of_execute (housed : Node.Housed nodes) {room : Nat} {s : ScopeRef} {stmt : Stmt}
    {m n : Machine} {completion : Completion} (inside : stmt.nodes ⊆ nodes)
    (made : m.heap.MadeOf nodes) (ran : execute limits room s stmt m = .ok completion n) :
    n.heap.MadeOf nodes := by
  have kept := (execute_declares housed limits room s inside m made).made
  rwa [ran] at kept

theorem nodes_of_first {e a : Expr} (operand : e.first? = some a) (inside : e.nodes ⊆ nodes) :
    a.nodes ⊆ nodes := by
  cases e <;> cases operand <;>
    simp only [Expr.nodes, List.cons_subset, List.append_subset] at inside
  case assign | unary | member | grouping => exact inside.2
  case logical | binary | call | index | slice => exact inside.2.1

theorem nodes_of_second {e b : Expr} {v : Value} (operand : e.second? v = some b)
    (inside : e.nodes ⊆ nodes) : b.nodes ⊆ nodes := by
  cases e with
  | logical left op right line =>
      simp only [Expr.nodes, List.cons_subset, List.append_subset] at inside
      cases op <;> simp only [Expr.second?] at operand <;> split at operand <;> cases operand
      · exact inside.2.2
      · exact inside.2.2
  | binary left op right line =>
      cases operand
      simp only [Expr.nodes, List.cons_subset, List.append_subset] at inside
      exact inside.2.2
  | index target position line =>
      cases operand
      simp only [Expr.nodes, List.cons_subset, List.append_subset] at inside
      exact inside.2.2
  | slice target low high line =>
      cases operand
      simp only [Expr.nodes, List.cons_subset, List.append_subset, Expr.nodesOption] at inside
      exact inside.2.2.1
  | _ => cases operand

theorem nodes_of_operand {stmt : Stmt} {e : Expr} (operand : stmt.operand? = some e)
    (inside : stmt.nodes ⊆ nodes) : e.nodes ⊆ nodes := by
  cases stmt with
  | expression | print =>
      cases operand
      rw [Stmt.nodes, List.cons_subset] at inside
      exact inside.2
  | varDecl | returnValue =>
      cases operand
      rw [Stmt.nodes, Expr.nodesOption, List.cons_subset] at inside
      exact inside.2
  | ifElse =>
      cases operand
      simp only [Stmt.nodes, List.cons_subset, List.append_subset] at inside
      exact inside.2.1
  | block | whileLoop | funDecl => cases operand

/-- A task starts only what it has to do, or the body of a function. -/
theorem Starts.madeOf (housed : Node.Housed nodes) {task task' : Task} {m m' : Machine}
    {calls : Nat} (starts : Starts limits task m calls task' m') (inside : task.MadeOf nodes)
    (made : m.heap.MadeOf nodes) : task'.MadeOf nodes ∧ m'.heap.MadeOf nodes := by
  have evaluated : ∀ {room s e v o n}, o.heap.MadeOf nodes →
      evaluate limits room s e o = .ok v n → n.heap.MadeOf nodes :=
    fun made ran => madeOf_of_ok (evaluate_keepsFrames housed limits _ _ _) made ran
  -- the nodes of a part are nodes of the whole; a body comes from the heap
  cases starts with
  | first operand => exact ⟨nodes_of_first operand inside, made⟩
  | second _ ran operand => exact ⟨nodes_of_second operand inside, evaluated made ran⟩
  | lastBound ran ran' =>
      simp only [Task.MadeOf, Expr.nodes, List.cons_subset, List.append_subset] at inside
      refine ⟨inside.2.2.2, madeOf_of_ok (keepsFrames_optional ?_) (evaluated made ran) ran'⟩
      exact fun e _ => evaluate_keepsFrames housed limits _ _ e
  | elements =>
      simp only [Task.MadeOf, Expr.nodes, List.cons_subset] at inside
      exact ⟨inside.2, made⟩
  | arguments ran =>
      simp only [Task.MadeOf, Expr.nodes, List.cons_subset, List.append_subset] at inside
      exact ⟨inside.2.2, evaluated made ran⟩
  | call ran ran' =>
      refine ⟨trivial, madeOf_of_ok ?_ (evaluated made ran) ran'⟩
      exact evaluateAll_keepsFrames housed limits _ _ _
  | body found runs =>
      obtain ⟨-, -, here⟩ := runsBody_iff.mp runs
      cases here
      exact ⟨made _ (Array.mem_of_getElem? found), made⟩
  | head =>
      simp only [Task.MadeOf, Expr.nodesAll, List.append_subset] at inside
      exact ⟨inside.1, made⟩
  | tail ran =>
      simp only [Task.MadeOf, Expr.nodesAll, List.append_subset] at inside
      exact ⟨inside.2, evaluated made ran⟩
  | operand operand => exact ⟨nodes_of_operand operand inside, made⟩
  | block ran =>
      simp only [Task.MadeOf, Stmt.nodes, List.cons_subset] at inside
      cases ran
      exact ⟨inside.2, made⟩
  | branch ran taken =>
      simp only [Task.MadeOf, Stmt.nodes, List.cons_subset, List.append_subset] at inside
      obtain ⟨-, -, inThen, inElse⟩ := inside
      refine ⟨?_, evaluated made ran⟩
      split at taken
      · cases taken
        exact inThen
      · cases taken
        exact inElse
  | loop =>
      simp only [Task.MadeOf, Stmt.nodes, List.cons_subset, List.append_subset] at inside
      exact ⟨inside.2, made⟩
  | condition => exact ⟨inside.1, made⟩
  | pass ran _ => exact ⟨inside.2, evaluated made ran⟩
  | again ran _ ran' =>
      exact ⟨inside, madeOf_of_execute housed inside.2 (evaluated made ran) ran'⟩
  | statement | topLevel =>
      simp only [Task.MadeOf, Stmt.nodesAll, List.append_subset] at inside
      exact ⟨inside.1, made⟩
  | statements ran | program ran =>
      simp only [Task.MadeOf, Stmt.nodesAll, List.append_subset] at inside
      exact ⟨inside.2, madeOf_of_execute housed inside.1 made ran⟩

end Starts

/-- The machine a run starts with holds built-in functions only. -/
theorem startMachine_madeOf (nodes : List Node) : startMachine.heap.MadeOf nodes := by
  intro c mem
  have none : c ∈ (#[] : Array Closure) := mem
  simp at none

/-- In every state that a run comes to, what is to be done and all functions are part
of the program. -/
theorem Reaches.madeOf {stmts : List Stmt} (housed : Node.Housed (Stmt.nodesAll stmts))
    {calls : Nat} {task : Task} {m : Machine} (reached : Reaches limits stmts calls task m) :
    task.MadeOf (Stmt.nodesAll stmts) ∧ m.heap.MadeOf (Stmt.nodesAll stmts) := by
  induction reached with
  | start => exact ⟨fun _ mem => mem, startMachine_madeOf _⟩
  | step _ starts ih => exact starts.madeOf housed ih.1 ih.2

end Eval

end TernLang
