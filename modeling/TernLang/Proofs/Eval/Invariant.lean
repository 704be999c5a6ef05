import TernLang.Proofs.Eval.Correspondence.Program
import TernLang.Proofs.Heap.Lists

/-! # Invariants of a run

An `Invariant` says what holds of the heap, of the values and of the scopes that a
run gets to see, and lists what single steps have to keep. It is a correspondence
of a run with itself, so that **every run keeps it, however the run ends**
(`evaluate_keeps`, `execute_keeps`, `apply_keeps`, `executeProgram_keeps`).
-/

namespace TernLang

namespace Eval

/-- What holds throughout a run, and why single steps keep it. -/
structure Invariant where
  Heaps : Heap → Prop
  Values : Value → Prop
  Scopes : ScopeRef → Prop
  Places : Nat → Prop
  constant (literal : Literal) : Values (.ofLiteral literal)
  receiver {m : ListMethod} {ref : ListRef} {i : Nat} :
    Values (.native (.method m ref i)) → Values (.list ref)
  lookup {h : Heap} {s : ScopeRef} {name : String} {v : Value} : Heaps h → Scopes s →
    h.lookup s name = .ok v → Values v
  owner {h : Heap} {s owner : ScopeRef} {name : String} : Heaps h → Scopes s →
    h.owner s name = .ok owner → Scopes owner
  define {h : Heap} {s : ScopeRef} (name : String) {v : Value} : Heaps h → Scopes s → Values v →
    Heaps (h.define s name v)
  items {h : Heap} {ref : ListRef} : Heaps h → Values (.list ref) → ∀ v ∈ h.items ref, Values v
  modifyItems {h : Heap} {ref : ListRef} {change : Array Value → Array Value} : Heaps h →
    Values (.list ref) → (∀ v ∈ change (h.items ref), Values v) → Heaps (h.modifyItems ref change)
  closure {h : Heap} {f : FunctionRef} {c : Closure} : Heaps h → Values (.function f) →
    h.functions[f.id]? = some c → Scopes c.scope ∧ Node.Placed Places (Stmt.nodesAll c.body)
  newScope {h : Heap} {s : ScopeRef} {bindings : Bindings} : Heaps h → Scopes s →
    (∀ entry ∈ bindings, Values entry.2) →
      Heaps (h.newScope ⟨bindings, some s⟩).2 ∧ Scopes (h.newScope ⟨bindings, some s⟩).1
  newList {h : Heap} {items : Array Value} : Heaps h → (∀ v ∈ items, Values v) →
    Heaps (h.newList items).2 ∧ Values (.list (h.newList items).1)
  newFunction {h : Heap} {c : Closure} : Heaps h → Scopes c.scope →
    Node.Placed Places (Stmt.nodesAll c.body) →
      Heaps (h.newFunction c).2 ∧ Values (.function (h.newFunction c).1)
  newNumber {h : Heap} (x : Float) : Heaps h →
    Heaps (h.newNumber x).2 ∧ Values (h.newNumber x).1
  newMethod {h : Heap} (m : ListMethod) {ref : ListRef} : Heaps h → Values (.list ref) →
    Heaps (h.newMethod m ref).2 ∧ Values (h.newMethod m ref).1

/-- Both are the same, and something holds of them. -/
abbrev Same {α : Type} (holds : α → Prop) : α → α → Prop :=
  Image id holds

/-- A reading corresponds to itself if something holds of what it gives. -/
theorem readings_same {ε α : Type} {holds : α → Prop} {read : Except ε α}
    (held : ∀ a, read = .ok a → holds a) : Readings (Same holds) read read := by
  have images : Readings (Same holds) read (read.map id) := readings_image held
  rwa [Except.map_id] at images

namespace Invariant

variable (I : Invariant)

/-- An invariant as a correspondence of a run with itself. -/
def correspondence : Correspondence where
  World := Unit
  Later _ _ := True
  Heaps _ := Same I.Heaps
  Values _ := Same I.Values
  Scopes _ := Same I.Scopes
  Places := I.Places
  later_refl _ := trivial
  later_trans _ _ := trivial
  values_later _ := id
  scopes_later _ := id
  alike := by
    rintro _ v _ ⟨rfl, -⟩
    exact .refl _
  constant _ literal := ⟨rfl, I.constant literal⟩
  receiver := by
    rintro _ m ref ref' i i' ⟨same, held⟩
    cases same
    exact ⟨rfl, I.receiver held⟩
  lookup := by
    rintro _ h _ s _ name ⟨rfl, held⟩ ⟨rfl, scope⟩
    exact readings_same fun v found => I.lookup held scope found
  owner := by
    rintro _ h _ s _ name ⟨rfl, held⟩ ⟨rfl, scope⟩
    exact readings_same fun o found => I.owner held scope found
  define := by
    rintro _ h _ s _ name v _ ⟨rfl, held⟩ ⟨rfl, scope⟩ ⟨rfl, value⟩
    exact ⟨rfl, I.define name held scope value⟩
  items := by
    rintro _ h _ ref ref' ⟨rfl, held⟩ ⟨same, list⟩
    cases same
    exact elementwise_image_iff.mpr ⟨(Array.map_id _).symm, I.items held list⟩
  modifyItems := by
    rintro _ h _ ref ref' change change' ⟨rfl, held⟩ ⟨same, list⟩ changed
    cases same
    obtain ⟨equal, values⟩ := elementwise_image_iff.mp changed
    rw [Array.map_id] at equal
    exact ⟨Heap.modifyItems_congr equal, I.modifyItems held list values⟩
  closure := by
    rintro _ _ h f f' ⟨rfl, held⟩ ⟨same, function⟩
    cases same
    cases found : h.functions[f.id]? with
    | none => exact .none
    | some c =>
        obtain ⟨scope, placed⟩ := I.closure held function found
        exact .some ⟨rfl, rfl, rfl, ⟨rfl, scope⟩, placed⟩
  equal := by
    rintro _ h _ room a _ b _ ⟨rfl, -⟩ ⟨rfl, -⟩ ⟨rfl, -⟩
    rfl
  render := by
    rintro _ h _ room v _ ⟨rfl, -⟩ ⟨rfl, -⟩
    rfl
  newScope := by
    rintro _ h _ s _ bindings bindings' ⟨rfl, held⟩ ⟨rfl, scope⟩ alike
    obtain ⟨same, values⟩ := bindings_image alike
    simp only [id_eq, Prod.eta, List.map_id'] at same
    subst same
    obtain ⟨held', scope'⟩ := I.newScope held scope values
    exact ⟨(), trivial, ⟨rfl, held'⟩, rfl, scope'⟩
  newList := by
    rintro _ h _ items items' ⟨rfl, held⟩ related
    obtain ⟨same, values⟩ := elementwise_image_iff.mp related
    rw [Array.map_id] at same
    subst same
    obtain ⟨held', list⟩ := I.newList held values
    exact ⟨(), trivial, ⟨rfl, held'⟩, rfl, list⟩
  newFunction := by
    rintro _ h _ ⟨name, params, body, scope⟩ ⟨_, _, _, _⟩ ⟨rfl, held⟩
      ⟨rfl, rfl, rfl, ⟨rfl, declared⟩, placed⟩
    obtain ⟨held', function⟩ := I.newFunction held declared placed
    exact ⟨(), trivial, ⟨rfl, held'⟩, rfl, function⟩
  newNumber := by
    rintro _ h _ x ⟨rfl, held⟩
    obtain ⟨held', number⟩ := I.newNumber x held
    exact ⟨(), trivial, ⟨rfl, held'⟩, rfl, number⟩
  newMethod := by
    rintro _ h _ m ref ref' ⟨rfl, held⟩ ⟨same, list⟩
    cases same
    obtain ⟨held', method⟩ := I.newMethod m held list
    exact ⟨(), trivial, ⟨rfl, held'⟩, rfl, method⟩

/-! ## Every run keeps an invariant -/

/-- The run left a heap that satisfies the invariant; a stop names one of the
places, if any. -/
def Keeps {α : Type} (results : α → Prop) : EStateM.Result Stop Machine α → Prop
  | .ok a after => I.Heaps after.heap ∧ results a
  | .error stop after => I.Heaps after.heap ∧ stop.Within I.Places

variable {I}

/-- An evaluation that corresponds to itself under the relation of an invariant keeps the
invariant. -/
theorem keeps_of_corresponds {α : Type} {results : α → Prop} {action : Eval α}
    {post : Unit → α → α → Prop} (corresponds : Corresponds I.correspondence () post action action)
    (implies : ∀ {a a'}, post () a a' → results a) {m : Machine} (held : I.Heaps m.heap) :
    I.Keeps results (action m) := by
  have ends := corresponds m m ⟨rfl, held⟩ rfl
  generalize action m = result at ends
  cases ends with
  | ok advances found => exact ⟨advances.heaps.2, implies found⟩
  | error advances within => exact ⟨advances.heaps.2, within⟩

/-- An invariant of the heap holds after every expression, and of the value it gives. -/
theorem evaluate_keeps (limits : Limits) (room : Nat) {expr : Expr}
    (placed : Node.Placed I.Places expr.nodes) {s : ScopeRef} (scope : I.Scopes s) {m : Machine}
    (held : I.Heaps m.heap) : I.Keeps I.Values (evaluate limits room s expr m) := by
  have run := evaluate_corresponds I.correspondence limits room placed (w := ()) ⟨rfl, scope⟩
  exact keeps_of_corresponds run (fun found => found.2) held

/-- An invariant of the heap holds after every statement, and of the value it returns. -/
theorem execute_keeps (limits : Limits) (room : Nat) {stmt : Stmt}
    (placed : Node.Placed I.Places stmt.nodes) {s : ScopeRef} (scope : I.Scopes s) {m : Machine}
    (held : I.Heaps m.heap) : I.Keeps (fun _ => True) (execute limits room s stmt m) := by
  have run := execute_corresponds I.correspondence limits room placed (w := ()) ⟨rfl, scope⟩
  exact keeps_of_corresponds run (fun _ => trivial) held

/-- An invariant of the heap holds after every call with arguments it allows. -/
theorem apply_keeps (limits : Limits) (room : Nat) {callee : Value} (called : I.Values callee)
    {arguments : List Value} (given : ∀ v ∈ arguments, I.Values v) {m : Machine}
    (held : I.Heaps m.heap) : I.Keeps I.Values (apply limits room callee arguments m) := by
  have run := apply_corresponds I.correspondence limits room (w := ()) ⟨rfl, called⟩
    (forall₂_image_iff.mpr ⟨(List.map_id _).symm, given⟩)
  exact keeps_of_corresponds run (fun found => found.2) held

/-- An invariant that holds at the start of a program holds at its end, however it ends. -/
theorem executeProgram_keeps (limits : Limits) (room : Nat) {stmts : List Stmt}
    (placed : Node.Placed I.Places (Stmt.nodesAll stmts)) {s : ScopeRef} (scope : I.Scopes s)
    {m : Machine} (held : I.Heaps m.heap) :
    I.Keeps (fun _ => True) (executeProgram limits room s stmts m) := by
  have run := executeProgram_corresponds I.correspondence limits room placed (w := ())
    ⟨rfl, scope⟩
  exact keeps_of_corresponds run (fun _ => trivial) held

end Invariant

end Eval

end TernLang
