import TernLang.Proofs.Eval.Invariant
import TernLang.Proofs.Heap.Reach

/-! # Running writes only what it can reach

Evaluating an expression or executing a statement in a scope, and calling a value
with arguments, leaves every object as it was that the scope, or the callee and the
arguments, cannot reach: **writes are confined to the reachable part of the heap and
to what is new** (`writes_confined`). This holds in every heap and however the run
ends.

What can be reached changes all the time. The invariant is about a fixed region
instead: what could be reached at the start, and every place that was not in use
then.
-/

namespace TernLang

namespace Heap

/-- No reference leads out of the region, everything to come will be in it, and
outside of it the heap is still `base`. -/
structure Confined (base : Heap) (region : Place → Prop) (h : Heap) : Prop where
  closed : h.Closed region
  fresh : ∀ place, h.object? place = none → region place
  kept : ∀ place, ¬ region place → h.object? place = base.object? place

/-- A place of the region can be updated with an object inside of it. -/
theorem Confined.update {base h h' : Heap} {region : Place → Prop} {place : Place}
    {object : Option Object} (confined : Confined base region h) (held : region place)
    (updates : h.Updates h' place object) (inside : ∀ o, object = some o → o.Inside region) :
    Confined base region h' where
  closed := confined.closed.update updates inside
  fresh := by
    intro other fresh
    by_cases here : other = place
    · rwa [here]
    · rw [updates.elsewhere here] at fresh
      exact confined.fresh other fresh
  kept := by
    intro other outside
    have differ : other ≠ place := fun same => outside (same ▸ held)
    rw [updates.elsewhere differ, confined.kept other outside]

/-- A new object, at a place that was not in use. -/
theorem Confined.allocate {base h h' : Heap} {region : Place → Prop} {place : Place}
    {object : Object} (confined : Confined base region h) (fresh : h.object? place = none)
    (updates : h.Updates h' place (some object)) (inside : object.Inside region) :
    Confined base region h' ∧ region place := by
  have held := confined.fresh place fresh
  refine ⟨confined.update held updates ?_, held⟩
  rintro _ ⟨⟩
  exact inside

end Heap

namespace Eval

/-- Confinement as an invariant: a run that starts inside a region stays inside. -/
def confinement (base : Heap) (region : Place → Prop) : Invariant where
  Heaps := Heap.Confined base region
  Values := Value.Inside region
  Scopes s := region s.place
  Places _ := True
  constant := Value.inside_ofLiteral
  receiver held := Value.inside_list.mpr (Value.inside_method.mp held).1
  lookup confined held found := confined.closed.lookup held found
  owner confined held found := confined.closed.owner held found
  define := by
    intro h s name v confined held inside
    refine confined.update held (h.updates_define s name v) ?_
    exact fun o found => confined.closed.inside_define held name inside found
  items confined held := confined.closed.items (Value.inside_list.mp held)
  modifyItems := by
    intro h ref change confined held inside
    refine confined.update (Value.inside_list.mp held) (h.updates_modifyItems ref change) ?_
    exact fun o found => Heap.inside_modifyItems inside found
  closure := by
    intro h f c confined held found
    have inside := confined.closed _ (Value.inside_function.mp held) _
      (Heap.object?_function.mpr found)
    exact ⟨Object.inside_function.mp inside, Node.placed_anywhere _⟩
  newScope := by
    intro h s bindings confined held inside
    refine confined.allocate (h.fresh_newScope _) (h.updates_newScope _) ?_
    refine Object.inside_scope.mpr ⟨?_, inside⟩
    intro outer same
    cases same
    exact held
  newList := by
    intro h items confined inside
    rw [Value.inside_list]
    exact confined.allocate (h.fresh_newList items) (h.updates_newList items)
      (Object.inside_list.mpr inside)
  newFunction := by
    intro h c confined held _
    rw [Value.inside_function]
    exact confined.allocate (h.fresh_newFunction c) (h.updates_newFunction c)
      (Object.inside_function.mpr held)
  newNumber := by
    intro h x confined
    unfold Heap.newNumber
    split
    · obtain ⟨after, held⟩ :=
        confined.allocate h.fresh_newIdentity h.updates_newIdentity Object.inside_identity
      exact ⟨after, Value.inside_number held x⟩
    · exact ⟨confined, Value.inside_ofLiteral (.number x)⟩
  newMethod := by
    intro h m ref confined inside
    obtain ⟨after, held⟩ :=
      confined.allocate h.fresh_newIdentity h.updates_newIdentity Object.inside_identity
    exact ⟨after, Value.inside_method.mpr ⟨Value.inside_list.mp inside, held⟩⟩

/-- The machine that a run leaves, however it ends. -/
def machineAfter {α : Type} : EStateM.Result Stop Machine α → Machine
  | .ok _ after => after
  | .error _ after => after

end Eval

namespace Heap

/-- Whatever is in `h` and out of reach of the roots is the same in `h'`. -/
def KeepsUnreached (h h' : Heap) (roots : List Place) : Prop :=
  ∀ place object, h.object? place = some object → ¬ h.Reachable roots place →
    h'.object? place = some object

/-- The region of a run: what can be reached at its start, and what is not in use
then. -/
def Territory (h : Heap) (roots : List Place) (place : Place) : Prop :=
  h.object? place = none ∨ h.Reachable roots place

/-- At the start nothing is outside of the territory of the roots. -/
theorem confined_territory (h : Heap) (roots : List Place) :
    Confined h (h.Territory roots) h where
  closed := by
    rintro place (fresh | reached) object found next mem
    · rw [fresh] at found
      cases found
    · exact .inr (.step reached found mem)
  fresh _ fresh := .inl fresh
  kept _ _ := rfl

/-- What is confined to the territory of the roots keeps all that they do not reach. -/
theorem Confined.keepsUnreached {h h' : Heap} {roots : List Place}
    (confined : Confined h (h.Territory roots) h') : h.KeepsUnreached h' roots := by
  intro place object found unreached
  rw [confined.kept place, found]
  rintro (fresh | reached)
  · rw [fresh] at found
    cases found
  · exact unreached reached

end Heap

namespace Eval

/-- The invariant of a run that starts from some roots. -/
def territory (h : Heap) (roots : List Place) : Invariant :=
  confinement h (h.Territory roots)

theorem keepsUnreached_of_keeps {h : Heap} {roots : List Place} {α : Type} {results : α → Prop}
    {result : EStateM.Result Stop Machine α} (keeps : (territory h roots).Keeps results result) :
    h.KeepsUnreached (machineAfter result).heap roots := by
  cases result with
  | ok a after => exact Heap.Confined.keepsUnreached keeps.1
  | error stop after => exact Heap.Confined.keepsUnreached keeps.1

end Eval

/-- **Running writes only what it can reach.** Lists and scopes that were there
before are changed by an expression or a statement only if its scope reaches them,
by a call only if the callee or an argument does. -/
theorem writes_confined (limits : Limits) (room : Nat) (m : Machine) :
    (∀ (s : ScopeRef) (expr : Expr), m.heap.KeepsUnreached
      (Eval.machineAfter (Eval.evaluate limits room s expr m)).heap [s.place]) ∧
    (∀ (s : ScopeRef) (stmt : Stmt), m.heap.KeepsUnreached
      (Eval.machineAfter (Eval.execute limits room s stmt m)).heap [s.place]) ∧
    (∀ (callee : Value) (arguments : List Value), m.heap.KeepsUnreached
      (Eval.machineAfter (Eval.apply limits room callee arguments m)).heap
      ((callee :: arguments).flatMap Value.places)) := by
  refine ⟨?_, ?_, ?_⟩
  · intro s expr
    have start : (Eval.territory m.heap [s.place]).Scopes s :=
      .inr (.root (List.mem_singleton_self _))
    exact Eval.keepsUnreached_of_keeps (Eval.Invariant.evaluate_keeps limits room
      (Node.placed_anywhere expr.nodes) start (m.heap.confined_territory _))
  · intro s stmt
    have start : (Eval.territory m.heap [s.place]).Scopes s :=
      .inr (.root (List.mem_singleton_self _))
    exact Eval.keepsUnreached_of_keeps (Eval.Invariant.execute_keeps limits room
      (Node.placed_anywhere stmt.nodes) start (m.heap.confined_territory _))
  · intro callee arguments
    have start : ∀ v ∈ callee :: arguments,
        (Eval.territory m.heap ((callee :: arguments).flatMap Value.places)).Values v :=
      fun v mem place held => .inr (.root (List.mem_flatMap.mpr ⟨v, mem, held⟩))
    exact Eval.keepsUnreached_of_keeps (Eval.Invariant.apply_keeps limits room
      (start callee List.mem_cons_self)
      (fun v mem => start v (List.mem_cons_of_mem callee mem)) (m.heap.confined_territory _))

end TernLang
