import TernLang.Environment
import TernLang.Proofs.Heap.Lists

/-! # What can be reached in a heap

A heap is seen here as one map from places to objects: lists, scopes, functions and
the identities of NaNs and bound methods. Allocating and changing an object updates
this map in one place (`Updates`).

Values hold the places of lists and functions, a bound method that of its receiver;
lists and scopes hold values, a scope also the place of the scope around it, a
function the place of the scope of its declaration. A region of places is `Closed`
if no reference leads out of it. **Readings that start inside a closed region stay
inside, and an update by an object that refers to the inside keeps it closed.**
-/

namespace TernLang

/-- The kinds of things that a run tells apart by identity. -/
inductive Kind where
  | list | scope | function | identity
  deriving DecidableEq

/-- A place of a heap. -/
structure Place where
  kind : Kind
  id : Nat
  deriving DecidableEq

def ListRef.place (ref : ListRef) : Place := ⟨.list, ref.id⟩

def ScopeRef.place (ref : ScopeRef) : Place := ⟨.scope, ref.id⟩

def FunctionRef.place (ref : FunctionRef) : Place := ⟨.function, ref.id⟩

namespace Value

/-- The places that a value holds. The identity zero is shared by all numbers that
are no NaN; it is no place. -/
def places : Value → List Place
  | .number _ 0 => []
  | .number _ identity => [⟨.identity, identity⟩]
  | .list ref => [ref.place]
  | .function ref => [ref.place]
  | .native (.method _ receiver identity) => [receiver.place, ⟨.identity, identity⟩]
  | _ => []

/-- All places that a value holds are in a region. -/
def Inside (region : Place → Prop) (value : Value) : Prop :=
  ∀ place ∈ value.places, region place

variable {region : Place → Prop}

@[simp] theorem inside_list {ref : ListRef} : (Value.list ref).Inside region ↔ region ref.place := by
  simp [Inside, places]

@[simp] theorem inside_function {ref : FunctionRef} :
    (Value.function ref).Inside region ↔ region ref.place := by
  simp [Inside, places]

theorem inside_number {identity : Nat} (held : region ⟨.identity, identity⟩) (x : Float) :
    (Value.number x identity).Inside region := by
  cases identity with
  | zero => simp [Inside, places]
  | succ n => simpa [Inside, places] using held

@[simp] theorem inside_method {m : ListMethod} {ref : ListRef} {identity : Nat} :
    (Value.native (.method m ref identity)).Inside region ↔
      region ref.place ∧ region ⟨.identity, identity⟩ := by
  simp [Inside, places]

/-- A constant holds no place. -/
theorem inside_ofLiteral (literal : Literal) : (Value.ofLiteral literal).Inside region := by
  cases literal <;> simp [Inside, places, ofLiteral, ofFloat]

end Value

namespace Bindings

theorem mem_of_get? {bindings : Bindings} {name : String} {value : Value}
    (found : bindings.get? name = some value) : ∃ entry ∈ bindings, entry.2 = value := by
  induction bindings with
  | nil => cases found
  | cons entry rest ih =>
      obtain ⟨key, old⟩ := entry
      unfold get? at found
      by_cases here : key = name
      · rw [if_pos here] at found
        exact ⟨(key, old), List.mem_cons_self, Option.some.inj found⟩
      · rw [if_neg here] at found
        obtain ⟨entry, mem, same⟩ := ih found
        exact ⟨entry, List.mem_cons_of_mem _ mem, same⟩

/-- The values after a name was given one are the old ones and that one. -/
theorem mem_put {bindings : Bindings} {name : String} {value : Value} {entry : String × Value}
    (mem : entry ∈ bindings.put name value) : entry ∈ bindings ∨ entry.2 = value := by
  induction bindings with
  | nil =>
      rw [put, List.mem_singleton] at mem
      exact .inr (by rw [mem])
  | cons first rest ih =>
      obtain ⟨key, old⟩ := first
      unfold put at mem
      by_cases here : key = name
      · rw [if_pos here] at mem
        rcases List.mem_cons.mp mem with rfl | later
        · exact .inr rfl
        · exact .inl (List.mem_cons_of_mem _ later)
      · rw [if_neg here] at mem
        rcases List.mem_cons.mp mem with rfl | later
        · exact .inl List.mem_cons_self
        · exact (ih later).imp (List.mem_cons_of_mem _) id

end Bindings

/-! ## Objects -/

/-- What is at a place. -/
inductive Object where
  | list (items : Array Value)
  | scope (scope : Scope)
  | function (closure : Closure)
  | identity

namespace Object

/-- The places that an object holds. -/
def places : Object → List Place
  | .list items => items.toList.flatMap Value.places
  | .scope ⟨bindings, outer⟩ =>
      outer.toList.map ScopeRef.place ++ bindings.flatMap (·.2.places)
  | .function closure => [closure.scope.place]
  | .identity => []

/-- All places that an object holds are in a region. -/
def Inside (region : Place → Prop) (object : Object) : Prop :=
  ∀ place ∈ object.places, region place

variable {region : Place → Prop}

theorem inside_list {items : Array Value} :
    (Object.list items).Inside region ↔ ∀ v ∈ items, v.Inside region := by
  unfold Inside places Value.Inside
  simp only [List.mem_flatMap, Array.mem_toList_iff]
  constructor
  · intro all v mem place held
    exact all place ⟨v, mem, held⟩
  · rintro all place ⟨v, mem, held⟩
    exact all v mem place held

theorem inside_scope {scope : Scope} :
    (Object.scope scope).Inside region ↔
      (∀ outer ∈ scope.outer, region outer.place) ∧
        ∀ entry ∈ scope.bindings, entry.2.Inside region := by
  unfold Inside places Value.Inside
  simp only [List.mem_append, List.mem_map, List.mem_flatMap, Option.mem_toList]
  constructor
  · intro all
    refine ⟨?_, ?_⟩
    · intro outer mem
      exact all _ (.inl ⟨outer, mem, rfl⟩)
    · intro entry mem place held
      exact all _ (.inr ⟨entry, mem, held⟩)
  · rintro ⟨outers, values⟩ place (⟨outer, mem, rfl⟩ | ⟨entry, mem, held⟩)
    · exact outers outer mem
    · exact values entry mem place held

theorem inside_function {closure : Closure} :
    (Object.function closure).Inside region ↔ region closure.scope.place := by
  simp [Inside, places]

theorem inside_identity : Object.identity.Inside region := by
  simp [Inside, places]

end Object

namespace Heap

/-- What is at a place of a heap, if it is in use. -/
def object? (h : Heap) : Place → Option Object
  | ⟨.list, i⟩ => h.lists[i]?.map .list
  | ⟨.scope, i⟩ => h.scopes[i]?.map .scope
  | ⟨.function, i⟩ => h.functions[i]?.map .function
  | ⟨.identity, i⟩ => if i < h.nextIdentity then some .identity else none

/-- The places that can be reached from some places. -/
inductive Reachable (h : Heap) (roots : List Place) : Place → Prop
  | root {place : Place} : place ∈ roots → Reachable h roots place
  | step {place next : Place} {object : Object} : Reachable h roots place →
      h.object? place = some object → next ∈ object.places → Reachable h roots next

variable {h h' : Heap} {region : Place → Prop} {roots : List Place}

theorem object?_list {ref : ListRef} {items : Array Value} :
    h.object? ref.place = some (.list items) ↔ h.lists[ref.id]? = some items := by
  simp [object?, ListRef.place]

theorem object?_scope {ref : ScopeRef} {scope : Scope} :
    h.object? ref.place = some (.scope scope) ↔ h.scopes[ref.id]? = some scope := by
  simp [object?, ScopeRef.place]

theorem object?_function {ref : FunctionRef} {closure : Closure} :
    h.object? ref.place = some (.function closure) ↔ h.functions[ref.id]? = some closure := by
  simp [object?, FunctionRef.place]

/-! ## Updates -/

/-- The two heaps differ in one place at most; `object` is there afterwards. -/
def Updates (h h' : Heap) (place : Place) (object : Option Object) : Prop :=
  ∀ other, h'.object? other = if other = place then object else h.object? other

/-- At the place of an update stands its object. -/
theorem Updates.here {place : Place} {object : Option Object}
    (updates : h.Updates h' place object) : h'.object? place = object := by
  rw [updates, if_pos rfl]

/-- Everywhere but at its place an update changes nothing. -/
theorem Updates.elsewhere {place other : Place} {object : Option Object}
    (updates : h.Updates h' place object) (differ : other ≠ place) :
    h'.object? other = h.object? other := by
  rw [updates, if_neg differ]

/-- Places only come into use. -/
theorem Updates.unused {place other : Place} {object : Object}
    (updates : h.Updates h' place (some object)) (unused : h'.object? other = none) :
    h.object? other = none := by
  by_cases here : other = place
  · rw [here, updates.here] at unused
    cases unused
  · rwa [updates.elsewhere here] at unused

/-- Defining a name updates the place of its scope alone. -/
theorem updates_define (h : Heap) (ref : ScopeRef) (name : String) (value : Value) :
    h.Updates (h.define ref name value) ref.place (h.scopes[ref.id]?.map fun scope =>
      .scope { scope with bindings := scope.bindings.put name value }) := by
  rintro ⟨kind, i⟩
  cases kind with
  | scope =>
      by_cases here : i = ref.id
      · subst here
        simp [object?, define, ScopeRef.place, Array.getElem?_modify, Function.comp_def]
      · simp [object?, define, ScopeRef.place, Array.getElem?_modify, here, Ne.symm here]
  | _ => rfl

/-- Changing a list updates the place of the list alone. -/
theorem updates_modifyItems (h : Heap) (ref : ListRef) (change : Array Value → Array Value) :
    h.Updates (h.modifyItems ref change) ref.place
      (h.lists[ref.id]?.map fun items => .list (change items)) := by
  rintro ⟨kind, i⟩
  cases kind with
  | list =>
      by_cases here : i = ref.id
      · subst here
        simp [object?, modifyItems_eq, ListRef.place, Array.getElem?_modify, Function.comp_def]
      · simp [object?, modifyItems_eq, ListRef.place, Array.getElem?_modify, here, Ne.symm here]
  | _ => rfl

theorem updates_newList (h : Heap) (items : Array Value) :
    h.Updates (h.newList items).2 (h.newList items).1.place (some (.list items)) := by
  rintro ⟨kind, i⟩
  cases kind with
  | list =>
      by_cases here : i = h.lists.size <;>
        simp [object?, newList, ListRef.place, Array.getElem?_push, here]
  | _ => rfl

theorem updates_newScope (h : Heap) (scope : Scope) :
    h.Updates (h.newScope scope).2 (h.newScope scope).1.place (some (.scope scope)) := by
  rintro ⟨kind, i⟩
  cases kind with
  | scope =>
      by_cases here : i = h.scopes.size <;>
        simp [object?, newScope, ScopeRef.place, Array.getElem?_push, here]
  | _ => rfl

theorem updates_newFunction (h : Heap) (closure : Closure) :
    h.Updates (h.newFunction closure).2 (h.newFunction closure).1.place
      (some (.function closure)) := by
  rintro ⟨kind, i⟩
  cases kind with
  | function =>
      by_cases here : i = h.functions.size <;>
        simp [object?, newFunction, FunctionRef.place, Array.getElem?_push, here]
  | _ => rfl

theorem updates_newIdentity (h : Heap) :
    h.Updates h.newIdentity.2 ⟨.identity, h.nextIdentity⟩ (some .identity) := by
  rintro ⟨kind, i⟩
  cases kind with
  | identity =>
      by_cases here : i = h.nextIdentity
      · simp [object?, newIdentity, here]
      · have shift : i < h.nextIdentity + 1 ↔ i < h.nextIdentity := by omega
        simp [object?, newIdentity, here, shift]
  | _ => rfl

/-- The place given to a new list was empty. -/
theorem fresh_newList (h : Heap) (items : Array Value) :
    h.object? (h.newList items).1.place = none := by
  simp [object?, newList, ListRef.place]

theorem fresh_newScope (h : Heap) (scope : Scope) :
    h.object? (h.newScope scope).1.place = none := by
  simp [object?, newScope, ScopeRef.place]

theorem fresh_newFunction (h : Heap) (closure : Closure) :
    h.object? (h.newFunction closure).1.place = none := by
  simp [object?, newFunction, FunctionRef.place]

theorem fresh_newIdentity (h : Heap) : h.object? ⟨.identity, h.nextIdentity⟩ = none := by
  simp [object?]

/-! ## Closed regions -/

/-- No reference leads out of the region. -/
def Closed (h : Heap) (region : Place → Prop) : Prop :=
  ∀ place, region place → ∀ object, h.object? place = some object → object.Inside region

/-- What is reachable is closed: nothing reachable points outside. -/
theorem closed_reachable (h : Heap) (roots : List Place) : h.Closed (h.Reachable roots) :=
  fun _ reached _ found _ mem => .step reached found mem

/-- What can be reached is in every closed region around the roots. -/
theorem Closed.contains (closed : h.Closed region) (start : ∀ place ∈ roots, region place)
    {place : Place} (reached : h.Reachable roots place) : region place := by
  induction reached with
  | root mem => exact start _ mem
  | step _ found mem ih => exact closed _ ih _ found _ mem

theorem Closed.items (closed : h.Closed region) {ref : ListRef} (held : region ref.place) :
    ∀ v ∈ h.items ref, v.Inside region := by
  unfold Heap.items
  cases found : h.lists[ref.id]? with
  | none => simp
  | some items => exact Object.inside_list.mp (closed _ held _ (object?_list.mpr found))

/-- The search for a name ends in the scope itself, or goes on in the scope around it. -/
theorem of_findWithin {name : String} {fuel : Nat} {ref owner : ScopeRef}
    (found : h.findWithin name (fuel + 1) ref = some owner) :
    ∃ scope, h.scopes[ref.id]? = some scope ∧
      ((owner = ref ∧ (scope.bindings.get? name).isSome) ∨
        ∃ outer, scope.bindings.get? name = none ∧ scope.outer = some outer ∧
          h.findWithin name fuel outer = some owner) := by
  unfold Heap.findWithin at found
  cases here : h.scopes[ref.id]? with
  | none => simp [here] at found
  | some scope =>
      refine ⟨scope, rfl, ?_⟩
      simp only [here] at found
      cases own : scope.bindings.get? name with
      | some value =>
          simp only [own, Option.some.injEq] at found
          exact .inl ⟨found.symm, rfl⟩
      | none =>
          simp only [own] at found
          cases around : scope.outer with
          | none => simp [around] at found
          | some outer =>
              simp only [around] at found
              exact .inr ⟨outer, rfl, rfl, found⟩

/-- A search that starts in a closed region finds its scope there. -/
theorem Closed.findWithin (closed : h.Closed region) {name : String} {fuel : Nat}
    {ref owner : ScopeRef} (start : region ref.place)
    (found : h.findWithin name fuel ref = some owner) : region owner.place := by
  induction fuel generalizing ref with
  | zero => cases found
  | succ fuel ih =>
      obtain ⟨scope, here, ⟨rfl, -⟩ | ⟨outer, -, around, rest⟩⟩ := of_findWithin found
      · exact start
      · have inside := closed _ start _ (object?_scope.mpr here)
        exact ih ((Object.inside_scope.mp inside).1 outer around) rest

theorem Closed.owner (closed : h.Closed region) {name : String} {ref owner : ScopeRef}
    (start : region ref.place) (found : h.owner ref name = .ok owner) : region owner.place := by
  unfold Heap.owner at found
  cases search : h.find ref name with
  | none => simp [search] at found
  | some place =>
      simp only [search, Except.ok.injEq] at found
      rw [← found]
      exact closed.findWithin start search

/-- What a name is bound to, looked up from a closed region, lies in the region. -/
theorem Closed.lookup (closed : h.Closed region) {name : String} {ref : ScopeRef} {value : Value}
    (start : region ref.place) (found : h.lookup ref name = .ok value) : value.Inside region := by
  unfold Heap.lookup at found
  cases search : h.find ref name with
  | none => simp [search] at found
  | some owner =>
      have inside := closed.findWithin start search
      cases here : h.scopes[owner.id]? with
      | none => simp [search, ownBinding, here] at found
      | some scope =>
          cases own : scope.bindings.get? name with
          | none => simp [search, ownBinding, here, own] at found
          | some v =>
              simp only [search, ownBinding, here, own, Option.bind_some, Except.ok.injEq] at found
              obtain ⟨entry, mem, same⟩ := Bindings.mem_of_get? own
              have values := Object.inside_scope.mp (closed _ inside _ (object?_scope.mpr here))
              rw [← found, ← same]
              exact values.2 entry mem

/-- An update by an object that refers to the inside keeps a region closed. -/
theorem Closed.update (closed : h.Closed region) {place : Place} {object : Option Object}
    (updates : h.Updates h' place object) (inside : ∀ o, object = some o → o.Inside region) :
    h'.Closed region := by
  intro other held o found
  by_cases here : other = place
  · rw [here, updates.here] at found
    exact inside o found
  · rw [updates.elsewhere here] at found
    exact closed other held o found

/-- The scope after a name was bound in it. -/
theorem Closed.inside_define (closed : h.Closed region) {ref : ScopeRef} (held : region ref.place)
    (name : String) {value : Value} (inside : value.Inside region) {o : Object}
    (found : (h.scopes[ref.id]?.map fun scope =>
      Object.scope { scope with bindings := scope.bindings.put name value }) = some o) :
    o.Inside region := by
  obtain ⟨scope, here, rfl⟩ := Option.map_eq_some_iff.mp found
  obtain ⟨outers, values⟩ := Object.inside_scope.mp (closed _ held _ (object?_scope.mpr here))
  refine Object.inside_scope.mpr ⟨outers, ?_⟩
  intro entry mem
  rcases Bindings.mem_put mem with before | added
  · exact values entry before
  · rwa [added]

/-- The list after a change of its elements. -/
theorem inside_modifyItems {ref : ListRef} {change : Array Value → Array Value}
    (inside : ∀ v ∈ change (h.items ref), v.Inside region) {o : Object}
    (found : (h.lists[ref.id]?.map fun items => Object.list (change items)) = some o) :
    o.Inside region := by
  obtain ⟨items, here, rfl⟩ := Option.map_eq_some_iff.mp found
  unfold Heap.items at inside
  rw [here] at inside
  exact Object.inside_list.mpr inside

end Heap

end TernLang
