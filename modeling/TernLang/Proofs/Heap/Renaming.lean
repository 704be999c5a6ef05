import Mathlib.Logic.Equiv.Basic
import TernLang.Proofs.Heap.Reach
import TernLang.Proofs.Heap.Texts
import TernLang.Value.Equality

/-! # Heaps that are the same up to names

Two heaps can hold the same objects under different places. A `Renaming` is a
permutation of the places of each kind; two heaps are `Linked` on a region if they
hold the same objects there, up to a renaming.

**What is read in linked heaps is the same up to the renaming**: names mean the
same, and comparing and printing, which look at identities, give the same answers,
because a renaming keeps different places apart. A new object on both sides extends
the region, and the renaming sends one of the two places to the other
(`Linked.allocate`).
-/

namespace TernLang

/-- A permutation of the places of each kind. -/
abbrev Renaming := Kind → Equiv.Perm Nat

namespace Renaming

variable (ρ : Renaming)

def place (place : Place) : Place := ⟨place.kind, ρ place.kind place.id⟩

def list (ref : ListRef) : ListRef := ⟨ρ .list ref.id⟩

def scope (ref : ScopeRef) : ScopeRef := ⟨ρ .scope ref.id⟩

def function (ref : FunctionRef) : FunctionRef := ⟨ρ .function ref.id⟩

def value : Value → Value
  | .number x identity => .number x (ρ .identity identity)
  | .list ref => .list (ρ.list ref)
  | .function ref => .function (ρ.function ref)
  | .native (.method m receiver identity) =>
      .native (.method m (ρ.list receiver) (ρ .identity identity))
  | value => value

def bindings (bindings : Bindings) : Bindings :=
  bindings.map fun entry => (entry.1, ρ.value entry.2)

def object : Object → Object
  | .list items => .list (items.map ρ.value)
  | .scope ⟨bindings, outer⟩ => .scope ⟨ρ.bindings bindings, outer.map ρ.scope⟩
  | .function closure => .function { closure with scope := ρ.scope closure.scope }
  | .identity => .identity

variable {ρ}

theorem place_injective : Function.Injective ρ.place := by
  rintro ⟨kind, i⟩ ⟨kind', j⟩ same
  obtain ⟨kinds, ids⟩ := Place.mk.inj same
  cases kinds
  exact congrArg (Place.mk kind) ((ρ kind).injective ids)

theorem list_injective : Function.Injective ρ.list := by
  rintro ⟨i⟩ ⟨j⟩ same
  exact congrArg ListRef.mk ((ρ .list).injective (ListRef.mk.inj same))

theorem function_injective : Function.Injective ρ.function := by
  rintro ⟨i⟩ ⟨j⟩ same
  exact congrArg FunctionRef.mk ((ρ .function).injective (FunctionRef.mk.inj same))

theorem get?_bindings (entries : Bindings) (name : String) :
    (ρ.bindings entries).get? name = (entries.get? name).map ρ.value := by
  induction entries with
  | nil => rfl
  | cons entry rest ih =>
      obtain ⟨key, old⟩ := entry
      show (if key = name then some (ρ.value old) else (ρ.bindings rest).get? name) =
        (if key = name then some old else Bindings.get? rest name).map ρ.value
      by_cases here : key = name
      · rw [if_pos here, if_pos here]
        rfl
      · rw [if_neg here, if_neg here, ih]

theorem put_bindings (entries : Bindings) (name : String) (v : Value) :
    (ρ.bindings entries).put name (ρ.value v) = ρ.bindings (entries.put name v) := by
  induction entries with
  | nil => rfl
  | cons entry rest ih =>
      obtain ⟨key, old⟩ := entry
      show (if key = name then (key, ρ.value v) :: ρ.bindings rest
        else (key, ρ.value old) :: (ρ.bindings rest).put name (ρ.value v)) =
        ρ.bindings (if key = name then (key, v) :: rest else (key, old) :: Bindings.put rest name v)
      by_cases here : key = name
      · rw [if_pos here, if_pos here]
        rfl
      · rw [if_neg here, if_neg here, ih]
        rfl

/-- Different values stay different. -/
theorem equalScalars_value (a b : Value) :
    equalScalars (ρ.value a) (ρ.value b) = equalScalars a b := by
  cases a with
  | number x i =>
      cases b with
      | number y j =>
          -- a NaN equals itself only, and it is the same one under both names
          have identities : (ρ .identity i == ρ .identity j) = (i == j) := by
            rw [Bool.eq_iff_iff, beq_iff_eq, beq_iff_eq, (ρ .identity).injective.eq_iff]
          simp only [value, equalScalars, equalNumbers, identities]
      | native n => cases n <;> rfl
      | _ => rfl
  | list p =>
      cases b with
      | list q => simp [value, equalScalars, list_injective.eq_iff]
      | native n => cases n <;> rfl
      | _ => rfl
  | function f =>
      cases b with
      | function g => simp [value, equalScalars, function_injective.eq_iff]
      | native n => cases n <;> rfl
      | _ => rfl
  | native m =>
      cases m with
      | hash =>
          cases b with
          | native n => cases n <;> rfl
          | _ => rfl
      | method m ref i =>
          cases b with
          | native n =>
              cases n with
              | hash => rfl
              | method m' ref' i' => simp [value, equalScalars, list_injective.eq_iff]
          | _ => rfl
  | _ =>
      cases b with
      | native n => cases n <;> rfl
      | _ => rfl

/-- Lists are renamed to lists, and nothing else is. -/
theorem value_eq_list {v : Value} {ref : ListRef} (renamed : ρ.value v = .list ref) :
    ∃ old, v = .list old := by
  cases v with
  | list old => exact ⟨old, rfl⟩
  | native n => cases n <;> cases renamed
  | _ => cases renamed

/-- Renaming nothing. -/
theorem value_refl (v : Value) : value (fun _ => Equiv.refl Nat) v = v := by
  cases v with
  | native n => cases n <;> rfl
  | _ => rfl

theorem object_refl (o : Object) : object (fun _ => Equiv.refl Nat) o = o := by
  have values : value (fun _ => Equiv.refl Nat) = id := funext value_refl
  cases o with
  | list items => simp [object, values]
  | scope scope =>
      have scopes : Renaming.scope (fun _ => Equiv.refl Nat) = id := rfl
      simp [object, bindings, values, scopes]
  | function closure => rfl
  | identity => rfl

/-! ## Sending one place to another -/

/-- The renaming that sends `i` to `j` and changes as little as possible. -/
def send (ρ : Renaming) (kind : Kind) (i j : Nat) : Renaming :=
  Function.update ρ kind ((ρ kind).trans (Equiv.swap (ρ kind i) j))

/-- A renaming sent from one identity to another takes the one to the other. -/
theorem send_here (ρ : Renaming) (kind : Kind) (i j : Nat) : ρ.send kind i j kind i = j := by
  simp [send]

/-- It takes every identity not concerned where it did before. -/
theorem send_elsewhere {kind other : Kind} {i j n : Nat}
    (differ : other = kind → n ≠ i ∧ ρ kind n ≠ j) : ρ.send kind i j other n = ρ other n := by
  by_cases same : other = kind
  · subst same
    obtain ⟨source, target⟩ := differ rfl
    have image : ρ other n ≠ ρ other i := fun equal => source ((ρ other).injective equal)
    simp [send, Equiv.swap_apply_of_ne_of_ne image target]
  · simp [send, Function.update_of_ne same]

/-! ## Renamings that agree -/

variable {ρ' : Renaming}

/-- Renamings that agree on the places of a value rename it alike. -/
theorem value_congr {v : Value} (plain : ρ' .identity 0 = ρ .identity 0)
    (agree : v.Inside fun p => ρ'.place p = ρ.place p) : ρ'.value v = ρ.value v := by
  have ids : ∀ p ∈ v.places, ρ' p.kind p.id = ρ p.kind p.id :=
    fun p mem => congrArg Place.id (agree p mem)
  cases v with
  | number x i =>
      cases i with
      | zero => simp [value, plain]
      | succ n => simpa [value] using ids ⟨.identity, n + 1⟩ (by simp [Value.places])
  | list ref =>
      have same := ids ref.place (by simp [Value.places])
      exact congrArg (fun i => Value.list ⟨i⟩) same
  | function ref =>
      have same := ids ref.place (by simp [Value.places])
      exact congrArg (fun i => Value.function ⟨i⟩) same
  | native n =>
      cases n with
      | hash => rfl
      | method m ref i =>
          have receiver := ids ref.place (by simp [Value.places])
          have identity := ids ⟨.identity, i⟩ (by simp [Value.places])
          exact congrArg₂ (fun i j => Value.native (.method m ⟨i⟩ j)) receiver identity
  | _ => rfl

/-- Renamings that agree on the places an object points to rename it alike. -/
theorem object_congr {o : Object} (plain : ρ' .identity 0 = ρ .identity 0)
    (agree : o.Inside fun p => ρ'.place p = ρ.place p) : ρ'.object o = ρ.object o := by
  cases o with
  | list items =>
      have values := Object.inside_list.mp agree
      exact congrArg Object.list
        (Array.map_congr_left fun v mem => value_congr plain (values v mem))
  | scope scope =>
      obtain ⟨entries, outer⟩ := scope
      obtain ⟨outers, values⟩ := Object.inside_scope.mp agree
      have sameEntries : ρ'.bindings entries = ρ.bindings entries :=
        List.map_congr_left fun entry mem => by rw [value_congr plain (values entry mem)]
      have sameOuter : outer.map ρ'.scope = outer.map ρ.scope := by
        cases outer with
        | none => rfl
        | some ref =>
            have ids := congrArg Place.id (outers ref rfl)
            exact congrArg (fun i => some (ScopeRef.mk i)) ids
      show Object.scope ⟨_, _⟩ = Object.scope ⟨_, _⟩
      rw [sameEntries, sameOuter]
  | function c =>
      have same : ρ'.place c.scope.place = ρ.place c.scope.place := agree _ List.mem_cons_self
      have sameScope : ρ'.scope c.scope = ρ.scope c.scope :=
        congrArg (fun p => ScopeRef.mk p.id) same
      show Object.function _ = Object.function _
      rw [sameScope]
  | identity => rfl

end Renaming

/-! ## Well-formed heaps -/

/-- An outer scope is older than the scopes inside it, and the identity zero, which
numbers other than NaN have, is not given away. -/
structure Heap.WellFormed (h : Heap) : Prop where
  nested : ∀ {i : Nat} {scope : Scope} {outer : ScopeRef}, h.scopes[i]? = some scope →
    scope.outer = some outer → outer.id < i
  plain : 0 < h.nextIdentity

namespace Heap.WellFormed

variable {h : Heap}

theorem define (wellFormed : h.WellFormed) (ref : ScopeRef) (name : String) (v : Value) :
    (h.define ref name v).WellFormed := by
  refine ⟨?_, wellFormed.plain⟩
  intro i scope outer found around
  simp only [Heap.define, Array.getElem?_modify] at found
  split at found
  · obtain ⟨old, here, rfl⟩ := Option.map_eq_some_iff.mp found
    exact wellFormed.nested here around
  · exact wellFormed.nested found around

theorem newScope (wellFormed : h.WellFormed) {added : Scope}
    (older : ∀ outer ∈ added.outer, outer.id < h.scopes.size) :
    (h.newScope added).2.WellFormed := by
  refine ⟨?_, wellFormed.plain⟩
  intro i scope outer found around
  simp only [Heap.newScope, Array.getElem?_push] at found
  by_cases here : i = h.scopes.size
  · rw [if_pos here] at found
    cases found
    rw [here]
    exact older outer around
  · rw [if_neg here] at found
    exact wellFormed.nested found around

theorem newIdentity (wellFormed : h.WellFormed) : h.newIdentity.2.WellFormed :=
  ⟨wellFormed.nested, Nat.succ_pos _⟩

theorem modifyItems (wellFormed : h.WellFormed) (ref : ListRef)
    (change : Array Value → Array Value) : (h.modifyItems ref change).WellFormed :=
  ⟨wellFormed.nested, wellFormed.plain⟩

theorem newList (wellFormed : h.WellFormed) (items : Array Value) :
    (h.newList items).2.WellFormed :=
  ⟨wellFormed.nested, wellFormed.plain⟩

theorem newFunction (wellFormed : h.WellFormed) (c : Closure) :
    (h.newFunction c).2.WellFormed :=
  ⟨wellFormed.nested, wellFormed.plain⟩

end Heap.WellFormed

/-! ## Linked heaps -/

/-- A renaming, and the region in which it links two heaps. -/
structure Sharing where
  names : Renaming
  region : Place → Prop
  plain : names .identity 0 = 0

/-- The region has grown, and what was in it has kept its names. -/
def Sharing.Extends (w w' : Sharing) : Prop :=
  ∀ place, w.region place → w'.region place ∧ w'.names.place place = w.names.place place

/-- The heaps hold the same objects in the region, up to the renaming. -/
structure Linked (w : Sharing) (h h' : Heap) : Prop where
  closed : h.Closed w.region
  same : ∀ place, w.region place → ∃ object, h.object? place = some object ∧
    h'.object? (w.names.place place) = some (w.names.object object)
  wellFormed : h.WellFormed
  wellFormed' : h'.WellFormed

namespace Linked

variable {w : Sharing} {h h' : Heap}

/-- A list in the region stands on the other side under its new name, with its elements
renamed. -/
theorem list_at (linked : Linked w h h') {ref : ListRef} (held : w.region ref.place) :
    ∃ items, h.lists[ref.id]? = some items ∧
      h'.lists[(w.names.list ref).id]? = some (items.map w.names.value) := by
  obtain ⟨object, found, found'⟩ := linked.same _ held
  obtain ⟨items, here, rfl⟩ := Option.map_eq_some_iff.mp found
  exact ⟨items, here, Heap.object?_list.mp found'⟩

theorem scope_at (linked : Linked w h h') {ref : ScopeRef} (held : w.region ref.place) :
    ∃ entries outer, h.scopes[ref.id]? = some ⟨entries, outer⟩ ∧
      h'.scopes[(w.names.scope ref).id]? =
        some ⟨w.names.bindings entries, outer.map w.names.scope⟩ := by
  obtain ⟨object, found, found'⟩ := linked.same _ held
  obtain ⟨⟨entries, outer⟩, here, rfl⟩ := Option.map_eq_some_iff.mp found
  exact ⟨entries, outer, here, Heap.object?_scope.mp found'⟩

theorem function_at (linked : Linked w h h') {ref : FunctionRef} (held : w.region ref.place) :
    ∃ c, h.functions[ref.id]? = some c ∧ h'.functions[(w.names.function ref).id]? =
      some { c with scope := w.names.scope c.scope } := by
  obtain ⟨object, found, found'⟩ := linked.same _ held
  obtain ⟨c, here, rfl⟩ := Option.map_eq_some_iff.mp found
  exact ⟨c, here, Heap.object?_function.mp found'⟩

/-! ### Readings -/

theorem items (linked : Linked w h h') {ref : ListRef} (held : w.region ref.place) :
    h'.items (w.names.list ref) = (h.items ref).map w.names.value := by
  obtain ⟨items, here, here'⟩ := linked.list_at held
  simp [Heap.items, here, here']

/-- The chains of scopes are the same, though their places are numbered
differently: either search has enough fuel. -/
theorem findWithin (linked : Linked w h h') (name : String) {fuel fuel' : Nat} {ref : ScopeRef}
    (held : w.region ref.place) (enough : ref.id < fuel) (enough' : (w.names.scope ref).id < fuel') :
    h'.findWithin name fuel' (w.names.scope ref) =
      (h.findWithin name fuel ref).map w.names.scope := by
  induction fuel generalizing fuel' ref with
  | zero => omega
  | succ fuel ih =>
      obtain ⟨fuel', rfl⟩ := Nat.exists_eq_add_of_le' (show 1 ≤ fuel' by omega)
      obtain ⟨entries, outer, here, here'⟩ := linked.scope_at held
      unfold Heap.findWithin
      simp only [here, here', Renaming.get?_bindings]
      cases entries.get? name with
      | some v => rfl
      | none =>
          cases outer with
          | none => rfl
          | some ref' =>
              -- both chains go on to an older scope, each in its own numbering
              have inside := Object.inside_scope.mp
                (linked.closed _ held _ (Heap.object?_scope.mpr here))
              have older := linked.wellFormed.nested here rfl
              have older' := linked.wellFormed'.nested here' rfl
              exact ih (inside.1 ref' rfl) (by omega) (by omega)

/-- Searching from the renamed scope finds the renamed owner. -/
theorem find (linked : Linked w h h') (name : String) {ref : ScopeRef}
    (held : w.region ref.place) :
    h'.find (w.names.scope ref) name = (h.find ref name).map w.names.scope :=
  linked.findWithin name held (Nat.lt_succ_self _) (Nat.lt_succ_self _)

theorem owner (linked : Linked w h h') (name : String) {ref : ScopeRef}
    (held : w.region ref.place) :
    h'.owner (w.names.scope ref) name = (h.owner ref name).map w.names.scope := by
  unfold Heap.owner
  rw [linked.find name held]
  cases h.find ref name <;> rfl

theorem lookup (linked : Linked w h h') (name : String) {ref : ScopeRef}
    (held : w.region ref.place) :
    h'.lookup (w.names.scope ref) name = (h.lookup ref name).map w.names.value := by
  unfold Heap.lookup
  rw [linked.find name held]
  cases found : h.find ref name with
  | none => rfl
  | some owner =>
      obtain ⟨entries, outer, here, here'⟩ :=
        linked.scope_at (linked.closed.findWithin held found)
      simp only [Option.map_some, Option.bind_some, Heap.ownBinding, here, here',
        Renaming.get?_bindings]
      cases entries.get? name <;> rfl

/-! ### Comparing -/

/-- Pairs of lists under their new names. -/
def renamePairs (ρ : Renaming) (seen : ListPairs) : ListPairs :=
  seen.map fun pair => (ρ.list pair.1, ρ.list pair.2)

theorem contains_renamePairs (ρ : Renaming) (seen : ListPairs) (p q : ListRef) :
    (renamePairs ρ seen).contains (ρ.list p, ρ.list q) = seen.contains (p, q) := by
  induction seen with
  | nil => rfl
  | cons pair rest ih =>
      have head : ((ρ.list p, ρ.list q) == (ρ.list pair.1, ρ.list pair.2)) = ((p, q) == pair) := by
        rw [Bool.eq_iff_iff, beq_iff_eq, beq_iff_eq, Prod.mk.injEq,
          Renaming.list_injective.eq_iff, Renaming.list_injective.eq_iff, Prod.ext_iff]
      show (((ρ.list p, ρ.list q) == (ρ.list pair.1, ρ.list pair.2)) ||
        (renamePairs ρ rest).contains (ρ.list p, ρ.list q)) = _
      rw [head, ih]
      rfl

theorem allEqual_renamed {ρ : Renaming} {region : Place → Prop}
    {compare compare' : ListPairs → Value → Value → Option (Bool × ListPairs)}
    (same : ∀ seen a b, a.Inside region → b.Inside region →
      compare' (renamePairs ρ seen) (ρ.value a) (ρ.value b) =
        (compare seen a b).map fun result => (result.1, renamePairs ρ result.2))
    (xs ys : List Value) (insideX : ∀ v ∈ xs, v.Inside region)
    (insideY : ∀ v ∈ ys, v.Inside region) (seen : ListPairs) :
    allEqual compare' (renamePairs ρ seen) ((xs.map ρ.value).zip (ys.map ρ.value)) =
      (allEqual compare seen (xs.zip ys)).map fun result => (result.1, renamePairs ρ result.2) := by
  induction xs generalizing ys seen with
  | nil => rfl
  | cons x xs ih =>
      cases ys with
      | nil => rfl
      | cons y ys =>
          simp only [List.map_cons, List.zip_cons_cons, allEqual]
          rw [same seen x y (insideX x List.mem_cons_self) (insideY y List.mem_cons_self)]
          cases compare seen x y with
          | none => rfl
          | some result =>
              obtain ⟨equal, seen'⟩ := result
              cases equal with
              | false => rfl
              | true =>
                  exact ih ys (fun v mem => insideX v (List.mem_cons_of_mem x mem))
                    (fun v mem => insideY v (List.mem_cons_of_mem y mem)) seen'

/-- Renamed values compare as the values do, with the pairs in progress renamed. -/
theorem equalWith (linked : Linked w h h') (room : Nat) (seen : ListPairs) {a b : Value}
    (insideA : a.Inside w.region) (insideB : b.Inside w.region) :
    h'.equalWith room (renamePairs w.names seen) (w.names.value a) (w.names.value b) =
      (h.equalWith room seen a b).map fun result => (result.1, renamePairs w.names result.2) := by
  induction room generalizing seen a b with
  | zero => rfl
  | succ room ih =>
      by_cases lists : ∃ p q, a = .list p ∧ b = .list q
      · obtain ⟨p, q, rfl, rfl⟩ := lists
        rw [Value.inside_list] at insideA insideB
        have elements := allEqual_renamed (ρ := w.names) (fun seen a b => ih seen (a := a) (b := b))
          (h.items p).toList (h.items q).toList
          (fun v mem => linked.closed.items insideA v (Array.mem_toList_iff.mp mem))
          (fun v mem => linked.closed.items insideB v (Array.mem_toList_iff.mp mem))
          ((p, q) :: seen)
        simp only [Renaming.value, Heap.equalWith, linked.items insideA, linked.items insideB,
          Renaming.list_injective.eq_iff, Array.size_map, contains_renamePairs, Array.toList_map]
        split
        · rfl
        · split
          · rfl
          · split
            · rfl
            · exact elements
      · -- values other than two lists
        have scalars : ∀ (h : Heap) (seen : ListPairs) {a b : Value},
            (¬ ∃ p q, a = .list p ∧ b = .list q) →
            h.equalWith (room + 1) seen a b = some (equalScalars a b, seen) := by
          intro h seen a b other
          unfold Heap.equalWith
          split
          · next p q => exact absurd ⟨p, q, rfl, rfl⟩ other
          · rfl
        have lists' : ¬ ∃ p q, w.names.value a = .list p ∧ w.names.value b = .list q := by
          rintro ⟨p, q, left, right⟩
          obtain ⟨p, rfl⟩ := Renaming.value_eq_list left
          obtain ⟨q, rfl⟩ := Renaming.value_eq_list right
          exact lists ⟨p, q, rfl, rfl⟩
        rw [scalars h seen lists, scalars h' _ lists', Renaming.equalScalars_value]
        rfl

/-- Renamed values are equal when the values are. -/
theorem equal (linked : Linked w h h') (room : Nat) {a b : Value} (insideA : a.Inside w.region)
    (insideB : b.Inside w.region) :
    h'.equal room (w.names.value a) (w.names.value b) = h.equal room a b := by
  unfold Heap.equal
  have same := linked.equalWith room [] insideA insideB
  rw [show renamePairs w.names [] = [] from rfl] at same
  rw [same, Option.map_map]
  rfl

/-! ### Printing -/

theorem renderScalar (linked : Linked w h h') {v : Value} (inside : v.Inside w.region) :
    h'.renderScalar (w.names.value v) = h.renderScalar v := by
  cases v with
  | function ref =>
      obtain ⟨c, here, here'⟩ := linked.function_at (Value.inside_function.mp inside)
      simp [Renaming.value, Heap.renderScalar, Heap.functionName, here, here']
  | native n => cases n <;> rfl
  | _ => rfl

theorem mapM_renamed {ρ : Renaming} {text text' : Value → Option String} {values : List Value}
    (same : ∀ v ∈ values, text' (ρ.value v) = text v) :
    (values.map ρ.value).mapM text' = values.mapM text := by
  induction values with
  | nil => rfl
  | cons v rest ih =>
      rw [List.map_cons, List.mapM_cons, List.mapM_cons, same v List.mem_cons_self,
        ih fun u mem => same u (List.mem_cons_of_mem v mem)]

/-- A renamed value has the same text, with the lists in progress renamed. -/
theorem textWithin (linked : Linked w h h') (room : Nat) (active : List ListRef) {v : Value}
    (inside : v.Inside w.region) :
    h'.textWithin room (active.map w.names.list) (w.names.value v) =
      h.textWithin room active v := by
  induction room generalizing active v with
  | zero => rfl
  | succ room ih =>
      cases v with
      | list ref =>
          rw [Value.inside_list] at inside
          -- a list that contains itself is met again on both sides
          have member : (active.map w.names.list).contains (w.names.list ref) =
              active.contains ref := by
            simp [List.contains_eq_mem, List.mem_map, Renaming.list_injective.eq_iff]
          have elements : ((h.items ref).toList.map w.names.value).mapM
              (h'.textWithin room ((ref :: active).map w.names.list)) =
              (h.items ref).toList.mapM (h.textWithin room (ref :: active)) :=
            mapM_renamed fun v mem => ih (ref :: active)
              (linked.closed.items inside v (Array.mem_toList_iff.mp mem))
          simp only [Renaming.value, Heap.textWithin, linked.items inside, Array.toList_map, member]
          split
          · rfl
          · exact congrArg (Option.map bracketed) elements
      | function ref => exact congrArg some (linked.renderScalar inside)
      | native n => cases n <;> rfl
      | _ => rfl

/-- A renamed value is printed alike. -/
theorem render (linked : Linked w h h') (room : Nat) {v : Value} (inside : v.Inside w.region) :
    h'.render room (w.names.value v) = h.render room v := by
  rw [Heap.render_eq, Heap.render_eq]
  exact linked.textWithin room [] inside

/-! ### Steps -/

/-- The same update on both sides. -/
theorem update {n n' : Heap} (linked : Linked w h h') {place : Place} {object : Object}
    (held : w.region place) (updates : h.Updates n place (some object))
    (updates' : h'.Updates n' (w.names.place place) (some (w.names.object object)))
    (inside : object.Inside w.region) (wellFormed : n.WellFormed) (wellFormed' : n'.WellFormed) :
    Linked w n n' := by
  refine ⟨linked.closed.update updates ?_, ?_, wellFormed, wellFormed'⟩
  · rintro _ ⟨⟩
    exact inside
  · intro other heldOther
    by_cases here : other = place
    · subst here
      exact ⟨object, updates.here, updates'.here⟩
    · have here' : w.names.place other ≠ w.names.place place :=
        fun same => here (Renaming.place_injective same)
      rw [updates.elsewhere here, updates'.elsewhere here']
      exact linked.same other heldOther

/-- **A new object on both sides**: the region grows by its place. -/
theorem allocate {n n' : Heap} (linked : Linked w h h') {kind : Kind} {i j : Nat} {object : Object}
    (fresh : h.object? ⟨kind, i⟩ = none) (fresh' : h'.object? ⟨kind, j⟩ = none)
    (updates : h.Updates n ⟨kind, i⟩ (some object))
    (updates' : h'.Updates n' ⟨kind, j⟩ (some (w.names.object object)))
    (inside : object.Inside w.region) (wellFormed : n.WellFormed) (wellFormed' : n'.WellFormed) :
    ∃ w', w.Extends w' ∧ Linked w' n n' ∧ w'.region ⟨kind, i⟩ ∧ w'.names kind i = j ∧
      ∀ place, w'.region place → w.region place ∨ place = ⟨kind, i⟩ := by
  -- what is in the region is in use on both sides, so it keeps its names
  have keeps : ∀ place, w.region place →
      (w.names.send kind i j).place place = w.names.place place := by
    intro place held
    obtain ⟨o, found, found'⟩ := linked.same place held
    have names : w.names.send kind i j place.kind place.id = w.names place.kind place.id := by
      apply Renaming.send_elsewhere
      intro same
      constructor
      · intro equal
        have here : place = ⟨kind, i⟩ := by rw [← same, ← equal]
        rw [here, fresh] at found
        cases found
      · intro equal
        have here : w.names.place place = ⟨kind, j⟩ := by rw [← equal, ← same]; rfl
        rw [here, fresh'] at found'
        cases found'
    exact congrArg (Place.mk place.kind) names
  have plain : w.names.send kind i j .identity 0 = w.names .identity 0 := by
    apply Renaming.send_elsewhere
    intro same
    constructor
    · intro equal
      rw [← same, ← equal] at fresh
      simp [Heap.object?, linked.wellFormed.plain] at fresh
    · intro equal
      rw [← same, w.plain] at equal
      rw [← same, ← equal] at fresh'
      simp [Heap.object?, linked.wellFormed'.plain] at fresh'
  have renamed : ∀ o : Object, o.Inside w.region →
      (w.names.send kind i j).object o = w.names.object o :=
    fun o held => Renaming.object_congr plain fun place mem => keeps place (held place mem)
  refine ⟨⟨w.names.send kind i j, fun place => w.region place ∨ place = ⟨kind, i⟩,
    plain.trans w.plain⟩, ?_, ⟨?_, ?_, wellFormed, wellFormed'⟩, .inr rfl,
    Renaming.send_here _ _ _ _, fun _ held => held⟩
  · exact fun place held => ⟨.inl held, keeps place held⟩
  · -- old objects and the new one refer to the old region
    rintro place held o found next mem
    left
    by_cases here : place = ⟨kind, i⟩
    · rw [here, updates.here] at found
      cases found
      exact inside next mem
    · rw [updates.elsewhere here] at found
      exact linked.closed place (held.resolve_right here) o found next mem
  · rintro place held
    by_cases here : place = ⟨kind, i⟩
    · subst here
      refine ⟨object, updates.here, ?_⟩
      show n'.object? ⟨kind, w.names.send kind i j kind i⟩ = _
      rw [Renaming.send_here, renamed object inside, updates'.here]
    · have old := held.resolve_right here
      obtain ⟨o, found, found'⟩ := linked.same place old
      refine ⟨o, by rw [updates.elsewhere here, found], ?_⟩
      have here' : w.names.place place ≠ ⟨kind, j⟩ := by
        intro same
        rw [same, fresh'] at found'
        cases found'
      show n'.object? ((w.names.send kind i j).place place) = _
      rw [keeps place old, updates'.elsewhere here', found',
        renamed o (linked.closed place old o found)]

end Linked

end TernLang
