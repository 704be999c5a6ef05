import TernLang.Eval
import TernLang.Proofs.Heap.Chains
import TernLang.Proofs.Heap.Frames

/-! # Writing in a forest of scopes

Scopes are made one after the other, each on its own or inside an older one, and names are
bound in them; so they are a forest (`Heap.Forest`), whatever the history of the calls.
**A write is seen from a scope exactly if the search of the name from there ends at the
scope that is written to** (`Heap.forest_updates`): a nearer binding shadows it, and every
other name and every other scope keeps what it had. So declaring a name can change what a
scope sees of it, and assigning to a name changes its value for the scopes that see the
same binding, and for no others.
-/

namespace TernLang

/-- A call that changes the scopes of a heap. -/
inductive ScopeCall where
  | new (outer : Option ScopeRef)
  | define (scope : ScopeRef) (name : String) (value : Value)
  | set (scope : ScopeRef) (name : String) (value : Value)
  | update (scope : ScopeRef) (added : List (String × Value))
  | register (scope : ScopeRef)

namespace Heap

/-- The scopes that a call is about are there. -/
def Knows (h : Heap) : ScopeCall → Prop
  | .new outer => ∀ scope ∈ outer, h.InUse scope.place
  | .define scope _ _ => h.InUse scope.place
  | .set scope _ _ => h.InUse scope.place
  | .update scope _ => h.InUse scope.place
  | .register scope => h.InUse scope.place

/-- A heap after a call, however that ends. -/
def afterCall (h : Heap) : ScopeCall → Heap
  | .new outer => (h.newScope ⟨[], outer⟩).2
  | .define scope name value => h.define scope name value
  | .set scope name value =>
      match h.assign scope name value with
      | .ok h' => h'
      | .error _ => h
  | .update scope added => h.defineAll scope added
  | .register scope => h.defineAll scope builtins

/-- The scopes of the heap were made by calls. What happens to lists and functions in
between does not matter. -/
inductive Forest : Heap → Prop
  | bare {h : Heap} : h.WellFormed → h.scopes = #[] → Forest h
  | call {h : Heap} {call : ScopeCall} : Forest h → h.Knows call → Forest (h.afterCall call)
  | objects {h h' : Heap} : Forest h → h'.WellFormed → h'.scopes = h.scopes → Forest h'

variable {h : Heap} {s t owner : ScopeRef} {name other : String} {value : Value}

/-! ## Forests are made of finite chains -/

theorem WellFormed.defineAll (wellFormed : h.WellFormed) (s : ScopeRef)
    (added : List (String × Value)) : (h.defineAll s added).WellFormed := by
  induction added generalizing h with
  | nil => exact wellFormed
  | cons entry rest ih => exact ih (wellFormed.define s entry.1 entry.2)

theorem WellFormed.afterCall (wellFormed : h.WellFormed) {call : ScopeCall}
    (known : h.Knows call) : (h.afterCall call).WellFormed := by
  cases call with
  | new outer =>
      refine wellFormed.newScope fun scope around => ?_
      obtain ⟨found, here⟩ := inUse_scope.mp (known scope around)
      exact (Array.getElem?_eq_some_iff.mp here).1
  | define scope name value => exact wellFormed.define scope name value
  | set scope name value =>
      rw [Heap.afterCall, assign]
      cases h.owner scope name with
      | ok owner => exact wellFormed.define owner name value
      | error fault => exact wellFormed
  | update scope added => exact wellFormed.defineAll scope added
  | register scope => exact wellFormed.defineAll scope builtins

/-- A forest is well-formed, since each operation on scopes keeps that. -/
theorem Forest.wellFormed (forest : h.Forest) : h.WellFormed := by
  induction forest with
  | bare wellFormed _ => exact wellFormed
  | call _ known ih => exact ih.afterCall known
  | objects _ wellFormed _ _ => exact wellFormed

/-- If links lead to older scopes, then every scope has a chain. -/
theorem WellFormed.exists_chain (wellFormed : h.WellFormed) (used : h.InUse s.place) :
    ∃ refs, h.OuterChain s refs := by
  induction place : s.id using Nat.strongRecOn generalizing s with
  | ind i ih =>
      obtain ⟨scope, here⟩ := inUse_scope.mp used
      cases around : scope.outer with
      | none => exact ⟨[s], .outermost here around⟩
      | some outer =>
          have older := wellFormed.nested here around
          have inside := (Array.getElem?_eq_some_iff.mp here).1
          have used' : h.InUse outer.place :=
            inUse_scope.mpr ⟨_, Array.getElem?_eq_getElem (Nat.lt_trans older inside)⟩
          obtain ⟨refs, chain⟩ := ih outer.id (place ▸ older) used' rfl
          exact ⟨s :: refs, .link here around chain⟩

/-! ## One binding is written -/

/-- A definition changes one name in one scope. -/
theorem ownBinding_define (used : h.InUse s.place) :
    (h.define s name value).ownBinding t other =
      if t = s ∧ other = name then some value else h.ownBinding t other := by
  obtain ⟨scope, here⟩ := inUse_scope.mp used
  unfold ownBinding define
  rw [Array.getElem?_modify]
  by_cases same : s.id = t.id
  · obtain rfl : s = t := congrArg ScopeRef.mk same
    simp [here, Bindings.get?_put, eq_comm]
  · have differ : t ≠ s := fun same' => same (congrArg ScopeRef.id same'.symm)
    simp [same, differ]

/-- A search looks at the scope itself, then at those around it. -/
theorem findWithin_succ (fuel : Nat) :
    h.findWithin name (fuel + 1) s =
      if (h.ownBinding s name).isSome then some s
      else ((h.scopes[s.id]?).bind Scope.outer).bind (h.findWithin name fuel) := by
  rw [findWithin, ownBinding]
  cases h.scopes[s.id]? with
  | none => rfl
  | some scope =>
      simp only [Option.bind_some]
      cases scope.bindings.get? name with
      | some value => rfl
      | none => cases scope.outer <;> rfl

/-- A definition keeps the scopes that are around the others. -/
theorem outer_define :
    ((h.define s name value).scopes[t.id]?).bind Scope.outer =
      (h.scopes[t.id]?).bind Scope.outer := by
  unfold define
  rw [Array.getElem?_modify]
  cases h.scopes[t.id]? with
  | none => split <;> rfl
  | some scope => split <;> rfl

/-- Writing changes what a search finds only if it now ends where was written. -/
theorem findWithin_define (used : h.InUse s.place) (fuel : Nat) :
    (h.define s name value).findWithin other fuel t = h.findWithin other fuel t ∨
      (other = name ∧ (h.define s name value).findWithin other fuel t = some s) := by
  induction fuel generalizing t with
  | zero => exact .inl rfl
  | succ fuel ih =>
      rw [findWithin_succ, findWithin_succ, ownBinding_define used, outer_define]
      by_cases here : t = s ∧ other = name
      · right
        rw [if_pos here, here.1]
        exact ⟨here.2, if_pos rfl⟩
      · rw [if_neg here]
        cases h.ownBinding t other with
        | some bound => exact .inl rfl
        | none =>
            cases (h.scopes[t.id]?).bind Scope.outer with
            | none => exact .inl rfl
            | some outer => exact ih

/-- Afterwards a name is found where it was before, or in the scope of the definition. -/
theorem find_define (used : h.InUse s.place) :
    (h.define s name value).find t other = h.find t other ∨
      (other = name ∧ (h.define s name value).find t other = some s) :=
  findWithin_define used _

/-- **A declaration is seen where the search of the name ends at it**, and changes nothing
else. -/
theorem lookup_define (used : h.InUse s.place) :
    (h.define s name value).lookup t other =
      if other = name ∧ (h.define s name value).find t name = some s then .ok value
      else h.lookup t other := by
  by_cases seen : other = name ∧ (h.define s name value).find t name = some s
  · obtain ⟨rfl, found⟩ := seen
    rw [if_pos ⟨rfl, found⟩, lookup, found, Option.bind_some, ownBinding_define used,
      if_pos ⟨rfl, rfl⟩]
  · rw [if_neg seen]
    have same : (h.define s name value).find t other = h.find t other := by
      rcases @find_define h s t name other value used with same | ⟨rfl, found⟩
      · exact same
      · exact absurd ⟨rfl, found⟩ seen
    unfold lookup
    rw [same]
    cases found : h.find t other with
    | none => rfl
    | some owner =>
        -- the binding that is found is not the one that was written
        have elsewhere : ¬ (owner = s ∧ other = name) := by
          rintro ⟨rfl, rfl⟩
          exact seen ⟨rfl, same.trans found⟩
        rw [Option.bind_some, Option.bind_some, ownBinding_define used, if_neg elsewhere]

/-- The scope that a search finds has the name. -/
theorem ownBinding_of_find (found : h.find s name = some owner) :
    (h.ownBinding owner name).isSome :=
  ownBinding_of_findWithin found

theorem inUse_of_ownBinding (bound : (h.ownBinding owner name).isSome) : h.InUse owner.place := by
  obtain ⟨value, own⟩ := Option.isSome_iff_exists.mp bound
  obtain ⟨scope, here, -⟩ := Option.bind_eq_some_iff.mp own
  exact inUse_scope.mpr ⟨scope, here⟩

/-- Writing to a name that is bound already does not change where names are found. -/
theorem findWithin_rebind (bound : (h.ownBinding s name).isSome) (fuel : Nat) :
    (h.define s name value).findWithin other fuel t = h.findWithin other fuel t := by
  have binds (t : ScopeRef) : ((h.define s name value).ownBinding t other).isSome =
      (h.ownBinding t other).isSome := by
    rw [ownBinding_define (inUse_of_ownBinding bound)]
    by_cases here : t = s ∧ other = name
    · rw [if_pos here, here.1, here.2, bound]
      rfl
    · rw [if_neg here]
  induction fuel generalizing t with
  | zero => rfl
  | succ fuel ih =>
      rw [findWithin_succ, findWithin_succ, binds, outer_define]
      simp only [funext fun outer => @ih outer]

/-- Defining a name anew does not change where names are found. -/
theorem find_rebind (bound : (h.ownBinding s name).isSome) :
    (h.define s name value).find t other = h.find t other :=
  findWithin_rebind bound _

/-- An assignment defines the name anew in the scope where it is found. -/
theorem assign_of_find (found : h.find s name = some owner) :
    h.assign s name value = .ok (h.define owner name value) := by
  simp [assign, Heap.owner, found, Except.map]

/-- Without such a scope, it fails and changes nothing. -/
theorem assign_of_find_eq_none (unbound : h.find s name = none) :
    h.assign s name value = .error (.undefinedVariable name) := by
  simp [assign, Heap.owner, unbound, Except.map]

/-- **An assignment writes to one binding**, and is seen exactly where that binding is. -/
theorem assign_writes (found : h.find s name = some owner) :
    (h.define owner name value).frames = h.frames ∧
    (∀ t other, (h.define owner name value).ownBinding t other =
      if t = owner ∧ other = name then some value else h.ownBinding t other) ∧
    (∀ t other, (h.define owner name value).find t other = h.find t other) ∧
    ∀ t other, (h.define owner name value).lookup t other =
      if other = name ∧ h.find t name = h.find s name then .ok value else h.lookup t other := by
  have bound := ownBinding_of_find found
  have used := inUse_of_ownBinding bound
  have owned : h.owner s name = .ok owner := by rw [Heap.owner, found]
  refine ⟨h.frames_assign owned value, fun _ _ => ownBinding_define used,
    fun _ _ => find_rebind bound, fun t other => ?_⟩
  rw [lookup_define used, find_rebind bound, found]

/-- **Writes in a forest of scopes.** Let the scopes have been made by any calls. Then every
scope has a chain of scopes around it, and a name is found in the first one that binds it.

After a name is declared in a scope, it has the new value where the search for it ends at
this scope now, and everything else is seen as before. Assigning to a name succeeds if it
is found. Then it changes this one binding, in the scope where it is found: no scope gets
or loses a name, names are found where they were, and the new value is seen exactly where
the search of the name ends at the same scope. Assigning to a name that is not found, or
reading it, fails with an undefined variable; that changes nothing. -/
theorem forest_updates (forest : h.Forest) (used : h.InUse s.place) (name : String)
    (value : Value) :
    (∀ t, h.InUse t.place → ∃ refs, h.OuterChain t refs ∧
      ∀ other, h.find t other = refs.find? fun ref => (h.ownBinding ref other).isSome) ∧
    (∀ t other, (h.define s name value).lookup t other =
      if other = name ∧ (h.define s name value).find t name = some s then .ok value
      else h.lookup t other) ∧
    ((∃ h', h.assign s name value = .ok h') ↔ h.find s name ≠ none) ∧
    (∀ h', h.assign s name value = .ok h' → ∃ owner, h.find s name = some owner ∧
      h'.frames = h.frames ∧
      (∀ t other, h'.ownBinding t other =
        if t = owner ∧ other = name then some value else h.ownBinding t other) ∧
      (∀ t other, h'.find t other = h.find t other) ∧
      ∀ t other, h'.lookup t other =
        if other = name ∧ h.find t name = h.find s name then .ok value else h.lookup t other) ∧
    (h.find s name = none →
      h.assign s name value = .error (.undefinedVariable name) ∧
      h.afterCall (.set s name value) = h ∧
      h.lookup s name = .error (.undefinedVariable name) ∧
      ∀ machine : Machine, machine.heap = h →
        Eval.assign s name value machine = .error (.ofFault (.undefinedVariable name)) machine ∧
        Eval.inspect (·.lookup s name) machine =
          .error (.ofFault (.undefinedVariable name)) machine) := by
  refine ⟨?_, fun t other => lookup_define used, ?_, ?_, ?_⟩
  · intro t there
    -- the chain of a scope is finite, so the search comes to its end
    obtain ⟨refs, chain⟩ := forest.wellFormed.exists_chain there
    exact ⟨refs, chain, (chain.walks forest.wellFormed).find⟩
  · cases found : h.find s name with
    | none => simp [assign_of_find_eq_none found]
    | some owner => simp [assign_of_find found]
  · intro h' assigned
    cases found : h.find s name with
    | none =>
        rw [assign_of_find_eq_none found] at assigned
        cases assigned
    | some owner =>
        rw [assign_of_find found] at assigned
        cases assigned
        rw [← found]
        exact ⟨owner, found, assign_writes found⟩
  · intro unbound
    have refused := @assign_of_find_eq_none h s name value unbound
    -- the search has failed, so reading and assigning fail for the same reason
    have unread : h.lookup s name = .error (.undefinedVariable name) := by
      rw [lookup, unbound]
      rfl
    refine ⟨refused, by rw [afterCall, refused], unread, ?_⟩
    rintro machine rfl
    have unowned : machine.heap.owner s name = .error (.undefinedVariable name) := by
      rw [Heap.owner, unbound]
    constructor
    · simp [Eval.assign, Eval.inspect, unowned, bind, EStateM.bind]
    · simp [Eval.inspect, unread]

/-- A scope with a name, and two scopes in it, one of which has the name too. -/
def siblings : Heap :=
  (((((empty.afterCall (.new none)).afterCall (.define ⟨0⟩ "x" .null)).afterCall
    (.new (some ⟨0⟩))).afterCall (.new (some ⟨0⟩))).afterCall (.define ⟨1⟩ "x" (.bool true)))

theorem siblings_forest : siblings.Forest := by
  have start : empty.Forest := .bare ⟨by simp [empty], by decide⟩ rfl
  refine .call (.call (.call (.call (.call start ?_) ?_) ?_) ?_) ?_
  · exact nofun
  · exact inUse_scope.mpr ⟨_, rfl⟩
  · rintro scope ⟨⟩
    exact inUse_scope.mpr ⟨_, rfl⟩
  · rintro scope ⟨⟩
    exact inUse_scope.mpr ⟨_, rfl⟩
  · exact inUse_scope.mpr ⟨_, rfl⟩

/-- Assigning from the scope without the name is seen there and in the scope around both,
and the other one keeps its own value. -/
theorem forest_updates_siblings :
    ∃ h', siblings.assign ⟨2⟩ "x" (.string "new") = .ok h' ∧
      h'.lookup ⟨2⟩ "x" = .ok (.string "new") ∧ h'.lookup ⟨0⟩ "x" = .ok (.string "new") ∧
      h'.lookup ⟨1⟩ "x" = .ok (.bool true) := by
  have used : siblings.InUse (ScopeRef.place ⟨2⟩) := inUse_scope.mpr ⟨_, rfl⟩
  obtain ⟨-, -, succeeds, writes, -⟩ :=
    forest_updates siblings_forest used "x" (.string "new")
  have found : siblings.find ⟨2⟩ "x" = some ⟨0⟩ := by decide
  obtain ⟨h', assigned⟩ := succeeds.mpr (by simp [found])
  obtain ⟨owner, -, -, -, -, sees⟩ := writes h' assigned
  refine ⟨h', assigned, ?_, ?_, ?_⟩
  · rw [sees]
    exact if_pos ⟨rfl, rfl⟩
  · rw [sees]
    exact if_pos ⟨rfl, by decide⟩
  · rw [sees, if_neg]
    · rfl
    · rintro ⟨-, same⟩
      exact absurd same (by decide)

end Heap

end TernLang
