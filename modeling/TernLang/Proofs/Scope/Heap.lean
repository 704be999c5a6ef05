import TernLang.Proofs.Heap.Reach
import TernLang.Proofs.Scope

/-! # Scopes never lose names

`Heap.Grows` is what running does to the scopes of a heap: new ones appear, each
old one keeps the scope around it and the names it binds. So **what a scope sees
it sees forever** (`Sees.grows`). A heap is `Sound` if the body of every function
in it is well-scoped under names that the scope of its declaration sees, however
far that function has escaped from there.
-/

namespace TernLang

namespace Bindings

/-- The names that have a value. -/
def Binds (bindings : Bindings) (name : String) : Prop :=
  (bindings.get? name).isSome

theorem get?_put (bindings : Bindings) (name other : String) (value : Value) :
    (bindings.put name value).get? other =
      if name = other then some value else bindings.get? other := by
  induction bindings with
  | nil => rfl
  | cons entry rest ih =>
      obtain ⟨key, old⟩ := entry
      by_cases same : key = name
      · subst same
        by_cases found : key = other <;> simp [put, get?, found]
      · by_cases found : key = other
        · subst found
          simp [put, get?, same, Ne.symm same]
        · simp [put, get?, same, found, ih]

theorem Binds.put {bindings : Bindings} {name : String} (binds : bindings.Binds name)
    (other : String) (value : Value) : (bindings.put other value).Binds name := by
  unfold Binds at binds ⊢
  rw [get?_put]
  split
  · rfl
  · exact binds

theorem binds_put (bindings : Bindings) (name : String) (value : Value) :
    (bindings.put name value).Binds name := by
  simp [Binds, get?_put]

theorem Binds.putAll {bindings : Bindings} {name : String} (binds : bindings.Binds name)
    (added : List (String × Value)) : (bindings.putAll added).Binds name := by
  induction added generalizing bindings with
  | nil => exact binds
  | cons entry rest ih => exact ih (binds.put entry.1 entry.2)

/-- Every name that is given a value is bound. -/
theorem binds_putAll {name : String} {added : List (String × Value)}
    (given : name ∈ added.map Prod.fst) (bindings : Bindings) :
    (bindings.putAll added).Binds name := by
  induction added generalizing bindings with
  | nil => cases given
  | cons entry rest ih =>
      rcases List.mem_cons.mp given with rfl | later
      · exact (binds_put bindings entry.1 entry.2).putAll rest
      · exact ih later (bindings.put entry.1 entry.2)

end Bindings

namespace Heap

/-- Each scope of `h` is in `h'`, in the same place of the chain and with the
same names, or more. -/
def Grows (h h' : Heap) : Prop :=
  ∀ (i : Nat) (scope : Scope), h.scopes[i]? = some scope →
    ∃ scope', h'.scopes[i]? = some scope' ∧ scope'.outer = scope.outer ∧
      ∀ name, scope.bindings.Binds name → scope'.bindings.Binds name

theorem grows_of_scopes_eq {h h' : Heap} (same : h'.scopes = h.scopes) : h.Grows h' := by
  intro i scope found
  exact ⟨scope, by rw [same, found], rfl, fun _ binds => binds⟩

theorem Grows.refl (h : Heap) : h.Grows h :=
  grows_of_scopes_eq rfl

theorem Grows.trans {h h' h'' : Heap} (first : h.Grows h') (second : h'.Grows h'') :
    h.Grows h'' := by
  intro i scope found
  obtain ⟨scope', found', outer', keeps'⟩ := first i scope found
  obtain ⟨scope'', found'', outer'', keeps''⟩ := second i scope' found'
  exact ⟨scope'', found'', outer''.trans outer', fun name binds => keeps'' name (keeps' name binds)⟩

theorem Grows.size_le {h h' : Heap} (grows : h.Grows h') {i : Nat} (old : i < h.scopes.size) :
    i < h'.scopes.size := by
  obtain ⟨scope', found, -⟩ := grows i h.scopes[i] (by simp [old])
  exact (Array.getElem?_eq_some_iff.mp found).1

theorem grows_define (h : Heap) (ref : ScopeRef) (name : String) (value : Value) :
    h.Grows (h.define ref name value) := by
  intro i scope found
  by_cases here : ref.id = i
  · subst here
    refine ⟨{ scope with bindings := scope.bindings.put name value }, ?_, rfl, ?_⟩
    · simp [define, Array.getElem?_modify, found]
    · intro other binds
      exact binds.put name value
  · refine ⟨scope, ?_, rfl, fun _ binds => binds⟩
    simp [define, Array.getElem?_modify, here, found]

theorem grows_newScope (h : Heap) (added : Scope) : h.Grows (h.newScope added).2 := by
  intro i scope found
  have old := (Array.getElem?_eq_some_iff.mp found).1
  refine ⟨scope, ?_, rfl, fun _ binds => binds⟩
  simp only [newScope, Array.getElem?_push]
  rw [if_neg (by omega), found]

/-! ## What a scope sees -/

/-- More scopes can be searched, and in a heap that has grown. -/
theorem Grows.findWithin {h h' : Heap} (grows : h.Grows h') {name : String} {fuel fuel' : Nat}
    (more : fuel ≤ fuel') {ref : ScopeRef} (found : (h.findWithin name fuel ref).isSome) :
    (h'.findWithin name fuel' ref).isSome := by
  induction fuel generalizing fuel' ref with
  | zero => cases found
  | succ fuel ih =>
      obtain ⟨fuel', rfl⟩ := Nat.exists_eq_add_of_le' (show 1 ≤ fuel' by omega)
      obtain ⟨owner, found⟩ := Option.isSome_iff_exists.mp found
      obtain ⟨scope, here, found⟩ := of_findWithin found
      obtain ⟨scope', here', outer, keeps⟩ := grows ref.id scope here
      unfold Heap.findWithin
      simp only [here']
      cases own : scope'.bindings.get? name with
      | some value => rfl
      | none =>
          -- the scope has kept its names, so the name was not bound in it before either
          obtain ⟨-, bound⟩ | ⟨out, -, around, rest⟩ := found
          · have kept := keeps name bound
            simp [Bindings.Binds, own] at kept
          · simp only [outer, around]
            exact ih (by omega) (by rw [rest]; rfl)

/-- The scope exists, and each of the names has a binding in it or around it. -/
structure Sees (h : Heap) (ref : ScopeRef) (names : List String) : Prop where
  inside : ref.id < h.scopes.size
  found : ∀ name ∈ names, (h.find ref name).isSome

variable {h h' : Heap} {ref : ScopeRef} {names : List String} {name : String}

theorem Sees.grows (sees : h.Sees ref names) (grows : h.Grows h') : h'.Sees ref names where
  inside := grows.size_le sees.inside
  found name mem := grows.findWithin (Nat.le_refl _) (sees.found name mem)

/-- A scope sees the names that it binds itself. -/
theorem find_of_binds {scope : Scope} (here : h.scopes[ref.id]? = some scope)
    (binds : scope.bindings.Binds name) : h.find ref name = some ref := by
  unfold find findWithin
  simp only [here]
  cases own : scope.bindings.get? name with
  | some value => rfl
  | none => simp [Bindings.Binds, own] at binds

/-- The scope that is found has a binding of its own. -/
theorem ownBinding_of_findWithin {fuel : Nat} {owner : ScopeRef}
    (found : h.findWithin name fuel ref = some owner) : (h.ownBinding owner name).isSome := by
  induction fuel generalizing ref with
  | zero => cases found
  | succ fuel ih =>
      obtain ⟨scope, here, ⟨rfl, own⟩ | ⟨outer, -, -, rest⟩⟩ := of_findWithin found
      · simpa [ownBinding, here] using own
      · exact ih rest

/-- A name that is seen has an owner. -/
theorem Sees.owner (sees : h.Sees ref names) (mem : name ∈ names) :
    ∃ owner, h.owner ref name = .ok owner := by
  obtain ⟨owner, found⟩ := Option.isSome_iff_exists.mp (sees.found name mem)
  exact ⟨owner, by simp [Heap.owner, found]⟩

/-- A name that is seen has a value. -/
theorem Sees.lookup (sees : h.Sees ref names) (mem : name ∈ names) :
    ∃ value, h.lookup ref name = .ok value := by
  obtain ⟨owner, found⟩ := Option.isSome_iff_exists.mp (sees.found name mem)
  obtain ⟨value, own⟩ := Option.isSome_iff_exists.mp (ownBinding_of_findWithin found)
  exact ⟨value, by simp [Heap.lookup, found, own]⟩

/-- After a declaration the scope sees the name as well. -/
theorem Sees.define (sees : h.Sees ref names) (name : String) (value : Value) :
    (h.define ref name value).Sees ref (name :: names) := by
  have before := sees.grows (grows_define h ref name value)
  refine ⟨before.inside, ?_⟩
  intro other mem
  rcases List.mem_cons.mp mem with rfl | old
  · obtain ⟨scope, found⟩ : ∃ scope, h.scopes[ref.id]? = some scope :=
      ⟨_, Array.getElem?_eq_getElem sees.inside⟩
    have here : (h.define ref other value).scopes[ref.id]? =
        some { scope with bindings := scope.bindings.put other value } := by
      simp [Heap.define, Array.getElem?_modify, found]
    rw [find_of_binds here (Bindings.binds_put scope.bindings other value)]
    rfl
  · exact before.found other old

/-- A new scope sees what it binds and what the scope around it sees. -/
theorem Sees.newScope {bindings : Bindings} {bound : List String} (sees : h.Sees ref names)
    (binds : ∀ name ∈ bound, bindings.Binds name) :
    (h.newScope ⟨bindings, some ref⟩).2.Sees (h.newScope ⟨bindings, some ref⟩).1
      (bound ++ names) := by
  have here : (h.newScope ⟨bindings, some ref⟩).2.scopes[(h.newScope ⟨bindings, some ref⟩).1.id]? =
      some ⟨bindings, some ref⟩ := by
    simp [Heap.newScope]
  refine ⟨by simp [Heap.newScope], ?_⟩
  intro name mem
  by_cases own : bindings.Binds name
  · rw [find_of_binds here own]
    rfl
  · have outside : name ∈ names := by
      rcases List.mem_append.mp mem with inner | outer
      · exact absurd (binds name inner) own
      · exact outer
    -- the scope around it is older, so its chain fits in the fuel that is left
    have around := (grows_newScope h ⟨bindings, some ref⟩).findWithin
      (Nat.succ_le_of_lt sees.inside) (sees.found name outside)
    unfold find findWithin
    simp only [here]
    have unbound : bindings.get? name = none := by
      simpa [Bindings.Binds] using own
    simp only [unbound]
    exact around

/-! ## Functions keep what they need -/

/-- The body of every function is well-scoped under names that the scope of its
declaration sees. -/
def Sound (h : Heap) : Prop :=
  ∀ closure ∈ h.functions, ∃ names, h.Sees closure.scope names ∧
    Stmt.resolvesAll (closure.params ++ names) closure.body = true

theorem Sound.grows (sound : h.Sound) (grows : h.Grows h') (same : h'.functions = h.functions) :
    h'.Sound := by
  intro closure mem
  rw [same] at mem
  obtain ⟨names, sees, resolves⟩ := sound closure mem
  exact ⟨names, sees.grows grows, resolves⟩

/-- The heap after the declaration of a function: the function sees itself. -/
theorem Sound.declare {closure : Closure} (sound : h.Sound) (sees : h.Sees closure.scope names)
    (resolves : Stmt.resolvesAll (closure.params ++ closure.name :: names) closure.body = true) :
    ((h.newFunction closure).2.define closure.scope closure.name
      (.function (h.newFunction closure).1)).Sound := by
  have grows : h.Grows (h.newFunction closure).2 := grows_of_scopes_eq rfl
  intro other mem
  have mem' : other ∈ h.functions.push closure := mem
  rcases Array.mem_push.mp mem' with old | rfl
  · obtain ⟨names', sees', resolves'⟩ := sound other old
    exact ⟨names', sees'.grows (grows.trans (grows_define _ _ _ _)), resolves'⟩
  · exact ⟨_, (sees.grows grows).define other.name _, resolves⟩

end Heap

end TernLang
