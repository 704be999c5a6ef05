import TernLang.Proofs.Heap.Renaming
import TernLang.Proofs.Scope.Heap

/-! # Chains of scopes

Following the outer links from a scope gives its chain (`OuterChain`), a finite list
that ends at a scope with nothing around it. **Searching a name visits the scopes of
the chain in order** (`OuterChain.find`), and so do reading a variable, assigning to it
and counting the scopes around: none of them meets a place that is not in use, and
none is cut off by the bound that makes it total.

A heap is `Grounded` if every reference in it leads to something, every outer link
leads to an older scope, and only the outermost scope of the program has none. Then
every scope has a chain (`Grounded.chain`). No step on the heap changes the link of a
scope that is there; a new scope is a new link behind the others (`links`).
-/

namespace TernLang

namespace Heap

/-- There is something at the place. -/
def InUse (h : Heap) (place : Place) : Prop :=
  (h.object? place).isSome

/-- The scopes around each scope, in the order in which the scopes were made. -/
def links (h : Heap) : List (Option ScopeRef) :=
  h.scopes.toList.map Scope.outer

/-- `OuterChain h s refs`: the scopes from `s` outward are `refs`, and there is nothing
around the last one. -/
inductive OuterChain (h : Heap) : ScopeRef → List ScopeRef → Prop
  | outermost {s : ScopeRef} {scope : Scope} : h.scopes[s.id]? = some scope →
      scope.outer = none → OuterChain h s [s]
  | link {s outer : ScopeRef} {scope : Scope} {refs : List ScopeRef} :
      h.scopes[s.id]? = some scope → scope.outer = some outer → OuterChain h outer refs →
      OuterChain h s (s :: refs)

variable {h h' : Heap}

theorem inUse_scope {s : ScopeRef} : h.InUse s.place ↔ ∃ scope, h.scopes[s.id]? = some scope := by
  simp [InUse, object?, ScopeRef.place, Option.isSome_iff_exists]

theorem inUse_of_object? {place : Place} {object : Object} (found : h.object? place = some object) :
    h.InUse place := by
  simp [InUse, found]

/-! ## Walking along a chain -/

namespace OuterChain

variable {s : ScopeRef} {refs : List ScopeRef}

/-- All scopes of a chain are there. -/
theorem inUse (chain : h.OuterChain s refs) : ∀ ref ∈ refs, h.InUse ref.place := by
  induction chain with
  | outermost here _ =>
      intro ref mem
      rw [List.mem_singleton.mp mem]
      exact inUse_scope.mpr ⟨_, here⟩
  | link here _ _ ih =>
      intro ref mem
      rcases List.mem_cons.mp mem with rfl | later
      · exact inUse_scope.mpr ⟨_, here⟩
      · exact ih ref later

/-- Whatever the fuel, if it is enough for the chain. -/
theorem findWithin (chain : h.OuterChain s refs) (name : String) {fuel : Nat}
    (enough : refs.length ≤ fuel) :
    h.findWithin name fuel s = refs.find? fun ref => (h.ownBinding ref name).isSome := by
  induction chain generalizing fuel with
  | @outermost s scope here alone =>
      obtain ⟨fuel, rfl⟩ := Nat.exists_eq_add_of_le' enough
      cases own : scope.bindings.get? name with
      | some value => simp [Heap.findWithin, ownBinding, here, own]
      | none => simp [Heap.findWithin, ownBinding, here, own, alone]
  | @link s outer scope refs here around _ ih =>
      obtain ⟨fuel, rfl⟩ := Nat.exists_eq_add_of_le' (Nat.le_trans (Nat.le_add_left 1 _) enough)
      have rest := ih (Nat.le_of_succ_le_succ enough)
      cases own : scope.bindings.get? name with
      | some value => simp [Heap.findWithin, ownBinding, here, own]
      | none => simpa [Heap.findWithin, ownBinding, here, own, around] using rest

/-- Walking outwards with fuel for every scope collects the scopes of the chain, in
order. -/
theorem chainWithin (chain : h.OuterChain s refs) {fuel : Nat} (enough : refs.length ≤ fuel) :
    h.chainWithin fuel s = refs.filterMap fun ref => h.scopes[ref.id]? := by
  induction chain generalizing fuel with
  | @outermost s scope here alone =>
      obtain ⟨fuel, rfl⟩ := Nat.exists_eq_add_of_le' enough
      simp [Heap.chainWithin, here, alone]
  | @link s outer scope refs here around _ ih =>
      obtain ⟨fuel, rfl⟩ := Nat.exists_eq_add_of_le' (Nat.le_trans (Nat.le_add_left 1 _) enough)
      have rest := ih (Nat.le_of_succ_le_succ enough)
      simp [Heap.chainWithin, here, around, rest]

/-- Every scope of a chain is in the heap. -/
theorem length_filterMap (chain : h.OuterChain s refs) :
    (refs.filterMap fun ref => h.scopes[ref.id]?).length = refs.length := by
  induction chain with
  | outermost here _ => simp [here]
  | link here _ _ ih => simp [here, ih]

/-- In a heap whose links lead to older scopes, a chain is no longer than its first
place allows. -/
theorem length_le (chain : h.OuterChain s refs) (wellFormed : h.WellFormed) :
    refs.length ≤ s.id + 1 := by
  induction chain with
  | outermost _ _ => exact Nat.le_add_left _ _
  | link here around _ ih =>
      have older := wellFormed.nested here around
      exact Nat.succ_le_succ (Nat.le_trans ih older)

/-- A scope has one chain. -/
theorem unique (chain : h.OuterChain s refs) {others : List ScopeRef}
    (chain' : h.OuterChain s others) : refs = others := by
  induction chain generalizing others with
  | outermost here alone =>
      cases chain' with
      | outermost _ _ => rfl
      | link here' around' _ =>
          cases here.symm.trans here'
          cases alone.symm.trans around'
  | link here around _ ih =>
      cases chain' with
      | outermost here' alone' =>
          cases here.symm.trans here'
          cases around.symm.trans alone'
      | link here' around' rest' =>
          cases here.symm.trans here'
          cases around.symm.trans around'
          rw [ih rest']

end OuterChain

/-- The scopes from one outward, and what walking along them gives: the nearest
binding of a name, its value, the heap after an assignment, the number of scopes
around. -/
structure Walks (h : Heap) (s : ScopeRef) (refs : List ScopeRef) : Prop where
  chain : h.OuterChain s refs
  find : ∀ name, h.find s name = refs.find? fun ref => (h.ownBinding ref name).isSome
  lookup : ∀ name, h.lookup s name =
    match refs.findSome? fun ref => h.ownBinding ref name with
    | some value => .ok value
    | none => .error (.undefinedVariable name)
  assign : ∀ name value, h.assign s name value =
    match refs.find? fun ref => (h.ownBinding ref name).isSome with
    | some owner => .ok (h.define owner name value)
    | none => .error (.undefinedVariable name)
  depth : h.depth s + 1 = refs.length

/-- The binding that a search ends at is the first one. -/
theorem find?_bind_ownBinding (refs : List ScopeRef) (name : String) :
    ((refs.find? fun ref => (h.ownBinding ref name).isSome).bind fun ref =>
      h.ownBinding ref name) = refs.findSome? fun ref => h.ownBinding ref name := by
  induction refs with
  | nil => rfl
  | cons ref rest ih =>
      cases own : h.ownBinding ref name with
      | some value => simp [own]
      | none => simpa [own] using ih

/-- In a well-formed heap the fuel never runs out before the chain does. -/
theorem OuterChain.walks {s : ScopeRef} {refs : List ScopeRef} (chain : h.OuterChain s refs)
    (wellFormed : h.WellFormed) : h.Walks s refs := by
  have enough := chain.length_le wellFormed
  have find : ∀ name, h.find s name = refs.find? fun ref => (h.ownBinding ref name).isSome :=
    fun name => chain.findWithin name enough
  refine ⟨chain, find, ?_, ?_, ?_⟩
  · intro name
    have nearest := find?_bind_ownBinding (h := h) refs name
    cases found : refs.findSome? fun ref => h.ownBinding ref name <;>
      simp only [Heap.lookup, find, nearest, found]
  · intro name value
    cases found : refs.find? fun ref => (h.ownBinding ref name).isSome <;>
      simp only [Heap.assign, Heap.owner, find, found, Except.map]
  · unfold Heap.depth Heap.chain
    rw [chain.chainWithin enough, chain.length_filterMap]
    have some : 0 < refs.length := by cases chain <;> exact Nat.succ_pos _
    omega

/-! ## Grounded heaps -/

/-- Every reference leads to something, and every scope but the outermost one of the
program stands in an older one. -/
structure Grounded (h : Heap) : Prop where
  wellFormed : h.WellFormed
  closed : h.Closed h.InUse
  rooted : ∀ {i : Nat} {scope : Scope}, h.scopes[i]? = some scope → scope.outer = none → i = 0

/-- **Every scope has a finite chain**, which ends at the outermost scope. -/
theorem Grounded.chain (grounded : h.Grounded) {s : ScopeRef} (used : h.InUse s.place) :
    ∃ refs, h.OuterChain s refs ∧ refs.getLast? = some ⟨0⟩ := by
  -- along the chain the places only get smaller
  induction place : s.id using Nat.strongRecOn generalizing s with
  | ind i ih =>
      obtain ⟨scope, here⟩ := inUse_scope.mp used
      cases around : scope.outer with
      | none =>
          have root : s = ⟨0⟩ := congrArg ScopeRef.mk (grounded.rooted here around)
          exact ⟨[s], .outermost here around, congrArg some root⟩
      | some outer =>
          have inside := Object.inside_scope.mp (grounded.closed _ used _ (object?_scope.mpr here))
          have older := grounded.wellFormed.nested here around
          obtain ⟨refs, chain, last⟩ := ih outer.id (place ▸ older) (inside.1 outer around) rfl
          refine ⟨s :: refs, .link here around chain, ?_⟩
          rw [List.getLast?_cons, last]
          rfl

/-! ## Steps on the heap -/

/-- What was in use is in use still, and every scope has kept its link. -/
structure Continues (h h' : Heap) : Prop where
  used : ∀ place, h.InUse place → h'.InUse place
  links : h.links <+: h'.links

theorem Continues.refl (h : Heap) : h.Continues h :=
  ⟨fun _ => id, List.prefix_rfl⟩

theorem Continues.trans {h'' : Heap} (first : h.Continues h') (second : h'.Continues h'') :
    h.Continues h'' :=
  ⟨fun place used => second.used place (first.used place used), first.links.trans second.links⟩

theorem links_define (h : Heap) (s : ScopeRef) (name : String) (value : Value) :
    (h.define s name value).links = h.links := by
  apply List.ext_getElem?
  intro i
  unfold define links
  rw [Array.toList_modify, List.getElem?_map, List.getElem?_modify, List.getElem?_map]
  cases h.scopes.toList[i]? with
  | none => rfl
  | some scope => split <;> rfl

theorem links_newScope (h : Heap) (scope : Scope) :
    (h.newScope scope).2.links = h.links ++ [scope.outer] := by
  simp [newScope, links]

/-- The link of a scope in a heap. -/
theorem links_getElem? (h : Heap) (i : Nat) : h.links[i]? = h.scopes[i]?.map Scope.outer := by
  simp [links]

/-- A scope whose link is kept stands in the same scope as before. -/
theorem outer_eq_of_links (kept : h.links <+: h'.links) {i : Nat} {scope : Scope}
    (here : h.scopes[i]? = some scope) :
    ∃ scope', h'.scopes[i]? = some scope' ∧ scope'.outer = scope.outer := by
  have link : h.links[i]? = some scope.outer := by rw [links_getElem?, here, Option.map_some]
  obtain ⟨more, same⟩ := kept
  have link' : h'.links[i]? = some scope.outer := by
    rw [← same, List.getElem?_append_left (List.getElem?_eq_some_iff.mp link).1, link]
  rw [links_getElem?] at link'
  exact Option.map_eq_some_iff.mp link'

/-- A chain stays what it is as long as the links are kept. -/
theorem OuterChain.kept {s : ScopeRef} {refs : List ScopeRef} (chain : h.OuterChain s refs)
    (kept : h.links <+: h'.links) : h'.OuterChain s refs := by
  induction chain with
  | outermost here alone =>
      obtain ⟨scope', here', same⟩ := outer_eq_of_links kept here
      exact .outermost here' (same.trans alone)
  | link here around _ ih =>
      obtain ⟨scope', here', same⟩ := outer_eq_of_links kept here
      exact .link here' (same.trans around) ih

/-- An update of one place that neither empties nor fills it leaves the places in use as
they are. -/
theorem Updates.inUse {place : Place} {object : Option Object}
    (updates : h.Updates h' place object) (kept : object.isSome = (h.object? place).isSome) :
    h'.InUse = h.InUse := by
  funext other
  unfold InUse
  by_cases here : other = place
  · rw [here, updates.here, kept]
  · rw [updates.elsewhere here]

theorem inUse_define (h : Heap) (s : ScopeRef) (name : String) (value : Value) :
    (h.define s name value).InUse = h.InUse := by
  refine (h.updates_define s name value).inUse ?_
  simp [object?, ScopeRef.place]

theorem inUse_modifyItems (h : Heap) (ref : ListRef) (change : Array Value → Array Value) :
    (h.modifyItems ref change).InUse = h.InUse := by
  refine (h.updates_modifyItems ref change).inUse ?_
  simp [object?, ListRef.place]

/-- A new object is in use, and what was in use stays so. -/
theorem Updates.uses {place : Place} {object : Object}
    (updates : h.Updates h' place (some object)) :
    h'.InUse place ∧ ∀ other, h.InUse other → h'.InUse other := by
  refine ⟨inUse_of_object? updates.here, ?_⟩
  intro other used
  by_cases here : other = place
  · rw [here]
    exact inUse_of_object? updates.here
  · unfold InUse
    rwa [updates.elsewhere here]

/-- A larger region is closed after an update by an object that refers to its
inside. -/
theorem Closed.enlarge {place : Place} {object : Object} (closed : h.Closed h.InUse)
    (updates : h.Updates h' place (some object)) (inside : object.Inside h.InUse) :
    h'.Closed h'.InUse := by
  obtain ⟨-, keeps⟩ := updates.uses
  intro other _ o found
  by_cases here : other = place
  · rw [here, updates.here] at found
    cases found
    exact fun next mem => keeps next (inside next mem)
  · rw [updates.elsewhere here] at found
    exact fun next mem => keeps next (closed other (inUse_of_object? found) o found next mem)

end Heap

end TernLang
