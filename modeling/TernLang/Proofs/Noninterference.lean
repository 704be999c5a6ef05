import TernLang.Interpreter
import TernLang.Proofs.Eval.Correspondence.Program
import TernLang.Proofs.Heap.Renaming

/-! # A call depends only on what it can reach

A function runs in the scope of its declaration, not in that of its caller. So
**calling a value gives the same on any two machines that agree on what the callee
and the arguments reach** (`call_depends_on_reachable`): the same lines are printed,
and the same value is returned or the same stop reported, up to the places of what
the call allocated. What else is in the two heaps, and the scope of the caller in
particular, does not matter.

Agreement is up to a renaming of places. The call extends it: whatever is reachable
afterwards was reachable before and has kept its name, or is new on both sides. The
heaps are well formed, as all heaps of programs are (`execute_wellFormed`).
-/

namespace TernLang

/-! ## Linked heaps of two runs -/

/-- Linked heaps that have come from `base` and `base'`. -/
structure Descends (base base' : Heap) (w : Sharing) (h h' : Heap) : Prop where
  linked : Linked w h h'
  unused : ∀ {place}, h.object? place = none → base.object? place = none
  unused' : ∀ {place}, h'.object? place = none → base'.object? place = none

/-- The region has grown by places that were not in use at the start. -/
structure Sharing.Grows (base base' : Heap) (w w' : Sharing) : Prop where
  keeps : w.Extends w'
  fresh : ∀ place, w'.region place →
    w.region place ∨ (base.object? place = none ∧ base'.object? (w'.names.place place) = none)

namespace Sharing

variable {base base' : Heap} {w w' w'' : Sharing}

theorem Grows.refl (w : Sharing) : Grows base base' w w :=
  ⟨fun _ held => ⟨held, rfl⟩, fun _ held => .inl held⟩

theorem Grows.trans (first : Grows base base' w w') (second : Grows base base' w' w'') :
    Grows base base' w w'' := by
  refine ⟨?_, ?_⟩
  · intro place held
    obtain ⟨held', same⟩ := first.keeps place held
    obtain ⟨held'', same'⟩ := second.keeps place held'
    exact ⟨held'', same'.trans same⟩
  · intro place held
    rcases second.fresh place held with old | new
    · rw [(second.keeps place old).2]
      exact first.fresh place old
    · exact .inr new

/-- What is inside of the region keeps its name. -/
theorem Extends.value (extend : w.Extends w') {v : Value} (inside : v.Inside w.region) :
    v.Inside w'.region ∧ w'.names.value v = w.names.value v := by
  refine ⟨fun place mem => (extend place (inside place mem)).1, ?_⟩
  refine Renaming.value_congr (by rw [w'.plain, w.plain]) ?_
  exact fun place mem => (extend place (inside place mem)).2

theorem Extends.scope (extend : w.Extends w') {s : ScopeRef} (held : w.region s.place) :
    w.names.scope s = w'.names.scope s :=
  congrArg (fun place => ScopeRef.mk place.id) (extend _ held).2.symm

end Sharing

namespace Descends

variable {base base' h h' n n' : Heap} {w : Sharing}

/-- Both heaps can be updated at corresponding places. -/
theorem update (descends : Descends base base' w h h') {place : Place} {object : Object}
    (held : w.region place) (updates : h.Updates n place (some object))
    (updates' : h'.Updates n' (w.names.place place) (some (w.names.object object)))
    (inside : object.Inside w.region) (wellFormed : n.WellFormed) (wellFormed' : n'.WellFormed) :
    Descends base base' w n n' where
  linked := descends.linked.update held updates updates' inside wellFormed wellFormed'
  unused new := descends.unused (updates.unused new)
  unused' new := descends.unused' (updates'.unused new)

/-- Objects that are allocated in both heaps correspond to each other. -/
theorem allocate (descends : Descends base base' w h h') {kind : Kind} {i j : Nat} {object : Object}
    (fresh : h.object? ⟨kind, i⟩ = none) (fresh' : h'.object? ⟨kind, j⟩ = none)
    (updates : h.Updates n ⟨kind, i⟩ (some object))
    (updates' : h'.Updates n' ⟨kind, j⟩ (some (w.names.object object)))
    (inside : object.Inside w.region) (wellFormed : n.WellFormed) (wellFormed' : n'.WellFormed) :
    ∃ w', w.Grows base base' w' ∧ Descends base base' w' n n' ∧ w'.region ⟨kind, i⟩ ∧
      w'.names kind i = j := by
  obtain ⟨w', extend, linked, held, sent, only⟩ :=
    descends.linked.allocate fresh fresh' updates updates' inside wellFormed wellFormed'
  refine ⟨w', ⟨extend, ?_⟩, ⟨linked, ?_, ?_⟩, held, sent⟩
  · -- a place that is new now was not in use at the start either
    intro place held
    rcases only place held with old | rfl
    · exact .inl old
    · refine .inr ⟨descends.unused fresh, ?_⟩
      show base'.object? ⟨kind, w'.names kind i⟩ = none
      rw [sent]
      exact descends.unused' fresh'
  · exact fun new => descends.unused (updates.unused new)
  · exact fun new => descends.unused' (updates'.unused new)

end Descends

namespace Eval

open Descends in
/-- Two runs on heaps that are linked by a renaming. -/
def sharing (base base' : Heap) : Correspondence where
  World := Sharing
  Later := Sharing.Grows base base'
  Heaps := Descends base base'
  Values w := Image w.names.value (Value.Inside w.region)
  Scopes w := Image w.names.scope fun s => w.region s.place
  Places _ := True
  later_refl := .refl
  later_trans := .trans
  values_later := by
    rintro w w' v _ grows ⟨rfl, inside⟩
    obtain ⟨inside', same⟩ := grows.keeps.value inside
    exact ⟨same.symm, inside'⟩
  scopes_later := by
    rintro w w' s _ grows ⟨rfl, held⟩
    exact ⟨grows.keeps.scope held, (grows.keeps _ held).1⟩
  alike := by
    rintro w v _ ⟨rfl, -⟩
    cases v with
    | native n => cases n <;> constructor
    | _ => constructor
  constant := by
    intro w literal
    refine ⟨?_, Value.inside_ofLiteral literal⟩
    cases literal with
    | number x =>
        show Value.number x 0 = Value.number x (w.names .identity 0)
        rw [w.plain]
    | _ => rfl
  receiver := by
    rintro w m ref ref' i i' ⟨same, inside⟩
    cases same
    exact ⟨rfl, Value.inside_list.mpr (Value.inside_method.mp inside).1⟩
  lookup := by
    rintro w h h' s _ name descends ⟨rfl, held⟩
    rw [descends.linked.lookup name held]
    exact readings_image fun v found => descends.linked.closed.lookup held found
  owner := by
    rintro w h h' s _ name descends ⟨rfl, held⟩
    rw [descends.linked.owner name held]
    exact readings_image fun o found => descends.linked.closed.owner held found
  define := by
    rintro w h h' s _ name v _ descends ⟨rfl, held⟩ ⟨rfl, inside⟩
    obtain ⟨entries, outer, here, here'⟩ := descends.linked.scope_at held
    have updates := h.updates_define s name v
    have updates' := h'.updates_define (w.names.scope s) name (w.names.value v)
    have stored := fun o => descends.linked.closed.inside_define held name inside (o := o)
    rw [here] at updates stored
    rw [here', Option.map_some, Renaming.put_bindings] at updates'
    exact descends.update held updates updates' (stored _ rfl)
      (descends.linked.wellFormed.define s name v) (descends.linked.wellFormed'.define _ name _)
  items := by
    rintro w h h' ref ref' descends ⟨same, inside⟩
    cases same
    rw [Value.inside_list] at inside
    exact elementwise_image_iff.mpr ⟨descends.linked.items inside, descends.linked.closed.items inside⟩
  modifyItems := by
    rintro w h h' ref ref' change change' descends ⟨same, inside⟩ changed
    cases same
    rw [Value.inside_list] at inside
    obtain ⟨equal, values⟩ := elementwise_image_iff.mp changed
    obtain ⟨items, here, here'⟩ := descends.linked.list_at inside
    have updates := h.updates_modifyItems ref change
    have updates' := h'.updates_modifyItems (w.names.list ref) change'
    simp only [Heap.items, here, here', Option.getD_some] at equal values
    rw [here] at updates
    rw [here', Option.map_some, equal] at updates'
    exact descends.update inside updates updates' (Object.inside_list.mpr values)
      (descends.linked.wellFormed.modifyItems ref change)
      (descends.linked.wellFormed'.modifyItems _ change')
  closure := by
    rintro w h h' f f' descends ⟨same, inside⟩
    cases same
    rw [Value.inside_function] at inside
    obtain ⟨c, here, here'⟩ := descends.linked.function_at inside
    have declared := Object.inside_function.mp
      (descends.linked.closed _ inside _ (Heap.object?_function.mpr here))
    rw [here, here']
    exact .some ⟨rfl, rfl, rfl, ⟨rfl, declared⟩, Node.placed_anywhere _⟩
  equal := by
    rintro w h h' room a _ b _ descends ⟨rfl, insideA⟩ ⟨rfl, insideB⟩
    exact descends.linked.equal room insideA insideB
  render := by
    rintro w h h' room v _ descends ⟨rfl, inside⟩
    exact descends.linked.render room inside
  newScope := by
    rintro w h h' s _ entries entries' descends ⟨rfl, held⟩ alike
    obtain ⟨rfl, values⟩ := bindings_image alike
    have inside : (Object.scope ⟨entries, some s⟩).Inside w.region := by
      refine Object.inside_scope.mpr ⟨?_, values⟩
      rintro outer ⟨⟩
      exact held
    -- the scope around the new one is in use, so it is older
    obtain ⟨_, _, here, here'⟩ := descends.linked.scope_at held
    have older := (Array.getElem?_eq_some_iff.mp here).1
    have older' := (Array.getElem?_eq_some_iff.mp here').1
    obtain ⟨w', grows, descends', held', sent⟩ := descends.allocate (h.fresh_newScope _)
      (h'.fresh_newScope _) (h.updates_newScope ⟨entries, some s⟩)
      (h'.updates_newScope ⟨w.names.bindings entries, some (w.names.scope s)⟩) inside
      (descends.linked.wellFormed.newScope (by rintro _ ⟨⟩; exact older))
      (descends.linked.wellFormed'.newScope (by rintro _ ⟨⟩; exact older'))
    exact ⟨w', grows, descends', congrArg ScopeRef.mk sent.symm, held'⟩
  newList := by
    rintro w h h' items items' descends related
    obtain ⟨rfl, values⟩ := elementwise_image_iff.mp related
    obtain ⟨w', grows, descends', held, sent⟩ := descends.allocate (h.fresh_newList _)
      (h'.fresh_newList _) (h.updates_newList items) (h'.updates_newList _)
      (Object.inside_list.mpr values) (descends.linked.wellFormed.newList _)
      (descends.linked.wellFormed'.newList _)
    exact ⟨w', grows, descends', congrArg (fun i => Value.list ⟨i⟩) sent.symm,
      Value.inside_list.mpr held⟩
  newFunction := by
    rintro w h h' c c' descends alike
    have image : c' = { c with scope := w.names.scope c.scope } := by
      cases c'
      simp only [Closure.mk.injEq]
      exact ⟨alike.name, alike.params, alike.body, alike.scope.1⟩
    subst image
    obtain ⟨w', grows, descends', held, sent⟩ := descends.allocate (h.fresh_newFunction _)
      (h'.fresh_newFunction _) (h.updates_newFunction c) (h'.updates_newFunction _)
      (Object.inside_function.mpr alike.scope.2) (descends.linked.wellFormed.newFunction _)
      (descends.linked.wellFormed'.newFunction _)
    exact ⟨w', grows, descends', congrArg (fun i => Value.function ⟨i⟩) sent.symm,
      Value.inside_function.mpr held⟩
  newNumber := by
    intro w h h' x descends
    unfold Heap.newNumber
    split
    · obtain ⟨w', grows, descends', held, sent⟩ := descends.allocate h.fresh_newIdentity
        h'.fresh_newIdentity h.updates_newIdentity h'.updates_newIdentity Object.inside_identity
        descends.linked.wellFormed.newIdentity descends.linked.wellFormed'.newIdentity
      exact ⟨w', grows, descends', congrArg (Value.number x) sent.symm,
        Value.inside_number held x⟩
    · refine ⟨w, .refl w, descends, ?_, Value.inside_ofLiteral (.number x)⟩
      show Value.number x 0 = Value.number x (w.names .identity 0)
      rw [w.plain]
  newMethod := by
    rintro w h h' m ref ref' descends ⟨same, inside⟩
    cases same
    obtain ⟨w', grows, descends', held, sent⟩ := descends.allocate h.fresh_newIdentity
      h'.fresh_newIdentity h.updates_newIdentity h'.updates_newIdentity Object.inside_identity
      descends.linked.wellFormed.newIdentity descends.linked.wellFormed'.newIdentity
    obtain ⟨inside', same⟩ := grows.keeps.value inside
    refine ⟨w', grows, descends', ?_, Value.inside_method.mpr ⟨Value.inside_list.mp inside', held⟩⟩
    have receivers : w.names.list ref = w'.names.list ref := (Value.list.inj same).symm
    show Value.native (.method m (w.names.list ref) h'.nextIdentity) =
      Value.native (.method m (w'.names.list ref) (w'.names .identity h.nextIdentity))
    rw [receivers, sent]

end Eval

/-! ## Machines that agree -/

/-- Two machines that agree, up to a renaming, on all that can be reached from the
roots. As many calls are in progress on both. -/
structure Machine.AgreeFrom (ρ : Renaming) (roots : List Place) (m m' : Machine) : Prop where
  depth : m'.callDepth = m.callDepth
  wellFormed : m.heap.WellFormed
  wellFormed' : m'.heap.WellFormed
  plain : ρ .identity 0 = 0
  same : ∀ place, m.heap.Reachable roots place → ∃ object, m.heap.object? place = some object ∧
    m'.heap.object? (ρ.place place) = some (ρ.object object)

/-- Two machines that agreed from `roots` under `ρ` have come to agree from `roots'`
under `ρ'`: they have printed the same lines, and what is reachable now was
reachable before under the same name, or is new on both sides. -/
structure Machine.AgreeAfter (ρ ρ' : Renaming) (roots roots' : List Place)
    (m m' n n' : Machine) : Prop where
  agree : n.AgreeFrom ρ' roots' n'
  printed : ∃ lines : Array String, n.output = m.output ++ lines ∧ n'.output = m'.output ++ lines
  names : ∀ place, n.heap.Reachable roots' place →
    (m.heap.Reachable roots place ∧ ρ'.place place = ρ.place place) ∨
      (m.heap.object? place = none ∧ m'.heap.object? (ρ'.place place) = none)

namespace Machine.AgreeFrom

variable {ρ : Renaming} {roots : List Place} {m m' : Machine}

/-- The renaming and the region in which two machines agree. -/
def sharing (agree : m.AgreeFrom ρ roots m') : Sharing :=
  ⟨ρ, m.heap.Reachable roots, agree.plain⟩

/-- At the start, both heaps descend from themselves. -/
theorem descends (agree : m.AgreeFrom ρ roots m') :
    Descends m.heap m'.heap agree.sharing m.heap m'.heap where
  linked := ⟨m.heap.closed_reachable roots, agree.same, agree.wellFormed, agree.wellFormed'⟩
  unused := id
  unused' := id

/-- Two runs that ended on corresponding machines. -/
theorem after {n n' : Machine} {w : Sharing} (agree : m.AgreeFrom ρ roots m')
    (advances : Eval.Advances (Eval.sharing m.heap m'.heap) agree.sharing w m m' n n')
    {roots' : List Place} (inside : ∀ place ∈ roots', w.region place) :
    AgreeAfter ρ w.names roots roots' m m' n n' := by
  have linked := advances.heaps.linked
  have reached : ∀ place, n.heap.Reachable roots' place → w.region place :=
    fun place found => linked.closed.contains inside found
  refine ⟨⟨?_, linked.wellFormed, linked.wellFormed', w.plain, ?_⟩, advances.printed, ?_⟩
  · rw [advances.depth', advances.depth, agree.depth]
  · exact fun place found => linked.same place (reached place found)
  · intro place found
    rcases advances.later.fresh place (reached place found) with old | new
    · exact .inl ⟨old, (advances.later.keeps place old).2⟩
    · exact .inr new

/-- What was reachable at the start is still linked. -/
theorem inside_roots (agree : m.AgreeFrom ρ roots m') {w : Sharing}
    (grows : agree.sharing.Grows m.heap m'.heap w) : ∀ place ∈ roots, w.region place :=
  fun place mem => (grows.keeps place (.root mem)).1

end Machine.AgreeFrom

/-! ## The machines of programs -/

/-- Machines agree without a renaming if they hold the same objects in a closed
region around the roots. -/
theorem Machine.agreeFrom_of_region {m m' : Machine} {roots : List Place} {region : Place → Prop}
    (depth : m'.callDepth = m.callDepth) (wellFormed : m.heap.WellFormed)
    (wellFormed' : m'.heap.WellFormed) (closed : m.heap.Closed region)
    (start : ∀ place ∈ roots, region place)
    (same : ∀ place, region place → ∃ object, m.heap.object? place = some object ∧
      m'.heap.object? place = some object) :
    m.AgreeFrom (fun _ => Equiv.refl Nat) roots m' := by
  refine ⟨depth, wellFormed, wellFormed', rfl, ?_⟩
  intro place reached
  obtain ⟨object, found, found'⟩ := same place (closed.contains start reached)
  refine ⟨object, found, ?_⟩
  rw [Renaming.object_refl]
  exact found'

theorem Machine.agreeFrom_freshGlobals :
    Machine.AgreeFrom (fun _ => Equiv.refl Nat) [freshGlobals.1.place] ⟨freshGlobals.2, #[], 0⟩
      ⟨freshGlobals.2, #[], 0⟩ := by
  have empty : Heap.empty.WellFormed := ⟨nofun, Nat.one_pos⟩
  have wellFormed : freshGlobals.2.WellFormed := (empty.newScope (by simp)).define _ _ _
  -- what is built in refers to nothing
  have closed : freshGlobals.2.Closed (· = freshGlobals.1.place) := by
    rintro place rfl object found next mem
    cases found
    cases mem
  refine Machine.agreeFrom_of_region rfl wellFormed wellFormed closed ?_ ?_
  · exact fun place mem => List.mem_singleton.mp mem
  · rintro place rfl
    exact ⟨_, rfl, rfl⟩

/-- **The heap of a program is well formed**, and all that its outermost scope
reaches is in use, however the program ends. -/
theorem execute_wellFormed (limits : Limits) (statements : List Stmt) :
    (execute limits statements).2.heap.WellFormed ∧
      ∀ place, (execute limits statements).2.heap.Reachable [freshGlobals.1.place] place →
        ∃ object, (execute limits statements).2.heap.object? place = some object := by
  have agree := Machine.agreeFrom_freshGlobals
  -- the program is compared with itself
  have held : agree.sharing.region freshGlobals.1.place := .root (List.mem_singleton_self _)
  have ends := Eval.executeProgram_corresponds (Eval.sharing freshGlobals.2 freshGlobals.2) limits
    (executionRoom limits.maxCallDepth) (Node.placed_anywhere (Stmt.nodesAll statements))
    (w := agree.sharing) ⟨rfl, held⟩ _ _ agree.descends rfl
  have sound : ∀ {w : Sharing} {n n' : Machine},
      Eval.Advances (Eval.sharing freshGlobals.2 freshGlobals.2) agree.sharing w
        ⟨freshGlobals.2, #[], 0⟩ ⟨freshGlobals.2, #[], 0⟩ n n' →
      n.heap.WellFormed ∧ ∀ place, n.heap.Reachable [freshGlobals.1.place] place →
        ∃ object, n.heap.object? place = some object := by
    intro w n n' advances
    have after := (agree.after advances (agree.inside_roots advances.later)).agree
    refine ⟨after.wellFormed, ?_⟩
    intro place reached
    obtain ⟨object, found, -⟩ := after.same place reached
    exact ⟨object, found⟩
  generalize Eval.executeProgram limits _ (agree.sharing.names.scope freshGlobals.1) statements _ =
    other at ends
  cases ran : Eval.executeProgram limits (executionRoom limits.maxCallDepth) freshGlobals.1
      statements ⟨freshGlobals.2, #[], 0⟩ with
  | ok a machine =>
      rw [ran] at ends
      simp only [execute, ran]
      cases ends with
      | ok advances _ => exact sound advances
  | error stop machine =>
      rw [ran] at ends
      simp only [execute, ran]
      cases ends with
      | error advances _ => exact sound advances

/-! ## Calls -/

/-- Two calls have ended the same: both returned, and the values are the same up to
the renaming, or both stopped for the same reason. -/
inductive EndsSame (ρ : Renaming) (roots : List Place) (m m' : Machine) :
    EStateM.Result Stop Machine Value → EStateM.Result Stop Machine Value → Prop
  | returned {ρ' : Renaming} {n n' : Machine} {v : Value} :
      Machine.AgreeAfter ρ ρ' roots (v.places ++ roots) m m' n n' →
        EndsSame ρ roots m m' (.ok v n) (.ok (ρ'.value v) n')
  | stopped {ρ' : Renaming} {n n' : Machine} {stop : Stop} :
      Machine.AgreeAfter ρ ρ' roots roots m m' n n' →
        EndsSame ρ roots m m' (.error stop n) (.error stop n')

/-- **A call depends only on what it can reach.** On machines that agree on that, the
same call prints the same lines and ends the same. -/
theorem call_depends_on_reachable (limits : Limits) (room : Nat) {ρ : Renaming} {m m' : Machine}
    {callee : Value} {arguments : List Value}
    (agree : m.AgreeFrom ρ ((callee :: arguments).flatMap Value.places) m') :
    EndsSame ρ ((callee :: arguments).flatMap Value.places) m m'
      (Eval.apply limits room callee arguments m)
      (Eval.apply limits room (ρ.value callee) (arguments.map ρ.value) m') := by
  have start : ∀ v ∈ callee :: arguments, v.Inside agree.sharing.region :=
    fun v mem place held => .root (List.mem_flatMap.mpr ⟨v, mem, held⟩)
  have called : (Eval.sharing m.heap m'.heap).Values agree.sharing callee (ρ.value callee) :=
    ⟨rfl, start callee List.mem_cons_self⟩
  have given : List.Forall₂ ((Eval.sharing m.heap m'.heap).Values agree.sharing) arguments
      (arguments.map ρ.value) :=
    forall₂_image_iff.mpr ⟨rfl, fun v mem => start v (List.mem_cons_of_mem callee mem)⟩
  have ends := Eval.apply_corresponds (Eval.sharing m.heap m'.heap) limits room called given m m'
    agree.descends agree.depth
  generalize Eval.apply limits room callee arguments m = left at ends ⊢
  generalize Eval.apply limits room (ρ.value callee) (arguments.map ρ.value) m' = right at ends ⊢
  cases ends with
  | @ok w n n' v v' advances image =>
      -- the value is a new root: it holds old places and new ones
      obtain ⟨rfl, inside⟩ := image
      refine .returned (agree.after advances ?_)
      intro place mem
      rcases List.mem_append.mp mem with held | old
      · exact inside place held
      · exact agree.inside_roots advances.later place old
  | error advances _ => exact .stopped (agree.after advances (agree.inside_roots advances.later))

/-- A function `show` that prints the global `n`, and other scopes. -/
def Machine.withShow (others : Array Scope) (output : Array String) : Machine where
  heap := ⟨#[], #[⟨[("n", .bool true)], none⟩] ++ others,
    #[⟨"show", [], [.print (.var "n" 1) 1], ⟨0⟩⟩], 1⟩
  output := output
  callDepth := 0

/-- A caller's own `n`, in a scope inside the global one, does not matter to
`show`. -/
theorem call_depends_on_reachable_shadowed :
    (Machine.withShow #[] #[]).AgreeFrom (fun _ => Equiv.refl Nat) [⟨.function, 0⟩]
      (Machine.withShow #[⟨[("n", .bool false)], some ⟨0⟩⟩] #["before"]) ∧
    EndsSame (fun _ => Equiv.refl Nat) [⟨.function, 0⟩] (Machine.withShow #[] #[])
      (Machine.withShow #[⟨[("n", .bool false)], some ⟨0⟩⟩] #["before"])
      (Eval.apply ⟨10, 10⟩ 20 (.function ⟨0⟩) [] (Machine.withShow #[] #[]))
      (Eval.apply ⟨10, 10⟩ 20 (.function ⟨0⟩) []
        (Machine.withShow #[⟨[("n", .bool false)], some ⟨0⟩⟩] #["before"])) := by
  have agree : (Machine.withShow #[] #[]).AgreeFrom (fun _ => Equiv.refl Nat) [⟨.function, 0⟩]
      (Machine.withShow #[⟨[("n", .bool false)], some ⟨0⟩⟩] #["before"]) := by
    have closed : (Machine.withShow #[] #[]).heap.Closed
        fun place => place = ⟨.function, 0⟩ ∨ place = ⟨.scope, 0⟩ := by
      rintro place (rfl | rfl) object found next mem
      · cases found
        exact .inr (List.mem_singleton.mp mem)
      · cases found
        cases mem
    refine Machine.agreeFrom_of_region rfl ⟨?_, Nat.one_pos⟩ ⟨?_, Nat.one_pos⟩ closed ?_ ?_
    · intro i scope outer found around
      obtain ⟨inside, rfl⟩ := Array.getElem?_eq_some_iff.mp found
      have first : i = 0 := Nat.lt_one_iff.mp inside
      subst first
      cases around
    · intro i scope outer found around
      obtain ⟨inside, rfl⟩ := Array.getElem?_eq_some_iff.mp found
      match i, inside with
      | 0, _ => cases around
      | 1, _ =>
          cases around
          exact Nat.one_pos
    · intro place mem
      exact .inl (List.mem_singleton.mp mem)
    · rintro place (rfl | rfl)
      · exact ⟨_, rfl, rfl⟩
      · exact ⟨_, rfl, rfl⟩
  exact ⟨agree, @call_depends_on_reachable ⟨10, 10⟩ 20 _ _ _ (.function ⟨0⟩) [] agree⟩

end TernLang
