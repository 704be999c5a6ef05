import TernLang.Proofs.CallDepth
import TernLang.Proofs.Heap.Chains

/-! # Every run keeps the heap grounded

A run on a grounded heap that starts with places in use leaves a grounded heap, in
which everything that was in use still is and every scope has kept its link, and the
values that it gives hold only places in use (`Task.sound`). Values may refer to each
other in circles: what counts is only that a reference is made to something that is
there, and nothing ever goes away.

The tasks of a run pass this on from one to the next (`Starts.sustained`), so that
it holds of every state that a run comes to (`Reaches.sustained`).
-/

namespace TernLang

namespace Heap

variable {h h' base : Heap}

/-- The heap is grounded and has come from `base`. -/
structure Sustained (base h : Heap) : Prop where
  grounded : h.Grounded
  continues : base.Continues h

/-- A grounded heap is the start of its own history. -/
theorem Grounded.sustained (grounded : h.Grounded) : h.Sustained h :=
  ⟨grounded, .refl h⟩

theorem Sustained.trans (first : base.Sustained h) (second : h.Sustained h') : base.Sustained h' :=
  ⟨second.grounded, first.continues.trans second.continues⟩

/-- Defining a name in a scope in use sustains the heap when the value is in use too. -/
theorem Sustained.define (sustained : base.Sustained h) {s : ScopeRef} (used : h.InUse s.place)
    (name : String) {v : Value} (inside : v.Inside h.InUse) :
    base.Sustained (h.define s name v) := by
  have same := h.inUse_define s name v
  refine ⟨⟨sustained.grounded.wellFormed.define s name v, ?_, ?_⟩, ?_, ?_⟩
  · rw [same]
    refine sustained.grounded.closed.update (h.updates_define s name v) ?_
    exact fun o found => sustained.grounded.closed.inside_define used name inside found
  · intro i scope found alone
    have link := (h.define s name v).links_getElem? i
    rw [found, links_define, links_getElem?, Option.map_some, alone] at link
    obtain ⟨old, here, same⟩ := Option.map_eq_some_iff.mp link
    exact sustained.grounded.rooted here same
  · rw [same]
    exact sustained.continues.used
  · rw [links_define]
    exact sustained.continues.links

/-- A changed list sustains the heap when every element it ends up with is in use. -/
theorem Sustained.modifyItems (sustained : base.Sustained h) {ref : ListRef}
    {change : Array Value → Array Value} (inside : ∀ v ∈ change (h.items ref), v.Inside h.InUse) :
    base.Sustained (h.modifyItems ref change) := by
  have same := h.inUse_modifyItems ref change
  refine ⟨⟨sustained.grounded.wellFormed.modifyItems ref change, ?_, sustained.grounded.rooted⟩,
    ?_, sustained.continues.links⟩
  · rw [same]
    refine sustained.grounded.closed.update (h.updates_modifyItems ref change) ?_
    exact fun o found => inside_modifyItems inside found
  · rw [same]
    exact sustained.continues.used

/-- A new object that refers to what is in use, and is no scope. -/
theorem Sustained.allocate (sustained : base.Sustained h) {place : Place} {object : Object}
    (updates : h.Updates h' place (some object)) (inside : object.Inside h.InUse)
    (wellFormed : h'.WellFormed) (scopes : h'.scopes = h.scopes) : base.Sustained h' := by
  obtain ⟨-, keeps⟩ := updates.uses
  refine ⟨⟨wellFormed, sustained.grounded.closed.enlarge updates inside, ?_⟩, ?_, ?_⟩
  · rw [scopes]
    exact sustained.grounded.rooted
  · exact fun other used => keeps other (sustained.continues.used other used)
  · unfold links
    rw [scopes]
    exact sustained.continues.links

/-- A scope made inside a scope in use sustains the heap when the values bound in it are in
use. -/
theorem Sustained.newScope (sustained : base.Sustained h) {s : ScopeRef} {bindings : Bindings}
    (used : h.InUse s.place) (inside : ∀ entry ∈ bindings, entry.2.Inside h.InUse) :
    base.Sustained (h.newScope ⟨bindings, some s⟩).2 := by
  have updates := h.updates_newScope ⟨bindings, some s⟩
  obtain ⟨-, keeps⟩ := updates.uses
  -- the scope around the new one is in use, so it is older
  have older : s.id < h.scopes.size := by
    obtain ⟨scope, here⟩ := inUse_scope.mp used
    exact (Array.getElem?_eq_some_iff.mp here).1
  refine ⟨⟨sustained.grounded.wellFormed.newScope ?_, ?_, ?_⟩, ?_, ?_⟩
  · rintro outer ⟨⟩
    exact older
  · refine sustained.grounded.closed.enlarge updates (Object.inside_scope.mpr ⟨?_, inside⟩)
    rintro outer ⟨⟩
    exact used
  · intro i scope found alone
    simp only [Heap.newScope, Array.getElem?_push] at found
    split at found
    · cases found
      cases alone
    · exact sustained.grounded.rooted found alone
  · exact fun other used => keeps other (sustained.continues.used other used)
  · rw [links_newScope]
    exact sustained.continues.links.trans (List.prefix_append _ _)

end Heap

namespace Eval

/-- A grounded run, compared with itself. A world says which places are in use. -/
def grounding (base : Heap) : Correspondence where
  World := Place → Prop
  Later w w' := ∀ place, w place → w' place
  Heaps w := Same fun h => base.Sustained h ∧ h.InUse = w
  Values w := Same (Value.Inside w)
  Scopes w := Same fun s => w s.place
  Places _ := True
  later_refl _ _ := id
  later_trans first second place held := second place (first place held)
  values_later := by
    rintro w w' v _ later ⟨rfl, inside⟩
    exact ⟨rfl, fun place mem => later place (inside place mem)⟩
  scopes_later := by
    rintro w w' s _ later ⟨rfl, held⟩
    exact ⟨rfl, later _ held⟩
  alike := by
    rintro w v _ ⟨rfl, -⟩
    exact .refl _
  constant _ literal := ⟨rfl, Value.inside_ofLiteral literal⟩
  receiver := by
    rintro w m ref ref' i i' ⟨same, inside⟩
    cases same
    exact ⟨rfl, Value.inside_list.mpr (Value.inside_method.mp inside).1⟩
  lookup := by
    rintro w _ h _ s name ⟨rfl, sustained, rfl⟩ ⟨rfl, used⟩
    exact readings_same fun v found => sustained.grounded.closed.lookup used found
  owner := by
    rintro w _ h _ s name ⟨rfl, sustained, rfl⟩ ⟨rfl, used⟩
    exact readings_same fun o found => sustained.grounded.closed.owner used found
  define := by
    rintro w _ h _ s name _ v ⟨rfl, sustained, rfl⟩ ⟨rfl, used⟩ ⟨rfl, inside⟩
    exact ⟨rfl, sustained.define used name inside, h.inUse_define s name v⟩
  items := by
    rintro w _ h ref ref' ⟨rfl, sustained, rfl⟩ ⟨same, inside⟩
    cases same
    have elements := sustained.grounded.closed.items (Value.inside_list.mp inside)
    exact elementwise_image_iff.mpr ⟨(Array.map_id _).symm, elements⟩
  modifyItems := by
    rintro w _ h ref ref' change change' ⟨rfl, sustained, rfl⟩ ⟨same, inside⟩ changed
    cases same
    obtain ⟨equal, values⟩ := elementwise_image_iff.mp changed
    rw [Array.map_id] at equal
    exact ⟨Heap.modifyItems_congr equal, sustained.modifyItems values,
      h.inUse_modifyItems ref change⟩
  closure := by
    rintro w _ h f f' ⟨rfl, sustained, rfl⟩ ⟨same, inside⟩
    cases same
    cases found : h.functions[f.id]? with
    | none => exact .none
    | some c =>
        have declared := sustained.grounded.closed _ (Value.inside_function.mp inside) _
          (Heap.object?_function.mpr found)
        exact .some ⟨rfl, rfl, rfl, ⟨rfl, Object.inside_function.mp declared⟩,
          Node.placed_anywhere _⟩
  equal := by
    rintro w h _ room a _ b _ ⟨rfl, -⟩ ⟨rfl, -⟩ ⟨rfl, -⟩
    rfl
  render := by
    rintro w h _ room v _ ⟨rfl, -⟩ ⟨rfl, -⟩
    rfl
  newScope := by
    rintro w _ h _ s bindings bindings' ⟨rfl, sustained, rfl⟩ ⟨rfl, used⟩ alike
    obtain ⟨same, values⟩ := bindings_image alike
    simp only [id_eq, Prod.eta, List.map_id'] at same
    subst same
    obtain ⟨new, keeps⟩ := (h.updates_newScope ⟨bindings', some s⟩).uses
    exact ⟨_, keeps, ⟨rfl, sustained.newScope used values, rfl⟩, rfl, new⟩
  newList := by
    rintro w _ h items items' ⟨rfl, sustained, rfl⟩ related
    obtain ⟨same, values⟩ := elementwise_image_iff.mp related
    rw [Array.map_id] at same
    subst same
    have updates := h.updates_newList items'
    obtain ⟨new, keeps⟩ := updates.uses
    exact ⟨_, keeps, ⟨rfl, sustained.allocate updates (Object.inside_list.mpr values)
      (sustained.grounded.wellFormed.newList _) rfl, rfl⟩, rfl, Value.inside_list.mpr new⟩
  newFunction := by
    rintro w _ h ⟨_, _, _, _⟩ ⟨name, params, body, scope⟩ ⟨rfl, sustained, rfl⟩
      ⟨rfl, rfl, rfl, ⟨rfl, declared⟩, -⟩
    have updates := h.updates_newFunction ⟨name, params, body, scope⟩
    obtain ⟨new, keeps⟩ := updates.uses
    exact ⟨_, keeps, ⟨rfl, sustained.allocate updates (Object.inside_function.mpr declared)
      (sustained.grounded.wellFormed.newFunction _) rfl, rfl⟩, rfl, Value.inside_function.mpr new⟩
  newNumber := by
    rintro w _ h x ⟨rfl, sustained, rfl⟩
    unfold Heap.newNumber
    split
    · obtain ⟨new, keeps⟩ := h.updates_newIdentity.uses
      exact ⟨_, keeps, ⟨rfl, sustained.allocate h.updates_newIdentity Object.inside_identity
        sustained.grounded.wellFormed.newIdentity rfl, rfl⟩, rfl, Value.inside_number new x⟩
    · exact ⟨_, fun _ => id, ⟨rfl, sustained, rfl⟩, rfl, Value.inside_ofLiteral (.number x)⟩
  newMethod := by
    rintro w _ h m ref ref' ⟨rfl, sustained, rfl⟩ ⟨same, inside⟩
    cases same
    obtain ⟨new, keeps⟩ := h.updates_newIdentity.uses
    refine ⟨_, keeps, ⟨rfl, sustained.allocate h.updates_newIdentity Object.inside_identity
      sustained.grounded.wellFormed.newIdentity rfl, rfl⟩, rfl, ?_⟩
    exact Value.inside_method.mpr ⟨keeps _ (Value.inside_list.mp inside), new⟩

/-! ## What a task leaves -/

/-- The values that a computation gives, if it ends well. -/
def given {α : Type} (values : α → List Value) : EStateM.Result Stop Machine α → List Value
  | .ok a _ => values a
  | .error _ _ => []

/-- The values that leave a statement. -/
def returnedValues : Completion → List Value
  | .normal => []
  | .returned value _ => [value]

/-- The places that a task holds at its start. -/
def Task.places : Task → List Place
  | .call _ callee arguments => (callee :: arguments).flatMap Value.places
  | .expr _ s _ | .exprs _ s _ | .stmt _ s _ | .stmts _ s _ | .loop _ s _ _ _ | .program _ s _ =>
      [s.place]

/-- The values that a task gives, if it ends well. -/
def Task.values (limits : Limits) (m : Machine) : Task → List Value
  | .expr room s one => given ([·]) (evaluate limits room s one m)
  | .exprs room s all => given id (each (evaluate limits room s) all m)
  | .call room callee arguments => given ([·]) (apply limits room callee arguments m)
  | .stmt room s one => given returnedValues (execute limits room s one m)
  | .stmts room s all => given returnedValues (sequence (execute limits room s) all m)
  | .loop room s condition body passes =>
      given returnedValues (Eval.loop (evaluate limits room s condition)
        (execute limits room s body) passes m)
  | .program _ _ _ => []

/-- A run that has started on the heap `base` has left a grounded heap, and values
that hold places in use. -/
structure Yields (base : Heap) (after : Machine) (values : List Value) : Prop where
  heap : base.Sustained after.heap
  inside : ∀ v ∈ values, v.Inside after.heap.InUse

variable {limits : Limits} {m n : Machine}

/-- An evaluation that corresponds to itself in the grounding yields values in use. -/
theorem yields_of_corresponds {α : Type} {action : Eval α} {values : α → List Value}
    {post : (Place → Prop) → α → α → Prop} (grounded : m.heap.Grounded)
    (corresponds : Corresponds (grounding m.heap) m.heap.InUse post action action)
    (held : ∀ {w a a'}, post w a a' → ∀ v ∈ values a, v.Inside w) :
    Yields m.heap (machineAfter (action m)) (given values (action m)) := by
  have ends := corresponds m m ⟨rfl, grounded.sustained, rfl⟩ rfl
  generalize action m = result at ends
  cases ends with
  | ok advances related =>
      obtain ⟨-, sustained, rfl⟩ := advances.heaps
      exact ⟨sustained, held related⟩
  | error advances _ => exact ⟨advances.heaps.2.1, List.forall_mem_nil _⟩

/-- An evaluation that corresponds to itself in the grounding leaves a heap that is grounded
and has lost no place. -/
theorem sustained_of_corresponds {α : Type} {action : Eval α} {post : (Place → Prop) → α → α → Prop}
    (grounded : m.heap.Grounded)
    (corresponds : Corresponds (grounding m.heap) m.heap.InUse post action action) :
    m.heap.Sustained (machineAfter (action m)).heap := by
  have none {w : Place → Prop} {a a' : α} (_ : post w a a') :
      ∀ v ∈ ([] : List Value), v.Inside w := List.forall_mem_nil _
  exact (yields_of_corresponds grounded corresponds none).heap

theorem yields_value {action : Eval Value} (grounded : m.heap.Grounded)
    (corresponds : Corresponds (grounding m.heap) m.heap.InUse (grounding m.heap).Values action
      action) :
    Yields m.heap (machineAfter (action m)) (given ([·]) (action m)) := by
  refine yields_of_corresponds grounded corresponds ?_
  exact fun related => List.forall_mem_singleton.mpr related.2

theorem yields_values {action : Eval (List Value)} (grounded : m.heap.Grounded)
    (corresponds : Corresponds (grounding m.heap) m.heap.InUse
      (fun w => List.Forall₂ ((grounding m.heap).Values w)) action action) :
    Yields m.heap (machineAfter (action m)) (given id (action m)) :=
  yields_of_corresponds grounded corresponds fun related => (forall₂_image_iff.mp related).2

theorem yields_completion {action : Eval Completion} (grounded : m.heap.Grounded)
    (corresponds : Corresponds (grounding m.heap) m.heap.InUse (Completions (grounding m.heap))
      action action) :
    Yields m.heap (machineAfter (action m)) (given returnedValues (action m)) := by
  refine yields_of_corresponds grounded corresponds fun related => ?_
  cases related with
  | normal => exact nofun
  | returned values _ => exact List.forall_mem_singleton.mpr values.2

/-- **A task that starts on a grounded heap leaves one**, however it ends, and gives
values that hold places in use. -/
theorem Task.yields (limits : Limits) (task : Task) (grounded : m.heap.Grounded)
    (used : ∀ place ∈ task.places, m.heap.InUse place) :
    Yields m.heap (machineAfter (task.run limits m)) (task.values limits m) := by
  have later {w : Place → Prop} {s : ScopeRef} (held : m.heap.InUse s.place)
      (later : (grounding m.heap).Later m.heap.InUse w) :
      (grounding m.heap).Scopes w s s := ⟨rfl, later _ held⟩
  have evaluates {w : Place → Prop} (room : Nat) {s : ScopeRef} (e : Expr)
      (scope : (grounding m.heap).Scopes w s s) :
      Corresponds (grounding m.heap) w (grounding m.heap).Values (evaluate limits room s e)
        (evaluate limits room s e) :=
    evaluate_corresponds _ limits room (Node.placed_anywhere e.nodes) scope
  have executes {w : Place → Prop} (room : Nat) {s : ScopeRef} (stmt : Stmt)
      (scope : (grounding m.heap).Scopes w s s) :
      Corresponds (grounding m.heap) w (Completions (grounding m.heap))
        (execute limits room s stmt) (execute limits room s stmt) :=
    execute_corresponds _ limits room (Node.placed_anywhere stmt.nodes) scope
  -- a task corresponds to itself, from the places that it holds at its start
  cases task with
  | expr room s e =>
      have held := used _ List.mem_cons_self
      rw [Task.run, machineAfter_forget]
      exact yields_value grounded (evaluates room e ⟨rfl, held⟩)
  | exprs room s all =>
      have held := used _ List.mem_cons_self
      rw [Task.run, machineAfter_forget]
      refine yields_values grounded (each_corresponds fun more e _ => ?_)
      exact evaluates room e (later held more)
  | call room callee values =>
      have called : (grounding m.heap).Values m.heap.InUse callee callee :=
        ⟨rfl, fun place mem => used place (by simp [Task.places, mem])⟩
      have given : List.Forall₂ ((grounding m.heap).Values m.heap.InUse) values values := by
        refine forall₂_image_iff.mpr ⟨(List.map_id values).symm, fun v mem place held => ?_⟩
        exact used place (List.mem_flatMap.mpr ⟨v, List.mem_cons_of_mem _ mem, held⟩)
      rw [Task.run, machineAfter_forget]
      exact yields_value grounded (apply_corresponds _ limits room called given)
  | stmt room s stmt =>
      have held := used _ List.mem_cons_self
      rw [Task.run, machineAfter_forget]
      exact yields_completion grounded (executes room stmt ⟨rfl, held⟩)
  | stmts room s all =>
      have held := used _ List.mem_cons_self
      rw [Task.run, machineAfter_forget]
      refine yields_completion grounded (sequence_corresponds fun more stmt _ => ?_)
      exact executes room stmt (later held more)
  | loop room s condition body passes =>
      have held := used _ List.mem_cons_self
      rw [Task.run, machineAfter_forget]
      refine yields_completion grounded ?_
      exact loop_corresponds (fun more => evaluates room condition (later held more))
        (fun more => executes room body (later held more)) passes
  | program room s all =>
      have held := used _ List.mem_cons_self
      have program := executeProgram_corresponds (grounding m.heap) limits room (w := m.heap.InUse)
        (Node.placed_anywhere (Stmt.nodesAll all)) ⟨rfl, held⟩
      exact ⟨sustained_of_corresponds grounded program, List.forall_mem_nil _⟩

/-! ## What a task starts -/

/-- An expression evaluated in a scope in use gives a value in use and leaves the heap
grounded. -/
theorem sustained_evaluate {room : Nat} {s : ScopeRef} {e : Expr} {v : Value}
    (grounded : m.heap.Grounded) (used : m.heap.InUse s.place)
    (ran : evaluate limits room s e m = .ok v n) :
    m.heap.Sustained n.heap ∧ v.Inside n.heap.InUse := by
  have yields := Task.yields limits (.expr room s e) grounded (by simpa [Task.places] using used)
  rw [Task.run, machineAfter_forget, Task.values, ran] at yields
  exact ⟨yields.heap, yields.inside v (List.mem_singleton_self v)⟩

theorem sustained_evaluateAll {room : Nat} {s : ScopeRef} {all : List Expr} {values : List Value}
    (grounded : m.heap.Grounded) (used : m.heap.InUse s.place)
    (ran : evaluateAll limits room s all m = .ok values n) :
    m.heap.Sustained n.heap ∧ ∀ v ∈ values, v.Inside n.heap.InUse := by
  cases room with
  | zero => cases ran
  | succ room =>
      rw [evaluateAll] at ran
      have yields := Task.yields limits (.exprs room s all) grounded
        (by simpa [Task.places] using used)
      rw [Task.run, machineAfter_forget, Task.values, ran] at yields
      exact ⟨yields.heap, yields.inside⟩

/-- A part that may be missing, such as the bound of a slice, gives a value in use if it
gives one. -/
theorem sustained_optional {room : Nat} {s : ScopeRef} {part : Option Expr} {value : Option Value}
    (grounded : m.heap.Grounded) (used : m.heap.InUse s.place)
    (ran : optional (evaluate limits room s) part m = .ok value n) :
    m.heap.Sustained n.heap := by
  cases part with
  | none =>
      cases ran
      exact grounded.sustained
  | some e =>
      change (evaluate limits room s e >>= fun v => pure (some v)) m = _ at ran
      rw [bind_run] at ran
      cases first : evaluate limits room s e m with
      | ok v o =>
          rw [first] at ran
          cases ran
          exact (sustained_evaluate grounded used first).1
      | error stop o =>
          rw [first] at ran
          cases ran

/-- A statement executed in a scope in use leaves the heap grounded, and the value it
returns is in use. -/
theorem sustained_execute {room : Nat} {s : ScopeRef} {stmt : Stmt} {completion : Completion}
    (grounded : m.heap.Grounded) (used : m.heap.InUse s.place)
    (ran : execute limits room s stmt m = .ok completion n) : m.heap.Sustained n.heap := by
  have yields := Task.yields limits (.stmt room s stmt) grounded (by simpa [Task.places] using used)
  rw [Task.run, machineAfter_forget, ran] at yields
  exact yields.heap

/-- Bindings put on top of others hold the values of either. -/
theorem mem_putAll {bindings : Bindings} {added : List (String × Value)} {entry : String × Value}
    (mem : entry ∈ bindings.putAll added) :
    entry ∈ bindings ∨ ∃ other ∈ added, entry.2 = other.2 := by
  induction added generalizing bindings with
  | nil => exact .inl mem
  | cons first rest ih =>
      rcases ih mem with early | ⟨other, later, same⟩
      · rcases Bindings.mem_put early with old | same
        · exact .inl old
        · exact .inr ⟨first, List.mem_cons_self, same⟩
      · exact .inr ⟨other, List.mem_cons_of_mem first later, same⟩

/-- A call binds its arguments in a new scope inside the scope of the declaration. -/
theorem sustained_bodyStart {ref : FunctionRef} {values : List Value} {c : Closure}
    (grounded : m.heap.Grounded) (called : m.heap.InUse ref.place)
    (inside : ∀ v ∈ values, v.Inside m.heap.InUse) (found : m.heap.functions[ref.id]? = some c) :
    m.heap.Sustained (bodyStart c values m).2.heap ∧
      (bodyStart c values m).2.heap.InUse (bodyStart c values m).1.place := by
  have declared := Object.inside_function.mp
    (grounded.closed _ called _ (Heap.object?_function.mpr found))
  refine ⟨grounded.sustained.newScope declared ?_, (m.heap.updates_newScope _).uses.1⟩
  intro entry mem
  rcases mem_putAll mem with old | ⟨⟨name, v⟩, bound, same⟩
  · cases old
  · rw [same]
    exact inside v (List.of_mem_zip bound).2

/-- **A task that is started starts on a grounded heap**, and holds places in use
there. -/
theorem Starts.sustained {task task' : Task} {m' : Machine} {calls : Nat}
    (starts : Starts limits task m calls task' m') (grounded : m.heap.Grounded)
    (used : ∀ place ∈ task.places, m.heap.InUse place) :
    m.heap.Sustained m'.heap ∧ ∀ place ∈ task'.places, m'.heap.InUse place := by
  -- the scope of a task is still in use when it has done something else before
  have kept {s : ScopeRef} {n : Machine} (sustained : m.heap.Sustained n.heap)
      (held : m.heap.InUse s.place) : ∀ place ∈ [s.place], n.heap.InUse place :=
    List.forall_mem_singleton.mpr (sustained.continues.used _ held)
  cases starts with
  | first | elements | head | operand | loop | condition | statement | topLevel =>
      exact ⟨grounded.sustained, used⟩
  | second _ ran _ | arguments ran | tail ran | branch ran _ | pass ran _ =>
      have held := used _ List.mem_cons_self
      obtain ⟨after, -⟩ := sustained_evaluate grounded held ran
      exact ⟨after, kept after held⟩
  | statements ran | program ran =>
      have held := used _ List.mem_cons_self
      have after := sustained_execute grounded held ran
      exact ⟨after, kept after held⟩
  | again ran _ ran' =>
      have held := used _ List.mem_cons_self
      obtain ⟨tested, -⟩ := sustained_evaluate grounded held ran
      have passed := tested.trans
        (sustained_execute tested.grounded (tested.continues.used _ held) ran')
      exact ⟨passed, kept passed held⟩
  | lastBound ran ran' =>
      have held := used _ List.mem_cons_self
      obtain ⟨target, -⟩ := sustained_evaluate grounded held ran
      have bound := target.trans
        (sustained_optional target.grounded (target.continues.used _ held) ran')
      exact ⟨bound, kept bound held⟩
  | call ran ran' =>
      have held := used _ List.mem_cons_self
      obtain ⟨callee, called⟩ := sustained_evaluate grounded held ran
      obtain ⟨more, inside⟩ :=
        sustained_evaluateAll callee.grounded (callee.continues.used _ held) ran'
      refine ⟨callee.trans more, fun place mem => ?_⟩
      obtain ⟨v, among, place⟩ := List.mem_flatMap.mp mem
      rcases List.mem_cons.mp among with rfl | argument
      · exact more.continues.used _ (called _ place)
      · exact inside v argument _ place
  | @body room ref values c scope _ _ found runs =>
      obtain ⟨-, -, here⟩ := runsBody_iff.mp runs
      cases here
      have called : m.heap.InUse ref.place := used _ (by simp [Task.places, Value.places])
      have given : ∀ v ∈ values, v.Inside m.heap.InUse := fun v mem place held =>
        used place (List.mem_flatMap.mpr ⟨v, List.mem_cons_of_mem _ mem, held⟩)
      obtain ⟨begun, inner⟩ := sustained_bodyStart grounded called given found
      exact ⟨begun, List.forall_mem_singleton.mpr inner⟩
  | @block room s body line inner _ _ ran =>
      have held := used _ List.mem_cons_self
      cases ran
      have updates := m.heap.updates_newScope ⟨[], some s⟩
      exact ⟨grounded.sustained.newScope held (List.forall_mem_nil _),
        List.forall_mem_singleton.mpr updates.uses.1⟩

/-- The machine that a program starts on has only the outermost scope. -/
theorem grounded_startMachine : startMachine.heap.Grounded where
  wellFormed := by
    have empty : Heap.empty.WellFormed := ⟨nofun, Nat.one_pos⟩
    exact (empty.newScope (by simp)).define _ _ _
  closed := by
    rintro ⟨kind, i⟩ used object found next mem
    cases kind with
    | scope =>
        match i with
        | 0 =>
            cases found
            cases mem
        | i + 1 => cases found
    | list | function => cases found
    | identity =>
        obtain ⟨-, same⟩ := Option.ite_none_right_eq_some.mp found
        cases same
        cases mem
  rooted := by
    rintro (_ | i) scope found _
    · rfl
    · cases found

/-- **Every state that a run comes to is grounded**. -/
theorem Reaches.sustained {stmts : List Stmt} {calls : Nat} {task : Task}
    (reached : Reaches limits stmts calls task m) :
    startMachine.heap.Sustained m.heap ∧ ∀ place ∈ task.places, m.heap.InUse place := by
  induction reached with
  | start => exact ⟨grounded_startMachine.sustained, List.forall_mem_singleton.mpr rfl⟩
  | step _ starts ih =>
      obtain ⟨before, used⟩ := ih
      obtain ⟨more, inner⟩ := starts.sustained before.grounded used
      exact ⟨before.trans more, inner⟩

end Eval

end TernLang
