import TernLang.Proofs.Eval.Correspondence.Readings

/-! # Running a program corresponds to running it

The rules of `Corresponds` put together along the definition of the evaluator.
By induction on the room, **evaluating an expression and executing a statement in
corresponding scopes, and calling corresponding values with corresponding
arguments, end alike** (`evaluate_corresponds`, `execute_corresponds`,
`apply_corresponds`).
-/

namespace TernLang

/-! ## Bindings -/

/-- Putting related values under one name keeps two bindings alike. -/
theorem Bindings.Alike.put {values : Value → Value → Prop} {bindings bindings' : Bindings}
    (alike : bindings.Alike values bindings') (name : String) {v v' : Value}
    (added : values v v') : (bindings.put name v).Alike values (bindings'.put name v') := by
  induction alike with
  | nil => exact .cons ⟨rfl, added⟩ .nil
  | @cons entry entry' rest rest' same more ih =>
      obtain ⟨key, old⟩ := entry
      obtain ⟨key', old'⟩ := entry'
      obtain ⟨rfl, related⟩ := same
      unfold Bindings.put
      split
      · exact .cons ⟨rfl, added⟩ more
      · exact .cons ⟨rfl, related⟩ ih

/-- The bindings of parameters to corresponding arguments. -/
theorem Bindings.Alike.putAll {values : Value → Value → Prop} (params : List String)
    {bindings bindings' : Bindings} (alike : bindings.Alike values bindings')
    {arguments arguments' : List Value} (given : List.Forall₂ values arguments arguments') :
    (bindings.putAll (params.zip arguments)).Alike values
      (bindings'.putAll (params.zip arguments')) := by
  induction params generalizing bindings bindings' arguments arguments' with
  | nil => exact alike
  | cons name rest ih =>
      cases given with
      | nil => exact alike
      | cons first others => exact ih (alike.put name first) others

namespace Eval

variable {C : Correspondence} {w : C.World} {α β : Type}

/-! ## Small steps -/

/-- Outcomes alike settle to related values: the same number made fresh, or values already
related. -/
theorem settle_corresponds {outcome outcome' : Outcome}
    (alike : outcome.Alike (C.Values w) outcome') :
    Corresponds C w C.Values (settle outcome) (settle outcome') := by
  cases alike with
  | value related => exact .pure related
  | number x => exact allocate_corresponds fun heaps => C.newNumber x heaps

/-- A name looked up from related scopes gives related values, or is undefined from both. -/
theorem lookup_corresponds {s s' : ScopeRef} (scopes : C.Scopes w s s') (name : String) :
    Corresponds C w C.Values (inspect (·.lookup s name)) (inspect (·.lookup s' name)) :=
  inspect_corresponds fun heaps => C.lookup name heaps scopes

/-- Defining a name in related scopes with related values keeps the heaps related. -/
theorem define_corresponds {s s' : ScopeRef} (scopes : C.Scopes w s s') (name : String)
    {v v' : Value} (related : C.Values w v v') :
    Corresponds C w (anyResults C) (update (·.define s name v)) (update (·.define s' name v')) :=
  update_corresponds fun heaps => C.define name heaps scopes related

/-- Assigning related values through related scopes writes at related frames, or fails from
both. -/
theorem assign_corresponds {s s' : ScopeRef} (scopes : C.Scopes w s s') (name : String)
    {v v' : Value} (related : C.Values w v v') :
    Corresponds C w (anyResults C) (assign s name v) (assign s' name v') := by
  have owned : Corresponds C w C.Scopes (inspect (·.owner s name)) (inspect (·.owner s' name)) :=
    inspect_corresponds fun heaps => C.owner name heaps scopes
  refine owned.bind ?_
  intro w' later owner owner' owners
  exact define_corresponds owners name (C.values_later later related)

/-- A step of a variable reads, computes and writes back on both sides alike. -/
theorem increment_corresponds {s s' : ScopeRef} (scopes : C.Scopes w s s') (name : String)
    (step : Step) : Corresponds C w C.Values (increment s name step) (increment s' name step) := by
  refine (lookup_corresponds scopes name).bind ?_
  intro w₁ later₁ current current' currents
  have stepped : Corresponds C w₁ (fun w => Outcome.Alike (C.Values w))
      (inspect fun _ => stepValue name step current)
      (inspect fun _ => stepValue name step current') :=
    inspect_corresponds fun _ => stepValue_related (C.alike currents) name step
  refine stepped.bind ?_
  intro w₂ later₂ outcome outcome' outcomes
  refine (settle_corresponds outcomes).bind ?_
  intro w₃ later₃ updated updated' related
  have scopes₃ := C.scopes_later (C.later_trans later₁ (C.later_trans later₂ later₃)) scopes
  refine (assign_corresponds scopes₃ name related).bind ?_
  intro w₄ later₄ _ _ _
  exact .pure (C.values_later later₄ related)

theorem newList_corresponds {items items' : Array Value}
    (related : Elementwise (C.Values w) items items') :
    Corresponds C w C.Values (newList items) (newList items') := by
  have allocated : Corresponds C w (fun w ref ref' => C.Values w (.list ref) (.list ref'))
      (allocate (·.newList items)) (allocate (·.newList items')) :=
    allocate_corresponds fun heaps => C.newList heaps related
  exact allocated.bind fun _ _ _ lists => .pure lists

/-- Scopes made inside related scopes with bindings alike are related in a later world. -/
theorem newScope_corresponds {s s' : ScopeRef} (scopes : C.Scopes w s s')
    {bindings bindings' : Bindings} (alike : bindings.Alike (C.Values w) bindings') :
    Corresponds C w C.Scopes (newScope bindings s) (newScope bindings' s') :=
  allocate_corresponds fun heaps => C.newScope heaps scopes alike

/-- Related values print the same line. -/
theorem print_corresponds (room : Nat) {v v' : Value} (related : C.Values w v v') :
    Corresponds C w (anyResults C) (print room v) (print room v') := by
  intro m m' heaps _
  unfold print
  rw [C.render room heaps related]
  cases m.heap.render room v with
  | none => exact .error (.refl heaps) trivial
  | some text =>
      have printed : Advances C w w m m' { m with output := m.output.push text }
          { m' with output := m'.output.push text } :=
        ⟨C.later_refl w, heaps, rfl, rfl, #[text], by simp, by simp⟩
      exact .ok printed trivial

/-! ## Calls -/

/-- A stop that a renumbering does not change has no line. -/
theorem within_of_lineless {stop : Stop} {places : Nat → Prop}
    (lineless : stop.mapLines Nat.succ = stop) : stop.Within places := by
  cases stop with
  | fault cause line =>
      cases line with
      | none => trivial
      | some line => simp [Stop.mapLines] at lineless
  | tooDeep => trivial
  | outOfPasses => trivial

/-- An operator on related operands has outcomes alike, or the same fault. -/
theorem binary_corresponds (room : Nat) (op : BinaryOp) {a a' b b' : Value}
    (first : C.Values w a a') (second : C.Values w b b') :
    Corresponds C w (fun w => Outcome.Alike (C.Values w)) (query (·.binary room op a b))
      (query (·.binary room op a' b')) := by
  refine query_corresponds (fun heaps => binary_related heaps room op first second) ?_
  intro h stop failed
  have lineless := h.binary_lineless Nat.succ room op a b
  rw [failed] at lineless
  exact within_of_lineless (Except.error.inj lineless)

/-- A method reads its receiver and changes it; nothing happens in between. -/
theorem callMethod_corresponds (room : Nat) (method : ListMethod) {ref ref' : ListRef}
    (receivers : C.Values w (.list ref) (.list ref')) {arguments arguments' : List Value}
    (given : List.Forall₂ (C.Values w) arguments arguments') :
    Corresponds C w C.Values
      (do
        let (value, change) ← query (·.methodEffect room method ref arguments)
        update (·.modifyItems ref change)
        pure value)
      (do
        let (value, change) ← query (·.methodEffect room method ref' arguments')
        update (·.modifyItems ref' change)
        pure value) := by
  intro m m' heaps _
  have effects := methodEffect_related heaps room method receivers given
  have lineless := m.heap.methodEffect_lineless Nat.succ room method ref arguments
  rw [bind_run, bind_run]
  simp only [query]
  generalize m.heap.methodEffect room method ref arguments = left at effects lineless ⊢
  generalize m'.heap.methodEffect room method ref' arguments' = right at effects ⊢
  cases effects with
  | @ok effect effect' alike =>
      obtain ⟨value, change⟩ := effect
      obtain ⟨value', change'⟩ := effect'
      have changed := C.modifyItems heaps receivers alike.2
      exact .ok (.ofHeaps (C.later_refl w) changed) alike.1
  | error stop => exact .error (.refl heaps) (within_of_lineless (Except.error.inj lineless))

/-- A built-in called with related arguments answers alike. -/
theorem callNative_corresponds (room : Nat) {native native' : Native}
    (natives : C.Values w (.native native) (.native native')) {arguments arguments' : List Value}
    (given : List.Forall₂ (C.Values w) arguments arguments') :
    Corresponds C w C.Values (callNative room native arguments)
      (callNative room native' arguments') := by
  have counted : arguments'.length = arguments.length := given.length_eq.symm
  unfold callNative
  cases C.alike natives with
  | hash =>
      rw [counted]
      by_cases one : arguments.length = Native.hash.arity
      · rw [if_neg (not_not.mpr one), if_neg (not_not.mpr one)]
        obtain ⟨value, rfl⟩ := List.length_eq_one_iff.mp one
        obtain ⟨value', rfl⟩ := List.length_eq_one_iff.mp (counted.trans one)
        have values : C.Values w value value' := by simpa using given
        exact inspect_corresponds fun _ => hashValue_related (C.alike values)
      · rw [if_pos one, if_pos one]
        exact fault_corresponds _
  | method method ref ref' i i' =>
      rw [counted]
      show Corresponds C w C.Values (if arguments.length ≠ method.arity then _ else _)
        (if arguments.length ≠ method.arity then _ else _)
      split
      · exact fault_corresponds _
      · exact callMethod_corresponds room method (C.receiver natives) given

/-- Bodies that correspond make calls that correspond; the call name is the same on both
sides. -/
theorem insideCall_corresponds {p q : Eval Completion} (name : String)
    (body : Corresponds C w (Completions C) p q) :
    Corresponds C w C.Values (insideCall name p) (insideCall name q) := by
  intro m m' heaps depth
  have ends := body { m with callDepth := m.callDepth + 1 }
    { m' with callDepth := m'.callDepth + 1 } heaps (by simp [depth])
  unfold insideCall
  generalize p { m with callDepth := m.callDepth + 1 } = left at ends
  generalize q { m' with callDepth := m'.callDepth + 1 } = right at ends
  -- the call is no longer in progress: the count is what it was
  have left : ∀ {w' n n'}, Advances C w w' { m with callDepth := m.callDepth + 1 }
      { m' with callDepth := m'.callDepth + 1 } n n' →
      Advances C w w' m m' { n with callDepth := n.callDepth - 1 }
        { n' with callDepth := n'.callDepth - 1 } := by
    intro w' n n' advances
    refine ⟨advances.later, advances.heaps, ?_, ?_, advances.printed⟩
    · simp [advances.depth]
    · simp [advances.depth']
  cases ends with
  | ok advances completions =>
      refine .ok (left advances) ?_
      cases completions with
      | normal => exact values_null _
      | returned related _ => exact related
  | @error w' n n' stop advances within =>
      refine .error (left advances) ?_
      cases stop with
      | fault cause line => exact within
      | tooDeep => trivial
      | outOfPasses => trivial

/-- Related functions have closures alike: one name, one list of parameters, one body. -/
theorem closure_corresponds {f f' : FunctionRef} (functions : C.Values w (.function f) (.function f')) :
    Corresponds C w (fun w => Closure.Alike (C.Scopes w) C.Places) (closure f) (closure f') := by
  intro m m' heaps _
  have found := C.closure heaps functions
  unfold closure
  generalize m.heap.functions[f.id]? = left at found
  generalize m'.heap.functions[f'.id]? = right at found
  cases found with
  | none => exact .error (.refl heaps) trivial
  | some alike => exact .ok (.refl heaps) alike

/-- Closures alike called with related arguments correspond when their bodies do in every
later world. -/
theorem callFunction_corresponds (limits : Limits) {c c' : Closure}
    (alike : c.Alike (C.Scopes w) C.Places c') {arguments arguments' : List Value}
    (given : List.Forall₂ (C.Values w) arguments arguments')
    {run run' : ScopeRef → Eval Completion}
    (body : ∀ {w'}, C.Later w w' → ∀ {s s'}, C.Scopes w' s s' →
      Corresponds C w' (Completions C) (run s) (run' s')) :
    Corresponds C w C.Values (callFunction limits c arguments run)
      (callFunction limits c' arguments' run') := by
  have counted : arguments'.length = arguments.length := given.length_eq.symm
  unfold callFunction
  rw [counted, alike.params, alike.name]
  split
  · exact fault_corresponds _
  · intro m m' heaps depth
    show EndsAlike C w m m' C.Values
      ((if limits.maxCallDepth ≤ (m.callDepth : Int) then
        fault (.callsTooDeep limits.maxCallDepth c.name) else _) m)
      ((if limits.maxCallDepth ≤ (m'.callDepth : Int) then
        fault (.callsTooDeep limits.maxCallDepth c.name) else _) m')
    rw [depth]
    split
    · exact .error (.refl heaps) trivial
    · have bound : (Bindings.putAll [] (c.params.zip arguments)).Alike (C.Values w)
          (Bindings.putAll [] (c.params.zip arguments')) :=
        .putAll c.params .nil given
      refine (newScope_corresponds alike.scope bound).bind ?_ m m' heaps depth
      intro w' later s s' scopes
      exact insideCall_corresponds c.name (body later scopes)

/-! ## Several parts in order

Each part runs in the world that the parts before it leave, so what is known of a
part has to hold in every later world. -/

theorem each_corresponds {action action' : α → Eval Value} {xs : List α}
    (related : ∀ {w'}, C.Later w w' → ∀ x ∈ xs, Corresponds C w' C.Values (action x) (action' x)) :
    Corresponds C w (fun w => List.Forall₂ (C.Values w)) (each action xs) (each action' xs) := by
  induction xs generalizing w with
  | nil => exact .pure .nil
  | cons x rest ih =>
      refine (related (C.later_refl w) x List.mem_cons_self).bind ?_
      intro w₁ later₁ value value' values
      have others : Corresponds C w₁ (fun w => List.Forall₂ (C.Values w)) (each action rest)
          (each action' rest) :=
        ih fun later₂ y mem => related (C.later_trans later₁ later₂) y (List.mem_cons_of_mem x mem)
      refine others.bind ?_
      intro w₂ later₂ more more' given
      exact .pure (.cons (C.values_later later₂ values) given)

theorem optional_corresponds {action action' : α → Eval Value} {x : Option α}
    (related : ∀ y ∈ x, Corresponds C w C.Values (action y) (action' y)) :
    Corresponds C w (fun w => Option.Rel (C.Values w)) (optional action x)
      (optional action' x) := by
  cases x with
  | none => exact .pure .none
  | some y =>
      refine (related y rfl).bind ?_
      intro w' later value value' values
      exact .pure (.some values)

/-- A missing part counts as `null`. -/
theorem values_getD {given given' : Option Value} (related : Option.Rel (C.Values w) given given') :
    C.Values w (given.getD .null) (given'.getD .null) := by
  cases related with
  | none => exact values_null w
  | some values => exact values

/-- A choice that both runs make by the same condition. -/
theorem Corresponds.ite {post : C.World → α → α → Prop} {condition condition' : Prop}
    [Decidable condition] [Decidable condition'] (same : condition' ↔ condition)
    {p q p' q' : Eval α} (yes : Corresponds C w post p q) (no : Corresponds C w post p' q') :
    Corresponds C w post (if condition then p else p') (if condition' then q else q') := by
  by_cases held : condition
  · rw [if_pos held, if_pos (same.mpr held)]
    exact yes
  · rw [if_neg held, if_neg (mt same.mp held)]
    exact no

theorem truthy_iff {v v' : Value} (related : C.Values w v v') :
    v'.truthy = true ↔ v.truthy = true := by
  rw [(C.alike related).truthy_eq]

/-- What follows a completion: the rest if it is normal, nothing otherwise. -/
theorem completed_corresponds {p q rest rest' : Eval Completion}
    (first : Corresponds C w (Completions C) p q)
    (after : ∀ {w'}, C.Later w w' → Corresponds C w' (Completions C) rest rest') :
    Corresponds C w (Completions C)
      (p >>= fun completion =>
        match completion with
        | .normal => rest
        | completion => pure completion)
      (q >>= fun completion =>
        match completion with
        | .normal => rest'
        | completion => pure completion) := by
  refine first.bind ?_
  intro w' later completion completion' completions
  cases completions with
  | normal => exact after later
  | returned values place => exact .pure (.returned values place)

/-- Statements that correspond in every later world correspond when run in order. -/
theorem sequence_corresponds {action action' : α → Eval Completion} {xs : List α}
    (related : ∀ {w'}, C.Later w w' → ∀ x ∈ xs,
      Corresponds C w' (Completions C) (action x) (action' x)) :
    Corresponds C w (Completions C) (sequence action xs) (sequence action' xs) := by
  induction xs generalizing w with
  | nil => exact .pure .normal
  | cons x rest ih =>
      refine completed_corresponds (related (C.later_refl w) x List.mem_cons_self) ?_
      intro w₁ later₁
      exact ih fun later₂ y mem =>
        related (C.later_trans later₁ later₂) y (List.mem_cons_of_mem x mem)

/-- Loops correspond when tests and bodies do in every later world. -/
theorem loop_corresponds {condition condition' : Eval Value} {body body' : Eval Completion}
    (test : ∀ {w'}, C.Later w w' → Corresponds C w' C.Values condition condition')
    (pass : ∀ {w'}, C.Later w w' → Corresponds C w' (Completions C) body body') (passes : Nat) :
    Corresponds C w (Completions C) (loop condition body passes)
      (loop condition' body' passes) := by
  induction passes generalizing w with
  | zero => exact fun _ _ heaps _ => .error (.refl heaps) trivial
  | succ passes ih =>
      refine (test (C.later_refl w)).bind ?_
      intro w₁ later₁ value value' values
      refine .ite (truthy_iff values) ?_ (.pure .normal)
      refine completed_corresponds (pass later₁) ?_
      intro w₂ later₂
      have later := C.later_trans later₁ later₂
      exact ih (fun more => test (C.later_trans later more))
        (fun more => pass (C.later_trans later more))

/-! ## Expressions and statements -/

mutual

/-- **Evaluating an expression in corresponding scopes** ends alike. -/
theorem evaluate_corresponds (C : Correspondence) (limits : Limits) :
    ∀ (room : Nat) {expr : Expr}, Node.Placed C.Places expr.nodes →
      ∀ {w : C.World} {s s' : ScopeRef}, C.Scopes w s s' →
        Corresponds C w C.Values (evaluate limits room s expr) (evaluate limits room s' expr)
  | 0, _, _, _, _, _, _ | 1, _, _, _, _, _, _ => tooDeep_corresponds
  | room + 2, expr, placed, w, s, s', scopes => by
      rcases Expr.literal_or_places placed with ⟨value, line, rfl⟩ | place
      · exact fun _ _ heaps _ => .ok (.refl heaps) (C.constant w value)
      unfold evaluate
      refine Corresponds.located ?_ place
      -- the parts of the expression, in every later world
      have inner : ∀ {part : Expr}, Node.Placed C.Places part.nodes → ∀ {w'}, C.Later w w' →
          Corresponds C w' C.Values (evaluate limits room s part) (evaluate limits room s' part) :=
        fun {_} partPlaced {_} later =>
          evaluate_corresponds C limits room partPlaced (C.scopes_later later scopes)
      have all : ∀ {parts : List Expr}, Node.Placed C.Places (Expr.nodesAll parts) →
          ∀ {w'}, C.Later w w' → Corresponds C w' (fun w => List.Forall₂ (C.Values w))
            (evaluateAll limits room s parts) (evaluateAll limits room s' parts) :=
        fun {_} partsPlaced {_} later =>
          evaluateAll_corresponds C limits room partsPlaced (C.scopes_later later scopes)
      have maybe : ∀ {part : Option Expr}, Node.Placed C.Places (Expr.nodesOption part) →
          ∀ {w'}, C.Later w w' → Corresponds C w' (fun w => Option.Rel (C.Values w))
            (optional (evaluate limits room s) part) (optional (evaluate limits room s') part) := by
        intro part partPlaced w' later
        refine optional_corresponds fun expr given => ?_
        cases Option.mem_def.mp given
        exact inner partPlaced later
      have here := C.later_refl w
      cases expr with
      | literal value line => exact .pure (C.constant w value)
      | var name line => exact lookup_corresponds scopes name
      | grouping expr line =>
          simp only [Expr.nodes, Node.placed_cons] at placed
          exact inner placed.2 here
      | assign name value line =>
          simp only [Expr.nodes, Node.placed_cons] at placed
          refine (inner placed.2 here).bind ?_
          intro w₁ later₁ result result' results
          refine (assign_corresponds (C.scopes_later later₁ scopes) name results).bind ?_
          intro w₂ later₂ _ _ _
          exact .pure (C.values_later later₂ results)
      | increment name step line => exact increment_corresponds scopes name step
      | logical left op right line =>
          simp only [Expr.nodes, Node.placed_cons, Node.placed_append] at placed
          cases op with
          | or =>
              refine (inner placed.2.1 here).bind ?_
              intro w₁ later₁ value value' values
              exact .ite (truthy_iff values) (.pure values) (inner placed.2.2 later₁)
          | and =>
              refine (inner placed.2.1 here).bind ?_
              intro w₁ later₁ value value' values
              exact .ite (truthy_iff values) (inner placed.2.2 later₁) (.pure values)
      | binary left op right line =>
          simp only [Expr.nodes, Node.placed_cons, Node.placed_append] at placed
          refine (inner placed.2.1 here).bind ?_
          intro w₁ later₁ a a' first
          refine (inner placed.2.2 later₁).bind ?_
          intro w₂ later₂ b b' second
          refine (binary_corresponds room op (C.values_later later₂ first) second).bind ?_
          intro w₃ later₃ outcome outcome' outcomes
          exact settle_corresponds outcomes
      | unary op right line =>
          simp only [Expr.nodes, Node.placed_cons] at placed
          cases op with
          | negate =>
              refine (inner placed.2 here).bind ?_
              intro w₁ later₁ value value' values
              have negated : Corresponds C w₁ (fun w => Outcome.Alike (C.Values w))
                  (inspect fun _ => negateValue value) (inspect fun _ => negateValue value') :=
                inspect_corresponds fun _ => negateValue_related (C.alike values)
              refine negated.bind ?_
              intro w₂ later₂ outcome outcome' outcomes
              exact settle_corresponds outcomes
          | not =>
              refine (inner placed.2 here).bind ?_
              intro w₁ later₁ value value' values
              rw [(C.alike values).truthy_eq]
              exact .pure (values_bool w₁ _)
      | call callee arguments line =>
          simp only [Expr.nodes, Node.placed_cons, Node.placed_append] at placed
          refine (inner placed.2.1 here).bind ?_
          intro w₁ later₁ f f' callees
          refine (all placed.2.2 later₁).bind ?_
          intro w₂ later₂ values values' given
          exact apply_corresponds C limits room (C.values_later later₂ callees) given
      | member target name line =>
          simp only [Expr.nodes, Node.placed_cons] at placed
          refine (inner placed.2 here).bind ?_
          intro w₁ later₁ value value' values
          have resolved : Corresponds C w₁ (fun w found found' =>
              found'.1 = found.1 ∧ C.Values w (.list found.2) (.list found'.2))
              (inspect fun _ => resolveMethod value name)
              (inspect fun _ => resolveMethod value' name) :=
            inspect_corresponds fun _ => resolveMethod_related values name
          refine resolved.bind ?_
          rintro w₂ later₂ ⟨method, ref⟩ ⟨method', ref'⟩ ⟨same, receivers⟩
          cases same
          exact allocate_corresponds fun heaps => C.newMethod method heaps receivers
      | list elements line =>
          simp only [Expr.nodes, Node.placed_cons] at placed
          refine (all placed.2 here).bind ?_
          intro w₁ later₁ values values' given
          exact newList_corresponds given
      | index target position line =>
          simp only [Expr.nodes, Node.placed_cons, Node.placed_append] at placed
          refine (inner placed.2.1 here).bind ?_
          intro w₁ later₁ list list' lists
          refine (inner placed.2.2 later₁).bind ?_
          intro w₂ later₂ index index' indices
          exact inspect_corresponds fun heaps =>
            getItem_related heaps (C.values_later later₂ lists) indices
      | slice target first last line =>
          simp only [Expr.nodes, Node.placed_cons, Node.placed_append] at placed
          refine (inner placed.2.1 here).bind ?_
          intro w₁ later₁ list list' lists
          refine (maybe placed.2.2.1 later₁).bind ?_
          intro w₂ later₂ low low' lows
          refine (maybe placed.2.2.2 (C.later_trans later₁ later₂)).bind ?_
          intro w₃ later₃ high high' highs
          have lists₃ := C.values_later (C.later_trans later₂ later₃) lists
          have lows₃ : Option.Rel (C.Values w₃) low low' := by
            cases lows with
            | none => exact .none
            | some values => exact .some (C.values_later later₃ values)
          have sliced : Corresponds C w₃ (fun w => Elementwise (C.Values w))
              (inspect (·.slice list low high)) (inspect (·.slice list' low' high')) :=
            inspect_corresponds fun heaps => slice_related heaps lists₃ lows₃ highs
          refine sliced.bind ?_
          intro w₄ later₄ items items' related
          exact newList_corresponds related

theorem evaluateAll_corresponds (C : Correspondence) (limits : Limits) :
    ∀ (room : Nat) {exprs : List Expr}, Node.Placed C.Places (Expr.nodesAll exprs) →
      ∀ {w : C.World} {s s' : ScopeRef}, C.Scopes w s s' →
        Corresponds C w (fun w => List.Forall₂ (C.Values w)) (evaluateAll limits room s exprs)
          (evaluateAll limits room s' exprs)
  | 0, _, _, _, _, _, _ => tooDeep_corresponds
  | room + 1, _, placed, _, _, _, scopes =>
      each_corresponds fun later _ mem =>
        evaluate_corresponds C limits room (Expr.placed_of_mem placed mem)
          (C.scopes_later later scopes)

/-- **Calling corresponding values with corresponding arguments** ends alike. -/
theorem apply_corresponds (C : Correspondence) (limits : Limits) :
    ∀ (room : Nat) {w : C.World} {callee callee' : Value}, C.Values w callee callee' →
      ∀ {arguments arguments' : List Value}, List.Forall₂ (C.Values w) arguments arguments' →
        Corresponds C w C.Values (apply limits room callee arguments)
          (apply limits room callee' arguments')
  | 0, _, _, _, _, _, _, _ | 1, _, _, _, _, _, _, _ | 2, _, _, _, _, _, _, _ =>
      tooDeep_corresponds
  | room + 3, w, callee, callee', callees, arguments, arguments', given => by
      unfold apply
      cases C.alike callees with
      | function ref ref' =>
          refine (closure_corresponds callees).bind ?_
          intro w₁ later₁ c c' alike
          have given₁ := given.imp fun _ _ => C.values_later later₁
          rw [alike.body]
          refine callFunction_corresponds limits alike given₁ ?_
          intro w₂ later₂ s s' scopes
          refine sequence_corresponds ?_
          intro w₃ later₃ stmt mem
          exact execute_corresponds C limits room (Stmt.placed_of_mem alike.placed mem)
            (C.scopes_later later₃ scopes)
      | hash => exact callNative_corresponds room callees given
      | method method ref ref' i i' => exact callNative_corresponds room callees given
      | _ => exact fault_corresponds _

/-- **Executing a statement in corresponding scopes** ends alike. -/
theorem execute_corresponds (C : Correspondence) (limits : Limits) :
    ∀ (room : Nat) {stmt : Stmt}, Node.Placed C.Places stmt.nodes →
      ∀ {w : C.World} {s s' : ScopeRef}, C.Scopes w s s' →
        Corresponds C w (Completions C) (execute limits room s stmt) (execute limits room s' stmt)
  | 0, _, _, _, _, _, _ | 1, _, _, _, _, _, _ => tooDeep_corresponds
  | room + 2, stmt, placed, w, s, s', scopes => by
      have place := Stmt.places_line placed
      unfold execute
      refine Corresponds.located ?_ place
      -- the scopes stay related while the world grows, so every part corresponds
      have inner : ∀ {part : Expr}, Node.Placed C.Places part.nodes → ∀ {w'}, C.Later w w' →
          Corresponds C w' C.Values (evaluate limits room s part) (evaluate limits room s' part) :=
        fun {_} partPlaced {_} later =>
          evaluate_corresponds C limits room partPlaced (C.scopes_later later scopes)
      have maybe : ∀ {part : Option Expr}, Node.Placed C.Places (Expr.nodesOption part) →
          Corresponds C w (fun w => Option.Rel (C.Values w))
            (optional (evaluate limits room s) part) (optional (evaluate limits room s') part) := by
        intro part partPlaced
        refine optional_corresponds fun expr given => ?_
        cases Option.mem_def.mp given
        exact inner partPlaced (C.later_refl w)
      have branch : ∀ {part : Stmt}, Node.Placed C.Places part.nodes → ∀ {w'}, C.Later w w' →
          Corresponds C w' (Completions C) (execute limits room s part)
            (execute limits room s' part) :=
        fun {_} partPlaced {_} later =>
          execute_corresponds C limits room partPlaced (C.scopes_later later scopes)
      have here := C.later_refl w
      cases stmt with
      | expression expr line =>
          simp only [Stmt.nodes, Node.placed_cons] at placed
          exact (inner placed.2 here).bind fun _ _ _ _ => .pure .normal
      | print expr line =>
          simp only [Stmt.nodes, Node.placed_cons] at placed
          refine (inner placed.2 here).bind ?_
          intro w₁ later₁ value value' values
          exact (print_corresponds room values).bind fun _ _ _ _ => .pure .normal
      | varDecl name initial line =>
          simp only [Stmt.nodes, Node.placed_cons] at placed
          refine (maybe placed.2).bind ?_
          intro w₁ later₁ value value' values
          have defined := define_corresponds (C.scopes_later later₁ scopes) name
            (values_getD values)
          exact defined.bind fun _ _ _ _ => .pure .normal
      | block body line =>
          simp only [Stmt.nodes, Node.placed_cons] at placed
          exact executeBlock_corresponds C limits room placed.2 scopes
      | ifElse condition thenBranch elseBranch line =>
          simp only [Stmt.nodes, Node.placed_cons, Node.placed_append] at placed
          refine (inner placed.2.1 here).bind ?_
          intro w₁ later₁ value value' values
          refine .ite (truthy_iff values) (branch placed.2.2.1 later₁) ?_
          cases elseBranch with
          | none => exact .pure .normal
          | some other => exact branch placed.2.2.2 later₁
      | whileLoop condition body line =>
          simp only [Stmt.nodes, Node.placed_cons, Node.placed_append] at placed
          exact loop_corresponds (inner placed.2.1) (branch placed.2.2) limits.passes
      | returnValue value line =>
          simp only [Stmt.nodes, Node.placed_cons] at placed
          refine (maybe placed.2).bind ?_
          intro w₁ later₁ result result' results
          exact .pure (.returned (values_getD results) place)
      | funDecl name params body line =>
          simp only [Stmt.nodes, Node.placed_cons] at placed
          -- the two functions differ in the scope they close over alone
          have alike : Closure.Alike (C.Scopes w) C.Places ⟨name, params, body, s⟩
              ⟨name, params, body, s'⟩ := ⟨rfl, rfl, rfl, scopes, placed.2⟩
          have created : Corresponds C w (fun w f f' => C.Values w (.function f) (.function f'))
              (allocate (·.newFunction ⟨name, params, body, s⟩))
              (allocate (·.newFunction ⟨name, params, body, s'⟩)) :=
            allocate_corresponds fun heaps => C.newFunction heaps alike
          refine created.bind ?_
          intro w₁ later₁ f f' functions
          have defined := define_corresponds (C.scopes_later later₁ scopes) name functions
          exact defined.bind fun _ _ _ _ => .pure .normal

theorem executeBlock_corresponds (C : Correspondence) (limits : Limits) :
    ∀ (room : Nat) {body : List Stmt}, Node.Placed C.Places (Stmt.nodesAll body) →
      ∀ {w : C.World} {s s' : ScopeRef}, C.Scopes w s s' →
        Corresponds C w (Completions C) (executeBlock limits room s body)
          (executeBlock limits room s' body)
  | 0, _, _, _, _, _, _ => tooDeep_corresponds
  | room + 1, body, placed, w, s, s', scopes => by
      unfold executeBlock
      refine (newScope_corresponds scopes .nil).bind ?_
      intro w₁ later₁ inner inner' inners
      refine sequence_corresponds ?_
      intro w₂ later₂ stmt mem
      exact execute_corresponds C limits room (Stmt.placed_of_mem placed mem)
        (C.scopes_later later₂ inners)

end

/-! ## Programs -/

/-- **Executing a program in corresponding scopes** ends alike. -/
theorem executeProgram_corresponds (C : Correspondence) (limits : Limits) (room : Nat)
    {stmts : List Stmt} (placed : Node.Placed C.Places (Stmt.nodesAll stmts)) {w : C.World}
    {s s' : ScopeRef} (scopes : C.Scopes w s s') :
    Corresponds C w (anyResults C) (executeProgram limits room s stmts)
      (executeProgram limits room s' stmts) := by
  induction stmts generalizing w with
  | nil => exact .pure trivial
  | cons stmt rest ih =>
      rw [Stmt.nodesAll, Node.placed_append] at placed
      have first : Corresponds C w (Completions C)
          (mapStop (Stop.atTopLevel stmt.line) (execute limits room s stmt))
          (mapStop (Stop.atTopLevel stmt.line) (execute limits room s' stmt)) := by
        refine (execute_corresponds C limits room placed.1 scopes).mapStop fun stop within => ?_
        cases stop with
        | tooDeep => exact Stmt.places_line placed.1
        | fault cause line => exact within
        | outOfPasses => trivial
      refine first.bind ?_
      intro w' later completion completion' completions
      cases completions with
      | normal => exact ih placed.2 (C.scopes_later later scopes)
      | returned values place => exact fun _ _ heaps _ => .error (.refl heaps) place

end Eval

end TernLang
