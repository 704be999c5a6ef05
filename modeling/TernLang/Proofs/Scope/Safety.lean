import TernLang.Proofs.Eval.Bind
import TernLang.Proofs.Scope.Heap

/-! # Computations that find every name

`Safe scope names action post` says that `action` may be run where `scope` sees
`names`: **it does not stop because a name is undefined**, and it leaves a sound
heap that has only grown, with `post`. What is seen is never lost, so safe
computations can follow each other (`Safe.bind`). There is one rule for each
construct of the evaluator.
-/

namespace TernLang

/-- The stop is not because of an undefined name. -/
def Stop.NamesDefined : Stop → Prop
  | .fault cause _ => cause.kind ≠ .undefinedVariable
  | .tooDeep => True
  | .outOfPasses => True

namespace Eval

/-- The result of an action that started on the heap `h`. -/
def Result.Good {α : Type} (h : Heap) (post : α → Heap → Prop) :
    EStateM.Result Stop Machine α → Prop
  | .ok a after => h.Grows after.heap ∧ after.heap.Sound ∧ post a after.heap
  | .error stop _ => stop.NamesDefined

def anything {α : Type} (_ : α) (_ : Heap) : Prop := True

/-- Where `scope` sees `names`, the action ends well, and with `post`. -/
def Safe {α : Type} (scope : ScopeRef) (names : List String) (action : Eval α)
    (post : α → Heap → Prop) : Prop :=
  ∀ machine : Machine, machine.heap.Sound → machine.heap.Sees scope names →
    Result.Good machine.heap post (action machine)

variable {α β : Type} {scope : ScopeRef} {names : List String}

/-! ## Rules -/

theorem Result.Good.grows {h h' : Heap} {post : α → Heap → Prop}
    {result : EStateM.Result Stop Machine α} (good : Good h' post result) (grows : h.Grows h') :
    Good h post result := by
  cases result with
  | ok a after => exact ⟨grows.trans good.1, good.2⟩
  | error stop after => exact good

/-- One action after another, which may rely on what the first one gave. -/
theorem good_bind {action : Eval α} {rest : α → Eval β} {mid : α → Heap → Prop}
    {post : β → Heap → Prop} {machine : Machine}
    (first : Result.Good machine.heap mid (action machine))
    (second : ∀ (a : α) (after : Machine), machine.heap.Grows after.heap → after.heap.Sound →
      mid a after.heap → Result.Good after.heap post (rest a after)) :
    Result.Good machine.heap post ((action >>= rest) machine) := by
  rw [bind_run]
  cases run : action machine with
  | ok a after =>
      rw [run] at first
      obtain ⟨grows, sound, held⟩ := first
      exact (second a after grows sound held).grows grows
  | error stop after =>
      rw [run] at first
      exact first

/-- Two safe evaluations in sequence are safe, since the scope still sees the names in
between. -/
theorem Safe.bind {action : Eval α} {rest : α → Eval β} {post : β → Heap → Prop}
    (first : Safe scope names action anything)
    (second : ∀ a, Safe scope names (rest a) post) : Safe scope names (action >>= rest) post := by
  intro machine sound sees
  refine good_bind (first machine sound sees) (fun a after grows sound' _ => ?_)
  exact second a after sound' (sees.grows grows)

theorem Safe.pure (a : α) : Safe scope names (pure a) anything := by
  intro machine sound sees
  exact ⟨.refl _, sound, trivial⟩

theorem Safe.forget {action : Eval α} {post : α → Heap → Prop}
    (safe : Safe scope names action post) : Safe scope names action anything := by
  intro machine sound sees
  have good := safe machine sound sees
  cases run : action machine with
  | ok a after =>
      rw [run] at good
      exact ⟨good.1, good.2.1, trivial⟩
  | error stop after =>
      rw [run] at good
      exact good

/-- Locating a fault does not change its cause. -/
theorem Safe.mapStop {action : Eval α} {post : α → Heap → Prop} {change : Stop → Stop}
    (safe : Safe scope names action post)
    (keeps : ∀ stop : Stop, stop.NamesDefined → (change stop).NamesDefined) :
    Safe scope names (mapStop change action) post := by
  intro machine sound sees
  have good := safe machine sound sees
  unfold Eval.mapStop
  cases run : action machine with
  | ok a after =>
      rw [run] at good
      exact good
  | error stop after =>
      rw [run] at good
      exact keeps stop good

theorem namesDefined_located (line : Nat) (stop : Stop) (defined : stop.NamesDefined) :
    (stop.located line).NamesDefined := by
  cases stop with
  | fault fault line' => cases line' <;> exact defined
  | tooDeep => exact defined
  | outOfPasses => exact defined

theorem namesDefined_atTopLevel (line : Nat) (stop : Stop) (defined : stop.NamesDefined) :
    (stop.atTopLevel line).NamesDefined := by
  cases stop with
  | fault fault line' => exact defined
  | tooDeep =>
      intro undefined
      cases undefined
  | outOfPasses => exact defined

theorem namesDefined_inCall (name : String) (stop : Stop) (defined : stop.NamesDefined) :
    (stop.inCall name).NamesDefined := by
  cases stop with
  | fault fault line' => exact defined
  | tooDeep =>
      intro undefined
      cases undefined
  | outOfPasses => exact defined

/-! ## Readings that know no names -/

/-- The reading does not fail because of a name. -/
def Defined (reading : Except Fault α) : Prop :=
  ∀ fault, reading = .error fault → fault.kind ≠ .undefinedVariable

theorem defined_ok (a : α) : Defined (.ok a) := by
  intro fault failed
  cases failed

theorem defined_error {fault : Fault} (other : fault.kind ≠ .undefinedVariable) :
    Defined (.error fault : Except Fault α) := by
  intro fault' failed
  cases failed
  exact other

theorem Defined.bind {reading : Except Fault α} {rest : α → Except Fault β}
    (first : Defined reading) (second : ∀ a, Defined (rest a)) : Defined (reading >>= rest) := by
  cases reading with
  | ok a => exact second a
  | error fault => exact defined_error (first fault rfl)

theorem position_defined (use : PositionUse) (value : Value) : Defined (position use value) := by
  unfold position
  split
  · split
    · exact defined_ok _
    · exact defined_error nofun
  · exact defined_error nofun

theorem positionBelow_defined (use : PositionUse) (limit length : Nat) (value : Value) :
    Defined (positionBelow use limit length value) := by
  refine (position_defined use value).bind fun i => ?_
  split
  · exact defined_ok _
  · exact defined_error nofun

theorem sliceBound_defined (bound : SliceBound) (value : Option Value) :
    Defined (value.mapM (sliceBound bound)) := by
  cases value with
  | none => exact defined_ok none
  | some value =>
      have given : Defined (sliceBound bound value) := by
        unfold sliceBound
        split
        · split
          · exact defined_ok _
          · exact defined_error nofun
        · exact defined_error nofun
      exact given.bind fun i => defined_ok (some i)

theorem getItem_defined (h : Heap) (target index : Value) : Defined (h.getItem target index) := by
  unfold Heap.getItem
  split
  · exact (positionBelow_defined _ _ _ _).bind fun _ => defined_ok _
  · exact defined_error nofun

theorem slice_defined (h : Heap) (target : Value) (first last : Option Value) :
    Defined (h.slice target first last) := by
  unfold Heap.slice
  split
  · refine (sliceBound_defined _ first).bind fun low => ?_
    exact (sliceBound_defined _ last).bind fun high => defined_ok _
  · exact defined_error nofun

theorem resolveMethod_defined (target : Value) (name : String) :
    Defined (resolveMethod target name) := by
  unfold resolveMethod
  split
  · split
    · exact defined_ok _
    · exact defined_error nofun
  · exact defined_error nofun

theorem negateValue_defined (value : Value) : Defined (negateValue value) := by
  unfold negateValue
  split
  · exact defined_ok _
  · exact defined_error nofun

theorem stepValue_defined (name : String) (step : Step) (value : Value) :
    Defined (stepValue name step value) := by
  unfold stepValue
  split
  · exact defined_ok _
  · exact defined_error nofun

theorem hashValue_defined (value : Value) : Defined (hashValue value) := by
  unfold hashValue
  split
  · exact defined_ok _
  · exact defined_error nofun

theorem sortItems_defined (items : Array Value) : Defined (sortItems items) := by
  unfold sortItems
  split
  · exact defined_ok _
  · split
    · exact defined_ok _
    · exact defined_ok _
    · exact defined_error nofun

/-- A reading whose faults were turned into stops. -/
theorem Defined.stops {reading : Except Fault α} (defined : Defined reading) {stop : Stop}
    (failed : reading.mapError .ofFault = .error stop) : stop.NamesDefined := by
  cases reading with
  | ok a => cases failed
  | error fault =>
      cases failed
      exact defined fault rfl

theorem numberOperands_defined (op : BinaryOp) (left right : Value) :
    Defined (numberOperands op left right) := by
  unfold numberOperands
  split
  · exact defined_ok _
  · exact defined_error nofun

/-- No operator ends with an undefined variable. -/
theorem binary_namesDefined {h : Heap} {room : Nat} {op : BinaryOp} {left right : Value}
    {stop : Stop} (failed : h.binary room op left right = .error stop) : stop.NamesDefined := by
  have computed : ∀ compute, Defined (arithmetic op compute left right) := fun compute =>
    (numberOperands_defined op left right).bind fun _ => defined_ok _
  have compared : ∀ compare, Defined (ordering op compare left right) := fun compare =>
    (numberOperands_defined op left right).bind fun _ => defined_ok _
  unfold Heap.binary at failed
  cases op with
  | add =>
      refine Defined.stops ?_ failed
      unfold addValues
      split
      · exact defined_ok _
      · exact defined_ok _
      · exact defined_error nofun
  | subtract => exact (computed _).stops failed
  | multiply => exact (computed _).stops failed
  | divide =>
      refine Defined.stops ((numberOperands_defined _ left right).bind fun (x, y) => ?_) failed
      show Defined (if y == 0 then _ else _)
      split
      · exact defined_error nofun
      · exact defined_ok _
  | less => exact (compared _).stops failed
  | lessEqual => exact (compared _).stops failed
  | greater => exact (compared _).stops failed
  | greaterEqual => exact (compared _).stops failed
  | equal =>
      simp only at failed
      split at failed <;> cases failed
      trivial
  | notEqual =>
      simp only at failed
      split at failed <;> cases failed
      trivial

theorem indexFrom_namesDefined {h : Heap} {room : Nat} {target : Value} {items : List Value}
    {start : Nat} {stop : Stop} (failed : h.indexFrom room target start items = .error stop) :
    stop.NamesDefined := by
  induction items generalizing start with
  | nil => cases failed
  | cons item rest ih =>
      unfold Heap.indexFrom at failed
      split at failed
      · cases failed
        trivial
      · cases failed
      · exact ih failed

/-- No method ends with an undefined variable. -/
theorem methodEffect_namesDefined {h : Heap} {room : Nat} {method : ListMethod} {ref : ListRef}
    {arguments : List Value} {stop : Stop}
    (failed : h.methodEffect room method ref arguments = .error stop) : stop.NamesDefined := by
  unfold Heap.methodEffect at failed
  split at failed
  · cases failed
  · split at failed <;> cases failed
    nofun
  · simp only at failed
    split at failed
    · cases failed
    · rename_i fault wrong
      cases failed
      exact positionBelow_defined _ _ _ _ fault wrong
  · simp only at failed
    split at failed
    · cases failed
    · rename_i fault wrong
      cases failed
      exact positionBelow_defined _ _ _ _ fault wrong
  · split at failed
    · cases failed
    · rename_i stop' wrong
      cases failed
      exact indexFrom_namesDefined wrong
  · cases failed
  · split at failed
    · cases failed
    · rename_i fault wrong
      cases failed
      exact sortItems_defined _ fault wrong
  · cases failed
    nofun

/-! ## Steps on the heap -/

/-- A reading that cannot fail because of a name. -/
theorem safe_query {read : Heap → Except Stop α}
    (defined : ∀ h stop, read h = .error stop → stop.NamesDefined) :
    Safe scope names (query read) anything := by
  intro machine sound sees
  unfold query
  cases found : read machine.heap with
  | ok a => exact ⟨.refl _, sound, trivial⟩
  | error stop => exact defined _ _ found

/-- A reading that looks up only names the scope sees is safe. -/
theorem safe_inspect {read : Heap → Except Fault α}
    (defined : ∀ h : Heap, h.Sees scope names → Defined (read h)) :
    Safe scope names (inspect read) anything := by
  intro machine sound sees
  unfold inspect
  cases found : read machine.heap with
  | ok a => exact ⟨.refl _, sound, trivial⟩
  | error fault => exact defined _ sees fault found

/-- A change that only lets the scopes grow and leaves the functions alone. -/
theorem safe_update {change : Heap → Heap} {post : Unit → Heap → Prop}
    (grows : ∀ h : Heap, h.Grows (change h)) (same : ∀ h, (change h).functions = h.functions)
    (held : ∀ h : Heap, h.Sees scope names → post () (change h)) :
    Safe scope names (update change) post := by
  intro machine sound sees
  exact ⟨grows _, sound.grows (grows _) (same _), held _ sees⟩

theorem safe_allocate {create : Heap → α × Heap} {post : α → Heap → Prop}
    (grows : ∀ h : Heap, h.Grows (create h).2) (same : ∀ h, (create h).2.functions = h.functions)
    (held : ∀ h : Heap, h.Sees scope names → post (create h).1 (create h).2) :
    Safe scope names (allocate create) post := by
  intro machine sound sees
  exact ⟨grows _, sound.grows (grows _) (same _), held _ sees⟩

theorem safe_newNumber (x : Float) : Safe scope names (allocate (·.newNumber x)) anything := by
  refine safe_allocate (fun h => ?_) (fun h => ?_) (fun _ _ => trivial)
  · exact Heap.grows_of_scopes_eq (by unfold Heap.newNumber; split <;> rfl)
  · unfold Heap.newNumber
    split <;> rfl

theorem safe_newList (items : Array Value) : Safe scope names (newList items) anything := by
  refine .bind ?_ (fun ref => .pure _)
  exact safe_allocate (fun _ => Heap.grows_of_scopes_eq rfl) (fun _ => rfl) (fun _ _ => trivial)

theorem safe_settle (outcome : Outcome) : Safe scope names (settle outcome) anything := by
  cases outcome with
  | value value => exact .pure _
  | number x => exact safe_newNumber x

/-- A name the scope sees is found. -/
theorem safe_lookup {name : String} (mem : name ∈ names) :
    Safe scope names (inspect (·.lookup scope name)) anything := by
  refine safe_inspect (fun h sees => ?_)
  obtain ⟨value, found⟩ := sees.lookup mem
  rw [found]
  exact defined_ok value

theorem safe_assign {name : String} (mem : name ∈ names) (value : Value) :
    Safe scope names (assign scope name value) anything := by
  refine .bind (safe_inspect fun h sees => ?_) (fun owner => ?_)
  · obtain ⟨owner, found⟩ := sees.owner mem
    rw [found]
    exact defined_ok owner
  · exact safe_update (fun h => h.grows_define owner name value) (fun _ => rfl)
      (fun _ _ => trivial)

theorem safe_increment {name : String} (mem : name ∈ names) (step : Step) :
    Safe scope names (increment scope name step) anything := by
  refine (safe_lookup mem).bind fun current => ?_
  refine .bind (safe_inspect fun _ _ => stepValue_defined name step current) (fun outcome => ?_)
  refine (safe_settle outcome).bind fun updated => ?_
  exact (safe_assign mem updated).bind fun _ => .pure _

/-! ## Calls and control flow -/

theorem safe_tooDeep {post : α → Heap → Prop} : Safe scope names (tooDeep : Eval α) post := by
  intro machine sound sees
  exact trivial

theorem safe_fault {post : α → Heap → Prop} {cause : Fault}
    (other : cause.kind ≠ .undefinedVariable) :
    Safe scope names (fault cause : Eval α) post := by
  intro machine sound sees
  exact other

theorem safe_print (room : Nat) (value : Value) : Safe scope names (print room value) anything := by
  intro machine sound sees
  unfold print
  split
  · exact ⟨.refl _, sound, trivial⟩
  · exact trivial

theorem safe_callNative (room : Nat) (native : Native) (arguments : List Value) :
    Safe scope names (callNative room native arguments) anything := by
  unfold callNative
  split
  · exact safe_fault nofun
  · split
    · refine (safe_query fun _ _ => methodEffect_namesDefined).bind fun (value, change) => ?_
      refine .bind ?_ (fun _ => .pure value)
      exact safe_update (fun _ => Heap.grows_of_scopes_eq rfl) (fun _ => rfl) (fun _ _ => trivial)
    · exact safe_inspect fun _ _ => hashValue_defined _
    · exact safe_fault nofun

theorem safe_each {γ : Type} {action : γ → Eval β} {inputs : List γ}
    (each_safe : ∀ x ∈ inputs, Safe scope names (action x) anything) :
    Safe scope names (each action inputs) anything := by
  induction inputs with
  | nil => exact .pure _
  | cons x rest ih =>
      have later := ih fun y mem => each_safe y (List.mem_cons_of_mem x mem)
      refine (each_safe x List.mem_cons_self).bind fun y => later.bind fun ys => .pure _

theorem safe_optional {action : Expr → Eval Value} {part : Option Expr}
    (given : ∀ expr ∈ part, Safe scope names (action expr) anything) :
    Safe scope names (optional action part) anything := by
  cases part with
  | none => exact .pure _
  | some expr => exact (given expr rfl).bind fun _ => .pure _

/-- A loop runs its condition and its body any number of times. -/
theorem safe_loop {condition : Eval Value} {body : Eval Completion}
    (test : Safe scope names condition anything) (pass : Safe scope names body anything)
    (passes : Nat) : Safe scope names (loop condition body passes) anything := by
  induction passes with
  | zero =>
      intro machine sound sees
      exact trivial
  | succ passes ih =>
      refine test.bind fun value => ?_
      split
      · refine pass.bind fun completion => ?_
        split
        · exact ih
        · exact .pure _
      · exact .pure _

/-- What a statement that completes normally promises: the scope sees what it
declares. -/
def declares (scope : ScopeRef) (names : List String) (stmt : Stmt) (completion : Completion)
    (h : Heap) : Prop :=
  completion = .normal → h.Sees scope (stmt.declared ++ names)

/-- A statement that declares nothing has nothing to promise: what was seen is
still seen. -/
theorem Safe.declaresNothing {action : Eval Completion} {stmt : Stmt}
    (safe : Safe scope names action anything) (none : stmt.declared = []) :
    Safe scope names action (declares scope names stmt) := by
  intro machine sound sees
  have good := safe machine sound sees
  cases run : action machine with
  | ok completion after =>
      rw [run] at good
      refine ⟨good.1, good.2.1, fun _ => ?_⟩
      rw [none]
      exact sees.grows good.1
  | error stop after =>
      rw [run] at good
      exact good

/-- A variable declaration adds its name to those the scope sees. -/
theorem safe_declareVariable (name : String) (initial : Option Expr) (line : Nat) (value : Value) :
    Safe scope names (do
      update (·.define scope name value)
      pure .normal) (declares scope names (.varDecl name initial line)) := by
  intro machine sound sees
  have grows := machine.heap.grows_define scope name value
  exact ⟨grows, sound.grows grows rfl, fun _ => sees.define name value⟩

/-- A function is declared after it was created, so its body sees it. -/
theorem safe_declareFunction {name : String} {params : List String} {body : List Stmt} {line : Nat}
    (resolves : (Stmt.funDecl name params body line).resolves names = true) :
    Safe scope names (do
      let ref ← allocate (·.newFunction ⟨name, params, body, scope⟩)
      update (·.define scope name (.function ref))
      pure .normal) (declares scope names (.funDecl name params body line)) := by
  intro machine sound sees
  have grows : machine.heap.Grows (machine.heap.newFunction ⟨name, params, body, scope⟩).2 :=
    Heap.grows_of_scopes_eq rfl
  exact ⟨grows.trans (Heap.grows_define _ scope name _), sound.declare sees resolves,
    fun _ => (sees.grows grows).define name _⟩

/-- Statements one after the other: each sees what those in front of it have
declared. -/
theorem safe_sequence {action : Stmt → Eval Completion} {stmts : List Stmt}
    (step : ∀ (stmt : Stmt) (names : List String), stmt.resolves names = true →
      Safe scope names (action stmt) (declares scope names stmt))
    (resolves : Stmt.resolvesAll names stmts = true) :
    Safe scope names (sequence action stmts) anything := by
  induction stmts generalizing names with
  | nil => exact .pure _
  | cons stmt rest ih =>
      rw [Stmt.resolvesAll, Bool.and_eq_true] at resolves
      -- `Safe.bind` would forget what the statement has declared
      intro machine sound sees
      refine good_bind (step stmt names resolves.1 machine sound sees)
        (fun completion after grows sound' declared => ?_)
      cases completion with
      | normal => exact ih resolves.2 after sound' (declared rfl)
      | returned value line => exact ⟨.refl _, sound', trivial⟩

/-- The statements of a block see what the scope around it sees. -/
theorem safe_inNewScope {bindings : Bindings} (bound : List String)
    {body : ScopeRef → Eval α} (binds : ∀ name ∈ bound, bindings.Binds name)
    (inside : ∀ inner, Safe inner (bound ++ names) (body inner) anything) :
    Safe scope names (newScope bindings scope >>= body) anything := by
  intro machine sound sees
  have allocated : Result.Good machine.heap (fun inner h => h.Sees inner (bound ++ names))
      (newScope bindings scope machine) :=
    ⟨machine.heap.grows_newScope _, sound.grows (machine.heap.grows_newScope _) rfl,
      sees.newScope binds⟩
  exact good_bind allocated fun inner after _ sound' sees' => inside inner after sound' sees'

/-- A body that is safe in its own scope makes a safe call. -/
theorem safe_insideCall {name : String} {body : Eval Completion}
    (safe : Safe scope names body anything) :
    Safe scope names (insideCall name body) anything := by
  intro machine sound sees
  have good := safe { machine with callDepth := machine.callDepth + 1 } sound sees
  unfold insideCall
  cases run : body { machine with callDepth := machine.callDepth + 1 } with
  | ok completion after =>
      rw [run] at good
      exact ⟨good.1, good.2.1, trivial⟩
  | error stop after =>
      rw [run] at good
      exact namesDefined_inCall name stop good

/-- A call runs the body of a function of the heap, which is sound. -/
theorem safe_callFunction {limits : Limits} {closure : Closure} {arguments : List Value}
    {run : ScopeRef → Eval Completion}
    (body : ∀ inner, Safe inner (closure.params ++ names) (run inner) anything) :
    Safe closure.scope names (callFunction limits closure arguments run) anything := by
  unfold callFunction
  split
  · exact safe_fault nofun
  · rename_i same
    intro machine sound sees
    show Result.Good machine.heap anything ((do
      if limits.maxCallDepth ≤ (machine.callDepth : Int) then
        fault (.callsTooDeep limits.maxCallDepth closure.name)
      else
        let scope ← newScope (Bindings.putAll [] (closure.params.zip arguments)) closure.scope
        insideCall closure.name (run scope)) machine)
    split
    · exact nofun
    · -- there is an argument for each parameter, so each parameter is bound
      have length : closure.params.length = arguments.length := by
        simpa [eq_comm] using same
      refine safe_inNewScope closure.params ?_ (fun inner => ?_) machine sound sees
      · intro name mem
        refine Bindings.binds_putAll ?_ []
        rwa [List.map_fst_zip (Nat.le_of_eq length)]
      · exact safe_insideCall (body inner)

end Eval

end TernLang
