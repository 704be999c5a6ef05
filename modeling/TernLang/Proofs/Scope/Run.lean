import TernLang.Interpreter
import TernLang.Proofs.Scope.Safety

/-! # Names that are declared are found

**A run of a well-scoped program never fails because a name is undefined**
(`run_names_defined`), whatever functions escape and in whatever order they are
called. Evaluation and execution are safe by induction on the room; a call is
safe because the heap is sound, so that the body of the function sees what the
scope of its declaration sees.
-/

namespace TernLang

namespace Eval

variable {names : List String}

/-! ## Evaluation -/

/-- What an expression needs is in the names of the whole. -/
theorem mem_of_contains {name : String} (contains : names.contains name = true) : name ∈ names :=
  List.contains_iff_mem.mp contains

mutual

/-- **Evaluating an expression never misses a name** that the scope sees. -/
theorem safe_evaluate (limits : Limits) (scope : ScopeRef) (names : List String) :
    ∀ (room : Nat) (expr : Expr), expr.resolves names = true →
      Safe scope names (evaluate limits room scope expr) anything
  | 0, _, _ | 1, _, _ => safe_tooDeep
  | room + 2, expr, resolves => by
      refine Safe.mapStop ?_ (namesDefined_located expr.line)
      have inner := safe_evaluate limits scope names room
      have all := safe_evaluateAll limits scope names room
      -- only variables look for a name; operations on values fail for other reasons
      cases expr with
      | literal value line => exact .pure _
      | var name line => exact safe_lookup (mem_of_contains resolves)
      | grouping expr line => exact inner expr resolves
      | assign name value line =>
          simp only [Expr.resolves, Bool.and_eq_true] at resolves
          refine (inner value resolves.2).bind fun result => ?_
          exact (safe_assign (mem_of_contains resolves.1) result).bind fun _ => .pure _
      | increment name step line => exact safe_increment (mem_of_contains resolves) step
      | logical left op right line =>
          simp only [Expr.resolves, Bool.and_eq_true] at resolves
          cases op with
          | or =>
              refine (inner left resolves.1).bind fun value => ?_
              split
              · exact .pure _
              · exact inner right resolves.2
          | and =>
              refine (inner left resolves.1).bind fun value => ?_
              split
              · exact inner right resolves.2
              · exact .pure _
      | binary left op right line =>
          simp only [Expr.resolves, Bool.and_eq_true] at resolves
          refine (inner left resolves.1).bind fun a => (inner right resolves.2).bind fun b => ?_
          exact (safe_query fun _ _ => binary_namesDefined).bind fun outcome => safe_settle outcome
      | unary op right line =>
          cases op with
          | negate =>
              refine (inner right resolves).bind fun value => ?_
              refine (safe_inspect fun _ _ => negateValue_defined value).bind fun outcome => ?_
              exact safe_settle outcome
          | not => exact (inner right resolves).bind fun value => .pure _
      | call callee arguments line =>
          simp only [Expr.resolves, Bool.and_eq_true] at resolves
          refine (inner callee resolves.1).bind fun f => ?_
          exact (all arguments resolves.2).bind fun values => safe_apply limits scope names room f values
      | member target name line =>
          refine (inner target resolves).bind fun value => ?_
          refine (safe_inspect fun _ _ => resolveMethod_defined value name).bind fun found => ?_
          exact safe_allocate (fun _ => Heap.grows_of_scopes_eq rfl) (fun _ => rfl)
            (fun _ _ => trivial)
      | list elements line =>
          exact (all elements resolves).bind fun values => safe_newList _
      | index target position line =>
          simp only [Expr.resolves, Bool.and_eq_true] at resolves
          refine (inner target resolves.1).bind fun list => ?_
          refine (inner position resolves.2).bind fun index => ?_
          exact safe_inspect fun h _ => getItem_defined h list index
      | slice target first last line =>
          simp only [Expr.resolves, Bool.and_eq_true] at resolves
          refine (inner target resolves.1.1).bind fun list => ?_
          refine (safe_optional fun expr given => inner expr ?_).bind fun low => ?_
          · cases given
            exact resolves.1.2
          refine (safe_optional fun expr given => inner expr ?_).bind fun high => ?_
          · cases given
            exact resolves.2
          refine (safe_inspect fun h _ => slice_defined h list low high).bind fun items => ?_
          exact safe_newList items

theorem safe_evaluateAll (limits : Limits) (scope : ScopeRef) (names : List String) :
    ∀ (room : Nat) (exprs : List Expr), Expr.resolvesAll names exprs = true →
      Safe scope names (evaluateAll limits room scope exprs) anything
  | 0, _, _ => safe_tooDeep
  | room + 1, exprs, resolves => by
      rw [Expr.resolvesAll_eq_all, List.all_eq_true] at resolves
      exact safe_each fun expr mem => safe_evaluate limits scope names room expr (resolves expr mem)

/-- A call is safe anywhere: the body runs in the scope of its declaration. -/
theorem safe_apply (limits : Limits) (scope : ScopeRef) (names : List String) :
    ∀ (room : Nat) (callee : Value) (arguments : List Value),
      Safe scope names (apply limits room callee arguments) anything
  | 0, _, _ | 1, _, _ | 2, _, _ => safe_tooDeep
  | room + 3, callee, arguments => by
      cases callee with
      | function ref =>
          intro machine sound _
          show Result.Good machine.heap anything ((closure ref >>= _) machine)
          rw [bind_run]
          unfold closure
          cases found : machine.heap.functions[ref.id]? with
          | none => exact nofun
          | some closure =>
              -- not what the caller sees counts here, but what the scope of the declaration sees
              obtain ⟨names', sees, resolves⟩ := sound closure (Array.mem_of_getElem? found)
              refine safe_callFunction (fun inner => ?_) machine sound sees
              exact safe_sequence (fun stmt names => safe_execute limits inner names room stmt)
                resolves
      | native native => exact safe_callNative room native arguments
      | null => exact safe_fault nofun
      | bool value => exact safe_fault nofun
      | number value identity => exact safe_fault nofun
      | string value => exact safe_fault nofun
      | list ref => exact safe_fault nofun

/-- **Executing a statement never misses a name** that the scope sees, and a
declaration makes its name seen. -/
theorem safe_execute (limits : Limits) (scope : ScopeRef) (names : List String) :
    ∀ (room : Nat) (stmt : Stmt), stmt.resolves names = true →
      Safe scope names (execute limits room scope stmt) (declares scope names stmt)
  | 0, _, _ | 1, _, _ => safe_tooDeep
  | room + 2, stmt, resolves => by
      refine Safe.mapStop ?_ (namesDefined_located stmt.line)
      have value := safe_evaluate limits scope names room
      have inner := safe_execute limits scope names room
      -- only declarations promise a name; the other statements forget what is inside them
      cases stmt with
      | expression expr line =>
          exact ((value expr resolves).bind fun _ => .pure _).declaresNothing rfl
      | print expr line =>
          have printed := (value expr resolves).bind fun shown =>
            (safe_print room shown).bind fun _ => .pure Completion.normal
          exact printed.declaresNothing rfl
      | varDecl name initial line =>
          refine (safe_optional fun expr given => value expr ?_).bind fun result => ?_
          · cases given
            exact resolves
          · exact safe_declareVariable name initial line _
      | block body line =>
          exact (safe_executeBlock limits scope names room body resolves).declaresNothing rfl
      | ifElse condition thenBranch elseBranch line =>
          simp only [Stmt.resolves, Bool.and_eq_true] at resolves
          refine Safe.declaresNothing ((value condition resolves.1.1).bind fun tested => ?_) rfl
          split
          · exact (inner thenBranch resolves.1.2).forget
          · cases elseBranch with
            | none => exact .pure _
            | some branch => exact (inner branch resolves.2).forget
      | whileLoop condition body line =>
          simp only [Stmt.resolves, Bool.and_eq_true] at resolves
          have looped := safe_loop (value condition resolves.1) (inner body resolves.2).forget
            limits.passes
          exact looped.declaresNothing rfl
      | returnValue given line =>
          refine Safe.declaresNothing (.bind (safe_optional fun expr mem => value expr ?_)
            fun result => .pure _) rfl
          cases mem
          exact resolves
      | funDecl name params body line => exact safe_declareFunction resolves

theorem safe_executeBlock (limits : Limits) (scope : ScopeRef) (names : List String) :
    ∀ (room : Nat) (body : List Stmt), Stmt.resolvesAll names body = true →
      Safe scope names (executeBlock limits room scope body) anything
  | 0, _, _ => safe_tooDeep
  | room + 1, body, resolves => by
      refine safe_inNewScope [] (fun name mem => by cases mem) (fun inner => ?_)
      exact safe_sequence (fun stmt names => safe_execute limits inner names room stmt) resolves

end

/-- The statements of a program, one after the other. -/
theorem safe_executeProgram (limits : Limits) (room : Nat) (globals : ScopeRef)
    (statements : List Stmt) (resolves : Stmt.resolvesAll names statements = true) :
    Safe globals names (executeProgram limits room globals statements) anything := by
  induction statements generalizing names with
  | nil => exact .pure ()
  | cons stmt rest ih =>
      rw [Stmt.resolvesAll, Bool.and_eq_true] at resolves
      have first := (safe_execute limits globals names room stmt resolves.1).mapStop
        (namesDefined_atTopLevel stmt.line)
      intro machine sound sees
      refine good_bind (first machine sound sees) (fun completion after grows sound' declared => ?_)
      cases completion with
      | normal => exact ih resolves.2 after sound' (declared rfl)
      | returned value line =>
          intro undefined
          cases undefined

end Eval

/-- The outermost scope sees what is built in. -/
theorem freshGlobals_sees : freshGlobals.2.Sees freshGlobals.1 builtinNames := by
  refine ⟨by decide, ?_⟩
  intro name mem
  have builtin : name = "hash" := by simpa [builtinNames, Heap.builtins] using mem
  subst builtin
  rfl

theorem freshGlobals_sound : freshGlobals.2.Sound := by
  intro closure mem
  simp [freshGlobals, Heap.newGlobals, Heap.empty, Heap.newScope, Heap.defineAll, Heap.builtins,
    Heap.define] at mem

theorem FaultKind.text_ne_undefinedVariable {kind : FaultKind} (other : kind ≠ .undefinedVariable) :
    kind.text ≠ "UndefinedVariable" := by
  cases kind with
  | undefinedVariable => exact absurd rfl other
  | _ => decide

/-- A well-scoped program does not end because a name is undefined. -/
theorem execute_namesDefined (limits : Limits) {statements : List Stmt}
    (declared : wellScoped statements = true) {diagnostic : Diagnostic}
    (failed : (execute limits statements).1 = .failed diagnostic) :
    diagnostic.kind ≠ "UndefinedVariable" := by
  have good := Eval.safe_executeProgram limits (executionRoom limits.maxCallDepth) freshGlobals.1
    statements declared ⟨freshGlobals.2, #[], 0⟩ freshGlobals_sound freshGlobals_sees
  unfold execute at failed
  cases run : Eval.executeProgram limits (executionRoom limits.maxCallDepth) freshGlobals.1
      statements ⟨freshGlobals.2, #[], 0⟩ with
  | ok _ machine => simp [run] at failed
  | error stop machine =>
      rw [run] at good
      simp only [run] at failed
      cases stop with
      | fault cause line =>
          cases failed
          exact FaultKind.text_ne_undefinedVariable good
      | tooDeep =>
          cases failed
          decide
      | outOfPasses => cases failed

/-- What the run of a program without mistakes reports is how it failed. -/
theorem mem_diagnostics_runAnalyzed {interpreter : Interpreter} {statements : List Stmt}
    {diagnostic : Diagnostic}
    (mem : diagnostic ∈ (interpreter.runAnalyzed ⟨statements, []⟩).1.diagnostics) :
    (execute interpreter.limits statements).1 = .failed diagnostic := by
  unfold Interpreter.runAnalyzed at mem
  cases ending : (execute interpreter.limits statements).1 with
  | completed => simp [ending] at mem
  | unfinished => simp [ending] at mem
  | failed found =>
      have only : diagnostic = found := by simpa [ending] using mem
      rw [only]

/-- **Scope soundness**: a source text that parses without a mistake to a
well-scoped program is run, and the run does not report an undefined variable. -/
theorem run_names_defined (interpreter : Interpreter) (source : String) {statements : List Stmt}
    (parses : analyze interpreter.limits.maxCallDepth source = .ok ⟨statements, []⟩)
    (declared : wellScoped statements = true) :
    ∃ report after, interpreter.run source = .ok (report, after) ∧
      ∀ diagnostic ∈ report.diagnostics, diagnostic.kind ≠ "UndefinedVariable" := by
  have ran : interpreter.run source = .ok (interpreter.runAnalyzed ⟨statements, []⟩) := by
    rw [Interpreter.run, parses]
    rfl
  refine ⟨(interpreter.runAnalyzed ⟨statements, []⟩).1,
    (interpreter.runAnalyzed ⟨statements, []⟩).2, ran, ?_⟩
  intro diagnostic mem
  exact execute_namesDefined interpreter.limits declared (mem_diagnostics_runAnalyzed mem)

/-- A function that escapes from the block that declared what it needs. -/
theorem run_names_defined_escaping :
    ∃ report after, (Interpreter.new ⟨255, 10⟩).run
      "def make() { var n = true; def get() { return n; } return get; } print make()();" =
        .ok (report, after) ∧
      ∀ diagnostic ∈ report.diagnostics, diagnostic.kind ≠ "UndefinedVariable" := by
  have parses : analyze 255
      "def make() { var n = true; def get() { return n; } return get; } print make()();" =
      .ok ⟨[.funDecl "make" [] [.varDecl "n" (some (.literal (.bool true) 1)) 1,
          .funDecl "get" [] [.returnValue (some (.var "n" 1)) 1] 1,
          .returnValue (some (.var "get" 1)) 1] 1,
        .print (.call (.call (.var "make" 1) [] 1) [] 1) 1], []⟩ := by
    rfl
  exact run_names_defined (Interpreter.new ⟨255, 10⟩) _ parses (by decide)

end TernLang
