import TernLang.Proofs.Declarations
import TernLang.Proofs.Noninterference
import TernLang.Session

/-! # Every run of a session is a fresh one

The programs of a session run one after the other in one heap, so that lists and
functions of the earlier ones are still there, and each ran as far as it got. **This
makes no difference**: after any calls, a run gives the same result, the same lines and
the same reports as it does in a new session, and the same globals up to the places
where they are (`session_runs_afresh`).

A program starts from an outermost scope that was allocated for it and holds only the
built-in function. From there it reaches nothing else, whatever else is in the heap
(`agreeFrom_newGlobals`), and two runs on machines that agree on what they reach end
alike.
-/

namespace TernLang

/-! ## New globals -/

namespace Heap

theorem object?_newGlobals (h : Heap) :
    h.newGlobals.2.object? h.newGlobals.1.place =
      some (.scope ⟨[("hash", .native .hash)], none⟩) := by
  have added := (h.updates_newScope ⟨[], none⟩).here
  have defined := ((h.newScope ⟨[], none⟩).2.updates_define (h.newScope ⟨[], none⟩).1 "hash"
    (.native .hash)).here
  rw [Heap.object?_scope.mp added] at defined
  exact defined

theorem WellFormed.newGlobals {h : Heap} (wellFormed : h.WellFormed) :
    h.newGlobals.2.WellFormed :=
  (wellFormed.newScope (by simp)).define _ _ _

end Heap

/-- The renaming of new globals in one heap to those in another one. -/
def Renaming.ofGlobals (h h' : Heap) : Renaming :=
  Renaming.send (fun _ => Equiv.refl Nat) .scope h.newGlobals.1.id h'.newGlobals.1.id

theorem Renaming.ofGlobals_scope (h h' : Heap) :
    (Renaming.ofGlobals h h').scope h.newGlobals.1 = h'.newGlobals.1 := by
  have sent : Renaming.ofGlobals h h' .scope h.newGlobals.1.id = h'.newGlobals.1.id :=
    Renaming.send_here _ _ _ _
  exact congrArg ScopeRef.mk sent

/-- From new globals nothing else can be reached, in whatever heap they are. -/
theorem Machine.agreeFrom_newGlobals {h h' : Heap} (wellFormed : h.WellFormed)
    (wellFormed' : h'.WellFormed) (output output' : Array String) :
    Machine.AgreeFrom (.ofGlobals h h') [h.newGlobals.1.place] ⟨h.newGlobals.2, output, 0⟩
      ⟨h'.newGlobals.2, output', 0⟩ := by
  have closed : h.newGlobals.2.Closed (· = h.newGlobals.1.place) := by
    rintro place rfl object found next mem
    rw [h.object?_newGlobals] at found
    cases found
    cases mem
  refine ⟨rfl, wellFormed.newGlobals, wellFormed'.newGlobals, ?_, ?_⟩
  · exact Renaming.send_elsewhere nofun
  · intro place reached
    obtain rfl : place = h.newGlobals.1.place :=
      closed.contains (fun place mem => List.mem_singleton.mp mem) reached
    refine ⟨_, h.object?_newGlobals, ?_⟩
    have sent : (Renaming.ofGlobals h h').place h.newGlobals.1.place = h'.newGlobals.1.place :=
      congrArg ScopeRef.place (Renaming.ofGlobals_scope h h')
    rw [sent]
    exact h'.object?_newGlobals

/-! ## Two executions -/

namespace Session

/-- The globals of the two sessions are the same, and so is everything that can be
reached from them, up to the places where it is. -/
def SameGlobals (session other : Session) : Prop :=
  ∃ ρ : Renaming, ρ.scope session.globals = other.globals ∧
    Machine.AgreeFrom ρ [session.globals.place] ⟨session.heap, #[], 0⟩ ⟨other.heap, #[], 0⟩

/-- What is the same has the same texts. -/
theorem SameGlobals.globalTexts {session other : Session} (same : SameGlobals session other) :
    other.globalTexts = session.globalTexts := by
  obtain ⟨ρ, sent, agree⟩ := same
  have linked := agree.descends.linked
  have held : agree.sharing.region session.globals.place := .root (List.mem_singleton_self _)
  obtain ⟨entries, outer, here, here'⟩ := linked.scope_at held
  have values := Object.inside_scope.mp (linked.closed _ held _ (Heap.object?_scope.mpr here))
  rw [show agree.sharing.names.scope session.globals = other.globals from sent] at here'
  simp only [Interpreter.globalTexts, show session.heap.scopes[session.globals.id]? = _ from here,
    show other.heap.scopes[other.globals.id]? = _ from here']
  -- each value has the text of the one it was renamed from
  have rendered : ∀ entry ∈ entries, other.heap.render baseNesting (ρ.value entry.2) =
      session.heap.render baseNesting entry.2 :=
    fun entry mem => linked.render baseNesting (values.2 entry mem)
  clear here here' values
  induction entries with
  | nil => rfl
  | cons entry rest ih =>
      have first := rendered entry List.mem_cons_self
      have others := ih fun entry mem => rendered entry (List.mem_cons_of_mem _ mem)
      show List.mapM _ ((entry.1, ρ.value entry.2) :: ρ.bindings rest) = _
      rw [List.mapM_cons, List.mapM_cons]
      simp only [first]
      exact congrArg _ (funext fun text => congrArg (· >>= _) others)

/-- Two sessions have executed a program with the same ending: they have printed the same
lines, and their globals are the same. -/
structure Executed (session other after after' : Session) : Prop where
  same : SameGlobals after after'
  printed : ∃ lines, after.printed = session.printed ++ lines ∧
    after'.printed = other.printed ++ lines

/-- **A program ends in the same way in any two sessions** whose heaps are well formed,
whatever is in them. -/
theorem execute_alike {session other : Session} (limits : other.limits = session.limits)
    (wellFormed : session.heap.WellFormed) (wellFormed' : other.heap.WellFormed)
    (statements : List Stmt) :
    ∃ ending after after', execute statements session = .ok ending after ∧
      execute statements other = .ok ending after' ∧ Executed session other after after' := by
  have agree := Machine.agreeFrom_newGlobals wellFormed wellFormed' session.printed other.printed
  have held : agree.sharing.region session.heap.newGlobals.1.place :=
    .root (List.mem_singleton_self _)
  have sent : agree.sharing.names.scope session.heap.newGlobals.1 = other.heap.newGlobals.1 :=
    Renaming.ofGlobals_scope _ _
  have ends := Eval.executeProgram_corresponds
    (Eval.sharing session.heap.newGlobals.2 other.heap.newGlobals.2) session.limits
    (executionRoom session.limits.maxCallDepth) (Node.placed_anywhere (Stmt.nodesAll statements))
    (w := agree.sharing) ⟨sent.symm, held⟩ _ _ agree.descends rfl
  have executed : ∀ {w : Sharing} {n n' : Machine},
      Eval.Advances (Eval.sharing session.heap.newGlobals.2 other.heap.newGlobals.2) agree.sharing w
        ⟨session.heap.newGlobals.2, session.printed, 0⟩ ⟨other.heap.newGlobals.2, other.printed, 0⟩
        n n' →
      Executed session other
        { session with
          heap := n.heap, globals := session.heap.newGlobals.1, printed := n.output }
        { other with heap := n'.heap, globals := other.heap.newGlobals.1, printed := n'.output } := by
    intro w n n' advances
    have after := agree.after advances (agree.inside_roots advances.later)
    refine ⟨⟨w.names, ?_, ?_⟩, advances.printed⟩
    · exact (advances.later.keeps.scope held).symm.trans sent
    · exact ⟨rfl, after.agree.wellFormed, after.agree.wellFormed', after.agree.plain,
        after.agree.same⟩
  unfold execute
  simp only [limits] at executed ⊢
  generalize Eval.executeProgram session.limits (executionRoom session.limits.maxCallDepth)
    session.heap.newGlobals.1 statements _ = left at ends ⊢
  generalize Eval.executeProgram session.limits (executionRoom session.limits.maxCallDepth)
    other.heap.newGlobals.1 statements _ = right at ends ⊢
  cases ends with
  | ok advances _ => exact ⟨_, _, _, rfl, rfl, executed advances⟩
  | error advances _ => exact ⟨_, _, _, rfl, rfl, executed advances⟩

/-- An execution changes the heap, the globals and what is printed, and nothing else. -/
theorem execute_kept {session after : Session} {statements : List Stmt} {ending : Ending}
    (ran : execute statements session = .ok ending after) :
    after.limits = session.limits ∧ after.heard = session.heard ∧
      after.globals = session.heap.newGlobals.1 := by
  simp only [execute] at ran
  split at ran
  · cases ran
    exact ⟨rfl, rfl, rfl⟩
  · cases ran
    exact ⟨rfl, rfl, rfl⟩

end Session

/-! ## Runs -/

namespace RunResult

/-- The problems that a run returns. -/
def diagnostics : RunResult → List Diagnostic
  | completed => []
  | failed diagnostics => diagnostics
  | unfinished => []

/-- What a run shows that has printed some lines. -/
def report (result : RunResult) (output : List String) : Report :=
  match result with
  | completed => ⟨true, output, [], true⟩
  | failed diagnostics => ⟨false, output, diagnostics, true⟩
  | unfinished => ⟨false, output, [], false⟩

/-- What a run returns if its program ends in this way. -/
def ofEnding : Ending → RunResult
  | .completed => completed
  | .failed diagnostic => failed [diagnostic]
  | .unfinished => unfinished

end RunResult

/-- A program without mistakes is executed, and its ending is reported. -/
theorem Interpreter.runAnalyzed_clean (interpreter : Interpreter) {analysis : Analysis}
    (clean : analysis.diagnostics = []) :
    (interpreter.runAnalyzed analysis).1 =
      (RunResult.ofEnding (execute interpreter.limits analysis.statements).1).report
        (execute interpreter.limits analysis.statements).2.output.toList := by
  have none : ¬ (!analysis.diagnostics.isEmpty) = true := by simp [clean]
  rw [Interpreter.runAnalyzed, if_neg none]
  generalize execute interpreter.limits analysis.statements = ended
  obtain ⟨ending, machine⟩ := ended
  cases ending <;> rfl

namespace Session

variable {session : Session} {source : String}

/-- Telling diagnostics adds them to what was heard. -/
theorem tell_run (diagnostics : List Diagnostic) (session : Session) :
    tell diagnostics session =
      .ok () { session with heard := session.heard ++ diagnostics.toArray } := by
  induction diagnostics generalizing session with
  | nil => simp [tell, pure, EStateM.pure]
  | cons diagnostic rest ih =>
      show tell rest { session with heard := session.heard.push diagnostic } = _
      rw [ih]
      simp

/-- Mistakes are told, and the run has failed. -/
theorem report_run (diagnostics : List Diagnostic) (session : Session) :
    report diagnostics session = .ok (.failed diagnostics)
      { session with heard := session.heard ++ diagnostics.toArray } := by
  show EStateM.bind (tell diagnostics) _ session = _
  rw [EStateM.bind, tell_run]
  rfl

/-- Analyzing changes nothing, whether the limit is refused or not. -/
theorem analyze_run (source : String) (session : Session) :
    analyze source session =
      match TernLang.analyze session.limits.maxCallDepth source with
      | .ok analysis => .ok analysis session
      | .error refused => .error refused session := by
  have read : (get : Act Session) session = .ok session session := rfl
  unfold analyze
  show EStateM.bind get _ session = _
  simp only [EStateM.bind, read]
  cases TernLang.analyze session.limits.maxCallDepth source <;> rfl

/-- A limit that is too large is refused, and the session stays as it is. -/
theorem run_refused {refused : LimitTooLarge}
    (analyzed : TernLang.analyze session.limits.maxCallDepth source = .error refused) :
    run source session = .error refused session := by
  show EStateM.bind (analyze source) _ session = _
  rw [EStateM.bind, analyze_run, analyzed]

/-- A text with mistakes is reported and not executed. -/
theorem run_mistaken {analysis : Analysis}
    (analyzed : TernLang.analyze session.limits.maxCallDepth source = .ok analysis)
    (mistaken : analysis.diagnostics ≠ []) :
    run source session = .ok (.failed analysis.diagnostics)
      { session with heard := session.heard ++ analysis.diagnostics.toArray } := by
  have mistakes : (!analysis.diagnostics.isEmpty) = true := by simp [mistaken]
  show EStateM.bind (analyze source) _ session = _
  simp only [EStateM.bind, analyze_run, analyzed]
  rw [if_pos mistakes, report_run]

/-- A text without mistakes is executed, and what its program ends with is reported. -/
theorem run_executed {analysis : Analysis} {ending : Ending} {after : Session}
    (analyzed : TernLang.analyze session.limits.maxCallDepth source = .ok analysis)
    (clean : analysis.diagnostics = [])
    (ran : execute analysis.statements session = .ok ending after) :
    run source session = .ok (.ofEnding ending)
      { after with
        heard := after.heard ++ (RunResult.ofEnding ending).diagnostics.toArray } := by
  have none : ¬ (!analysis.diagnostics.isEmpty) = true := by simp [clean]
  show EStateM.bind (analyze source) _ session = _
  simp only [EStateM.bind, analyze_run, analyzed]
  rw [if_neg none]
  show EStateM.bind (execute analysis.statements) _ session = _
  simp only [EStateM.bind, ran]
  cases ending with
  | completed => simp [RunResult.ofEnding, RunResult.diagnostics, pure, EStateM.pure]
  | failed diagnostic => exact report_run [diagnostic] after
  | unfinished => simp [RunResult.ofEnding, RunResult.diagnostics, pure, EStateM.pure]

/-- Two sessions have run a text with the same result: they have printed the same lines,
and their listeners have heard the problems of the result. -/
structure Ran (session other : Session) (result : RunResult) (after after' : Session) :
    Prop where
  printed : ∃ lines, after.printed = session.printed ++ lines ∧
    after'.printed = other.printed ++ lines
  heard : after.heard = session.heard ++ result.diagnostics.toArray
  heard' : after'.heard = other.heard ++ result.diagnostics.toArray
  limits : after.limits = session.limits

/-- The session is as it was, but for what its listener has heard. -/
def Untouched (session after : Session) : Prop :=
  after.heap = session.heap ∧ after.globals = session.globals ∧ after.printed = session.printed

/-- **A text runs in the same way in any two sessions** whose heaps are well formed. -/
theorem run_alike {session other : Session} (limits : other.limits = session.limits)
    (wellFormed : session.heap.WellFormed) (wellFormed' : other.heap.WellFormed)
    {analysis : Analysis}
    (analyzed : TernLang.analyze session.limits.maxCallDepth source = .ok analysis) :
    ∃ result after after', run source session = .ok result after ∧
      run source other = .ok result after' ∧ Ran session other result after after' ∧
      (analysis.diagnostics ≠ [] → result = .failed analysis.diagnostics ∧
        Untouched session after ∧ Untouched other after') ∧
      (analysis.diagnostics = [] → after.globals = session.heap.newGlobals.1 ∧
        after'.globals = other.heap.newGlobals.1 ∧ SameGlobals after after') := by
  have analyzed' : TernLang.analyze other.limits.maxCallDepth source = .ok analysis := by
    rw [limits]
    exact analyzed
  by_cases clean : analysis.diagnostics = []
  · obtain ⟨ending, after, after', ran, ran', executed⟩ :=
      execute_alike limits wellFormed wellFormed' analysis.statements
    obtain ⟨kept, heard, globals⟩ := execute_kept ran
    obtain ⟨-, heard', globals'⟩ := execute_kept ran'
    refine ⟨_, _, _, run_executed analyzed clean ran, run_executed analyzed' clean ran',
      ⟨executed.printed, ?_, ?_, kept⟩, fun mistaken => absurd clean mistaken, fun _ => ?_⟩
    · rw [heard]
    · rw [heard']
    · exact ⟨globals, globals', executed.same⟩
  · refine ⟨_, _, _, run_mistaken analyzed clean, run_mistaken analyzed' clean,
      ⟨⟨#[], by simp⟩, rfl, rfl, rfl⟩, fun _ => ⟨rfl, ?_, ?_⟩, fun none => absurd none clean⟩
    · exact ⟨rfl, rfl, rfl⟩
    · exact ⟨rfl, rfl, rfl⟩

/-! ## Any number of calls -/

theorem new_wellFormed (limits : Limits) : (Session.new limits).heap.WellFormed := by
  have empty : Heap.empty.WellFormed := ⟨nofun, Nat.one_pos⟩
  exact empty.newGlobals

/-- Whatever a session is asked to do, its limits stay and its heap is well formed. -/
theorem step_sound (call : Call) (wellFormed : session.heap.WellFormed) :
    (session.step call).limits = session.limits ∧ (session.step call).heap.WellFormed := by
  cases call with
  | analyze source =>
      rw [step, analyze_run]
      cases TernLang.analyze session.limits.maxCallDepth source <;> exact ⟨rfl, wellFormed⟩
  | run source =>
      cases analyzed : TernLang.analyze session.limits.maxCallDepth source with
      | error refused =>
          rw [step, run_refused analyzed]
          exact ⟨rfl, wellFormed⟩
      | ok analysis =>
          -- the session is compared with itself
          obtain ⟨result, after, _, ran, -, alike, mistaken, clean⟩ :=
            run_alike rfl wellFormed wellFormed analyzed
          rw [step, ran]
          refine ⟨alike.limits, ?_⟩
          by_cases none : analysis.diagnostics = []
          · obtain ⟨-, -, ρ, -, agree⟩ := clean none
            exact agree.wellFormed
          · obtain ⟨-, ⟨heap, -, -⟩, -⟩ := mistaken none
            show after.heap.WellFormed
            rw [heap]
            exact wellFormed

/-- A session keeps its limits and a well-formed heap. -/
theorem after_sound (limits : Limits) (calls : List Call) :
    ((Session.new limits).after calls).limits = limits ∧
      ((Session.new limits).after calls).heap.WellFormed := by
  have sound : ∀ session : Session, session.limits = limits → session.heap.WellFormed →
      (session.after calls).limits = limits ∧ (session.after calls).heap.WellFormed := by
    induction calls with
    | nil => exact fun session kept wellFormed => ⟨kept, wellFormed⟩
    | cons call rest ih =>
        intro session kept wellFormed
        obtain ⟨same, wellFormed'⟩ := step_sound call wellFormed
        exact ih (session.step call) (same.trans kept) wellFormed'
  exact sound (Session.new limits) rfl (new_wellFormed limits)

/-- A session over a heap without objects. -/
def blank (limits : Limits) : Session :=
  ⟨⟨limits, Heap.empty, ⟨0⟩⟩, #[], #[]⟩

/-- Executing a program in a heap of its own is executing it in a session over a heap
without objects. -/
theorem execute_blank (limits : Limits) (statements : List Stmt) :
    ∃ after, execute statements (blank limits) = .ok (TernLang.execute limits statements).1 after ∧
      after.printed = (TernLang.execute limits statements).2.output := by
  simp only [execute, TernLang.execute, freshGlobals, blank]
  generalize Eval.executeProgram limits _ _ statements _ = ended
  cases ended <;> exact ⟨_, rfl, rfl⟩

/-- What an interpreter shows of a text is what a new session returns and prints. -/
theorem run_new {limits : Limits} {analysis : Analysis}
    (analyzed : TernLang.analyze limits.maxCallDepth source = .ok analysis) {result : RunResult}
    {fresh : Session} (ran : run source (Session.new limits) = .ok result fresh) :
    TernLang.run limits source = .ok (result.report fresh.printed.toList) := by
  rw [run_eq, analyzed]
  by_cases clean : analysis.diagnostics = []
  · have empty : (blank limits).heap.WellFormed := ⟨nofun, Nat.one_pos⟩
    obtain ⟨ending, after, after', executed, executed', alike⟩ :=
      @execute_alike (Session.new limits) (blank limits) rfl (new_wellFormed limits) empty
        analysis.statements
    obtain ⟨last, blankly, shown⟩ := execute_blank limits analysis.statements
    rw [blankly] at executed'
    cases executed'
    rw [@run_executed (Session.new limits) source analysis _ _ analyzed clean executed] at ran
    cases ran
    obtain ⟨lines, printed, printed'⟩ := alike.printed
    have same : (TernLang.execute limits analysis.statements).2.output = after.printed := by
      rw [← shown, printed', printed]
      simp [blank, Session.new]
    show Except.ok ((Interpreter.new limits).runAnalyzed analysis).1 = _
    rw [Interpreter.runAnalyzed_clean _ clean,
      show (Interpreter.new limits).limits = limits from rfl, same]
  · have mistakes : (!analysis.diagnostics.isEmpty) = true := by simp [clean]
    rw [@run_mistaken (Session.new limits) source analysis analyzed clean] at ran
    cases ran
    show Except.ok ((Interpreter.new limits).runAnalyzed analysis).1 = _
    rw [Interpreter.runAnalyzed, if_pos mistakes]
    rfl

end Session

/-- **Every run of a session is a fresh one.** After any calls, however they ended,
analyzing a text gives what it gives without a session and changes nothing. Running it is
refused exactly if analyzing it is, and then nothing has changed either. Otherwise the
run returns the same result, prints the same lines and reports the same problems to the
listener as in a new session, and it shows what the interpreter shows of the text. The
listener hears the problems of the result, in their order, and no others.

If there are mistakes in the text, they are the result, nothing is printed, and the heap
and the globals are what they were. If there are none, the globals are a scope that was
not there before the run, with the same names and texts as those of the new session, and
all that can be reached from them is the same up to the places where it is. -/
theorem session_runs_afresh (limits : Limits) (calls : List Session.Call) (source : String) :
    let session := (Session.new limits).after calls
    (Session.analyze source session =
      match analyze limits.maxCallDepth source with
      | .ok analysis => .ok analysis session
      | .error refused => .error refused session) ∧
    (∀ refused, analyze limits.maxCallDepth source = .error refused →
      Session.run source session = .error refused session) ∧
    (∀ analysis, analyze limits.maxCallDepth source = .ok analysis →
      ∃ result fresh after, Session.run source (Session.new limits) = .ok result fresh ∧
        Session.run source session = .ok result after ∧
        run limits source = .ok (result.report fresh.printed.toList) ∧
        after.printed = session.printed ++ fresh.printed ∧
        fresh.heard = result.diagnostics.toArray ∧
        after.heard = session.heard ++ fresh.heard ∧
        (analysis.diagnostics ≠ [] → result = .failed analysis.diagnostics ∧
          fresh.printed = #[] ∧ after.heap = session.heap ∧ after.globals = session.globals) ∧
        (analysis.diagnostics = [] → session.heap.object? after.globals.place = none ∧
          after.globalTexts = fresh.globalTexts ∧ Session.SameGlobals fresh after)) := by
  intro session
  obtain ⟨kept, wellFormed⟩ := Session.after_sound limits calls
  have same : session.limits = limits := kept
  refine ⟨?_, ?_, ?_⟩
  · rw [Session.analyze_run, same]
  · intro refused analyzed
    exact Session.run_refused (by rw [same]; exact analyzed)
  · intro analysis analyzed
    -- the two sessions differ in heap and history only, which the run does not see
    obtain ⟨result, fresh, after, ran, ran', alike, mistaken, clean⟩ :=
      @Session.run_alike source (Session.new limits) session same (Session.new_wellFormed limits)
        wellFormed analysis analyzed
    obtain ⟨lines, printed, printed'⟩ := alike.printed
    have began : fresh.printed = lines := by
      rw [printed]
      simp [Session.new]
    have told : fresh.heard = result.diagnostics.toArray := by
      rw [alike.heard]
      simp [Session.new]
    refine ⟨result, fresh, after, ran, ran', Session.run_new analyzed ran, ?_, told, ?_, ?_, ?_⟩
    · rw [printed', began]
    · rw [alike.heard', told]
    · intro wrong
      obtain ⟨failed, ⟨-, -, quiet⟩, heap, globals, -⟩ := mistaken wrong
      exact ⟨failed, quiet, heap, globals⟩
    · intro none
      obtain ⟨-, globals, sameGlobals⟩ := clean none
      refine ⟨?_, sameGlobals.globalTexts, sameGlobals⟩
      rw [globals]
      exact session.heap.fresh_newScope ⟨[], .none⟩

/-- A program that fails inside a call, and an analysis. -/
def leftoverCalls : List Session.Call :=
  [.run "var a = [1]; def f() { a.push(a); return 1 / 0; } f();", .analyze "print a;"]

/-- The report of a name that means nothing. -/
def undefinedName : Diagnostic :=
  ⟨.runtime, some 1, "Undefined variable 'a'", "UndefinedVariable"⟩

/-- A name of the earlier program means nothing to the next one. -/
theorem session_runs_afresh_leftover :
    ∃ after, Session.run "print a;" ((Session.new ⟨255, 10⟩).after leftoverCalls) =
        .ok (.failed [undefinedName]) after ∧
      after.heard = ((Session.new ⟨255, 10⟩).after leftoverCalls).heard ++ #[undefinedName] ∧
      ((Session.new ⟨255, 10⟩).after leftoverCalls).heap.object? after.globals.place = none := by
  have analyzed : analyze 255 "print a;" = .ok ⟨[.print (.var "a" 1) 1], []⟩ := rfl
  have alone : run ⟨255, 10⟩ "print a;" = .ok ⟨false, [], [undefinedName], true⟩ := by
    decide +kernel
  obtain ⟨-, -, runs⟩ := session_runs_afresh ⟨255, 10⟩ leftoverCalls "print a;"
  obtain ⟨result, fresh, after, -, ran, shown, -, told, heard, -, globals⟩ := runs _ analyzed
  rw [alone] at shown
  obtain rfl : result = .failed [undefinedName] := by
    cases result with
    | completed => simp [RunResult.report] at shown
    | failed diagnostics =>
        have same : [undefinedName] = diagnostics := (Report.mk.inj (Except.ok.inj shown)).2.2.1
        rw [same]
    | unfinished => simp [RunResult.report] at shown
  rw [told] at heard
  exact ⟨after, ran, heard, (globals rfl).1⟩

end TernLang
