import TernLang.Proofs.Eval.Provenance
import TernLang.Proofs.Faults
import TernLang.Proofs.Sorting

/-! # How a run can end

**A run that ends has completed, or it has failed for a reason that the language
knows** (`run_ends_regularly`): one lexical error, some mistakes, or one fault. This
takes facts that one part of the interpreter establishes and another one relies on:

* an operator that is evaluated is the one that a token of the program spells;
* a native function is given as many arguments as it takes, so that it never misses
  one;
* a number is taken for a whole number only if it is finite;
* a quotient is computed only if the divisor is not zero;
* a position that is accepted is one of the list: of an element where one is read or
  removed, at most the length where one is inserted;
* only numbers are compared with numbers, and texts with texts, when a list is sorted.
-/

namespace TernLang

/-! ## Operators are spelled by tokens -/

/-- The operator of the expression, if it has one, is written with one of the tokens. -/
def Expr.OperatorIn (tokens : List Token) : Expr → Prop
  | .binary _ op _ _ => ∃ line, Grammar.sym op.symbol line ∈ tokens
  | .logical _ op _ _ => ∃ line, Grammar.word op.keyword line ∈ tokens
  | .unary op _ _ => ∃ line, Grammar.sym op.symbol line ∈ tokens
  | _ => True

theorem Expr.OperatorIn.mono {tokens more : List Token} {e : Expr} (written : e.OperatorIn tokens)
    (subset : tokens ⊆ more) : e.OperatorIn more := by
  cases e with
  | binary | logical | unary =>
      obtain ⟨line, mem⟩ := written
      exact ⟨line, subset mem⟩
  | _ => trivial

namespace Grammar

/-- What a repetition builds has its operator from the repetition, or is what it started
with. -/
theorem Repetition.operatorIn {level : Level} {left tree : Expr} {others : List Token} :
    Repetition level left others tree → tree = left ∨ tree.OperatorIn others
  | .done => .inl rfl
  | .logical _ rest => by
      refine .inr ?_
      rcases rest.operatorIn with rfl | later
      · exact ⟨_, List.mem_cons_self⟩
      · exact later.mono fun _ mem => by simp [mem]
  | .binary _ rest => by
      refine .inr ?_
      rcases rest.operatorIn with rfl | later
      · exact ⟨_, List.mem_cons_self⟩
      · exact later.mono fun _ mem => by simp [mem]
  | .call _ rest => by
      refine .inr ?_
      rcases rest.operatorIn with rfl | later
      · trivial
      · exact later.mono fun _ mem => by simp [mem]
  | .member rest => by
      refine .inr ?_
      rcases rest.operatorIn with rfl | later
      · trivial
      · exact later.mono fun _ mem => by simp [mem]
  | .index _ rest => by
      refine .inr ?_
      rcases rest.operatorIn with rfl | later
      · trivial
      · exact later.mono fun _ mem => by simp [mem]
  | .slice _ _ rest => by
      refine .inr ?_
      rcases rest.operatorIn with rfl | later
      · trivial
      · exact later.mono fun _ mem => by simp [mem]

/-- The operator of an expression is among the tokens it was read from. -/
theorem Expression.operatorIn {level : Level} {tokens : List Token} {tree : Expr} :
    Expression level tokens tree → tree.OperatorIn tokens
  | .ofDisjunction inner => inner.operatorIn
  | .ofCall inner => inner.operatorIn
  | .repetition _ first others => by
      have inner := first.operatorIn
      rcases others.operatorIn with same | later
      · rw [same]
        exact inner.mono (List.subset_append_left _ _)
      · exact later.mono (List.subset_append_right _ _)
  | .unary _ => ⟨_, List.mem_cons_self⟩
  | .assign _ | .increment | .number | .string | .true | .false | .null | .name | .grouping _
  | .list _ => trivial

end Grammar

/-- The operator of the expression, if it has one, is the one that a token spells. -/
def Expr.SpelledBy (tokens : List Token) : Expr → Prop
  | .binary _ op _ _ => ∃ token ∈ tokens, BinaryOp.ofText? token.lexeme = some op
  | .logical _ op _ _ => ∃ token ∈ tokens, token.lexeme = op.text
  | .unary op _ _ => ∃ token ∈ tokens, token.lexeme = op.text
  | _ => True

/-- A token with the symbol of an operator spells that operator. -/
theorem Expr.OperatorIn.spelled {tokens : List Token} {e : Expr} (written : e.OperatorIn tokens) :
    e.SpelledBy tokens := by
  cases e with
  | binary left op right line =>
      obtain ⟨place, mem⟩ := written
      exact ⟨_, mem, by cases op <;> rfl⟩
  | logical left op right line =>
      obtain ⟨place, mem⟩ := written
      exact ⟨_, mem, by cases op <;> rfl⟩
  | unary op right line =>
      obtain ⟨place, mem⟩ := written
      exact ⟨_, mem, by cases op <;> rfl⟩
  | _ => trivial

/-- Whatever expression a run comes to evaluate, its operator is in the text. -/
theorem Eval.Reaches.spelled {limits : Limits} {source : String} {stmts : List Stmt}
    (analyzed : analyze limits.maxCallDepth source = .ok ⟨stmts, []⟩) {calls room : Nat}
    {s : ScopeRef} {e : Expr} {m : Machine}
    (reached : Reaches limits stmts calls (.expr room s e) m) :
    e.SpelledBy (lex source).tokens := by
  obtain ⟨inside, -⟩ := reached.madeOf (housed_of_analyze analyzed)
  have self : Node.expr e ∈ Stmt.nodesAll stmts := inside (by cases e <;> simp [Expr.nodes])
  by_cases constant : (Node.expr e).IsConstant
  · cases e with
    | literal value line => trivial
    | _ => exact constant.elim
  · obtain ⟨span, part, phrase, -⟩ := spanned_of_analyze analyzed _ self constant
    cases phrase with
    | expression read => exact (read.operatorIn.mono part.subset).spelled

/-! ## Native functions have their arguments -/

namespace Eval

/-- A native function that has its arguments does not report that one is missing. -/
theorem callNative_stopsIn {room : Nat} {native : Native} {values : List Value}
    (arity : values.length = native.arity) {m after : Machine} {stop : Stop}
    (failed : callNative room native values m = .error stop after) :
    stop.In [.typeMismatch, .indexOutOfRange, .emptyList] := by
  unfold callNative at failed
  rw [if_neg (not_not.mpr arity)] at failed
  split at failed
  · rename_i method receiver identity
    have effect := m.heap.methodEffect_stopsIn room receiver arity
    rw [bind_run] at failed
    cases done : m.heap.methodEffect room method receiver values with
    | ok result =>
        simp only [query, done] at failed
        cases failed
    | error cause =>
        simp only [query, done] at failed
        cases failed
        exact effect stop done
  · rename_i value
    have hashed := (hashValue_faultsIn value).mono
      (show _ ⊆ [FaultKind.typeMismatch, .indexOutOfRange, .emptyList] by simp)
    cases done : hashValue value with
    | ok result =>
        simp only [inspect, done] at failed
        cases failed
    | error cause =>
        simp only [inspect, done] at failed
        cases failed
        exact .inr ⟨cause, rfl, hashed cause done⟩
  · rename_i other
    obtain ⟨value, rfl⟩ := List.length_eq_one_iff.mp arity
    exact (other value rfl).elim

/-- A native function reports a wrong number of arguments exactly if the number is
wrong: with the right one, none of them is missing where it is used. -/
theorem callNative_wrongArity_iff {room : Nat} {native : Native} {values : List Value}
    {m : Machine} :
    (∃ callee expected got line after, callNative room native values m =
      .error (.fault (.wrongArity callee expected got) line) after) ↔
      values.length ≠ native.arity := by
  constructor
  · rintro ⟨callee, expected, got, line, after, failed⟩ arity
    rcases callNative_stopsIn arity failed with deep | ⟨fault, same, mem⟩
    · cases deep
    · cases same
      simp [Fault.kind] at mem
  · intro wrong
    unfold callNative
    rw [if_pos wrong]
    exact ⟨_, _, _, none, m, rfl⟩

end Eval

/-! ## Numbers -/

/-- Only a finite number is taken for a whole number. -/
theorem Number.toInt?_finite {x : Float} {i : Int} (whole : toInt? x = some i) :
    isFinite x = true ∧ i = wholeValue x := by
  unfold toInt? at whole
  split at whole
  · rename_i isWhole
    simp only [Number.isWhole, Bool.and_eq_true] at isWhole
    exact ⟨isWhole.1, (Option.some.inj whole).symm⟩
  · cases whole

/-- What is a position is a finite number. -/
theorem position_finite {use : PositionUse} {v : Value} {i : Int} (found : position use v = .ok i) :
    ∃ x identity, v = .number x identity ∧ Number.isFinite x = true ∧ i = Number.wholeValue x := by
  unfold position at found
  split at found
  · rename_i x identity
    split at found
    · rename_i whole
      cases found
      exact ⟨x, identity, rfl, Number.toInt?_finite whole⟩
    · cases found
  · cases found

/-- What is a bound of a slice is a finite number. -/
theorem sliceBound_finite {bound : SliceBound} {v : Value} {i : Int}
    (found : sliceBound bound v = .ok i) :
    ∃ x identity, v = .number x identity ∧ Number.isFinite x = true ∧ i = Number.wholeValue x := by
  unfold sliceBound at found
  split at found
  · rename_i x identity
    split at found
    · rename_i whole
      cases found
      exact ⟨x, identity, rfl, Number.toInt?_finite whole⟩
    · cases found
  · cases found

/-- The text of a number shows its whole value only if it is finite. -/
theorem displayChars_infinite {x : Float} (infinite : Number.isFinite x = false) :
    Number.displayChars x = Number.exceptional x := by
  simp [Number.displayChars, infinite]

/-- A quotient is computed only of two numbers of which the second is not zero. -/
theorem Heap.binary_divide {h : Heap} {room : Nat} {a b : Value} {outcome : Outcome}
    (divided : h.binary room .divide a b = .ok outcome) :
    ∃ x i y j, a = .number x i ∧ b = .number y j ∧ (y == 0) = false ∧
      outcome = .number (x / y) := by
  simp only [Heap.binary, divideValues] at divided
  cases a with
  | number x i =>
      cases b with
      | number y j =>
          by_cases zero : (y == 0) = true
          · simp [numberOperands, zero, bind, Except.bind, Except.mapError] at divided
          · simp [numberOperands, zero, bind, Except.bind, Except.mapError] at divided
            exact ⟨x, i, y, j, rfl, rfl, by simpa using zero, divided.symm⟩
      | _ => cases divided
  | _ => cases divided

/-! ## Reports -/

/-- The kinds of faults that a report can name. -/
def runtimeKinds : List String :=
  ["UndefinedVariable", "ArityMismatch", "TypeMismatch", "IndexOutOfRange", "EmptyListError",
    "DivisionByZero", "IllegalReturn", "StackOverflow"]

theorem FaultKind.text_mem (kind : FaultKind) : kind.text ∈ runtimeKinds := by
  cases kind <;> decide

/-- The reports of runs that end. -/
inductive Report.Regular : Report → Prop
  | completed (output : List String) : Regular ⟨true, output, [], true⟩
  | lexical {diagnostic : Diagnostic} : diagnostic.phase = .lex → diagnostic.kind = "LexError" →
      Regular ⟨false, [], [diagnostic], true⟩
  | syntactic {diagnostics : List Diagnostic} : diagnostics ≠ [] →
      (∀ diagnostic ∈ diagnostics, diagnostic.phase = .parse ∧ diagnostic.kind = "ParseError") →
      Regular ⟨false, [], diagnostics, true⟩
  | failed (output : List String) {diagnostic : Diagnostic} : diagnostic.phase = .runtime →
      diagnostic.kind ∈ runtimeKinds → Regular ⟨false, output, [diagnostic], true⟩

/-- A stop is reported as one fault, unless the passes of a loop were used up. -/
theorem Ending.ofStop_failed {stop : Stop} {diagnostic : Diagnostic}
    (failed : Ending.ofStop stop = .failed diagnostic) :
    diagnostic.phase = .runtime ∧ diagnostic.kind ∈ runtimeKinds := by
  cases stop with
  | fault cause line =>
      cases failed
      exact ⟨rfl, FaultKind.text_mem _⟩
  | tooDeep =>
      cases failed
      exact ⟨rfl, FaultKind.text_mem .stackOverflow⟩
  | outOfPasses => cases failed

/-- A run fails with one fault of a kind that can be reported. -/
theorem execute_failed {limits : Limits} {stmts : List Stmt} {diagnostic : Diagnostic}
    (failed : (execute limits stmts).1 = .failed diagnostic) :
    diagnostic.phase = .runtime ∧ diagnostic.kind ∈ runtimeKinds := by
  simp only [execute] at failed
  split at failed
  · cases failed
  · exact Ending.ofStop_failed failed

/-- A run of a program without mistakes has a regular report, or the passes of a loop
were used up. -/
theorem runAnalyzed_regular_or (interpreter : Interpreter) (stmts : List Stmt) :
    (interpreter.runAnalyzed ⟨stmts, []⟩).1.Regular ∨
      ((interpreter.runAnalyzed ⟨stmts, []⟩).1.finished = false ∧
        (execute interpreter.limits stmts).1 = .unfinished) := by
  simp only [Interpreter.runAnalyzed, List.isEmpty_nil, Bool.not_true, Bool.false_eq_true, if_false]
  cases ended : (execute interpreter.limits stmts).1 with
  | completed => exact .inl (.completed _)
  | failed diagnostic =>
      obtain ⟨phase, kind⟩ := execute_failed ended
      exact .inl (.failed _ phase kind)
  | unfinished => exact .inr ⟨rfl, rfl⟩

/-- Whatever is wrong with a text is a lexical error, or it is some mistakes. -/
theorem runAnalyzed_mistaken {maxCallDepth : Int} {source : String} {analysis : Analysis}
    (analyzed : analyze maxCallDepth source = .ok analysis) (wrong : analysis.diagnostics ≠ [])
    (interpreter : Interpreter) : (interpreter.runAnalyzed analysis).1.Regular := by
  have mistakes : (!analysis.diagnostics.isEmpty) = true := by simp [wrong]
  rw [Interpreter.runAnalyzed, if_pos mistakes]
  rcases analyze_cases analyzed with ⟨error, -, rfl⟩ | ⟨-, rfl⟩
  · exact .lexical rfl rfl
  · refine .syntactic wrong ?_
    intro diagnostic mem
    obtain ⟨error, -, rfl⟩ := List.mem_map.mp mem
    exact ⟨rfl, rfl⟩

/-- A limit that asks for no more nesting than a run can allow is not refused. -/
theorem analyze_accepted {maxCallDepth : Int} (accepted : nestingBudget maxCallDepth ≤ maxNesting)
    (source : String) : ∃ analysis, analyze maxCallDepth source = .ok analysis := by
  simp only [analyze, if_neg (Nat.not_lt.mpr accepted)]
  cases (lex source).error? with
  | some error => exact ⟨_, rfl⟩
  | none => exact ⟨_, rfl⟩

/-- **A run never fails inside.** Under every limit that is not refused, every text has a
report, and unless a loop used up its passes the report is a regular one: the run has
completed, or there is one lexical error, or there are mistakes, or there is one fault of a
kind that the language knows. Moreover, whatever happens during the run:

* an expression that is evaluated has the operator that one of the tokens spells;
* a native function lacks an argument only where their number is reported as wrong;
* only a finite number is taken for a whole number, as a position, as a bound of a slice
  or for its text;
* a quotient is computed only if the divisor is not zero;
* an element is read, removed or popped only where there is one, and inserted only at a
  position up to the end of the list, each at the position that was given;
* a list that is sorted is sorted the same by every test that agrees with the order on two
  numbers and on two texts: no other values are compared. -/
theorem run_ends_regularly (limits : Limits) (source : String)
    (accepted : nestingBudget limits.maxCallDepth ≤ maxNesting) :
    (∃ report, run limits source = .ok report ∧
      (report.Regular ∨ (report.finished = false ∧
        ∃ stmts, analyze limits.maxCallDepth source = .ok ⟨stmts, []⟩ ∧
          (execute limits stmts).1 = .unfinished))) ∧
    (∀ stmts, analyze limits.maxCallDepth source = .ok ⟨stmts, []⟩ → ∀ calls room s e m,
      Eval.Reaches limits stmts calls (.expr room s e) m → e.SpelledBy (lex source).tokens) ∧
    (∀ room native values m,
      (∃ callee expected got line after, Eval.callNative room native values m =
        .error (.fault (.wrongArity callee expected got) line) after) ↔
        values.length ≠ native.arity) ∧
    (∀ use v i, position use v = .ok i →
      ∃ x identity, v = .number x identity ∧ Number.isFinite x = true ∧ i = Number.wholeValue x) ∧
    (∀ bound v i, sliceBound bound v = .ok i →
      ∃ x identity, v = .number x identity ∧ Number.isFinite x = true ∧ i = Number.wholeValue x) ∧
    (∀ x, Number.isFinite x = false → Number.displayChars x = Number.exceptional x) ∧
    (∀ (h : Heap) room a b outcome, h.binary room .divide a b = .ok outcome →
      ∃ x i y j, a = .number x i ∧ b = .number y j ∧ (y == 0) = false ∧
        outcome = .number (x / y)) ∧
    (∀ (h : Heap) ref index value, h.getItem (.list ref) index = .ok value →
      ∃ (i : Nat) (inside : i < (h.items ref).size),
        position .index index = .ok (i : ℤ) ∧ value = (h.items ref)[i]) ∧
    (∀ (h : Heap) room ref index value result change,
      h.methodEffect room .insertAt ref [index, value] = .ok (result, change) →
      ∃ (i : Nat) (inside : i ≤ (h.items ref).size),
        position .insertion index = .ok (i : ℤ) ∧
        change (h.items ref) = (h.items ref).insertIdx i value inside) ∧
    (∀ (h : Heap) room ref index result change,
      h.methodEffect room .remove ref [index] = .ok (result, change) →
      ∃ (i : Nat) (inside : i < (h.items ref).size),
        position .removal index = .ok (i : ℤ) ∧
        change (h.items ref) = (h.items ref).eraseIdx i inside) ∧
    (∀ (h : Heap) room ref result change,
      h.methodEffect room .pop ref [] = .ok (result, change) →
      ∃ some : 0 < (h.items ref).size, result = (h.items ref).back some ∧
        change (h.items ref) = (h.items ref).pop) ∧
    (∀ items sorted, sortItems items = .ok sorted →
      ∀ less : Value → Value → Bool, (∀ v w, Alike [v, w] → less v w = sortsBefore v w) →
        sorted.toList = Sorting.sort less items.toList) := by
  refine ⟨?_, fun stmts analyzed calls room s e m reached => reached.spelled analyzed,
    fun _ _ _ _ => Eval.callNative_wrongArity_iff, fun _ _ _ => position_finite,
    fun _ _ _ => sliceBound_finite, fun _ => displayChars_infinite,
    fun _ _ _ _ _ => Heap.binary_divide, fun _ _ _ _ => Heap.getItem_inside,
    fun _ _ _ _ _ _ _ => Heap.methodEffect_insertAt_inside,
    fun _ _ _ _ _ _ => Heap.methodEffect_remove_inside,
    fun _ _ _ _ _ => Heap.methodEffect_pop_inside,
    fun _ _ sorts _ => sortItems_compares_alike sorts⟩
  obtain ⟨⟨stmts, diagnostics⟩, analyzed⟩ := analyze_accepted accepted source
  refine ⟨((Interpreter.new limits).runAnalyzed ⟨stmts, diagnostics⟩).1, ?_, ?_⟩
  · simp [run, Interpreter.run, Interpreter.new, analyzed, Except.map]
  · by_cases wrong : diagnostics = []
    · subst wrong
      rcases runAnalyzed_regular_or (Interpreter.new limits) stmts with
        regular | ⟨open', unfinished⟩
      · exact .inl regular
      · exact .inr ⟨open', stmts, analyzed, unfinished⟩
    · exact .inl (runAnalyzed_mistaken analyzed wrong _)

/-- A method finds its list, and its value is divided by zero: the report is a regular
one. -/
theorem run_ends_regularly_quotient :
    nestingBudget 1 ≤ maxNesting ∧ ∃ report, run ⟨1, 10⟩ "print [7].pop() / 0;" = .ok report ∧
      report.Regular ∧ report.diagnostics =
        [⟨.runtime, some 1, "Division by zero", "DivisionByZero"⟩] := by
  have accepted : nestingBudget 1 ≤ maxNesting := by decide
  have ran : run ⟨1, 10⟩ "print [7].pop() / 0;" = .ok ⟨false, [],
      [⟨.runtime, some 1, "Division by zero", "DivisionByZero"⟩], true⟩ := by
    decide +kernel
  obtain ⟨⟨report, ran', ends⟩, -⟩ := run_ends_regularly ⟨1, 10⟩ "print [7].pop() / 0;" accepted
  rw [ran] at ran'
  cases ran'
  rcases ends with regular | ⟨unfinished, -⟩
  · exact ⟨accepted, _, ran, regular, rfl⟩
  · cases unfinished

end TernLang
