import TernLang.Diagnostic
import TernLang.Eval
import TernLang.Parser.Statement

/-! # The interpreter

`analyze` turns a source text into statements and the diagnostics of its lexical
and syntax errors; `run` also executes it if there are none. An interpreter can
run several programs, each in a fresh outermost scope; it remembers the scope of
the last program that was executed.

The limit on calls in progress sets the nesting that a run allows: a base and
forty units for each call. A limit that asks for more than `maxNesting` is
refused as soon as there is something to parse.
-/

namespace TernLang

/-- The nesting that is allowed outside of runs, in units of `room`, and the
least that a run allows. -/
def baseNesting : Nat := 1000

/-- The most nesting that a run can allow. -/
def maxNesting : Nat := 2147483647

/-- The nesting that a run with a given limit on calls in progress asks for. -/
def nestingBudget (maxCallDepth : Int) : Nat :=
  (max (baseNesting : Int) (40 * maxCallDepth + baseNesting)).toNat

/-- A limit on calls in progress that asks for more nesting than a run can
allow. -/
structure LimitTooLarge where
  maxCallDepth : Int
  deriving DecidableEq, Repr

/-- The room for parsing: eight units of the budget are in use before. -/
def parsingRoom (maxCallDepth : Int) : Nat :=
  nestingBudget maxCallDepth - 8

/-- The room for execution: six units of the budget are in use before. -/
def executionRoom (maxCallDepth : Int) : Nat :=
  nestingBudget maxCallDepth - 6

/-- The statements of a source text, and what is wrong with it. -/
structure Analysis where
  statements : List Stmt
  diagnostics : List Diagnostic

/-- Lexes and parses a source text. A text with a lexical error is not parsed,
so that no nesting is asked for. -/
def analyze (maxCallDepth : Int) (source : String) : Except LimitTooLarge Analysis :=
  let lexed := lex source
  match lexed.error? with
  | some error => .ok ⟨[], [.ofLexError error]⟩
  | none =>
      if maxNesting < nestingBudget maxCallDepth then .error ⟨maxCallDepth⟩
      else
        let parsed := parse (parsingRoom maxCallDepth) lexed.tokens
        .ok ⟨parsed.statements, parsed.errors.map .ofSyntaxError⟩

/-- How the execution of a program ended. -/
inductive Ending where
  | completed
  | failed (diagnostic : Diagnostic)
  | unfinished

/-- The ending that a stop means. -/
def Ending.ofStop : Stop → Ending
  | .fault fault line => .failed (.ofFault fault line)
  | .tooDeep => .failed (.ofFault (.nestedTooDeep none) none)
  | .outOfPasses => .unfinished

/-- A heap with nothing but the outermost scope, and that scope. -/
def freshGlobals : ScopeRef × Heap :=
  Heap.empty.newGlobals

/-- The ending of a program and the machine it leaves behind. -/
def execute (limits : Limits) (statements : List Stmt) : Ending × Machine :=
  let (globals, heap) := freshGlobals
  let room := executionRoom limits.maxCallDepth
  match Eval.executeProgram limits room globals statements ⟨heap, #[], 0⟩ with
  | .ok _ machine => (.completed, machine)
  | .error stop machine => (.ofStop stop, machine)

/-- What a run shows: whether it completed, the printed lines and what went
wrong. `finished` is false only if a loop used up its passes. -/
structure Report where
  ok : Bool
  output : List String
  diagnostics : List Diagnostic
  finished : Bool

/-- An interpreter: its bounds, and the outermost scope of the last program it
executed, in its heap. -/
structure Interpreter where
  limits : Limits
  heap : Heap
  globals : ScopeRef

namespace Interpreter

def new (limits : Limits) : Interpreter :=
  let (globals, heap) := freshGlobals
  ⟨limits, heap, globals⟩

/-- Runs a program that was analyzed. One that has errors is not executed and
leaves the interpreter as it was. -/
def runAnalyzed (interpreter : Interpreter) (analysis : Analysis) : Report × Interpreter :=
  if !analysis.diagnostics.isEmpty then (⟨false, [], analysis.diagnostics, true⟩, interpreter)
  else
    let (ending, machine) := execute interpreter.limits analysis.statements
    let after : Interpreter := ⟨interpreter.limits, machine.heap, freshGlobals.1⟩
    let output := machine.output.toList
    match ending with
    | .completed => (⟨true, output, [], true⟩, after)
    | .failed diagnostic => (⟨false, output, [diagnostic], true⟩, after)
    | .unfinished => (⟨false, output, [], false⟩, after)

def run (interpreter : Interpreter) (source : String) :
    Except LimitTooLarge (Report × Interpreter) :=
  (analyze interpreter.limits.maxCallDepth source).map interpreter.runAnalyzed

/-- The names of the outermost scope and the texts of their values, in the
order of declaration; `none` if a value is nested too deeply to have a text. -/
def globalTexts (interpreter : Interpreter) : Option (List (String × String)) :=
  match interpreter.heap.scopes[interpreter.globals.id]? with
  | none => some []
  | some scope =>
      scope.bindings.mapM fun (name, value) =>
        (interpreter.heap.render baseNesting value).map fun text => (name, text)

end Interpreter

def run (limits : Limits) (source : String) : Except LimitTooLarge Report :=
  ((Interpreter.new limits).run source).map Prod.fst

/-- What is wrong with a source text, found without executing it. -/
def check (maxCallDepth : Int) (source : String) : Except LimitTooLarge (List Diagnostic) :=
  (analyze maxCallDepth source).map Analysis.diagnostics

end TernLang
