import TernLang.Interpreter

/-! # Sessions

An interpreter that stays: it analyzes and runs one source text after the other, prints
the lines of the programs and tells a listener what is wrong with them. What a program
has allocated stays in the heap. The next program gets an outermost scope of its own
there.
-/

namespace TernLang

/-- An interpreter, with everything it has printed and everything its listener has
heard. -/
structure Session extends Interpreter where
  printed : Array String
  heard : Array Diagnostic

/-- What running a source text returns; nothing, if a loop used up its passes. -/
inductive RunResult where
  | completed
  | failed (diagnostics : List Diagnostic)
  | unfinished

namespace Session

def new (limits : Limits) : Session :=
  ⟨Interpreter.new limits, #[], #[]⟩

/-- What happens in a session. The limit of the session may be refused; what has
happened before that stays. -/
abbrev Act := EStateM LimitTooLarge Session

/-- Tells the listener about problems, one at a time. -/
def tell : List Diagnostic → Act Unit
  | [] => pure ()
  | diagnostic :: rest => do
      modify fun session => { session with heard := session.heard.push diagnostic }
      tell rest

/-- Fails with problems: the listener is told first. -/
def report (diagnostics : List Diagnostic) : Act RunResult := do
  tell diagnostics
  pure (.failed diagnostics)

def analyze (source : String) : Act Analysis := do
  match TernLang.analyze (← get).limits.maxCallDepth source with
  | .error refused => throw refused
  | .ok analysis => pure analysis

/-- Executes a program in a new outermost scope, which the session keeps however the
program ends. -/
def execute (statements : List Stmt) : Act Ending := fun session =>
  let (globals, heap) := session.heap.newGlobals
  let room := executionRoom session.limits.maxCallDepth
  let left (machine : Machine) : Session :=
    { session with heap := machine.heap, globals := globals, printed := machine.output }
  match Eval.executeProgram session.limits room globals statements ⟨heap, session.printed, 0⟩ with
  | .ok _ machine => .ok .completed (left machine)
  | .error stop machine => .ok (.ofStop stop) (left machine)

/-- Runs a source text. One that has errors is not executed. -/
def run (source : String) : Act RunResult := do
  let analysis ← analyze source
  if !analysis.diagnostics.isEmpty then report analysis.diagnostics
  else
    match ← execute analysis.statements with
    | .completed => pure .completed
    | .failed diagnostic => report [diagnostic]
    | .unfinished => pure .unfinished

/-- What a session can be asked to do. -/
inductive Call where
  | run (source : String)
  | analyze (source : String)
  deriving DecidableEq, Repr

/-- A session after a call, however that ends. -/
def step (session : Session) : Call → Session
  | .run source =>
      match Session.run source session with
      | .ok _ after => after
      | .error _ after => after
  | .analyze source =>
      match Session.analyze source session with
      | .ok _ after => after
      | .error _ after => after

def after (session : Session) (calls : List Call) : Session :=
  calls.foldl step session

end Session

end TernLang
