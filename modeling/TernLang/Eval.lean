import TernLang.Environment
import TernLang.Operator
import TernLang.Value.Render

/-! # Running programs

Evaluation of expressions and execution of statements over a machine, which
holds the heap, the printed lines and the number of calls in progress. A
statement completes normally or with a `return`, which travels outward to the
call it belongs to. A fault stops the program; it gets the line of the innermost
node around it.

Three bounds keep the functions total. `room` is the nesting that is left: an
expression and a statement cost two units, an argument or element of a list, a
block and a level of nested lists one more, a call three; where it is used up,
evaluation stops as nested too deeply. `Limits.maxCallDepth` bounds the calls in
progress. `Limits.passes` bounds the passes of each loop; a program that needs
more is not known to end.
-/

namespace TernLang

/-- The state of a running program. -/
structure Machine where
  heap : Heap
  output : Array String
  callDepth : Nat

/-- A computation on a machine. It may stop, and then still leaves a machine
behind. -/
abbrev Eval := EStateM Stop Machine

/-- The bounds of a run. -/
structure Limits where
  maxCallDepth : Int
  passes : Nat

/-- How a statement ends. -/
inductive Completion where
  | normal
  | returned (value : Value) (line : Nat)

/-- The value of a call whose body ended in this way. -/
def Completion.value : Completion → Value
  | normal => .null
  | returned value _ => value

namespace Stop

/-- Gives a fault a line, unless it has one. -/
def located (line : Nat) : Stop → Stop
  | .fault cause none => .fault cause (some line)
  | stop => stop

/-- Nesting that is too deep inside a call of a function is a fault of that
call. -/
def inCall (name : String) : Stop → Stop
  | .tooDeep => .fault (.nestedTooDeep (some name)) none
  | stop => stop

/-- Nesting that is too deep outside of calls is a fault of the top-level
statement. -/
def atTopLevel (line : Nat) : Stop → Stop
  | .tooDeep => .fault (.nestedTooDeep none) (some line)
  | stop => stop

end Stop

namespace Eval

/-- Changes how a computation stops. -/
def mapStop {α : Type} (change : Stop → Stop) (action : Eval α) : Eval α := fun machine =>
  match action machine with
  | .ok a after => .ok a after
  | .error stop after => .error (change stop) after

def fault {α : Type} (fault : Fault) : Eval α := fun machine =>
  .error (.ofFault fault) machine

def tooDeep {α : Type} : Eval α := fun machine =>
  .error .tooDeep machine

def query {α : Type} (read : Heap → Except Stop α) : Eval α := fun machine =>
  match read machine.heap with
  | .ok a => .ok a machine
  | .error stop => .error stop machine

/-- Reads from the heap, where the reading can be a fault. -/
def inspect {α : Type} (read : Heap → Except Fault α) : Eval α := fun machine =>
  match read machine.heap with
  | .ok a => .ok a machine
  | .error fault => .error (.ofFault fault) machine

def update (change : Heap → Heap) : Eval Unit := fun machine =>
  .ok () { machine with heap := change machine.heap }

def allocate {α : Type} (create : Heap → α × Heap) : Eval α := fun machine =>
  let (a, heap) := create machine.heap
  .ok a { machine with heap := heap }

/-- The value of an operator's result. -/
def settle : Outcome → Eval Value
  | .value value => pure value
  | .number x => allocate (·.newNumber x)

/-- Changes the nearest binding of a name. -/
def assign (scope : ScopeRef) (name : String) (value : Value) : Eval Unit := do
  let owner ← inspect (·.owner scope name)
  update (·.define owner name value)

/-- Steps a variable up or down and gives its new value. -/
def increment (scope : ScopeRef) (name : String) (step : Step) : Eval Value := do
  let current ← inspect (·.lookup scope name)
  let outcome ← inspect fun _ => stepValue name step current
  let updated ← settle outcome
  assign scope name updated
  pure updated

def newList (items : Array Value) : Eval Value := do
  pure (.list (← allocate (·.newList items)))

def newScope (bindings : Bindings) (outer : ScopeRef) : Eval ScopeRef :=
  allocate (·.newScope ⟨bindings, some outer⟩)

/-- Prints a value on a line of its own. -/
def print (room : Nat) (value : Value) : Eval Unit := fun machine =>
  match machine.heap.render room value with
  | some text => .ok () { machine with output := machine.output.push text }
  | none => .error .tooDeep machine

/-- Calls a native function: the number of arguments is checked first. -/
def callNative (room : Nat) (native : Native) (arguments : List Value) : Eval Value := do
  if arguments.length ≠ native.arity then
    fault (.wrongArity native.name native.arity arguments.length)
  else
    match native, arguments with
    | .method method receiver _, arguments => do
        let (value, change) ← query (·.methodEffect room method receiver arguments)
        update (·.modifyItems receiver change)
        pure value
    | .hash, [value] => inspect fun _ => hashValue value
    | .hash, arguments => fault (.wrongArity native.name native.arity arguments.length)

/-- Runs the body of a call: one more call is in progress meanwhile, however
the body ends. -/
def insideCall (name : String) (body : Eval Completion) : Eval Value := fun machine =>
  match body { machine with callDepth := machine.callDepth + 1 } with
  | .ok completion after =>
      .ok completion.value { after with callDepth := after.callDepth - 1 }
  | .error stop after =>
      .error (stop.inCall name) { after with callDepth := after.callDepth - 1 }

/-- The function at a place in the heap. -/
def closure (ref : FunctionRef) : Eval Closure := fun machine =>
  match machine.heap.functions[ref.id]? with
  | some closure => .ok closure machine
  | none => .error (.ofFault (.notCallable .function)) machine

/-- Calls a function whose body is run by `run`: the number of arguments is
checked first, then the number of calls in progress; the parameters are bound
in a new scope inside the scope of the declaration. -/
def callFunction (limits : Limits) (closure : Closure) (arguments : List Value)
    (run : ScopeRef → Eval Completion) : Eval Value := do
  if arguments.length ≠ closure.params.length then
    fault (.wrongArity closure.name closure.params.length arguments.length)
  else if limits.maxCallDepth ≤ ((← get).callDepth : Int) then
    fault (.callsTooDeep limits.maxCallDepth closure.name)
  else
    let scope ← newScope (Bindings.putAll [] (closure.params.zip arguments)) closure.scope
    insideCall closure.name (run scope)

/-- Evaluates each of several expressions in order. -/
def each {α β : Type} (action : α → Eval β) : List α → Eval (List β)
  | [] => pure []
  | x :: rest => do
      let y ← action x
      let ys ← each action rest
      pure (y :: ys)

/-- Executes statements in order up to the first return. -/
def sequence {α : Type} (action : α → Eval Completion) : List α → Eval Completion
  | [] => pure .normal
  | x :: rest => do
      match ← action x with
      | .normal => sequence action rest
      | completion => pure completion

/-- Executes a body as long as a condition holds, at most `passes` times, up to
the first return. -/
def loop (condition : Eval Value) (body : Eval Completion) : (passes : Nat) → Eval Completion
  | 0 => throw .outOfPasses
  | passes + 1 => do
      let value ← condition
      if value.truthy then
        match ← body with
        | .normal => loop condition body passes
        | completion => pure completion
      else pure .normal

/-- The optional parts of a slice. -/
def optional {α : Type} (action : α → Eval Value) : Option α → Eval (Option Value)
  | none => pure none
  | some x => do pure (some (← action x))

mutual

def evaluate (limits : Limits) : (room : Nat) → ScopeRef → Expr → Eval Value
  | 0, _, _ | 1, _, _ => tooDeep
  | room + 2, scope, expr => mapStop (Stop.located expr.line) <|
      match expr with
      | .literal value _ => pure (.ofLiteral value)
      | .var name _ => inspect (·.lookup scope name)
      | .grouping inner _ => evaluate limits room scope inner
      | .assign name value _ => do
          let result ← evaluate limits room scope value
          assign scope name result
          pure result
      | .increment name step _ => increment scope name step
      | .logical left .or right _ => do
          let value ← evaluate limits room scope left
          if value.truthy then pure value else evaluate limits room scope right
      | .logical left .and right _ => do
          let value ← evaluate limits room scope left
          if value.truthy then evaluate limits room scope right else pure value
      | .binary left op right _ => do
          let a ← evaluate limits room scope left
          let b ← evaluate limits room scope right
          settle (← query (·.binary room op a b))
      | .unary .negate right _ => do
          let value ← evaluate limits room scope right
          settle (← inspect fun _ => negateValue value)
      | .unary .not right _ => do
          let value ← evaluate limits room scope right
          pure (.bool !value.truthy)
      | .call callee arguments _ => do
          let f ← evaluate limits room scope callee
          let values ← evaluateAll limits room scope arguments
          apply limits room f values
      | .member target name _ => do
          let value ← evaluate limits room scope target
          let (method, receiver) ← inspect fun _ => resolveMethod value name
          allocate (·.newMethod method receiver)
      | .list elements _ => do
          let values ← evaluateAll limits room scope elements
          newList values.toArray
      | .index target position _ => do
          let list ← evaluate limits room scope target
          let index ← evaluate limits room scope position
          inspect (·.getItem list index)
      | .slice target first last _ => do
          let list ← evaluate limits room scope target
          let low ← optional (evaluate limits room scope) first
          let high ← optional (evaluate limits room scope) last
          newList (← inspect (·.slice list low high))

/-- The values of several expressions, in order. -/
def evaluateAll (limits : Limits) : (room : Nat) → ScopeRef → List Expr → Eval (List Value)
  | 0, _, _ => tooDeep
  | room + 1, scope, exprs => each (evaluate limits room scope) exprs

def apply (limits : Limits) : (room : Nat) → Value → List Value → Eval Value
  | 0, _, _ | 1, _, _ | 2, _, _ => tooDeep
  | room + 3, callee, arguments =>
      match callee with
      | .function ref => do
          let closure ← closure ref
          callFunction limits closure arguments fun scope =>
            sequence (execute limits room scope) closure.body
      | .native native => callNative room native arguments
      | value => fault (.notCallable value.type)

def execute (limits : Limits) : (room : Nat) → ScopeRef → Stmt → Eval Completion
  | 0, _, _ | 1, _, _ => tooDeep
  | room + 2, scope, stmt => mapStop (Stop.located stmt.line) <|
      match stmt with
      | .expression expr _ => do
          let _ ← evaluate limits room scope expr
          pure .normal
      | .print expr _ => do
          let value ← evaluate limits room scope expr
          print room value
          pure .normal
      | .varDecl name initial _ => do
          let value ← optional (evaluate limits room scope) initial
          update (·.define scope name (value.getD .null))
          pure .normal
      | .block body _ => executeBlock limits room scope body
      | .ifElse condition thenBranch elseBranch _ => do
          let value ← evaluate limits room scope condition
          if value.truthy then execute limits room scope thenBranch
          else
            match elseBranch with
            | some branch => execute limits room scope branch
            | none => pure .normal
      | .whileLoop condition body _ =>
          loop (evaluate limits room scope condition) (execute limits room scope body)
            limits.passes
      | .returnValue value line => do
          let result ← optional (evaluate limits room scope) value
          pure (.returned (result.getD .null) line)
      | .funDecl name params body _ => do
          let ref ← allocate (·.newFunction ⟨name, params, body, scope⟩)
          update (·.define scope name (.function ref))
          pure .normal

/-- Executes the statements of a block in a new scope. -/
def executeBlock (limits : Limits) : (room : Nat) → ScopeRef → List Stmt → Eval Completion
  | 0, _, _ => tooDeep
  | room + 1, scope, body => do
      let inner ← newScope [] scope
      sequence (execute limits room inner) body

end

/-- Executes the statements of a program in order. -/
def executeProgram (limits : Limits) (room : Nat) (globals : ScopeRef) : List Stmt → Eval Unit
  | [] => pure ()
  | stmt :: rest => do
      match ← mapStop (Stop.atTopLevel stmt.line) (execute limits room globals stmt) with
      | .normal => executeProgram limits room globals rest
      | .returned _ line => throw (.fault .returnOutsideFunction (some line))

end Eval

end TernLang
