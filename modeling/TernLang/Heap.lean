import TernLang.Fault

/-! # The heap

Lists, scopes and functions live in the heap for the whole run, each under the
place it was allocated at. A scope binds names in the order in which they were
first declared and has an outer scope, except the outermost one.
-/

namespace TernLang

/-- Names and their values, in the order of the first declarations; a name
occurs once. -/
abbrev Bindings := List (String × Value)

namespace Bindings

def get? : Bindings → String → Option Value
  | [], _ => none
  | (key, value) :: rest, name => if key = name then some value else get? rest name

/-- Gives a name a value: in its place if it is bound, else at the end. -/
def put : Bindings → String → Value → Bindings
  | [], name, value => [(name, value)]
  | (key, old) :: rest, name, value =>
      if key = name then (key, value) :: rest else (key, old) :: put rest name value

/-- Gives several names their values, one after the other. -/
def putAll (bindings : Bindings) (added : List (String × Value)) : Bindings :=
  added.foldl (fun acc entry => acc.put entry.1 entry.2) bindings

end Bindings

/-- A scope: its own bindings and the scope around it. -/
structure Scope where
  bindings : Bindings
  outer : Option ScopeRef

/-- A function with the scope in which it was declared. -/
structure Closure where
  name : String
  params : List String
  body : List Stmt
  scope : ScopeRef

/-- The objects of a run. -/
structure Heap where
  lists : Array (Array Value)
  scopes : Array Scope
  functions : Array Closure
  nextIdentity : Nat

namespace Heap

def empty : Heap :=
  ⟨#[], #[], #[], 1⟩

def items (heap : Heap) (ref : ListRef) : Array Value :=
  (heap.lists[ref.id]?).getD #[]

/-- Replaces the elements of a list. -/
def setItems (heap : Heap) (ref : ListRef) (items : Array Value) : Heap :=
  { heap with lists := heap.lists.setIfInBounds ref.id items }

/-- Applies a function to the elements of a list. They are taken out of the heap before, so
that the array can be changed in place. -/
def modifyItems (heap : Heap) (ref : ListRef) (change : Array Value → Array Value) : Heap :=
  let items := heap.items ref
  (heap.setItems ref #[]).setItems ref (change items)

def newList (heap : Heap) (items : Array Value) : ListRef × Heap :=
  (⟨heap.lists.size⟩, { heap with lists := heap.lists.push items })

def newScope (heap : Heap) (scope : Scope) : ScopeRef × Heap :=
  (⟨heap.scopes.size⟩, { heap with scopes := heap.scopes.push scope })

def newFunction (heap : Heap) (closure : Closure) : FunctionRef × Heap :=
  (⟨heap.functions.size⟩, { heap with functions := heap.functions.push closure })

/-- An identity that no value has yet. -/
def newIdentity (heap : Heap) : Nat × Heap :=
  (heap.nextIdentity, { heap with nextIdentity := heap.nextIdentity + 1 })

/-- A number that was just computed; a NaN gets an identity of its own. -/
def newNumber (heap : Heap) (x : Float) : Value × Heap :=
  if x.isNaN then
    let (identity, heap) := heap.newIdentity
    (.number x identity, heap)
  else (.ofFloat x, heap)

/-- A method of a list, bound to it. -/
def newMethod (heap : Heap) (method : ListMethod) (receiver : ListRef) : Value × Heap :=
  let (identity, heap) := heap.newIdentity
  (.native (.method method receiver identity), heap)

end Heap

end TernLang
