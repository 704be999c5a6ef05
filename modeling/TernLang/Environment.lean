import TernLang.Heap

/-! # Names and scopes

A name means the binding in the nearest scope that has one, looking outward.
Declaring binds a name in the scope itself; assigning changes the nearest
binding and fails if there is none.
-/

namespace TernLang

namespace Heap

/-- The nearest scope that binds a name, within `fuel` scopes. -/
def findWithin (heap : Heap) (name : String) : (fuel : Nat) → ScopeRef → Option ScopeRef
  | 0, _ => none
  | fuel + 1, ref =>
      match heap.scopes[ref.id]? with
      | none => none
      | some scope =>
          match scope.bindings.get? name with
          | some _ => some ref
          | none =>
              match scope.outer with
              | none => none
              | some outer => findWithin heap name fuel outer

/-- The nearest scope that binds a name. An outer scope is older than the
scopes inside it, so the place of the scope bounds the length of its chain. -/
def find (heap : Heap) (ref : ScopeRef) (name : String) : Option ScopeRef :=
  heap.findWithin name (ref.id + 1) ref

/-- The value of a name in one scope. -/
def ownBinding (heap : Heap) (ref : ScopeRef) (name : String) : Option Value :=
  (heap.scopes[ref.id]?).bind fun scope => scope.bindings.get? name

def lookup (heap : Heap) (ref : ScopeRef) (name : String) : Except Fault Value :=
  match (heap.find ref name).bind fun owner => heap.ownBinding owner name with
  | some value => .ok value
  | none => .error (.undefinedVariable name)

/-- Binds a name in a scope. -/
def define (heap : Heap) (ref : ScopeRef) (name : String) (value : Value) : Heap :=
  { heap with
    scopes := heap.scopes.modify ref.id fun scope =>
      { scope with bindings := scope.bindings.put name value } }

/-- The nearest scope that binds a name, which must exist. -/
def owner (heap : Heap) (ref : ScopeRef) (name : String) : Except Fault ScopeRef :=
  match heap.find ref name with
  | some owner => .ok owner
  | none => .error (.undefinedVariable name)

/-- Changes the nearest binding of a name. -/
def assign (heap : Heap) (ref : ScopeRef) (name : String) (value : Value) : Except Fault Heap :=
  (heap.owner ref name).map fun owner => heap.define owner name value

/-- Binds several names in a scope, one after the other. -/
def defineAll (heap : Heap) (ref : ScopeRef) (added : List (String × Value)) : Heap :=
  added.foldl (fun acc entry => acc.define ref entry.1 entry.2) heap

def builtins : List (String × Value) :=
  [("hash", .native .hash)]

/-- A new outermost scope with the built-in functions. -/
def newGlobals (heap : Heap) : ScopeRef × Heap :=
  let (ref, heap) := heap.newScope ⟨[], none⟩
  (ref, heap.defineAll ref builtins)

/-- The scopes from one outward, within `fuel` scopes. -/
def chainWithin (heap : Heap) : (fuel : Nat) → ScopeRef → List Scope
  | 0, _ => []
  | fuel + 1, ref =>
      match heap.scopes[ref.id]? with
      | none => []
      | some scope =>
          match scope.outer with
          | none => [scope]
          | some outer => scope :: chainWithin heap fuel outer

/-- The scopes from one outward. -/
def chain (heap : Heap) (ref : ScopeRef) : List Scope :=
  heap.chainWithin (ref.id + 1) ref

/-- The number of scopes around a scope. -/
def depth (heap : Heap) (ref : ScopeRef) : Nat :=
  (heap.chain ref).length - 1

end Heap

end TernLang
