import TernLang.Syntax

/-! # Values

What expressions evaluate to. Lists and functions are shared by reference: a
value holds the place of the object, the heap its contents. A number that is
not a number (NaN) and a bound method also carry an identity, because they are
equal only to themselves.
-/

namespace TernLang

/-- The place of a list in the heap. -/
structure ListRef where
  id : Nat
  deriving DecidableEq, Repr

/-- The place of a scope in the heap. -/
structure ScopeRef where
  id : Nat
  deriving DecidableEq, Repr

/-- The place of a function in the heap. -/
structure FunctionRef where
  id : Nat
  deriving DecidableEq, Repr

inductive ListMethod where
  | push | pop | insertAt | remove | index | len | sort
  deriving DecidableEq, Repr

namespace ListMethod

def text : ListMethod → String
  | push => "push"
  | pop => "pop"
  | insertAt => "insertAt"
  | remove => "remove"
  | index => "index"
  | len => "len"
  | sort => "sort"

/-- The number of arguments a method takes. -/
def arity : ListMethod → Nat
  | push => 1
  | pop => 0
  | insertAt => 2
  | remove => 1
  | index => 1
  | len => 0
  | sort => 0

/-- All methods, in the order in which they are offered. -/
def all : List ListMethod :=
  [push, pop, insertAt, remove, index, len, sort]

def ofText? (name : String) : Option ListMethod :=
  all.find? (·.text == name)

end ListMethod

/-- Functions that are not written in the language: `hash`, and the methods of
a list, bound to it. -/
inductive Native where
  | hash
  | method (method : ListMethod) (receiver : ListRef) (identity : Nat)
  deriving DecidableEq, Repr

namespace Native

def name : Native → String
  | hash => "hash"
  | method m _ _ => m.text

/-- The number of arguments a native function takes. -/
def arity : Native → Nat
  | hash => 1
  | method m _ _ => m.arity

end Native

/-- Values of the language. The identity of a number counts only if it is a
NaN. -/
inductive Value where
  | null
  | bool (value : Bool)
  | number (value : Float) (identity : Nat)
  | string (value : String)
  | list (ref : ListRef)
  | function (ref : FunctionRef)
  | native (native : Native)

instance : Inhabited Value := ⟨.null⟩

/-- The kinds of values that messages distinguish. -/
inductive TypeName where
  | null | bool | number | string | list | function | native
  deriving DecidableEq, Repr

def TypeName.text : TypeName → String
  | null => "Null"
  | bool => "Bool"
  | number => "Number"
  | string => "String"
  | list => "List"
  | function => "Function"
  | native => "NativeFunction"

namespace Value

def type : Value → TypeName
  | null => .null
  | bool _ => .bool
  | number _ _ => .number
  | string _ => .string
  | list _ => .list
  | function _ => .function
  | native _ => .native

/-- Only `null` and `false` count as false. -/
def truthy : Value → Bool
  | null => false
  | bool b => b
  | _ => true

/-- A number that is no NaN, or whose identity does not matter. -/
def ofFloat (x : Float) : Value :=
  number x 0

def ofLiteral : Literal → Value
  | .null => null
  | .bool b => bool b
  | .number x => ofFloat x
  | .string s => string s

end Value

end TernLang
