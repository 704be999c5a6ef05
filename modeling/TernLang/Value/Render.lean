import TernLang.Environment
import TernLang.Text.Quoted

/-! # Texts of values

`render` is the text that `print` shows: strings stand unquoted, also inside
lists. `inspect` is the text of a value in a dump of a scope: strings are
quoted, numbers always have a point or an exponent. In both, a list inside
itself is written `[...]`.

Printing nested lists takes one unit of `room` per level; `none` means that the
lists are nested deeper than that.
-/

namespace TernLang

/-- The texts of the elements of a list, between brackets. -/
def bracketed (texts : List String) : String :=
  "[" ++ ", ".intercalate texts ++ "]"

/-- The text of a list inside itself. -/
def innerOccurrence : String := "[...]"

namespace Heap

def functionName (heap : Heap) (ref : FunctionRef) : String :=
  match heap.functions[ref.id]? with
  | some closure => closure.name
  | none => ""

/-- The text that `print` shows for a value other than a list. -/
def renderScalar (heap : Heap) : Value → String
  | .null => "null"
  | .bool b => if b then "true" else "false"
  | .number x _ => Number.display x
  | .string s => s
  | .list _ => innerOccurrence
  | .function ref => "<fn " ++ heap.functionName ref ++ ">"
  | .native n => "<native fn " ++ n.name ++ ">"

/-- The texts of several values in order. The lists that are being written out are
handed on from each value to the next. -/
def renderAll (render : List ListRef → Value → Option (String × List ListRef)) :
    List ListRef → List Value → Option (List String × List ListRef)
  | active, [] => some ([], active)
  | active, value :: rest =>
      match render active value with
      | none => none
      | some (text, active) =>
          match renderAll render active rest with
          | none => none
          | some (texts, active) => some (text :: texts, active)

/-- The text that `print` shows for a value while the lists `active` are being written
out, and the lists that are being written out after it: a list is one of them as long as
its elements are written. -/
def renderWith (heap : Heap) :
    (room : Nat) → List ListRef → Value → Option (String × List ListRef)
  | 0, _, _ => none
  | room + 1, active, .list ref =>
      if active.contains ref then some (innerOccurrence, active)
      else
        match renderAll (heap.renderWith room) (ref :: active) (heap.items ref).toList with
        | none => none
        | some (texts, active) => some (bracketed texts, active.erase ref)
  | _ + 1, active, value => some (heap.renderScalar value, active)

/-- The text that `print` shows for a value. -/
def render (heap : Heap) (room : Nat) (value : Value) : Option String :=
  (heap.renderWith room [] value).map Prod.fst

/-- The text of a function in a dump. -/
def inspectFunction (heap : Heap) (ref : FunctionRef) : String :=
  match heap.functions[ref.id]? with
  | some closure =>
      "<fn " ++ closure.name ++ "(" ++ ", ".intercalate closure.params ++ ")>"
  | none => ""

/-- The text of a value other than a list in a dump. -/
def inspectScalar (heap : Heap) : Value → String
  | .null => "null"
  | .bool b => if b then "True" else "False"
  | .number x _ => Number.inspect x
  | .string s => Text.quoted s
  | .list _ => innerOccurrence
  | .function ref => heap.inspectFunction ref
  | .native n => "<native fn " ++ n.name ++ ">"

/-- The text of a value in a dump, inside the lists `active`. -/
def inspectWith (heap : Heap) : (fuel : Nat) → List ListRef → Value → String
  | fuel + 1, active, .list ref =>
      if active.contains ref then innerOccurrence
      else bracketed ((heap.items ref).toList.map (heap.inspectWith fuel (ref :: active)))
  | _, _, value => heap.inspectScalar value

/-- The text of a value in a dump. A path of distinct lists is no longer than
there are lists. -/
def inspect (heap : Heap) (value : Value) : String :=
  heap.inspectWith (heap.lists.size + 1) [] value

/-- The bindings of a scope. -/
def inspectScope (heap : Heap) (scope : Scope) : String :=
  let entries := scope.bindings.map fun (name, value) => name ++ ": " ++ heap.inspect value
  "\x7b" ++ ", ".intercalate entries ++ "\x7d"

/-- The bindings of a scope, with a mark if there is a scope around it. -/
def showScope (heap : Heap) (ref : ScopeRef) : String :=
  match heap.scopes[ref.id]? with
  | none => ""
  | some scope => heap.inspectScope scope ++ if scope.outer.isSome then " -> ..." else ""

/-- The bindings of a scope and of all scopes around it. -/
def showChain (heap : Heap) (ref : ScopeRef) : String :=
  "<Environment chain: " ++ " -> ".intercalate ((heap.chain ref).map heap.inspectScope) ++ ">"

end Heap

end TernLang
