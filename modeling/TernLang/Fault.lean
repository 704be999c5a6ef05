import TernLang.Number.Text
import TernLang.Value

/-! # Run-time faults

The ways in which a running program can fail, the kind each is reported as and
the wording of the report.
-/

namespace TernLang

/-- The kinds of run-time faults. -/
inductive FaultKind where
  | undefinedVariable | arityMismatch | typeMismatch | indexOutOfRange
  | emptyList | divisionByZero | illegalReturn | stackOverflow
  deriving DecidableEq, Repr

def FaultKind.text : FaultKind → String
  | undefinedVariable => "UndefinedVariable"
  | arityMismatch => "ArityMismatch"
  | typeMismatch => "TypeMismatch"
  | indexOutOfRange => "IndexOutOfRange"
  | emptyList => "EmptyListError"
  | divisionByZero => "DivisionByZero"
  | illegalReturn => "IllegalReturn"
  | stackOverflow => "StackOverflow"

/-- What a number is used as a position for. -/
inductive PositionUse where
  | index | insertion | removal
  deriving DecidableEq, Repr

/-- How messages name a position. -/
def PositionUse.text : PositionUse → String
  | index => "List index"
  | insertion => "insertAt position"
  | removal => "remove position"

inductive SliceBound where
  | first | last
  deriving DecidableEq, Repr

/-- How messages name a bound. -/
def SliceBound.text : SliceBound → String
  | first => "start"
  | last => "end"

/-- Why a program failed. -/
inductive Fault where
  | undefinedVariable (name : String)
  | wrongArity (callee : String) (expected got : Nat)
  | operandsNotNumbers (op : BinaryOp) (left right : TypeName)
  | operandsNotAddable (left right : TypeName)
  | operandNotNumber (operand : TypeName)
  | notSteppable (type : TypeName) (name : String)
  | notCallable (type : TypeName)
  | notIndexable (type : TypeName)
  | notSliceable (type : TypeName)
  | noMethod (type : TypeName) (name : String)
  | positionNotNumber (use : PositionUse) (type : TypeName)
  | positionNotWhole (use : PositionUse) (value : Float)
  | positionOutside (use : PositionUse) (position : Int) (length : Nat)
  | boundNotWhole (bound : SliceBound) (type : TypeName)
  | notSortable (types : List TypeName)
  | notHashable (type : TypeName)
  | popEmpty
  | divisionByZero
  | returnOutsideFunction
  | callsTooDeep (limit : Int) (callee : String)
  | nestedTooDeep (callee : Option String)

namespace Fault

/-- The kind a fault is reported as. -/
def kind : Fault → FaultKind
  | undefinedVariable _ => .undefinedVariable
  | wrongArity _ _ _ => .arityMismatch
  | operandsNotNumbers _ _ _ => .typeMismatch
  | operandsNotAddable _ _ => .typeMismatch
  | operandNotNumber _ => .typeMismatch
  | notSteppable _ _ => .typeMismatch
  | notCallable _ => .typeMismatch
  | notIndexable _ => .typeMismatch
  | notSliceable _ => .typeMismatch
  | noMethod _ _ => .typeMismatch
  | positionNotNumber _ _ => .typeMismatch
  | positionNotWhole _ _ => .indexOutOfRange
  | positionOutside _ _ _ => .indexOutOfRange
  | boundNotWhole _ _ => .typeMismatch
  | notSortable _ => .typeMismatch
  | notHashable _ => .typeMismatch
  | popEmpty => .emptyList
  | divisionByZero => .divisionByZero
  | returnOutsideFunction => .illegalReturn
  | callsTooDeep _ _ => .stackOverflow
  | nestedTooDeep _ => .stackOverflow

def message : Fault → String
  | undefinedVariable name => "Undefined variable '" ++ name ++ "'"
  | wrongArity callee expected got =>
      let plural := if expected = 1 then "" else "s"
      s!"{callee}() expects {expected} argument{plural} but got {got}"
  | operandsNotNumbers op left right =>
      "Operands of '" ++ op.text ++ "' must be numbers, got " ++ left.text ++ " and " ++ right.text
  | operandsNotAddable left right =>
      "Operands of '+' must be two numbers or two strings, got " ++ left.text ++ " and " ++
        right.text
  | operandNotNumber operand => "Operand of unary '-' must be a number, got " ++ operand.text
  | notSteppable type name => "Cannot increment " ++ type.text ++ " '" ++ name ++ "'"
  | notCallable type => "Can only call functions, got " ++ type.text
  | notIndexable type => "Only lists can be indexed, got " ++ type.text
  | notSliceable type => "Only lists can be sliced, got " ++ type.text
  | noMethod type name => type.text ++ " has no method '" ++ name ++ "'"
  | positionNotNumber use type => use.text ++ " must be a number, got " ++ type.text
  | positionNotWhole use value =>
      use.text ++ " must be a whole number, got " ++ Number.inspect value
  | positionOutside use position length =>
      let size := use.text
      s!"{size} {position} out of range for length {length}"
  | boundNotWhole bound type =>
      "Slice " ++ bound.text ++ " must be a whole number, got " ++ type.text
  | notSortable types =>
      "sort() needs a list of only numbers or only strings, got " ++
        ", ".intercalate (types.map TypeName.text)
  | notHashable type => "hash() expects a string, got " ++ type.text
  | popEmpty => "Cannot pop from an empty list"
  | divisionByZero => "Division by zero"
  | returnOutsideFunction => "Cannot return from top-level code"
  | callsTooDeep limit callee => s!"Maximum call depth of {limit} exceeded in {callee}()"
  | nestedTooDeep (some callee) => s!"Host recursion limit reached in {callee}()"
  | nestedTooDeep none => "Host recursion limit reached"

end Fault

end TernLang
