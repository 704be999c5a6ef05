import TernLang.Digest
import TernLang.Lists

/-! # Operators

What operators do with values. Nothing is converted: operands of other kinds
than an operator is defined for are a fault.
-/

namespace TernLang

/-- The result of an operator: a value as it is, or a number just computed,
which is a new object. -/
inductive Outcome where
  | value (value : Value)
  | number (x : Float)

/-- The two numbers that an arithmetic or ordering operator takes. -/
def numberOperands (op : BinaryOp) : Value → Value → Except Fault (Float × Float)
  | .number x _, .number y _ => .ok (x, y)
  | left, right => .error (.operandsNotNumbers op left.type right.type)

def arithmetic (op : BinaryOp) (compute : Float → Float → Float) (left right : Value) :
    Except Fault Outcome := do
  let (x, y) ← numberOperands op left right
  .ok (.number (compute x y))

def ordering (op : BinaryOp) (compare : Float → Float → Bool) (left right : Value) :
    Except Fault Outcome := do
  let (x, y) ← numberOperands op left right
  .ok (.value (.bool (compare x y)))

/-- The sum of two numbers or the concatenation of two strings. -/
def addValues : Value → Value → Except Fault Outcome
  | .string s, .string t => .ok (.value (.string (s ++ t)))
  | .number x _, .number y _ => .ok (.number (x + y))
  | left, right => .error (.operandsNotAddable left.type right.type)

/-- The quotient of two numbers; the divisor must not be zero. -/
def divideValues (left right : Value) : Except Fault Outcome := do
  let (x, y) ← numberOperands .divide left right
  if y == 0 then .error .divisionByZero else .ok (.number (x / y))

def Heap.binary (heap : Heap) (room : Nat) (op : BinaryOp) (left right : Value) :
    Except Stop Outcome :=
  match op with
  | .add => (addValues left right).mapError .ofFault
  | .subtract => (arithmetic op (· - ·) left right).mapError .ofFault
  | .multiply => (arithmetic op (· * ·) left right).mapError .ofFault
  | .divide => (divideValues left right).mapError .ofFault
  | .less => (ordering op (· < ·) left right).mapError .ofFault
  | .lessEqual => (ordering op (· ≤ ·) left right).mapError .ofFault
  | .greater => (ordering op (· > ·) left right).mapError .ofFault
  | .greaterEqual => (ordering op (· ≥ ·) left right).mapError .ofFault
  | .equal =>
      match heap.equal room left right with
      | some same => .ok (.value (.bool same))
      | none => .error .tooDeep
  | .notEqual =>
      match heap.equal room left right with
      | some same => .ok (.value (.bool !same))
      | none => .error .tooDeep

def negateValue : Value → Except Fault Outcome
  | .number x _ => .ok (.number (-x))
  | value => .error (.operandNotNumber value.type)

/-- What `++` and `--` make of the value of a variable. -/
def stepValue (name : String) (step : Step) : Value → Except Fault Outcome
  | .number x _ => .ok (.number (x + step.delta))
  | value => .error (.notSteppable value.type name)

/-- The digest of a string. -/
def hashValue : Value → Except Fault Value
  | .string s => .ok (.string (Digest.hexDigest s))
  | value => .error (.notHashable value.type)

end TernLang
