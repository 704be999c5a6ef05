/-! # Programs as trees

Expressions and statements, as the parser builds them. Every node carries the
line it is reported with. A `for` loop has no node of its own: it is a block
around a `while` loop.
-/

namespace TernLang

/-- Constants that a program can write down. -/
inductive Literal where
  | null
  | bool (value : Bool)
  | number (value : Float)
  | string (value : String)

/-- Operators that evaluate both operands. -/
inductive BinaryOp where
  | add | subtract | multiply | divide
  | less | lessEqual | greater | greaterEqual
  | equal | notEqual
  deriving DecidableEq, Repr

namespace BinaryOp

def text : BinaryOp → String
  | add => "+"
  | subtract => "-"
  | multiply => "*"
  | divide => "/"
  | less => "<"
  | lessEqual => "<="
  | greater => ">"
  | greaterEqual => ">="
  | equal => "=="
  | notEqual => "!="

def all : List BinaryOp :=
  [add, subtract, multiply, divide, less, lessEqual, greater, greaterEqual, equal, notEqual]

def ofText? (word : String) : Option BinaryOp :=
  all.find? (·.text == word)

end BinaryOp

/-- Operators that may leave out their right operand. -/
inductive LogicalOp where
  | or | and
  deriving DecidableEq, Repr

def LogicalOp.text : LogicalOp → String
  | or => "or"
  | and => "and"

/-- Operators in front of one operand. -/
inductive UnaryOp where
  | negate | not
  deriving DecidableEq, Repr

def UnaryOp.text : UnaryOp → String
  | negate => "-"
  | not => "!"

/-- The direction of `++` and `--`. -/
inductive Step where
  | up | down
  deriving DecidableEq, Repr

/-- What a step adds to a variable. -/
def Step.delta : Step → Float
  | up => 1
  | down => -1

inductive Expr where
  | literal (value : Literal) (line : Nat)
  | var (name : String) (line : Nat)
  | assign (name : String) (value : Expr) (line : Nat)
  | increment (name : String) (step : Step) (line : Nat)
  | logical (left : Expr) (op : LogicalOp) (right : Expr) (line : Nat)
  | binary (left : Expr) (op : BinaryOp) (right : Expr) (line : Nat)
  | unary (op : UnaryOp) (right : Expr) (line : Nat)
  | call (callee : Expr) (arguments : List Expr) (line : Nat)
  | member (target : Expr) (name : String) (line : Nat)
  | grouping (inner : Expr) (line : Nat)
  | list (elements : List Expr) (line : Nat)
  | index (target : Expr) (position : Expr) (line : Nat)
  | slice (target : Expr) (first last : Option Expr) (line : Nat)

/-- The line an expression is reported with. -/
def Expr.line : Expr → Nat
  | literal _ line => line
  | var _ line => line
  | assign _ _ line => line
  | increment _ _ line => line
  | logical _ _ _ line => line
  | binary _ _ _ line => line
  | unary _ _ line => line
  | call _ _ line => line
  | member _ _ line => line
  | grouping _ line => line
  | list _ line => line
  | index _ _ line => line
  | slice _ _ _ line => line

inductive Stmt where
  | expression (expr : Expr) (line : Nat)
  | varDecl (name : String) (initial : Option Expr) (line : Nat)
  | block (body : List Stmt) (line : Nat)
  | ifElse (condition : Expr) (thenBranch : Stmt) (elseBranch : Option Stmt) (line : Nat)
  | whileLoop (condition : Expr) (body : Stmt) (line : Nat)
  | print (expr : Expr) (line : Nat)
  | returnValue (value : Option Expr) (line : Nat)
  | funDecl (name : String) (params : List String) (body : List Stmt) (line : Nat)

/-- The line a statement is reported with. -/
def Stmt.line : Stmt → Nat
  | expression _ line => line
  | varDecl _ _ line => line
  | block _ line => line
  | ifElse _ _ _ line => line
  | whileLoop _ _ line => line
  | print _ line => line
  | returnValue _ line => line
  | funDecl _ _ _ line => line

end TernLang
