import TernLang.Environment

/-! # Programs whose names are declared

A program is well-scoped if every name it reads, assigns or steps is built in or
is declared in front of the use, in the same block or function or in one around
it. This is decided on the tree, with the list of the names that are declared so
far:

* a `var` or `def` declares its name for the statements behind it in the same
  block; the initial value of a variable does not see the variable;
* the body of a function sees the function itself and its parameters;
* what is declared in a block, a branch or a body is not seen behind it.
-/

namespace TernLang

mutual

/-- Every name of the expression is one of `names`. -/
def Expr.resolves (names : List String) : Expr → Bool
  | .literal _ _ => true
  | .var name _ => names.contains name
  | .assign name value _ => names.contains name && value.resolves names
  | .increment name _ _ => names.contains name
  | .logical left _ right _ => left.resolves names && right.resolves names
  | .binary left _ right _ => left.resolves names && right.resolves names
  | .unary _ right _ => right.resolves names
  | .call callee arguments _ => callee.resolves names && Expr.resolvesAll names arguments
  | .member target _ _ => target.resolves names
  | .grouping inner _ => inner.resolves names
  | .list elements _ => Expr.resolvesAll names elements
  | .index target position _ => target.resolves names && position.resolves names
  | .slice target first last _ =>
      target.resolves names && Expr.resolvesOption names first && Expr.resolvesOption names last

def Expr.resolvesAll (names : List String) : List Expr → Bool
  | [] => true
  | expr :: rest => expr.resolves names && Expr.resolvesAll names rest

def Expr.resolvesOption (names : List String) : Option Expr → Bool
  | none => true
  | some expr => expr.resolves names

end

/-- The names that a statement declares for the statements behind it. -/
def Stmt.declared : Stmt → List String
  | .varDecl name _ _ => [name]
  | .funDecl name _ _ _ => [name]
  | _ => []

mutual

/-- The statement is well-scoped where `names` are declared. -/
def Stmt.resolves (names : List String) : Stmt → Bool
  | .expression expr _ => expr.resolves names
  | .varDecl _ initial _ => Expr.resolvesOption names initial
  | .block body _ => Stmt.resolvesAll names body
  | .ifElse condition thenBranch elseBranch _ =>
      condition.resolves names && thenBranch.resolves names && Stmt.resolvesOption names elseBranch
  | .whileLoop condition body _ => condition.resolves names && body.resolves names
  | .print expr _ => expr.resolves names
  | .returnValue value _ => Expr.resolvesOption names value
  | .funDecl name params body _ => Stmt.resolvesAll (params ++ name :: names) body

def Stmt.resolvesAll (names : List String) : List Stmt → Bool
  | [] => true
  | stmt :: rest => stmt.resolves names && Stmt.resolvesAll (stmt.declared ++ names) rest

def Stmt.resolvesOption (names : List String) : Option Stmt → Bool
  | none => true
  | some stmt => stmt.resolves names

end

/-- The names that every program starts with. -/
def builtinNames : List String :=
  Heap.builtins.map Prod.fst

def wellScoped (statements : List Stmt) : Bool :=
  Stmt.resolvesAll builtinNames statements

@[simp] theorem Expr.resolvesAll_eq_all (names : List String) (exprs : List Expr) :
    Expr.resolvesAll names exprs = exprs.all (Expr.resolves names) := by
  induction exprs with
  | nil => rfl
  | cons expr rest ih => rw [Expr.resolvesAll, ih, List.all_cons]

end TernLang
