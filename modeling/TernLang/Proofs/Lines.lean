import TernLang.Parser.Statement

/-! # Renumbering lines

Tokens, mistakes and trees carry line numbers. `mapLines f` renumbers all of
them by `f`. With a constant `f` it forgets where a program is written: two
token lists that differ only in their lines have the same image, and so have
the trees of one program laid out in two ways.
-/

namespace TernLang

/-- The token on another line. -/
def Token.mapLine (f : Nat → Nat) (token : Token) : Token :=
  { token with line := f token.line }

@[simp] theorem Token.mapLine_kind (f : Nat → Nat) (token : Token) :
    (token.mapLine f).kind = token.kind := rfl

@[simp] theorem Token.mapLine_line (f : Nat → Nat) (token : Token) :
    (token.mapLine f).line = f token.line := rfl

/-- Renumbering every line by itself changes nothing. -/
@[simp] theorem Token.mapLine_id : Token.mapLine id = id := rfl

/-- The mistake with its token on another line. -/
def SyntaxError.mapLine (f : Nat → Nat) (error : SyntaxError) : SyntaxError :=
  { error with found := error.found.mapLine f }

@[simp] theorem SyntaxError.mapLine_id : SyntaxError.mapLine id = id := rfl

/-- The stop with its mistake on another line. -/
def ParseStop.mapLine (f : Nat → Nat) : ParseStop → ParseStop
  | .mistake error => .mistake (error.mapLine f)
  | .tooDeep => .tooDeep

mutual

def Expr.mapLines (f : Nat → Nat) : Expr → Expr
  | .literal value line => .literal value (f line)
  | .var name line => .var name (f line)
  | .assign name value line => .assign name (value.mapLines f) (f line)
  | .increment name step line => .increment name step (f line)
  | .logical left op right line => .logical (left.mapLines f) op (right.mapLines f) (f line)
  | .binary left op right line => .binary (left.mapLines f) op (right.mapLines f) (f line)
  | .unary op right line => .unary op (right.mapLines f) (f line)
  | .call callee arguments line =>
      .call (callee.mapLines f) (Expr.mapLinesAll f arguments) (f line)
  | .member target name line => .member (target.mapLines f) name (f line)
  | .grouping inner line => .grouping (inner.mapLines f) (f line)
  | .list elements line => .list (Expr.mapLinesAll f elements) (f line)
  | .index target position line =>
      .index (target.mapLines f) (position.mapLines f) (f line)
  | .slice target first last line =>
      .slice (target.mapLines f) (Expr.mapLinesOption f first) (Expr.mapLinesOption f last)
        (f line)

def Expr.mapLinesAll (f : Nat → Nat) : List Expr → List Expr
  | [] => []
  | expr :: rest => expr.mapLines f :: Expr.mapLinesAll f rest

def Expr.mapLinesOption (f : Nat → Nat) : Option Expr → Option Expr
  | none => none
  | some expr => some (expr.mapLines f)

end

@[simp] theorem Expr.mapLinesAll_eq_map (f : Nat → Nat) (exprs : List Expr) :
    Expr.mapLinesAll f exprs = exprs.map (Expr.mapLines f) := by
  induction exprs with
  | nil => rfl
  | cons expr rest ih => rw [Expr.mapLinesAll, ih, List.map_cons]

@[simp] theorem Expr.mapLinesOption_eq_map (f : Nat → Nat) (expr : Option Expr) :
    Expr.mapLinesOption f expr = expr.map (Expr.mapLines f) := by
  cases expr <;> rfl

@[simp] theorem Expr.mapLines_line (f : Nat → Nat) (expr : Expr) :
    (expr.mapLines f).line = f expr.line := by
  cases expr <;> rfl

mutual

/-- An expression stays as it is if no line is changed. -/
theorem Expr.mapLines_same : ∀ expr : Expr, expr.mapLines id = expr
  | .literal _ _ => rfl
  | .var _ _ => rfl
  | .assign _ value _ => by simp [Expr.mapLines, value.mapLines_same]
  | .increment _ _ _ => rfl
  | .logical left _ right _ => by simp [Expr.mapLines, left.mapLines_same, right.mapLines_same]
  | .binary left _ right _ => by simp [Expr.mapLines, left.mapLines_same, right.mapLines_same]
  | .unary _ right _ => by simp [Expr.mapLines, right.mapLines_same]
  | .call callee arguments _ => by
      rw [Expr.mapLines, callee.mapLines_same, Expr.mapLinesAll_same arguments, id]
  | .member target _ _ => by simp [Expr.mapLines, target.mapLines_same]
  | .grouping inner _ => by simp [Expr.mapLines, inner.mapLines_same]
  | .list elements _ => by rw [Expr.mapLines, Expr.mapLinesAll_same elements, id]
  | .index target position _ => by
      simp [Expr.mapLines, target.mapLines_same, position.mapLines_same]
  | .slice target first last _ => by
      rw [Expr.mapLines, target.mapLines_same, Expr.mapLinesOption_same first,
        Expr.mapLinesOption_same last, id]

theorem Expr.mapLinesAll_same : ∀ exprs : List Expr, Expr.mapLinesAll id exprs = exprs
  | [] => rfl
  | expr :: rest => by rw [Expr.mapLinesAll, expr.mapLines_same, Expr.mapLinesAll_same rest]

theorem Expr.mapLinesOption_same : ∀ expr : Option Expr, Expr.mapLinesOption id expr = expr
  | none => rfl
  | some expr => by rw [Expr.mapLinesOption, expr.mapLines_same]

end

/-- Renumbering every line by itself changes nothing. -/
@[simp] theorem Expr.mapLines_id : Expr.mapLines id = id :=
  funext Expr.mapLines_same

mutual

def Stmt.mapLines (f : Nat → Nat) : Stmt → Stmt
  | .expression expr line => .expression (expr.mapLines f) (f line)
  | .varDecl name initial line => .varDecl name (initial.map (Expr.mapLines f)) (f line)
  | .block body line => .block (Stmt.mapLinesAll f body) (f line)
  | .ifElse condition thenBranch elseBranch line =>
      .ifElse (condition.mapLines f) (thenBranch.mapLines f) (Stmt.mapLinesOption f elseBranch)
        (f line)
  | .whileLoop condition body line =>
      .whileLoop (condition.mapLines f) (body.mapLines f) (f line)
  | .print expr line => .print (expr.mapLines f) (f line)
  | .returnValue value line => .returnValue (value.map (Expr.mapLines f)) (f line)
  | .funDecl name params body line => .funDecl name params (Stmt.mapLinesAll f body) (f line)

def Stmt.mapLinesAll (f : Nat → Nat) : List Stmt → List Stmt
  | [] => []
  | stmt :: rest => stmt.mapLines f :: Stmt.mapLinesAll f rest

def Stmt.mapLinesOption (f : Nat → Nat) : Option Stmt → Option Stmt
  | none => none
  | some stmt => some (stmt.mapLines f)

end

@[simp] theorem Stmt.mapLinesAll_eq_map (f : Nat → Nat) (stmts : List Stmt) :
    Stmt.mapLinesAll f stmts = stmts.map (Stmt.mapLines f) := by
  induction stmts with
  | nil => rfl
  | cons stmt rest ih => rw [Stmt.mapLinesAll, ih, List.map_cons]

@[simp] theorem Stmt.mapLinesOption_eq_map (f : Nat → Nat) (stmt : Option Stmt) :
    Stmt.mapLinesOption f stmt = stmt.map (Stmt.mapLines f) := by
  cases stmt <;> rfl

@[simp] theorem Stmt.mapLines_line (f : Nat → Nat) (stmt : Stmt) :
    (stmt.mapLines f).line = f stmt.line := by
  cases stmt <;> rfl

mutual

/-- So does a statement. -/
theorem Stmt.mapLines_same : ∀ stmt : Stmt, stmt.mapLines id = stmt
  | .expression _ _ => by simp [Stmt.mapLines]
  | .varDecl _ _ _ => by simp [Stmt.mapLines]
  | .block body _ => by rw [Stmt.mapLines, Stmt.mapLinesAll_same body, id]
  | .ifElse _ thenBranch none _ => by
      simp [Stmt.mapLines, thenBranch.mapLines_same]
  | .ifElse _ thenBranch (some elseBranch) _ => by
      simp [Stmt.mapLines, thenBranch.mapLines_same, elseBranch.mapLines_same]
  | .whileLoop _ body _ => by simp [Stmt.mapLines, body.mapLines_same]
  | .print _ _ => by simp [Stmt.mapLines]
  | .returnValue _ _ => by simp [Stmt.mapLines]
  | .funDecl _ _ body _ => by rw [Stmt.mapLines, Stmt.mapLinesAll_same body, id]

theorem Stmt.mapLinesAll_same : ∀ stmts : List Stmt, Stmt.mapLinesAll id stmts = stmts
  | [] => rfl
  | stmt :: rest => by rw [Stmt.mapLinesAll, stmt.mapLines_same, Stmt.mapLinesAll_same rest]

end

/-- Renumbering every line by itself changes nothing. -/
@[simp] theorem Stmt.mapLines_id : Stmt.mapLines id = id :=
  funext Stmt.mapLines_same

/-- Renumbering goes through the desugaring of a for loop. -/
theorem Stmt.mapLines_forLoop (f : Nat → Nat) (initial : Option Stmt) (condition : Expr)
    (advance : Option Expr) (body : Stmt) (line : Nat) :
    (Stmt.forLoop initial condition advance body line).mapLines f =
      Stmt.forLoop (initial.map (Stmt.mapLines f)) (condition.mapLines f)
        (advance.map (Expr.mapLines f)) (body.mapLines f) (f line) := by
  cases initial <;> cases advance <;> simp [Stmt.forLoop, Stmt.mapLines]

end TernLang
