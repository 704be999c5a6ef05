import TernLang.Syntax

/-! # The nodes of a tree

All expressions and statements inside a tree, each with the line it carries. A
constant is the one node that can never be the place of a fault; `Placed` says of
the lines of all other nodes that they are among given ones.
-/

namespace TernLang

/-- A node of a tree. -/
inductive Node where
  | expr (expr : Expr)
  | stmt (stmt : Stmt)

namespace Node

/-- The line a node carries. -/
def line : Node → Nat
  | expr e => e.line
  | stmt s => s.line

def IsConstant : Node → Prop
  | expr (.literal _ _) => True
  | _ => False

end Node

mutual

def Expr.nodes : Expr → List Node
  | .literal value line => [.expr (.literal value line)]
  | .var name line => [.expr (.var name line)]
  | .assign name value line => .expr (.assign name value line) :: value.nodes
  | .increment name step line => [.expr (.increment name step line)]
  | .logical left op right line =>
      .expr (.logical left op right line) :: (left.nodes ++ right.nodes)
  | .binary left op right line =>
      .expr (.binary left op right line) :: (left.nodes ++ right.nodes)
  | .unary op right line => .expr (.unary op right line) :: right.nodes
  | .call callee arguments line =>
      .expr (.call callee arguments line) :: (callee.nodes ++ Expr.nodesAll arguments)
  | .member target name line => .expr (.member target name line) :: target.nodes
  | .grouping inner line => .expr (.grouping inner line) :: inner.nodes
  | .list elements line => .expr (.list elements line) :: Expr.nodesAll elements
  | .index target position line =>
      .expr (.index target position line) :: (target.nodes ++ position.nodes)
  | .slice target first last line =>
      .expr (.slice target first last line) ::
        (target.nodes ++ (Expr.nodesOption first ++ Expr.nodesOption last))

def Expr.nodesAll : List Expr → List Node
  | [] => []
  | expr :: rest => expr.nodes ++ Expr.nodesAll rest

def Expr.nodesOption : Option Expr → List Node
  | none => []
  | some expr => expr.nodes

end

mutual

def Stmt.nodes : Stmt → List Node
  | .expression expr line => .stmt (.expression expr line) :: expr.nodes
  | .varDecl name initial line => .stmt (.varDecl name initial line) :: Expr.nodesOption initial
  | .block body line => .stmt (.block body line) :: Stmt.nodesAll body
  | .ifElse condition thenBranch elseBranch line =>
      .stmt (.ifElse condition thenBranch elseBranch line) ::
        (condition.nodes ++ (thenBranch.nodes ++ Stmt.nodesOption elseBranch))
  | .whileLoop condition body line =>
      .stmt (.whileLoop condition body line) :: (condition.nodes ++ body.nodes)
  | .print expr line => .stmt (.print expr line) :: expr.nodes
  | .returnValue value line => .stmt (.returnValue value line) :: Expr.nodesOption value
  | .funDecl name params body line =>
      .stmt (.funDecl name params body line) :: Stmt.nodesAll body

def Stmt.nodesAll : List Stmt → List Node
  | [] => []
  | stmt :: rest => stmt.nodes ++ Stmt.nodesAll rest

def Stmt.nodesOption : Option Stmt → List Node
  | none => []
  | some stmt => stmt.nodes

end

theorem Stmt.nodes_block (body : List Stmt) (line : Nat) :
    (Stmt.block body line).nodes = .stmt (.block body line) :: Stmt.nodesAll body := by
  rw [Stmt.nodes]

theorem Stmt.nodes_whileLoop (condition : Expr) (body : Stmt) (line : Nat) :
    (Stmt.whileLoop condition body line).nodes =
      .stmt (.whileLoop condition body line) :: (condition.nodes ++ body.nodes) := by
  rw [Stmt.nodes]

/-- The lines of all nodes but the constants are among the places. -/
def Node.Placed (places : Nat → Prop) (nodes : List Node) : Prop :=
  ∀ node ∈ nodes, ¬ node.IsConstant → places node.line

variable {places : Nat → Prop}

@[simp] theorem Node.placed_nil : Node.Placed places [] := by
  simp [Node.Placed]

@[simp] theorem Node.placed_cons (node : Node) (nodes : List Node) :
    Node.Placed places (node :: nodes) ↔
      (¬ node.IsConstant → places node.line) ∧ Node.Placed places nodes := by
  simp [Node.Placed]

@[simp] theorem Node.placed_append (nodes others : List Node) :
    Node.Placed places (nodes ++ others) ↔
      Node.Placed places nodes ∧ Node.Placed places others := by
  simp [Node.Placed, or_imp, forall_and]

theorem Node.placed_anywhere (nodes : List Node) : Node.Placed (fun _ => True) nodes :=
  fun _ _ _ => trivial

theorem Expr.placed_of_mem {exprs : List Expr} (placed : Node.Placed places (Expr.nodesAll exprs))
    {expr : Expr} (mem : expr ∈ exprs) : Node.Placed places expr.nodes := by
  induction exprs with
  | nil => cases mem
  | cons first rest ih =>
      rw [Expr.nodesAll, Node.placed_append] at placed
      rcases List.mem_cons.mp mem with rfl | later
      · exact placed.1
      · exact ih placed.2 later

theorem Stmt.placed_of_mem {stmts : List Stmt} (placed : Node.Placed places (Stmt.nodesAll stmts))
    {stmt : Stmt} (mem : stmt ∈ stmts) : Node.Placed places stmt.nodes := by
  induction stmts with
  | nil => cases mem
  | cons first rest ih =>
      rw [Stmt.nodesAll, Node.placed_append] at placed
      rcases List.mem_cons.mp mem with rfl | later
      · exact placed.1
      · exact ih placed.2 later

/-- The line of an expression other than a constant is among the places. -/
theorem Expr.literal_or_places {expr : Expr} (placed : Node.Placed places expr.nodes) :
    (∃ value line, expr = .literal value line) ∨ places expr.line := by
  have self : Node.expr expr ∈ expr.nodes := by cases expr <;> simp [Expr.nodes]
  have place := placed (.expr expr) self
  cases expr with
  | literal value line => exact .inl ⟨value, line, rfl⟩
  | _ => exact .inr (place id)

/-- The line of a statement is among the places. -/
theorem Stmt.places_line {stmt : Stmt} (placed : Node.Placed places stmt.nodes) :
    places stmt.line := by
  have self : Node.stmt stmt ∈ stmt.nodes := by cases stmt <;> simp [Stmt.nodes]
  exact placed (.stmt stmt) self id

end TernLang
