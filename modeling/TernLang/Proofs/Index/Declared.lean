import TernLang.Index
import TernLang.Proofs.Nodes

/-! # The declarations in a tree

The declarations that an index is made of are the nodes of the program that are
declarations, in the order of the nodes (`Declaration.among`). The traversal that finds
them goes one level down for each block, branch, loop and function around a statement.
**It finds all of them if there are levels enough, and gives up if not**
(`Declaration.inside_eq`).
-/

namespace TernLang

namespace Declaration

/-- The declaration that a node is. -/
def ofNode? : Node → Option Declaration
  | .stmt (.funDecl name params _ line) => some ⟨name, .function, params, line⟩
  | .stmt (.varDecl name _ line) => some ⟨name, .var, [], line⟩
  | _ => none

/-- The declarations anywhere in statements. -/
def among (stmts : List Stmt) : List Declaration :=
  (Stmt.nodesAll stmts).filterMap ofNode?

end Declaration

mutual

/-- How many statements are nested in each other inside a statement. -/
def Stmt.nesting : Stmt → Nat
  | .expression _ _ => 0
  | .varDecl _ _ _ => 0
  | .block body _ => Stmt.nestingAll body + 1
  | .ifElse _ thenBranch elseBranch _ =>
      max thenBranch.nesting (Stmt.nestingOption elseBranch) + 1
  | .whileLoop _ body _ => body.nesting + 1
  | .print _ _ => 0
  | .returnValue _ _ => 0
  | .funDecl _ _ body _ => Stmt.nestingAll body + 1

def Stmt.nestingAll : List Stmt → Nat
  | [] => 0
  | stmt :: rest => max stmt.nesting (Stmt.nestingAll rest)

def Stmt.nestingOption : Option Stmt → Nat
  | none => 0
  | some stmt => stmt.nesting

end

/-! ## Expressions declare nothing -/

@[simp] theorem Declaration.ofNode?_expr (expr : Expr) : ofNode? (.expr expr) = none := rfl

mutual

/-- No node inside an expression declares anything. -/
theorem Expr.declares_nothing : ∀ expr : Expr, ∀ node ∈ expr.nodes, Declaration.ofNode? node = none
  | .literal _ _ => by simp [Expr.nodes]
  | .var _ _ => by simp [Expr.nodes]
  | .assign _ value _ => by simpa [Expr.nodes] using value.declares_nothing
  | .increment _ _ _ => by simp [Expr.nodes]
  | .logical left _ right _ => by
      simpa [Expr.nodes, or_imp, forall_and] using ⟨left.declares_nothing, right.declares_nothing⟩
  | .binary left _ right _ => by
      simpa [Expr.nodes, or_imp, forall_and] using ⟨left.declares_nothing, right.declares_nothing⟩
  | .unary _ right _ => by simpa [Expr.nodes] using right.declares_nothing
  | .call callee arguments _ => by
      simpa [Expr.nodes, or_imp, forall_and] using
        ⟨callee.declares_nothing, Expr.declares_nothing_all arguments⟩
  | .member target _ _ => by simpa [Expr.nodes] using target.declares_nothing
  | .grouping inner _ => by simpa [Expr.nodes] using inner.declares_nothing
  | .list elements _ => by simpa [Expr.nodes] using Expr.declares_nothing_all elements
  | .index target position _ => by
      simpa [Expr.nodes, or_imp, forall_and] using
        ⟨target.declares_nothing, position.declares_nothing⟩
  | .slice target first last _ => by
      simpa [Expr.nodes, or_imp, forall_and] using ⟨target.declares_nothing,
        Expr.declares_nothing_option first, Expr.declares_nothing_option last⟩

theorem Expr.declares_nothing_all : ∀ exprs : List Expr, ∀ node ∈ Expr.nodesAll exprs,
    Declaration.ofNode? node = none
  | [] => by simp [Expr.nodesAll]
  | expr :: rest => by
      simpa [Expr.nodesAll, or_imp, forall_and] using
        ⟨expr.declares_nothing, Expr.declares_nothing_all rest⟩

theorem Expr.declares_nothing_option : ∀ expr : Option Expr, ∀ node ∈ Expr.nodesOption expr,
    Declaration.ofNode? node = none
  | none => by simp [Expr.nodesOption]
  | some expr => by simpa [Expr.nodesOption] using expr.declares_nothing

end

namespace Declaration

/-! ## What each statement declares -/

@[simp] theorem among_nil : among [] = [] := rfl

theorem among_cons (stmt : Stmt) (rest : List Stmt) :
    among (stmt :: rest) = among [stmt] ++ among rest := by
  simp [among, Stmt.nodesAll]

theorem among_append (stmts rest : List Stmt) :
    among (stmts ++ rest) = among stmts ++ among rest := by
  induction stmts with
  | nil => rfl
  | cons stmt more ih =>
      rw [List.cons_append, among_cons, ih, among_cons stmt more, List.append_assoc]

theorem filterMap_expr (expr : Expr) : expr.nodes.filterMap ofNode? = [] :=
  List.filterMap_eq_nil_iff.mpr expr.declares_nothing

theorem filterMap_option (expr : Option Expr) : (Expr.nodesOption expr).filterMap ofNode? = [] :=
  List.filterMap_eq_nil_iff.mpr (Expr.declares_nothing_option expr)

@[simp] theorem among_expression (expr : Expr) (line : Nat) :
    among [.expression expr line] = [] := by
  rw [among, Stmt.nodesAll, Stmt.nodes, List.filterMap_append, List.filterMap_cons_none rfl,
    filterMap_expr]
  rfl

@[simp] theorem among_varDecl (name : String) (initial : Option Expr) (line : Nat) :
    among [.varDecl name initial line] = [⟨name, .var, [], line⟩] := by
  rw [among, Stmt.nodesAll, Stmt.nodes, List.filterMap_append, List.filterMap_cons,
    filterMap_option]
  rfl

/-- A block declares what its statements declare. -/
@[simp] theorem among_block (body : List Stmt) (line : Nat) :
    among [.block body line] = among body := by
  rw [among, Stmt.nodesAll, Stmt.nodes_block, List.filterMap_append, List.filterMap_cons_none rfl]
  exact List.append_nil _

/-- A conditional declares what its branches declare, the then branch first. -/
@[simp] theorem among_ifElse (condition : Expr) (thenBranch : Stmt) (elseBranch : Option Stmt)
    (line : Nat) :
    among [.ifElse condition thenBranch elseBranch line] =
      among [thenBranch] ++ among elseBranch.toList := by
  have other : (Stmt.nodesOption elseBranch).filterMap ofNode? = among elseBranch.toList := by
    cases elseBranch <;> simp [among, Stmt.nodesAll, Stmt.nodesOption]
  rw [among, Stmt.nodesAll, Stmt.nodes, List.filterMap_append, List.filterMap_cons_none rfl,
    List.filterMap_append, List.filterMap_append, filterMap_expr, other]
  simp [among, Stmt.nodesAll]

@[simp] theorem among_whileLoop (condition : Expr) (body : Stmt) (line : Nat) :
    among [.whileLoop condition body line] = among [body] := by
  rw [among, Stmt.nodesAll, Stmt.nodes_whileLoop, List.filterMap_append,
    List.filterMap_cons_none rfl, List.filterMap_append, filterMap_expr]
  simp [among, Stmt.nodesAll]

@[simp] theorem among_print (expr : Expr) (line : Nat) : among [.print expr line] = [] := by
  rw [among, Stmt.nodesAll, Stmt.nodes, List.filterMap_append, List.filterMap_cons_none rfl,
    filterMap_expr]
  rfl

@[simp] theorem among_returnValue (value : Option Expr) (line : Nat) :
    among [.returnValue value line] = [] := by
  rw [among, Stmt.nodesAll, Stmt.nodes, List.filterMap_append, List.filterMap_cons_none rfl,
    filterMap_option]
  rfl

/-- A function declares itself first, then what its body declares. -/
@[simp] theorem among_funDecl (name : String) (params : List String) (body : List Stmt)
    (line : Nat) :
    among [.funDecl name params body line] = ⟨name, .function, params, line⟩ :: among body := by
  rw [among, Stmt.nodesAll, Stmt.nodes, List.filterMap_append, List.filterMap_cons]
  exact List.append_nil _

/-! ## The traversal -/

/-- Joining finds everything if every statement is searched to its bottom. -/
theorem collect_eq {find : Stmt → Option (List Declaration)} {room : Nat}
    (finds : ∀ stmt, find stmt = if stmt.nesting < room + 1 then some (among [stmt]) else none)
    (stmts : List Stmt) :
    collect find stmts =
      if Stmt.nestingAll stmts < room + 1 then some (among stmts) else none := by
  induction stmts with
  | nil => simp [collect, Stmt.nestingAll]
  | cons stmt rest ih =>
      rw [collect, finds, ih, among_cons stmt rest]
      simp only [Stmt.nestingAll, Nat.max_lt]
      by_cases first : stmt.nesting < room + 1 <;>
        by_cases others : Stmt.nestingAll rest < room + 1 <;> simp [first, others]

/-- **The traversal finds the declarations among the nodes**, if the statements are not
nested too deeply for it. -/
theorem inside_eq (room : Nat) (stmts : List Stmt) :
    inside room stmts = if Stmt.nestingAll stmts < room then some (among stmts) else none := by
  induction room generalizing stmts with
  | zero => rfl
  | succ room ih =>
      have single (stmt : Stmt) :
          inside room [stmt] = if stmt.nesting < room then some (among [stmt]) else none := by
        simp [ih, Stmt.nestingAll]
      refine collect_eq (fun stmt => ?_) stmts
      cases stmt with
      | expression expr line => simp [Stmt.nesting]
      | varDecl name initial line => simp [Stmt.nesting]
      | block body line => simp [ih, Stmt.nesting]
      | ifElse condition thenBranch elseBranch line =>
          cases elseBranch with
          | none => simp [single, Stmt.nesting, Stmt.nestingOption]
          | some other =>
              simp only [single, Stmt.nesting, Stmt.nestingOption, Nat.add_lt_add_iff_right,
                Nat.max_lt]
              by_cases first : thenBranch.nesting < room <;>
                by_cases second : other.nesting < room <;> simp [first, second]
      | whileLoop condition body line => simp [single, Stmt.nesting]
      | print expr line => simp [Stmt.nesting]
      | returnValue value line => simp [Stmt.nesting]
      | funDecl name params body line =>
          by_cases fits : Stmt.nestingAll body < room <;>
            simp [ih, Stmt.nesting, fits]

/-- What the traversal lists, when it has room, is what the statements declare. -/
theorem among_eq_of_inside {room : Nat} {stmts : List Stmt} {declared : List Declaration}
    (found : inside room stmts = some declared) : among stmts = declared := by
  rw [inside_eq] at found
  split at found
  · exact Option.some.inj found
  · cases found

end Declaration

end TernLang
