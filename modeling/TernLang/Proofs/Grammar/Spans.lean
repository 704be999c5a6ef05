import TernLang.Proofs.Grammar
import TernLang.Proofs.Nodes

/-! # The tokens of a node

`Phrase tokens node` says that a node was read from the tokens. Every node of a
program has such a span among the tokens of the program, and **the line it carries
is the line of a token in its own span** (`Declarations.spanned`).

A constant needs no span, since nothing can go wrong there. This also leaves out
the one node that was read from no token, the condition that a `for` statement
does without. The other nodes of a `for` statement that are not written in the
program are read from the part of the statement that they cover.
-/

namespace TernLang.Grammar

/-! ## Phrases -/

/-- The statements of one pass of a `for` loop. -/
def forStep : Option Expr → Stmt → List Stmt
  | none, body => [body]
  | some expr, body => [body, .expression expr expr.line]

/-- One pass of a `for` loop. -/
def forBody (advance : Option Expr) (body : Stmt) : Stmt :=
  .block (forStep advance body) body.line

/-- The loop of a `for` statement. -/
def forWhile (condition : Option Expr) (semicolon : Nat) (advance : Option Expr) (body : Stmt)
    (line : Nat) : Stmt :=
  .whileLoop (condition.getD (.literal (.bool true) semicolon)) (forBody advance body) line

/-- The tree of a for loop, written as the block and the while loop it stands for. -/
theorem forTree_eq (initial : Option Stmt) (condition : Option Expr) (semicolon : Nat)
    (advance : Option Expr) (body : Stmt) (line : Nat) :
    forTree initial condition semicolon advance body line =
      .block (initial.toList ++ [forWhile condition semicolon advance body line]) line := by
  cases initial <;> cases advance <;> rfl

/-- The tokens are those that the node was read from. -/
inductive Phrase : List Token → Node → Prop
  | expression {level tokens tree} : Expression level tokens tree → Phrase tokens (.expr tree)
  | declaration {tokens tree} : Declaration tokens tree → Phrase tokens (.stmt tree)
  | loop {line paren first initial test condition semicolon change advance close dangling inner
      body} :
      Initial first initial → Bound test condition → Bound change advance →
      Statement dangling inner body →
      Phrase
        (word .forKw line :: sym .leftParen paren ::
          (first ++ (test ++ sym .semicolon semicolon ::
            (change ++ sym .rightParen close :: inner))))
        (.stmt (forWhile condition semicolon advance body line))
  | pass {change advance close dangling inner body} : Bound change advance →
      Statement dangling inner body →
      Phrase (change ++ sym .rightParen close :: inner) (.stmt (forBody advance body))
  | advance {tokens tree} : Expression .assignment tokens tree →
      Phrase tokens (.stmt (.expression tree tree.line))

/-- The node was read from consecutive tokens, and its line is the line of one of
them. -/
def SpannedIn (tokens : List Token) (node : Node) : Prop :=
  ∃ span, span <:+: tokens ∧ Phrase span node ∧ ∃ token ∈ span, token.line = node.line

/-- All nodes but the constants were read from some of the tokens. -/
def Spanned (tokens : List Token) (nodes : List Node) : Prop :=
  ∀ node ∈ nodes, ¬ node.IsConstant → SpannedIn tokens node

section Spanned

variable {tokens : List Token}

/-- A node whose phrase is the tokens themselves and whose line is among theirs is spanned
in them. -/
theorem SpannedIn.self {node : Node} (phrase : Phrase tokens node)
    (line : ∃ token ∈ tokens, token.line = node.line) : SpannedIn tokens node :=
  ⟨tokens, List.infix_rfl, phrase, line⟩

@[simp] theorem spanned_nil : Spanned tokens [] := by
  simp [Spanned]

@[simp] theorem spanned_cons (node : Node) (nodes : List Node) :
    Spanned tokens (node :: nodes) ↔
      (¬ node.IsConstant → SpannedIn tokens node) ∧ Spanned tokens nodes := by
  simp [Spanned]

@[simp] theorem spanned_append (nodes others : List Node) :
    Spanned tokens (nodes ++ others) ↔ Spanned tokens nodes ∧ Spanned tokens others := by
  simp [Spanned, or_imp, forall_and]

theorem spanned_literal (value : Literal) (line : Nat) :
    Spanned tokens [.expr (.literal value line)] := by
  simp [Node.IsConstant]

/-- What was read from some tokens was read from more of them. -/
theorem Spanned.within {more : List Token} {nodes : List Node} (spanned : Spanned tokens nodes)
    (part : tokens <:+: more) : Spanned more nodes := by
  intro node mem other
  obtain ⟨span, inside, phrase, line⟩ := spanned node mem other
  exact ⟨span, inside.trans part, phrase, line⟩

/-- Nodes spanned in tokens are spanned in more of them. -/
theorem Spanned.cons {nodes : List Node} (spanned : Spanned tokens nodes) {token : Token} :
    Spanned (token :: tokens) nodes :=
  spanned.within (List.suffix_cons token tokens).isInfix

theorem Spanned.before {nodes : List Node} (spanned : Spanned tokens nodes) {others : List Token} :
    Spanned (tokens ++ others) nodes :=
  spanned.within (List.prefix_append tokens others).isInfix

theorem Spanned.behind {nodes : List Node} (spanned : Spanned tokens nodes) {others : List Token} :
    Spanned (others ++ tokens) nodes :=
  spanned.within (List.suffix_append others tokens).isInfix

end Spanned

/-! ## A node's line is in its own span -/

/-- The line of a chain is that of an operator in it or of its first operand. -/
theorem Repetition.line_mem {level : Level} {left tree : Expr} {others : List Token} :
    Repetition level left others tree → ∀ before : List Token,
      (∃ token ∈ before, token.line = left.line) →
        ∃ token ∈ before ++ others, token.line = tree.line
  | .done, before, line => by simpa using line
  | @Repetition.logical op opLine _ tokens right others _ _ rest, before, line => by
      -- the node has the line of its left operand
      obtain ⟨token, mem, same⟩ := line
      have found := rest.line_mem (before ++ word op.keyword opLine :: tokens)
        ⟨token, List.mem_append_left _ mem, same⟩
      simpa using found
  | @Repetition.binary op opLine _ tokens right others _ _ rest, before, line => by
      have found := rest.line_mem (before ++ sym op.symbol opLine :: tokens)
        ⟨sym op.symbol opLine, by simp, rfl⟩
      simpa using found
  | @Repetition.call paren _ tokens arguments close others _ _ rest, before, line => by
      have found := rest.line_mem
        (before ++ sym .leftParen paren :: (tokens ++ [sym .rightParen close]))
        ⟨sym .leftParen paren, by simp, rfl⟩
      simpa using found
  | @Repetition.member dot _ name nameLine others _ rest, before, line => by
      have found := rest.line_mem (before ++ [sym .dot dot, ident name nameLine])
        ⟨ident name nameLine, by simp, rfl⟩
      simpa using found
  | @Repetition.index bracket _ tokens position close others _ _ rest, before, line => by
      have found := rest.line_mem
        (before ++ sym .leftBracket bracket :: (tokens ++ [sym .rightBracket close]))
        ⟨sym .leftBracket bracket, by simp, rfl⟩
      simpa using found
  | @Repetition.slice bracket _ tokens first colon tokens' last close others _ _ _ rest, before,
      line => by
      have found := rest.line_mem
        (before ++ sym .leftBracket bracket ::
          (tokens ++ sym .colon colon :: (tokens' ++ [sym .rightBracket close])))
        ⟨sym .leftBracket bracket, by simp, rfl⟩
      simpa using found

/-- The line of an expression is the line of one of its tokens. -/
theorem Expression.line_mem {level : Level} {tokens : List Token} {tree : Expr} :
    Expression level tokens tree → ∃ token ∈ tokens, token.line = tree.line
  | .ofDisjunction inner => inner.line_mem
  | .ofCall inner => inner.line_mem
  | .repetition _ first rest => rest.line_mem _ first.line_mem
  | .assign _ => ⟨_, List.mem_cons_self, rfl⟩
  | .increment => ⟨_, List.mem_cons_self, rfl⟩
  | .unary _ => ⟨_, List.mem_cons_self, rfl⟩
  | .number => ⟨_, List.mem_cons_self, rfl⟩
  | .string => ⟨_, List.mem_cons_self, rfl⟩
  | .true => ⟨_, List.mem_cons_self, rfl⟩
  | .false => ⟨_, List.mem_cons_self, rfl⟩
  | .null => ⟨_, List.mem_cons_self, rfl⟩
  | .name => ⟨_, List.mem_cons_self, rfl⟩
  | .grouping _ => ⟨_, List.mem_cons_self, rfl⟩
  | .list _ => ⟨_, List.mem_cons_self, rfl⟩

theorem Statement.line_mem {dangling : Bool} {tokens : List Token} {tree : Stmt}
    (phrase : Statement dangling tokens tree) : ∃ token ∈ tokens, token.line = tree.line := by
  cases phrase with
  | expression inner =>
      obtain ⟨token, mem, same⟩ := inner.line_mem
      exact ⟨token, List.mem_append_left _ mem, same⟩
  | forLoop =>
      rw [forTree_eq]
      exact ⟨_, List.mem_cons_self, rfl⟩
  | _ => exact ⟨_, List.mem_cons_self, rfl⟩

theorem Declaration.line_mem {tokens : List Token} {tree : Stmt}
    (phrase : Declaration tokens tree) : ∃ token ∈ tokens, token.line = tree.line := by
  cases phrase with
  | statement inner => exact inner.line_mem
  | _ => exact ⟨_, List.mem_cons_self, rfl⟩

theorem Expression.spannedIn {level : Level} {tokens : List Token} {tree : Expr}
    (phrase : Expression level tokens tree) : SpannedIn tokens (.expr tree) :=
  .self (.expression phrase) phrase.line_mem

theorem Declaration.spannedIn {tokens : List Token} {tree : Stmt}
    (phrase : Declaration tokens tree) : SpannedIn tokens (.stmt tree) :=
  .self (.declaration phrase) phrase.line_mem

/-! ## The nodes of an expression -/

/-- A repetition that goes on. -/
theorem Repetition.trans {level : Level} {left mid tree : Expr} {others : List Token} :
    ∀ {tokens : List Token}, Repetition level left tokens mid → Repetition level mid others tree →
      Repetition level left (tokens ++ others) tree
  | _, .done, more => more
  | _, .logical operand rest, more => by
      simpa using Repetition.logical operand (rest.trans more)
  | _, .binary operand rest, more => by
      simpa using Repetition.binary operand (rest.trans more)
  | _, .call given rest, more => by
      simpa using Repetition.call given (rest.trans more)
  | _, .member rest, more => .member (rest.trans more)
  | _, .index position rest, more => by
      simpa using Repetition.index position (rest.trans more)
  | _, .slice first last rest, more => by
      simpa using Repetition.slice first last (rest.trans more)

/-- A phrase of a level that repeats, and more of the same level. -/
theorem Expression.extend {level : Level} {tokens others : List Token} {left tree : Expr}
    (repeats : level.repeats = .true) (phrase : Expression level tokens left)
    (more : Repetition level left others tree) : Expression level (tokens ++ others) tree := by
  cases phrase with
  | repetition _ first rest =>
      rw [List.append_assoc]
      exact .repetition repeats first (rest.trans more)
  | _ => cases repeats

mutual

/-- Every node of an expression is the tree of a phrase among its tokens. -/
theorem Expression.spanned {level : Level} {tokens : List Token} {tree : Expr} :
    Expression level tokens tree → Spanned tokens tree.nodes
  | .ofDisjunction inner => inner.spanned
  | .ofCall inner => inner.spanned
  | .repetition repeats first rest =>
      rest.spanned repeats (.of_tighter repeats first) first.spanned
  | @Expression.assign name line equals tokens value inner => by
      have phrase : Expression .assignment (ident name line :: sym .equal equals :: tokens)
          (.assign name value line) := .assign inner
      simp only [Expr.nodes, spanned_cons]
      exact ⟨fun _ => phrase.spannedIn, inner.spanned.cons.cons⟩
  | @Expression.increment name line step stepLine => by
      have phrase := @Expression.increment name line step stepLine
      simp only [Expr.nodes, spanned_cons, spanned_nil, and_true]
      exact fun _ => phrase.spannedIn
  | @Expression.unary op line tokens right inner => by
      have phrase : Expression .unary (sym (UnaryOp.symbol op) line :: tokens)
          (.unary op right line) := .unary inner
      simp only [Expr.nodes, spanned_cons]
      exact ⟨fun _ => phrase.spannedIn, inner.spanned.cons⟩
  | .number => spanned_literal _ _
  | .string => spanned_literal _ _
  | .true => spanned_literal _ _
  | .false => spanned_literal _ _
  | .null => spanned_literal _ _
  | @Expression.name name line => by
      have phrase := @Expression.name name line
      simp only [Expr.nodes, spanned_cons, spanned_nil, and_true]
      exact fun _ => phrase.spannedIn
  | @Expression.grouping line tokens inner close content => by
      have phrase : Expression .primary
          (sym .leftParen line :: (tokens ++ [sym .rightParen close])) (.grouping inner line) :=
        .grouping content
      simp only [Expr.nodes, spanned_cons]
      exact ⟨fun _ => phrase.spannedIn, content.spanned.before.cons⟩
  | @Expression.list line tokens elements close content => by
      have phrase : Expression .primary
          (sym .leftBracket line :: (tokens ++ [sym .rightBracket close])) (.list elements line) :=
        .list content
      simp only [Expr.nodes, spanned_cons]
      exact ⟨fun _ => phrase.spannedIn, content.spanned.before.cons⟩

/-- The nodes of a repetition, given those of what stands in front of it. Each pass
joins what was read so far to a larger phrase of the same level. -/
theorem Repetition.spanned {level : Level} {left tree : Expr} {others : List Token} :
    Repetition level left others tree → level.repeats = .true →
      ∀ {before : List Token}, Expression level before left → Spanned before left.nodes →
        Spanned (before ++ others) tree.nodes
  -- the tree that grows to the left is a phrase of its own after every repetition
  | .done, _, before, _, spanned => by simpa using spanned
  | @Repetition.logical op line left tokens right others _ operand rest, repeats, before, phrase,
      spanned => by
      have joined : Expression (logicalLevel op) (before ++ word op.keyword line :: tokens)
          (.logical left op right left.line) := by
        simpa using phrase.extend repeats (.logical operand .done)
      have nodes : Spanned (before ++ word op.keyword line :: tokens)
          (Expr.logical left op right left.line).nodes := by
        simp only [Expr.nodes, spanned_cons, spanned_append]
        exact ⟨fun _ => joined.spannedIn, spanned.before, operand.spanned.cons.behind⟩
      simpa using rest.spanned repeats joined nodes
  | @Repetition.binary op line left tokens right others _ operand rest, repeats, before, phrase,
      spanned => by
      have joined : Expression (binaryLevel op) (before ++ sym op.symbol line :: tokens)
          (.binary left op right line) := by
        simpa using phrase.extend repeats (.binary operand .done)
      have nodes : Spanned (before ++ sym op.symbol line :: tokens)
          (Expr.binary left op right line).nodes := by
        simp only [Expr.nodes, spanned_cons, spanned_append]
        exact ⟨fun _ => joined.spannedIn, spanned.before, operand.spanned.cons.behind⟩
      simpa using rest.spanned repeats joined nodes
  | @Repetition.call line left tokens arguments close others _ given rest, repeats, before, phrase,
      spanned => by
      have joined : Expression .call
          (before ++ sym .leftParen line :: (tokens ++ [sym .rightParen close]))
          (.call left arguments line) := phrase.extend repeats (.call given .done)
      have nodes : Spanned (before ++ sym .leftParen line :: (tokens ++ [sym .rightParen close]))
          (Expr.call left arguments line).nodes := by
        simp only [Expr.nodes, spanned_cons, spanned_append]
        exact ⟨fun _ => joined.spannedIn, spanned.before, given.spanned.before.cons.behind⟩
      simpa using rest.spanned repeats joined nodes
  | @Repetition.member dot left name line others _ rest, repeats, before, phrase, spanned => by
      have joined : Expression .call (before ++ [sym .dot dot, ident name line])
          (.member left name line) := phrase.extend repeats (.member .done)
      have nodes : Spanned (before ++ [sym .dot dot, ident name line])
          (Expr.member left name line).nodes := by
        simp only [Expr.nodes, spanned_cons]
        exact ⟨fun _ => joined.spannedIn, spanned.before⟩
      simpa using rest.spanned repeats joined nodes
  | @Repetition.index line left tokens position close others _ content rest, repeats, before,
      phrase, spanned => by
      have joined : Expression .call
          (before ++ sym .leftBracket line :: (tokens ++ [sym .rightBracket close]))
          (.index left position line) := phrase.extend repeats (.index content .done)
      have nodes : Spanned
          (before ++ sym .leftBracket line :: (tokens ++ [sym .rightBracket close]))
          (Expr.index left position line).nodes := by
        simp only [Expr.nodes, spanned_cons, spanned_append]
        exact ⟨fun _ => joined.spannedIn, spanned.before, content.spanned.before.cons.behind⟩
      simpa using rest.spanned repeats joined nodes
  | @Repetition.slice line left tokens first colon tokens' last close others _ low high rest,
      repeats, before, phrase, spanned => by
      have joined : Expression .call (before ++ sym .leftBracket line ::
          (tokens ++ sym .colon colon :: (tokens' ++ [sym .rightBracket close])))
          (.slice left first last line) := phrase.extend repeats (.slice low high .done)
      have nodes : Spanned (before ++ sym .leftBracket line ::
          (tokens ++ sym .colon colon :: (tokens' ++ [sym .rightBracket close])))
          (Expr.slice left first last line).nodes := by
        simp only [Expr.nodes, spanned_cons, spanned_append]
        exact ⟨fun _ => joined.spannedIn, spanned.before, low.spanned.before.cons.behind,
          high.spanned.before.cons.behind.cons.behind⟩
      simpa using rest.spanned repeats joined nodes

theorem Items.spanned {tokens : List Token} {trees : List Expr} :
    Items tokens trees → Spanned tokens (Expr.nodesAll trees)
  | .last inner => by
      simp only [Expr.nodesAll, List.append_nil]
      exact inner.spanned
  | .more inner rest => by
      simp only [Expr.nodesAll, spanned_append]
      exact ⟨inner.spanned.before, rest.spanned.cons.behind⟩

theorem Arguments.spanned {tokens : List Token} {trees : List Expr} :
    Arguments tokens trees → Spanned tokens (Expr.nodesAll trees)
  | .none => spanned_nil
  | .some items _ => items.spanned

theorem Elements.spanned {tokens : List Token} {trees : List Expr} :
    Elements tokens trees → Spanned tokens (Expr.nodesAll trees)
  | .none => spanned_nil
  | .some items => items.spanned
  | .comma items => items.spanned.before

theorem Bound.spanned {tokens : List Token} {tree : Option Expr} :
    Bound tokens tree → Spanned tokens (Expr.nodesOption tree)
  | .none => spanned_nil
  | .some inner => inner.spanned

end

/-! ## The nodes of a program -/

theorem Variable.spanned {tokens : List Token} {name : String} {initial : Option Expr}
    (phrase : Variable tokens name initial) : Spanned tokens (Expr.nodesOption initial) := by
  cases phrase with
  | plain => exact spanned_nil
  | initial inner => exact inner.spanned.before.cons.cons

theorem Initial.spanned {tokens : List Token} {initial : Option Stmt}
    (phrase : Initial tokens initial) : Spanned tokens (Stmt.nodesOption initial) := by
  cases phrase with
  | none => exact spanned_nil
  | varDecl inner =>
      simp only [Stmt.nodesOption, Stmt.nodes, spanned_cons]
      exact ⟨fun _ => (Declaration.varDecl inner).spannedIn, inner.spanned.cons⟩
  | expression inner =>
      simp only [Stmt.nodesOption, Stmt.nodes, spanned_cons]
      exact ⟨fun _ => (Declaration.statement (.expression inner)).spannedIn, inner.spanned.before⟩

/-- The loop of a `for` statement, given the nodes of the body. -/
theorem forWhile_spanned {line paren semicolon close : Nat} {first test change inner : List Token}
    {initial : Option Stmt} {condition advance : Option Expr} {dangling : Bool} {body : Stmt}
    (start : Initial first initial) (tested : Bound test condition) (changed : Bound change advance)
    (repeated : Statement dangling inner body) (nodes : Spanned inner body.nodes) :
    Spanned
      (word .forKw line :: sym .leftParen paren ::
        (first ++ (test ++ sym .semicolon semicolon ::
          (change ++ sym .rightParen close :: inner))))
      (forWhile condition semicolon advance body line).nodes := by
  have pass : Spanned (change ++ sym .rightParen close :: inner) (forBody advance body).nodes := by
    have line : ∃ token ∈ change ++ sym .rightParen close :: inner,
        token.line = (forBody advance body).line := by
      obtain ⟨token, mem, same⟩ := repeated.line_mem
      exact ⟨token, List.mem_append_right _ (List.mem_cons_of_mem _ mem), same⟩
    have self : SpannedIn (change ++ sym .rightParen close :: inner)
        (.stmt (forBody advance body)) := .self (.pass changed repeated) line
    cases changed with
    | none =>
        simp only [forBody, forStep, Stmt.nodes, Stmt.nodesAll, spanned_cons, List.append_nil]
        exact ⟨fun _ => self, nodes.cons.behind⟩
    | @some _ tree expr =>
        have advanced : Spanned change (Stmt.expression tree tree.line).nodes := by
          simp only [Stmt.nodes, spanned_cons]
          exact ⟨fun _ => .self (.advance expr) expr.line_mem, expr.spanned⟩
        simp only [forBody, forStep, Stmt.nodes_block, Stmt.nodesAll, spanned_cons, spanned_append,
          List.append_nil]
        exact ⟨fun _ => self, nodes.cons.behind, advanced.before⟩
  have tests : Spanned test (condition.getD (.literal (.bool .true) semicolon)).nodes := by
    cases tested with
    | none => exact spanned_literal _ _
    | some expr => exact expr.spanned
  simp only [forWhile, Stmt.nodes_whileLoop, spanned_cons, spanned_append]
  refine ⟨fun _ => .self (.loop start tested changed repeated) ⟨_, List.mem_cons_self, rfl⟩, ?_, ?_⟩
  · exact tests.before.behind.cons.cons
  · exact pass.cons.behind.behind.cons.cons

mutual

/-- Every node of a statement is the tree of a phrase among its tokens; the true put in for
a missing condition is not. -/
theorem Statement.spanned {dangling : Bool} {tokens : List Token} {tree : Stmt} :
    Statement dangling tokens tree → Spanned tokens tree.nodes
  | @Statement.expression tokens tree semicolon inner => by
      have phrase : Declaration (tokens ++ [sym .semicolon semicolon])
          (.expression tree tree.line) := .statement (.expression inner)
      simp only [Stmt.nodes, spanned_cons]
      exact ⟨fun _ => phrase.spannedIn, inner.spanned.before⟩
  | @Statement.print line tokens tree semicolon inner => by
      have phrase : Declaration (word .printKw line :: (tokens ++ [sym .semicolon semicolon]))
          (.print tree line) := .statement (.print inner)
      simp only [Stmt.nodes, spanned_cons]
      exact ⟨fun _ => phrase.spannedIn, inner.spanned.before.cons⟩
  | @Statement.returnValue line tokens value semicolon inner => by
      have phrase : Declaration (word .returnKw line :: (tokens ++ [sym .semicolon semicolon]))
          (.returnValue value line) := .statement (.returnValue inner)
      simp only [Stmt.nodes, spanned_cons]
      exact ⟨fun _ => phrase.spannedIn, inner.spanned.before.cons⟩
  | @Statement.block line tokens body close inner => by
      have phrase : Declaration (sym .leftBrace line :: (tokens ++ [sym .rightBrace close]))
          (.block body line) := .statement (.block inner)
      simp only [Stmt.nodes, spanned_cons]
      exact ⟨fun _ => phrase.spannedIn, inner.spanned.before.cons⟩
  | @Statement.ifThen line paren tokens condition close dangling branch thenBranch test inner => by
      have phrase : Declaration (word .ifKw line :: sym .leftParen paren ::
          (tokens ++ sym .rightParen close :: branch)) (.ifElse condition thenBranch none line) :=
        .statement (.ifThen test inner)
      simp only [Stmt.nodes, Stmt.nodesOption, spanned_cons, spanned_append, spanned_nil, and_true]
      exact ⟨fun _ => phrase.spannedIn, test.spanned.before.cons.cons,
        inner.spanned.cons.behind.cons.cons⟩
  | @Statement.ifElse line paren tokens condition close branch thenBranch elseLine dangling other
      elseBranch test inner last => by
      have phrase : Declaration (word .ifKw line :: sym .leftParen paren ::
          (tokens ++ sym .rightParen close :: (branch ++ word .elseKw elseLine :: other)))
          (.ifElse condition thenBranch (some elseBranch) line) :=
        .statement (.ifElse test inner last)
      simp only [Stmt.nodes, Stmt.nodesOption, spanned_cons, spanned_append]
      exact ⟨fun _ => phrase.spannedIn, test.spanned.before.cons.cons,
        inner.spanned.before.cons.behind.cons.cons,
        last.spanned.cons.behind.cons.behind.cons.cons⟩
  | @Statement.whileLoop line paren tokens condition close dangling inner body test repeated => by
      have phrase : Declaration (word .whileKw line :: sym .leftParen paren ::
          (tokens ++ sym .rightParen close :: inner)) (.whileLoop condition body line) :=
        .statement (.whileLoop test repeated)
      simp only [Stmt.nodes, spanned_cons, spanned_append]
      exact ⟨fun _ => phrase.spannedIn, test.spanned.before.cons.cons,
        repeated.spanned.cons.behind.cons.cons⟩
  | @Statement.forLoop line paren first initial test condition semicolon change advance close
      dangling inner body start tested changed repeated => by
      have phrase : Declaration (word .forKw line :: sym .leftParen paren ::
          (first ++ (test ++ sym .semicolon semicolon ::
            (change ++ sym .rightParen close :: inner))))
          (forTree initial condition semicolon advance body line) :=
        .statement (.forLoop start tested changed repeated)
      have loop := @forWhile_spanned line paren semicolon close first test change inner initial
        condition advance dangling body start tested changed repeated repeated.spanned
      have before := start.spanned
      rw [forTree_eq] at phrase ⊢
      cases initial with
      | none =>
          simp only [Option.toList_none, List.nil_append, Stmt.nodes_block, Stmt.nodesAll,
            spanned_cons, List.append_nil]
          exact ⟨fun _ => phrase.spannedIn, loop⟩
      | some stmt =>
          simp only [Option.toList_some, List.cons_append, List.nil_append, Stmt.nodes_block,
            Stmt.nodesAll, spanned_cons, spanned_append, List.append_nil]
          exact ⟨fun _ => phrase.spannedIn, before.before.cons.cons, loop⟩

/-- Every node of a declaration is the tree of a phrase among its tokens. -/
theorem Declaration.spanned {tokens : List Token} {tree : Stmt} :
    Declaration tokens tree → Spanned tokens tree.nodes
  | @Declaration.function line name nameLine paren params names close brace tokens body braceClose
      given inner => by
      have phrase : Declaration
          (word .defKw line :: ident name nameLine :: sym .leftParen paren ::
            (params ++ sym .rightParen close :: sym .leftBrace brace ::
              (tokens ++ [sym .rightBrace braceClose])))
          (.funDecl name names body line) := .function given inner
      simp only [Stmt.nodes, spanned_cons]
      exact ⟨fun _ => phrase.spannedIn, inner.spanned.before.cons.cons.behind.cons.cons.cons⟩
  | .varDecl inner => by
      simp only [Stmt.nodes, spanned_cons]
      exact ⟨fun _ => (Declaration.varDecl inner).spannedIn, inner.spanned.cons⟩
  | .statement inner => inner.spanned

/-- **Every node of a program carries the line of a token in its own span**, unless
it is a constant. -/
theorem Declarations.spanned {tokens : List Token} {trees : List Stmt} :
    Declarations tokens trees → Spanned tokens (Stmt.nodesAll trees)
  | .nil => spanned_nil
  | .cons first rest => by
      simp only [Stmt.nodesAll, spanned_append]
      exact ⟨first.spanned.before, rest.spanned.behind⟩

end

end TernLang.Grammar
