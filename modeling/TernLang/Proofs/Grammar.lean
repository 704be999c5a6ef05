import TernLang.Parser.Error
import TernLang.Syntax

/-! # The grammar of programs

What the parser is meant to accept, and the tree it is meant to build, without
the parser. Each predicate is a nonterminal: it relates the tokens of a phrase
to its tree, with one constructor for each production.

    assignment → IDENT "=" assignment | IDENT ( "++" | "--" ) | or
    or         → and ( "or" and )*              and → equality ( "and" equality )*
    equality   → comparison ( ( "!=" | "==" ) comparison )*
    comparison → term ( ( ">" | ">=" | "<" | "<=" ) term )*
    term       → factor ( ( "-" | "+" ) factor )*
    factor     → unary ( ( "/" | "*" ) unary )*
    unary      → ( "!" | "-" ) unary | call
    call       → primary ( "(" args? ")" | "." IDENT | "[" accessor "]" )*
    accessor   → expression | expression? ":" expression?
    primary    → NUMBER | STRING | "true" | "false" | "null" | IDENT
               | "(" expression ")" | "[" ( expression ( "," expression )* ","? )? "]"

    program     → declaration* EOF
    declaration → "def" IDENT "(" params? ")" block | "var" varDecl | statement
    varDecl     → IDENT ( "=" expression )? ";"
    statement   → "for" "(" ( "var" varDecl | exprStmt | ";" ) expression? ";" expression? ")"
                  statement
                | "if" "(" expression ")" statement ( "else" statement )?
                | "while" "(" expression ")" statement
                | "print" expression ";" | "return" expression? ";" | block | exprStmt

A repetition `( … )*` is `Repetition`, which carries the tree built so far, so
that operators of one level join to the left. An `else` belongs to the nearest
`if`: in front of it stands a statement that does not end with an `if` of its
own that an `else` could belong to.
-/

namespace TernLang

/-- The symbol that writes a binary operator. -/
def BinaryOp.symbol : BinaryOp → Symbol
  | add => .plus
  | subtract => .minus
  | multiply => .star
  | divide => .slash
  | less => .less
  | lessEqual => .lessEqual
  | greater => .greater
  | greaterEqual => .greaterEqual
  | equal => .equalEqual
  | notEqual => .bangEqual

/-- The keyword that writes a logical operator. -/
def LogicalOp.keyword : LogicalOp → Keyword
  | or => .orKw
  | and => .andKw

/-- The symbol that writes a unary operator. -/
def UnaryOp.symbol : UnaryOp → Symbol
  | negate => .minus
  | not => .bang

/-- The symbol that writes a step. -/
def Step.symbol : Step → Symbol
  | up => .plusPlus
  | down => .minusMinus

namespace Grammar

abbrev sym (symbol : Symbol) (line : Nat) : Token := ⟨.symbol symbol, line⟩

abbrev word (keyword : Keyword) (line : Nat) : Token := ⟨.keyword keyword, line⟩

abbrev ident (name : String) (line : Nat) : Token := ⟨.identifier name, line⟩

/-- The levels of expressions, from the one that binds loosest to the one that
binds tightest. -/
inductive Level where
  | assignment | disjunction | conjunction | equality | comparison | term | factor
  | unary | call | primary
  deriving DecidableEq, Repr

namespace Level

/-- The next tighter level. -/
def tighter : Level → Level
  | assignment => disjunction
  | disjunction => conjunction
  | conjunction => equality
  | equality => comparison
  | comparison => term
  | term => factor
  | factor => unary
  | unary => call
  | call => primary
  | primary => primary

/-- A phrase of this level is one of the next level and a repetition. -/
def repeats : Level → Bool
  | disjunction | conjunction | equality | comparison | term | factor | call => true
  | assignment | unary | primary => false

end Level

def binaryLevel : BinaryOp → Level
  | .add | .subtract => .term
  | .multiply | .divide => .factor
  | .less | .lessEqual | .greater | .greaterEqual => .comparison
  | .equal | .notEqual => .equality

def logicalLevel : LogicalOp → Level
  | .or => .disjunction
  | .and => .conjunction

mutual

/-- `Expression level tokens tree`: the tokens are a phrase of the level, and
the tree is theirs. -/
inductive Expression : Level → List Token → Expr → Prop
  | assign {name line equals tokens value} :
      Expression .assignment tokens value →
      Expression .assignment (ident name line :: sym .equal equals :: tokens)
        (.assign name value line)
  | increment {name line step stepLine} :
      Expression .assignment [ident name line, sym (Step.symbol step) stepLine]
        (.increment name step line)
  | ofDisjunction {tokens tree} :
      Expression .disjunction tokens tree → Expression .assignment tokens tree
  | repetition {level tokens others left tree} : level.repeats = true →
      Expression level.tighter tokens left → Repetition level left others tree →
      Expression level (tokens ++ others) tree
  | unary {op line tokens right} :
      Expression .unary tokens right →
      Expression .unary (sym (UnaryOp.symbol op) line :: tokens) (.unary op right line)
  | ofCall {tokens tree} : Expression .call tokens tree → Expression .unary tokens tree
  | number {whole fraction line} :
      Expression .primary [⟨.number whole fraction, line⟩]
        (.literal (.number (TokenKind.numberValue whole fraction)) line)
  | string {contents line} :
      Expression .primary [⟨.string contents, line⟩] (.literal (.string contents) line)
  | true {line} : Expression .primary [word .trueKw line] (.literal (.bool .true) line)
  | false {line} : Expression .primary [word .falseKw line] (.literal (.bool .false) line)
  | null {line} : Expression .primary [word .nullKw line] (.literal .null line)
  | name {name line} : Expression .primary [ident name line] (.var name line)
  | grouping {line tokens inner close} :
      Expression .assignment tokens inner →
      Expression .primary (sym .leftParen line :: (tokens ++ [sym .rightParen close]))
        (.grouping inner line)
  | list {line tokens elements close} :
      Elements tokens elements →
      Expression .primary (sym .leftBracket line :: (tokens ++ [sym .rightBracket close]))
        (.list elements line)

/-- `Repetition level left tokens tree`: the tokens continue a phrase of the
level whose tree is `left`, and the tree is that of both together. -/
inductive Repetition : Level → Expr → List Token → Expr → Prop
  | done {level tree} : Repetition level tree [] tree
  | logical {op line left tokens right others tree} :
      Expression (logicalLevel op).tighter tokens right →
      Repetition (logicalLevel op) (.logical left op right left.line) others tree →
      Repetition (logicalLevel op) left (word op.keyword line :: (tokens ++ others)) tree
  | binary {op line left tokens right others tree} :
      Expression (binaryLevel op).tighter tokens right →
      Repetition (binaryLevel op) (.binary left op right line) others tree →
      Repetition (binaryLevel op) left (sym op.symbol line :: (tokens ++ others)) tree
  | call {line left tokens arguments close others tree} :
      Arguments tokens arguments →
      Repetition .call (.call left arguments line) others tree →
      Repetition .call left
        (sym .leftParen line :: (tokens ++ sym .rightParen close :: others)) tree
  | member {dot left name line others tree} :
      Repetition .call (.member left name line) others tree →
      Repetition .call left (sym .dot dot :: ident name line :: others) tree
  | index {line left tokens position close others tree} :
      Expression .assignment tokens position →
      Repetition .call (.index left position line) others tree →
      Repetition .call left
        (sym .leftBracket line :: (tokens ++ sym .rightBracket close :: others)) tree
  | slice {line left tokens first colon tokens' last close others tree} :
      Bound tokens first → Bound tokens' last →
      Repetition .call (.slice left first last line) others tree →
      Repetition .call left
        (sym .leftBracket line ::
          (tokens ++ sym .colon colon :: (tokens' ++ sym .rightBracket close :: others))) tree

/-- One or more expressions with commas between them. -/
inductive Items : List Token → List Expr → Prop
  | last {tokens tree} : Expression .assignment tokens tree → Items tokens [tree]
  | more {tokens tree comma others trees} :
      Expression .assignment tokens tree → Items others trees →
      Items (tokens ++ sym .comma comma :: others) (tree :: trees)

/-- The arguments of a call, if there are any, and not too many. -/
inductive Arguments : List Token → List Expr → Prop
  | none : Arguments [] []
  | some {tokens trees} : Items tokens trees → trees.length ≤ maxArguments →
      Arguments tokens trees

/-- The elements of a list, if there are any; a comma may follow the last. -/
inductive Elements : List Token → List Expr → Prop
  | none : Elements [] []
  | some {tokens trees} : Items tokens trees → Elements tokens trees
  | comma {tokens trees comma} : Items tokens trees → Elements (tokens ++ [sym .comma comma]) trees

inductive Bound : List Token → Option Expr → Prop
  | none : Bound [] none
  | some {tokens tree} : Expression .assignment tokens tree → Bound tokens (some tree)

end

/-- A phrase of a tighter level, with nothing repeated. -/
theorem Expression.of_tighter {level : Level} {tokens : List Token} {tree : Expr}
    (repeats : level.repeats = .true) (inner : Expression level.tighter tokens tree) :
    Expression level tokens tree := by
  simpa using Expression.repetition repeats inner .done

/-- An operand with signs in front is a phrase of every looser level. -/
theorem Expression.of_unary {tokens : List Token} {tree : Expr}
    (inner : Expression .unary tokens tree) : Expression .assignment tokens tree := by
  have compared : Expression .comparison tokens tree :=
    .of_tighter rfl (.of_tighter rfl (.of_tighter rfl inner))
  exact .ofDisjunction (.of_tighter rfl (.of_tighter rfl (.of_tighter rfl compared)))

/-- A primary expression is a phrase of every level. -/
theorem Expression.of_primary {tokens : List Token} {tree : Expr}
    (inner : Expression .primary tokens tree) : Expression .assignment tokens tree :=
  .of_unary (.ofCall (.of_tighter rfl inner))

/-- One or more parameter names with commas between them. -/
inductive Parameters : List Token → List String → Prop
  | last {name line} : Parameters [ident name line] [name]
  | more {name line comma others names} : Parameters others names →
      Parameters (ident name line :: sym .comma comma :: others) (name :: names)

/-- The parameters of a function, if there are any, and not too many. -/
inductive ParameterList : List Token → List String → Prop
  | none : ParameterList [] []
  | some {tokens names} : Parameters tokens names → names.length ≤ maxArguments →
      ParameterList tokens names

/-- A variable declaration after its keyword: the name and the initial value. -/
inductive Variable : List Token → String → Option Expr → Prop
  | plain {name line semicolon} : Variable [ident name line, sym .semicolon semicolon] name none
  | initial {name line equals tokens tree semicolon} : Expression .assignment tokens tree →
      Variable (ident name line :: sym .equal equals :: (tokens ++ [sym .semicolon semicolon]))
        name (some tree)

/-- The first clause of a for statement with its semicolon. -/
inductive Initial : List Token → Option Stmt → Prop
  | none {semicolon} : Initial [sym .semicolon semicolon] none
  | varDecl {line tokens name initial} : Variable tokens name initial →
      Initial (word .varKw line :: tokens) (some (.varDecl name initial line))
  | expression {tokens tree semicolon} : Expression .assignment tokens tree →
      Initial (tokens ++ [sym .semicolon semicolon]) (some (.expression tree tree.line))

/-- The tree of a for statement: a block that holds the initial statement and a
while loop, whose body is a block of the body and the advance. A missing
condition is `true`, on the line of the semicolon that ends it. -/
def forTree (initial : Option Stmt) (condition : Option Expr) (semicolon : Nat)
    (advance : Option Expr) (body : Stmt) (line : Nat) : Stmt :=
  let condition := condition.getD (.literal (.bool true) semicolon)
  let step :=
    match advance with
    | none => [body]
    | some expr => [body, .expression expr expr.line]
  let loop := Stmt.whileLoop condition (.block step body.line) line
  match initial with
  | none => .block [loop] line
  | some first => .block [first, loop] line

mutual

/-- A declaration or a statement. -/
inductive Declaration : List Token → Stmt → Prop
  | function {line name nameLine paren params names close brace tokens body braceClose} :
      ParameterList params names → Declarations tokens body →
      Declaration
        (word .defKw line :: ident name nameLine :: sym .leftParen paren ::
          (params ++ sym .rightParen close :: sym .leftBrace brace ::
            (tokens ++ [sym .rightBrace braceClose])))
        (.funDecl name names body line)
  | varDecl {line tokens name initial} : Variable tokens name initial →
      Declaration (word .varKw line :: tokens) (.varDecl name initial line)
  | statement {dangling tokens tree} : Statement dangling tokens tree → Declaration tokens tree

/-- `Statement dangling tokens tree`: the tokens are a statement. It is
`dangling` if it ends with an `if` that has no `else`, so that an `else` behind
it would belong to that `if`. -/
inductive Statement : Bool → List Token → Stmt → Prop
  | expression {tokens tree semicolon} : Expression .assignment tokens tree →
      Statement false (tokens ++ [sym .semicolon semicolon]) (.expression tree tree.line)
  | print {line tokens tree semicolon} : Expression .assignment tokens tree →
      Statement false (word .printKw line :: (tokens ++ [sym .semicolon semicolon]))
        (.print tree line)
  | returnValue {line tokens value semicolon} : Bound tokens value →
      Statement false (word .returnKw line :: (tokens ++ [sym .semicolon semicolon]))
        (.returnValue value line)
  | block {line tokens body close} : Declarations tokens body →
      Statement false (sym .leftBrace line :: (tokens ++ [sym .rightBrace close]))
        (.block body line)
  | ifThen {line paren tokens condition close dangling branch thenBranch} :
      Expression .assignment tokens condition → Statement dangling branch thenBranch →
      Statement true
        (word .ifKw line :: sym .leftParen paren ::
          (tokens ++ sym .rightParen close :: branch))
        (.ifElse condition thenBranch none line)
  | ifElse {line paren tokens condition close branch thenBranch elseLine dangling other
      elseBranch} :
      Expression .assignment tokens condition → Statement false branch thenBranch →
      Statement dangling other elseBranch →
      Statement dangling
        (word .ifKw line :: sym .leftParen paren ::
          (tokens ++ sym .rightParen close :: (branch ++ word .elseKw elseLine :: other)))
        (.ifElse condition thenBranch (some elseBranch) line)
  | whileLoop {line paren tokens condition close dangling inner body} :
      Expression .assignment tokens condition → Statement dangling inner body →
      Statement dangling
        (word .whileKw line :: sym .leftParen paren ::
          (tokens ++ sym .rightParen close :: inner))
        (.whileLoop condition body line)
  | forLoop {line paren first initial test condition semicolon change advance close dangling
      inner body} :
      Initial first initial → Bound test condition → Bound change advance →
      Statement dangling inner body →
      Statement dangling
        (word .forKw line :: sym .leftParen paren ::
          (first ++ (test ++ sym .semicolon semicolon ::
            (change ++ sym .rightParen close :: inner))))
        (forTree initial condition semicolon advance body line)

/-- Any number of declarations, one after the other. -/
inductive Declarations : List Token → List Stmt → Prop
  | nil : Declarations [] []
  | cons {tokens tree others trees} : Declaration tokens tree → Declarations others trees →
      Declarations (tokens ++ others) (tree :: trees)

end

/-- A whole program: declarations up to the end of input. -/
inductive Program : List Token → List Stmt → Prop
  | mk {tokens trees line} : Declarations tokens trees →
      Program (tokens ++ [⟨.endOfInput, line⟩]) trees

end Grammar

end TernLang
