import TernLang.Proofs.Index.Declared
import TernLang.Proofs.Parser.Excerpt.Simple
import TernLang.Proofs.Parser.Lines
import TernLang.Proofs.Parser.Runs

/-! # Where declarations stand

A declaration starts with its keyword and its name, and the tree of it has the line of
the keyword. **The declarations of a parse start with tokens that were read for it, in
the order of the tokens** (`parse_heads`), whether or not there are mistakes: what is
skipped or given up declares nothing, and nothing is declared twice.

To tell tokens apart that are alike, they are numbered. A parser that does not look at
lines reads the numbers as lines, so that each tree tells which token it was read from
(`parse_places`).
-/

namespace TernLang

/-- What the first two tokens of a declaration tell: what it declares, and the line of
the keyword. -/
def Declaration.head (declared : Declaration) : SymbolKind × String × Nat :=
  (declared.kind, declared.name, declared.line)

/-- The head of a declaration that two tokens are. -/
def headOf? (first second : Token) : Option (SymbolKind × String × Nat) :=
  match first.kind, second.kind with
  | .keyword .varKw, .identifier name => some (.var, name, first.line)
  | .keyword .defKw, .identifier name => some (.function, name, first.line)
  | _, _ => none

/-- The heads of declarations in a token list. -/
def heads : List Token → List (SymbolKind × String × Nat)
  | [] => []
  | [_] => []
  | first :: second :: rest => (headOf? first second).toList ++ heads (second :: rest)

/-- The heads of two lists are among the heads of the whole; one more may lie across the
border. -/
theorem heads_append (tokens others : List Token) :
    (heads tokens ++ heads others).Sublist (heads (tokens ++ others)) := by
  induction tokens with
  | nil => exact .refl _
  | cons first rest ih =>
      cases rest with
      | nil =>
          -- the last token and the first one behind it may be one head more
          cases others with
          | nil => exact .refl _
          | cons second more => exact List.sublist_append_right _ _
      | cons second more =>
          simp only [heads, List.cons_append, List.append_assoc] at ih ⊢
          exact ih.append_left _

namespace Cursor

variable {c d e : Cursor} {declared others : List Declaration}

/-- The declarations start with tokens that are read between the two cursors, in their
order. -/
def Declares (c d : Cursor) (declared : List Declaration) : Prop :=
  ∃ read, c.rest = read ++ d.rest ∧ (declared.map Declaration.head).Sublist (heads read)

theorem Moves.declares (moves : c.Moves d) : c.Declares d [] := by
  obtain ⟨read, parts⟩ := moves.suffix
  exact ⟨read, parts, List.nil_sublist _⟩

theorem Declares.trans (first : c.Declares d declared) (second : d.Declares e others) :
    c.Declares e (declared ++ others) := by
  obtain ⟨read, parts, stand⟩ := first
  obtain ⟨more, parts', stand'⟩ := second
  refine ⟨read ++ more, by rw [parts, parts', List.append_assoc], ?_⟩
  rw [List.map_append]
  exact (stand.append stand').trans (heads_append read more)

theorem Declares.moves (first : c.Declares d declared) (moves : d.Moves e) :
    c.Declares e declared := by
  simpa using first.trans moves.declares

/-- Tokens read over in front of declarations do not matter. -/
theorem Moves.declares_trans (moves : c.Moves d) (second : d.Declares e declared) :
    c.Declares e declared :=
  moves.declares.trans second

/-- A keyword and the name behind it are the head of a declaration. -/
theorem Reads.declares {line nameLine : Nat} {keyword : Keyword} {first : Declaration}
    (reads : c.Reads [⟨.keyword keyword, line⟩, ⟨.identifier first.name, nameLine⟩] d)
    (head : headOf? ⟨.keyword keyword, line⟩ ⟨.identifier first.name, nameLine⟩ = some first.head) :
    c.Declares d [first] := by
  refine ⟨_, reads.rest, ?_⟩
  simp [heads, head]

end Cursor

namespace Parse

open Declaration Grammar

variable {size line : Nat} {c d e : Cursor} {tree : Stmt}

/-! ## Statements -/

theorem moves_expect {symbol : Symbol} {expected : Expectation}
    (run : expect symbol expected c = .ok () d) : c.Moves d :=
  (expect_travels symbol expected).ok run

/-- What a variable declaration declares starts with its keyword and its name. -/
theorem varDecl_declares {room : Nat} (read : c.Reads [word .varKw line] d)
    (run : varDecl size line room d = .ok tree e) : c.Declares e (among [tree]) := by
  cases room with
  | zero => cases run
  | succ room =>
      obtain ⟨name, nameLine, initial, e₁, e₂, named, given, close, rfl⟩ := of_varDecl_ok run
      have head : c.Declares e₁ [⟨name, .var, [], line⟩] :=
        (read.trans (of_identifier_ok named)).declares rfl
      -- what follows the name is read and declares nothing
      have behind : e₁.Moves e₂ := by
        obtain ⟨-, none⟩ | ⟨value, e', -, equals, parsed⟩ := given
        · exact (accept_travels .equal).ok none
        · exact ((accept_travels .equal).ok equals).trans
            ((expression_travels size room).ok parsed)
      rw [among_varDecl]
      exact head.moves (behind.trans (moves_expect close))

theorem expressionStmt_declares {room : Nat} (run : expressionStmt size room c = .ok tree d) :
    c.Declares d (among [tree]) := by
  cases room with
  | zero => cases run
  | succ room =>
      obtain ⟨value, e, parsed, close, rfl⟩ := of_expressionStmt_ok run
      rw [among_expression]
      exact (((expression_travels size room).ok parsed).trans (moves_expect close)).declares

/-- The initializer of a for loop declares what it reads the head of. -/
theorem forInitial_declares {room : Nat} {initial : Option Stmt}
    (run : forInitial size room c = .ok initial d) : c.Declares d (among initial.toList) := by
  obtain ⟨line, rfl, -⟩ | ⟨line, decl, rfl, read, parsed⟩ | ⟨stmt, rfl, parsed⟩ :=
    of_forInitial_ok run
  · exact ((forInitial_travels size room).ok run).declares
  · exact varDecl_declares read parsed
  · exact expressionStmt_declares parsed

section Branches

variable {p : Parse Expr} {branch : Parse Stmt} (travels : p.Travels)
  (finds : ∀ {c d tree}, branch c = .ok tree d → c.Declares d (among [tree]))
include travels

theorem printStmt_declares (run : printStmt p line c = .ok tree d) :
    c.Declares d (among [tree]) := by
  obtain ⟨value, e, parsed, close, rfl⟩ := of_printStmt_ok run
  rw [among_print]
  exact ((travels.ok parsed).trans (moves_expect close)).declares

theorem returnStmt_declares (run : returnStmt p line c = .ok tree d) :
    c.Declares d (among [tree]) := by
  obtain ⟨given, e, parsed, close, rfl⟩ := of_returnStmt_ok run
  rw [among_returnValue]
  exact ((parsed.moves travels).trans (moves_expect close)).declares

include finds

/-- A conditional declares what its branches declare. -/
theorem ifStmt_declares (run : ifStmt p branch line c = .ok tree d) :
    c.Declares d (among [tree]) := by
  obtain ⟨value, thenBranch, e, e', head, thenRun, behind⟩ := of_ifStmt_ok run
  have first := ((condition_travels travels _ _).ok head).declares_trans (finds thenRun)
  obtain ⟨-, rfl, rfl⟩ | ⟨elseBranch, elseLine, -, elseRun, rfl⟩ := behind
  · simpa using first
  · rw [among_ifElse]
    exact first.trans ((Cursor.Moves.read .here).declares_trans (finds elseRun))

theorem whileStmt_declares (run : whileStmt p branch line c = .ok tree d) :
    c.Declares d (among [tree]) := by
  obtain ⟨value, body, e, head, bodyRun, rfl⟩ := of_whileStmt_ok run
  rw [among_whileLoop]
  exact ((condition_travels travels _ _).ok head).declares_trans (finds bodyRun)

end Branches

/-- The loop declares what its first clause and its body do. -/
theorem among_forLoop (initial : Option Stmt) (condition : Expr) (advance : Option Expr)
    (body : Stmt) :
    among [.forLoop initial condition advance body line] =
      among initial.toList ++ among [body] := by
  have pass : among (body :: advance.toList.map fun expr => .expression expr expr.line) =
      among [body] := by
    cases advance with
    | none => rfl
    | some expr =>
        rw [Option.toList_some, List.map_singleton, among_cons, among_expression, List.append_nil]
  rw [Stmt.forLoop, among_block, among_append, among_whileLoop, among_block, pass]

theorem forClauses_declares {room : Nat} {initial : Option Stmt} {value : Expr}
    {advance : Option Expr} (run : forClauses size room c = .ok (initial, value, advance) d) :
    c.Declares d (among initial.toList) := by
  obtain ⟨e₁, e₂, e₃, e₄, e₅, opened, first, test, ended, change, closed⟩ := of_forClauses_ok run
  have travels := expression_travels size room
  have tested := ((forCondition_travels travels).ok test).trans (moves_expect ended)
  have moves := tested.trans ((change.moves travels).trans (moves_expect closed))
  exact (moves_expect opened).declares_trans ((forInitial_declares first).moves moves)

/-- A for loop declares its variable and what its body declares. -/
theorem forStmt_declares {room : Nat} {branch : Parse Stmt}
    (finds : ∀ {c d tree}, branch c = .ok tree d → c.Declares d (among [tree]))
    (run : forStmt size room branch line c = .ok tree d) : c.Declares d (among [tree]) := by
  obtain ⟨initial, value, advance, body, e, head, bodyRun, rfl⟩ := of_forStmt_ok run
  rw [among_forLoop]
  exact (forClauses_declares head).trans (finds bodyRun)

/-! ## Declarations -/

/-- The head of a function starts with its name and ends with the brace of its body. -/
theorem functionHead_reads {name : String} {given : List String}
    (run : functionHead size c = .ok (name, given) d) :
    ∃ nameLine e e', c.Reads [ident name nameLine] e ∧ e.Moves e' ∧
      expect .leftBrace .braceBeforeBody e' = .ok () d := by
  obtain ⟨nameLine, e₁, e₂, e₃, e₄, named, opened, params, closed, brace⟩ := of_functionHead_ok run
  have inner : e₂.Moves e₃ := by
    obtain ⟨-, rfl⟩ | read := params
    · exact .here
    · exact (parameters_travels size []).ok read
  have moves := (moves_expect opened).trans (inner.trans (moves_expect closed))
  exact ⟨nameLine, e₁, e₄, of_identifier_ok named, moves, brace⟩

/-- Recovery declares nothing of its own: a statement lost declares nothing. -/
theorem recover_declares {step : Parse Stmt} (moves : c.Moves d)
    (finds : ∀ {tree}, step c = .ok tree d → c.Declares d (among [tree])) {result : Option Stmt}
    (run : recover step c = .ok result d) : c.Declares d (among result.toList) := by
  obtain ⟨tree, rfl, parsed⟩ | ⟨rfl, -⟩ := of_recover_ok run
  · exact finds parsed
  · exact moves.declares

/-- A list of declarations declares what they do, in order. -/
theorem declarations_declares {decl : Parse (Option Stmt)}
    (finds : ∀ {c d result}, decl c = .ok result d → c.Declares d (among result.toList))
    (inBlock : Bool) (passes : Nat) {trees : List Stmt}
    (run : declarations inBlock decl passes c = .ok trees d) : c.Declares d (among trees) := by
  induction passes generalizing c trees with
  | zero =>
      obtain ⟨rfl, rfl⟩ := of_pure_ok run
      exact Cursor.Moves.here.declares
  | succ passes ih =>
      obtain ⟨-, rfl, rfl⟩ | ⟨-, result, others, e, first, rest, rfl⟩ := of_declarations_ok run
      · exact Cursor.Moves.here.declares
      · rw [among_append]
        exact (finds first).trans (ih rest)

mutual

theorem declaration_declares (size : Nat) {c d : Cursor} {result : Option Stmt} : ∀ room,
    declaration size room c = .ok result d → c.Declares d (among result.toList)
  | 0, run | 1, run | 2, run | 3, run | 4, run => by cases run
  | room + 5, run => by
      have moves := (declaration_travels size (room + 5)).ok run
      refine recover_declares moves (fun {tree} step => ?_) run
      replace step := of_peek_bind step
      generalize found : c.peek.kind = kind at step
      split at step
      · exact function_declares size (room + 4) (reads_kind found (by simp)) (of_next_bind step)
      · exact varDecl_declares (reads_kind found (by simp)) (of_next_bind step)
      · exact statement_declares size (room + 4) step

/-- A function reads its own head and then those in its body. -/
theorem function_declares (size : Nat) {line : Nat} {c d e : Cursor} {tree : Stmt} : ∀ room,
    c.Reads [word .defKw line] d → function size line room d = .ok tree e →
      c.Declares e (among [tree])
  | 0, _, run => by cases run
  | room + 1, read, run => by
      obtain ⟨name, params, body, e₁, headed, inner, rfl⟩ := of_function_ok run
      obtain ⟨nameLine, e₃, e₄, named, moves, brace⟩ := functionHead_reads headed
      have head : c.Declares e₃ [⟨name, .function, params, line⟩] :=
        Cursor.Reads.declares (read.trans named) rfl
      rw [among_funDecl]
      have moves := moves.trans (moves_expect brace)
      exact (head.moves moves).trans (block_declares size room inner)

theorem block_declares (size : Nat) {c d : Cursor} {trees : List Stmt} : ∀ room,
    block size room c = .ok trees d → c.Declares d (among trees)
  | 0, run => by cases run
  | room + 1, run => by
      obtain ⟨e, inside, closed⟩ := of_block_ok run
      have found := declarations_declares (fun run => declaration_declares size room run) true size
        inside
      have moves := moves_expect closed
      exact Cursor.Declares.moves (d := { e with openBlocks := e.openBlocks - 1 }) found moves

/-- A statement reads the head of everything declared in it. -/
theorem statement_declares (size : Nat) {c d : Cursor} {tree : Stmt} : ∀ room,
    statement size room c = .ok tree d → c.Declares d (among [tree])
  | 0, run | 1, run => by cases run
  | room + 2, run => by
      have travels := expression_travels size room
      have first : c.Moves c.advance := .read .here
      replace run := of_peek_bind run
      generalize c.peek.kind = kind at run
      split at run
      · exact first.declares_trans
          (forStmt_declares (statement_declares size room) (of_next_bind run))
      · exact first.declares_trans
          (ifStmt_declares travels (statement_declares size room) (of_next_bind run))
      · exact first.declares_trans (printStmt_declares travels (of_next_bind run))
      · exact first.declares_trans (returnStmt_declares travels (of_next_bind run))
      · exact first.declares_trans
          (whileStmt_declares travels (statement_declares size room) (of_next_bind run))
      · obtain ⟨body, e, parsed, run⟩ := of_bind_ok (of_next_bind run)
        obtain ⟨rfl, rfl⟩ := of_pure_ok run
        rw [among_block]
        exact first.declares_trans (block_declares size (room + 1) parsed)
      · exact expressionStmt_declares run

end

end Parse

/-- The declarations of a parse start with tokens of the list, in their order. -/
theorem parse_heads (room : Nat) (tokens : List Token) :
    ((Declaration.among (parse room tokens).statements).map Declaration.head).Sublist
      (heads tokens) := by
  cases run : Parse.declarations false (Parse.declaration tokens.length room) tokens.length
      (Cursor.start tokens) with
  | error stop d =>
      have none : (parse room tokens).statements = [] := by simp only [parse, run]
      rw [none]
      exact List.nil_sublist _
  | ok trees d =>
      rw [Parse.parse_of_ok run]
      obtain ⟨read, parts, stand⟩ := Parse.declarations_declares
        (fun run => Parse.declaration_declares tokens.length room run) false tokens.length run
      have more := (List.sublist_append_left (heads read) (heads d.rest)).trans
        (heads_append read d.rest)
      rw [← parts] at more
      exact stand.trans more

/-! ## Numbered tokens -/

/-- The tokens with numbers for lines, from `first` on. -/
def numberedFrom : (first : Nat) → List Token → List Token
  | _, [] => []
  | first, token :: rest => ⟨token.kind, first⟩ :: numberedFrom (first + 1) rest

/-- The tokens with their places for lines. -/
def numbered (tokens : List Token) : List Token :=
  numberedFrom 0 tokens

/-- The line of the token at a place. -/
def lineAt (tokens : List Token) (place : Nat) : Nat :=
  (tokens[place]?.map Token.line).getD 1

theorem getElem?_numberedFrom (first place : Nat) (tokens : List Token) :
    (numberedFrom first tokens)[place]? =
      tokens[place]?.map fun token => ⟨token.kind, first + place⟩ := by
  induction tokens generalizing first place with
  | nil => rfl
  | cons token rest ih =>
      cases place with
      | zero => rfl
      | succ place =>
          simp only [numberedFrom, List.getElem?_cons_succ, ih]
          rw [Nat.add_right_comm, Nat.add_assoc]

/-- Numbering puts the place of a token in for its line. -/
theorem getElem?_numbered (place : Nat) (tokens : List Token) :
    (numbered tokens)[place]? = tokens[place]?.map fun token => ⟨token.kind, place⟩ := by
  simp [numbered, getElem?_numberedFrom]

/-- The numbers lead back to the lines. -/
theorem map_lineAt_numbered (tokens : List Token) :
    (numbered tokens).map (Token.mapLine (lineAt tokens)) = tokens := by
  refine List.ext_getElem? fun place => ?_
  rw [List.getElem?_map, getElem?_numbered, Option.map_map]
  cases found : tokens[place]? with
  | none => rfl
  | some token =>
      show some (Token.mk token.kind (lineAt tokens place)) = some token
      rw [lineAt, found]
      rfl

/-- A head is the head of two tokens that stand next to each other. -/
theorem exists_of_mem_heads {tokens : List Token} {head : SymbolKind × String × Nat}
    (mem : head ∈ heads tokens) :
    ∃ place first second, tokens[place]? = some first ∧ tokens[place + 1]? = some second ∧
      headOf? first second = some head := by
  induction tokens with
  | nil => cases mem
  | cons first rest ih =>
      cases rest with
      | nil => cases mem
      | cons second more =>
          rcases List.mem_append.mp mem with here | later
          · exact ⟨0, first, second, rfl, rfl, by simpa using here⟩
          · obtain ⟨place, first', second', found, found', head⟩ := ih later
            exact ⟨place + 1, first', second', found, found', head⟩

/-- A head has the line of its keyword. -/
theorem headOf?_line {first second : Token} {head : SymbolKind × String × Nat}
    (found : headOf? first second = some head) : head.2.2 = first.line := by
  unfold headOf? at found
  split at found <;> cases found <;> rfl

/-- Heads of numbered tokens have different places, in order. -/
theorem heads_numberedFrom_increasing (first : Nat) (tokens : List Token) :
    (heads (numberedFrom first tokens)).Pairwise fun head later => head.2.2 < later.2.2 := by
  induction tokens generalizing first with
  | nil => exact .nil
  | cons token rest ih =>
      cases rest with
      | nil => exact List.Pairwise.nil
      | cons second more =>
          refine List.pairwise_append.mpr ⟨?_, ih (first + 1), ?_⟩
          · cases headOf? ⟨token.kind, first⟩ ⟨second.kind, first + 1⟩ <;> simp
          · intro head here later mem
            have line := headOf?_line (Option.mem_toList.mp here)
            obtain ⟨place, found, _, stands, -, same⟩ := exists_of_mem_heads mem
            have numbers := getElem?_numberedFrom (first + 1) place (second :: more)
            rw [numberedFrom, stands] at numbers
            obtain ⟨_, -, rfl⟩ := Option.map_eq_some_iff.mp numbers.symm
            rw [line, headOf?_line same]
            show first < first + 1 + place
            omega

namespace Declaration

def mapLine (f : Nat → Nat) (declared : Declaration) : Declaration :=
  { declared with line := f declared.line }

variable (f : Nat → Nat)

mutual

/-- Renumbering a statement renumbers what it declares. -/
theorem among_mapLines : ∀ stmt : Stmt, among [stmt.mapLines f] = (among [stmt]).map (mapLine f)
  | .expression _ _ => by simp [Stmt.mapLines]
  | .varDecl _ _ _ => by simp [Stmt.mapLines, mapLine]
  | .block body _ => by rw [Stmt.mapLines, among_block, among_block, among_mapLinesAll body]
  | .ifElse _ thenBranch none _ => by simp [Stmt.mapLines, among_mapLines thenBranch]
  | .ifElse _ thenBranch (some elseBranch) _ => by
      simp [Stmt.mapLines, among_mapLines thenBranch, among_mapLines elseBranch]
  | .whileLoop _ body _ => by
      rw [Stmt.mapLines, among_whileLoop, among_whileLoop, among_mapLines body]
  | .print _ _ => by simp [Stmt.mapLines]
  | .returnValue _ _ => by simp [Stmt.mapLines]
  | .funDecl _ _ body _ => by
      rw [Stmt.mapLines, among_funDecl, among_funDecl, among_mapLinesAll body]
      rfl

theorem among_mapLinesAll : ∀ stmts : List Stmt,
    among (Stmt.mapLinesAll f stmts) = (among stmts).map (mapLine f)
  | [] => rfl
  | stmt :: rest => by
      rw [Stmt.mapLinesAll, among_cons, among_cons stmt, List.map_append, among_mapLines stmt,
        among_mapLinesAll rest]

end

end Declaration

def SymbolKind.word : SymbolKind → Keyword
  | .var => .varKw
  | .function => .defKw

/-- A head is a keyword and the name behind it. -/
theorem headOf?_eq_some {first second : Token} {declared : Declaration}
    (found : headOf? first second = some declared.head) :
    first = ⟨.keyword declared.kind.word, declared.line⟩ ∧
      second.kind = .identifier declared.name := by
  obtain ⟨kind, line⟩ := first
  obtain ⟨name, declares, params, place⟩ := declared
  unfold headOf? at found
  split at found
  · rename_i keyword named
    cases found
    exact ⟨congrArg (Token.mk · line) keyword, named⟩
  · rename_i keyword named
    cases found
    exact ⟨congrArg (Token.mk · line) keyword, named⟩
  · cases found

/-- With places for lines, the declarations stand at their keywords, one behind the
other, and each keyword has its name behind it. -/
structure Declaration.Stand (tokens : List Token) (placed : List Declaration) : Prop where
  increasing : placed.Pairwise fun declared later => declared.line < later.line
  keyword : ∀ declared ∈ placed, tokens[declared.line]? =
    some ⟨.keyword declared.kind.word, lineAt tokens declared.line⟩
  name : ∀ declared ∈ placed,
    tokens[declared.line + 1]?.map Token.kind = some (.identifier declared.name)

/-- **The declarations of a parse stand at their keywords**, in the order of the tokens.
The parse of the numbered tokens gives their places. -/
theorem parse_places {room : Nat} {tokens : List Token}
    (ends : ∃ token ∈ tokens, token.kind = .endOfInput) :
    let placed := Declaration.among (parse room (numbered tokens)).statements
    Declaration.among (parse room tokens).statements =
        placed.map (Declaration.mapLine (lineAt tokens)) ∧
      Declaration.Stand tokens placed := by
  intro placed
  have ends' : ∃ token ∈ numbered tokens, token.kind = .endOfInput := by
    obtain ⟨token, mem, atEnd⟩ := ends
    obtain ⟨place, found⟩ := List.mem_iff_getElem?.mp mem
    have number := getElem?_numbered place tokens
    rw [found] at number
    exact ⟨_, List.mem_iff_getElem?.mpr ⟨place, number⟩, atEnd⟩
  have same := parse_mapLines (f := lineAt tokens) (.inr ends') room
  rw [map_lineAt_numbered] at same
  have stand := parse_heads room (numbered tokens)
  have lines : Declaration.among (parse room tokens).statements =
      placed.map (Declaration.mapLine (lineAt tokens)) := by
    rw [same, Parsed.mapLines, ← Stmt.mapLinesAll_eq_map]
    exact Declaration.among_mapLinesAll _ _
  have increasing := (heads_numberedFrom_increasing 0 tokens).sublist stand
  rw [List.pairwise_map] at increasing
  -- the number of a keyword is its place
  have heads : ∀ declared ∈ placed,
      tokens[declared.line]? = some ⟨.keyword declared.kind.word, lineAt tokens declared.line⟩ ∧
      tokens[declared.line + 1]?.map Token.kind = some (.identifier declared.name) := by
    intro declared mem
    obtain ⟨place, first, second, found, found', head⟩ :=
      exists_of_mem_heads (stand.subset (List.mem_map_of_mem mem))
    obtain ⟨rfl, named⟩ := headOf?_eq_some head
    rw [getElem?_numbered] at found found'
    obtain ⟨token, keyword, number⟩ := Option.map_eq_some_iff.mp found
    obtain ⟨token', name, rfl⟩ := Option.map_eq_some_iff.mp found'
    obtain ⟨kind, rfl⟩ := Token.mk.inj number
    refine ⟨?_, by rw [name, Option.map_some, ← named]⟩
    rw [keyword, lineAt, keyword, ← kind]
    rfl
  exact ⟨lines, increasing, fun declared mem => (heads declared mem).1,
    fun declared mem => (heads declared mem).2⟩

end TernLang
