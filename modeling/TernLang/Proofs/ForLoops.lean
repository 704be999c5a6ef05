import TernLang.Proofs.Declarations
import TernLang.Proofs.Diagnostics
import TernLang.Proofs.EndOfInput
import TernLang.Proofs.Grammar.Spans
import TernLang.Proofs.Layout
import TernLang.Proofs.Limits
import TernLang.Proofs.Parser.Completeness.Statement
import TernLang.Proofs.Parser.Soundness.Statement

/-! # A for loop is a while loop

`for ( first test ; change ) body` stands for the block

    { first while ( test ) { body change ; } }

in which a clause that is empty is left out, and an empty test is `true`. **Both
statements are parsed to the same tree, up to lines, and so they have the same run**
(`for_desugars`).

The block is nested one block deeper than the for statement, so that it is the first
of the two to come to the limit on nesting. Where that is reported, the for statement
may still be accepted (`for_desugars_tooDeep`).

What the clauses of a for statement are is not in question: the parser stops behind a
clause in one place only, so that a token list can be cut into clauses in one way
(`Initial.unique`, `Bound.unique`).
-/

namespace TernLang

open Grammar

/-! ## Phrases end in one place -/

/-- A step accepts only one of the phrases that a token list starts with. -/
theorem Parse.Accepts.unique {α : Type} {step : Parse α} {follows : TokenKind → Prop}
    {tokens tokens' others others' : List Token} {a a' : α}
    (accepts : Accepts step follows tokens a) (accepts' : Accepts step follows tokens' a')
    (same : tokens ++ others = tokens' ++ others')
    (behind : ∀ d : Cursor, d.rest = others → follows d.peek.kind)
    (behind' : ∀ d : Cursor, d.rest = others' → follows d.peek.kind) :
    a = a' ∧ tokens = tokens' ∧ others = others' := by
  let d : Cursor := ⟨others, tokens.getLast?.or none, #[], 0⟩
  let d' : Cursor := ⟨others', tokens'.getLast?.or none, #[], 0⟩
  have run : step (Cursor.start (tokens ++ others)) = .ok a d :=
    accepts _ d ⟨rfl, rfl, rfl, rfl⟩ (behind d rfl)
  have run' : step (Cursor.start (tokens' ++ others')) = .ok a' d' :=
    accepts' _ d' ⟨rfl, rfl, rfl, rfl⟩ (behind' d' rfl)
  rw [same, run'] at run
  obtain ⟨values, ends⟩ := EStateM.Result.ok.inj run
  obtain rfl : others' = others := congrArg Cursor.rest ends
  exact ⟨values.symm, List.append_cancel_right same, rfl⟩

namespace Grammar

/-- An expression in front of a symbol that is no operator. -/
theorem Expression.unique {tokens tokens' others others' : List Token} {tree tree' : Expr}
    {symbol : Symbol} {line line' : Nat} (phrase : Expression .assignment tokens tree)
    (phrase' : Expression .assignment tokens' tree')
    (plain : operatorLevel (.symbol symbol) = none)
    (same : tokens ++ sym symbol line :: others = tokens' ++ sym symbol line' :: others') :
    tree = tree' ∧ tokens = tokens' := by
  let size := tokens.length + tokens'.length
  have part := phrase.part size (16 * size + 15) (by omega) (by omega)
  have part' := phrase'.part size (16 * size + 15) (by omega) (by omega)
  have stops {line : Nat} {others : List Token} (d : Cursor)
      (left : d.rest = sym symbol line :: others) : Level.assignment.StopsAt d.peek.kind := by
    rw [Cursor.peek, left]
    exact Level.stopsAt_of_none plain
  obtain ⟨trees, parts, -⟩ := part.accepts.unique part'.accepts same stops stops
  exact ⟨trees, parts⟩

/-- An expression that may be missing, in front of a symbol that neither goes on with
one nor starts one. -/
theorem Bound.unique {tokens tokens' others others' : List Token} {value value' : Option Expr}
    {symbol : Symbol} {line line' : Nat} (phrase : Bound tokens value)
    (phrase' : Bound tokens' value') (plain : operatorLevel (.symbol symbol) = Option.none)
    (never : ¬ Level.assignment.StartsWith (.symbol symbol))
    (same : tokens ++ sym symbol line :: others = tokens' ++ sym symbol line' :: others') :
    value = value' ∧ tokens = tokens' := by
  -- a missing expression and one that is there would start with the same token
  have apart {tokens others others' : List Token} {tree : Expr} {line line' : Nat}
      (inner : Expression .assignment tokens tree)
      (same : sym symbol line :: others = tokens ++ sym symbol line' :: others') : False := by
    obtain ⟨token, rest, rfl, starts⟩ := inner.head
    obtain ⟨rfl, -⟩ := List.cons.inj same
    exact never starts
  cases phrase with
  | none =>
      cases phrase' with
      | none => exact ⟨rfl, rfl⟩
      | some inner' => exact (apart inner' same).elim
  | some inner =>
      cases phrase' with
      | none => exact (apart inner same.symm).elim
      | some inner' =>
          obtain ⟨rfl, parts⟩ := inner.unique inner' plain same
          exact ⟨rfl, parts⟩

/-- The first clause of a for statement, in front of anything. -/
theorem Initial.unique {tokens tokens' others others' : List Token} {initial initial' : Option Stmt}
    (phrase : Initial tokens initial) (phrase' : Initial tokens' initial')
    (same : tokens ++ others = tokens' ++ others') :
    initial = initial' ∧ tokens = tokens' ∧ others = others' := by
  let size := tokens.length + tokens'.length
  have accepts := Parse.forInitial_accepts size (16 * size) phrase (by omega) (by omega)
  have accepts' := Parse.forInitial_accepts size (16 * size) phrase' (by omega) (by omega)
  exact accepts.unique accepts' same (fun _ _ => trivial) (fun _ _ => trivial)

/-- A declaration that starts with `for` is a for statement. -/
theorem Declaration.of_for {line : Nat} {others : List Token} {tree : Stmt}
    (phrase : Declaration (word .forKw line :: others) tree) :
    ∃ paren first initial test condition semicolon change advance close dangling inner body,
      Initial first initial ∧ Bound test condition ∧ Bound change advance ∧
      Statement dangling inner body ∧
      others = sym .leftParen paren :: (first ++ (test ++ sym .semicolon semicolon ::
        (change ++ sym .rightParen close :: inner))) ∧
      tree = forTree initial condition semicolon advance body line := by
  generalize all : word .forKw line :: others = tokens at phrase
  cases phrase with
  | function => cases all
  | varDecl => cases all
  | statement statement =>
      cases statement with
      | expression inner =>
          obtain ⟨token, rest, rfl, starts⟩ := inner.head
          obtain ⟨rfl, -⟩ := List.cons.inj all
          exact starts.elim
      | print => cases all
      | returnValue => cases all
      | block => cases all
      | ifThen => cases all
      | ifElse => cases all
      | whileLoop => cases all
      | forLoop first test change inner =>
          cases all
          exact ⟨_, _, _, _, _, _, _, _, _, _, _, _, first, test, change, inner, rfl, rfl⟩

end Grammar

/-! ## The two statements -/

/-- The clauses of a for statement and its body, as they are spelled. The first clause
has its semicolon. -/
structure ForClauses where
  first : List TokenKind
  test : List TokenKind
  change : List TokenKind
  body : List TokenKind

def oneLine (kinds : List TokenKind) : List Token :=
  kinds.map fun kind => ⟨kind, 1⟩

/-- The tokens are of these kinds, up to the end of input. -/
def Spells (tokens : List Token) (kinds : List TokenKind) : Prop :=
  tokens.map Token.kind = kinds ++ [.endOfInput]

instance (tokens : List Token) (kinds : List TokenKind) : Decidable (Spells tokens kinds) :=
  inferInstanceAs (Decidable (_ = _))

/-- The statement without its lines: only the first line is left. -/
def Stmt.unplaced (stmt : Stmt) : Stmt :=
  stmt.mapLines fun _ => 1

namespace ForClauses

/-- `for ( first test ; change ) body` -/
def statement (clauses : ForClauses) : List TokenKind :=
  .keyword .forKw :: .symbol .leftParen :: (clauses.first ++ (clauses.test ++
    .symbol .semicolon :: (clauses.change ++ .symbol .rightParen :: clauses.body)))

/-- The statement in front of the loop; a semicolon alone is none. -/
def initial (clauses : ForClauses) : List TokenKind :=
  if clauses.first = [.symbol .semicolon] then [] else clauses.first

/-- The condition of the loop; a missing one is `true`. -/
def condition (clauses : ForClauses) : List TokenKind :=
  if clauses.test = [] then [.keyword .trueKw] else clauses.test

/-- The statement behind the body, if there is one. -/
def advance (clauses : ForClauses) : List TokenKind :=
  if clauses.change = [] then [] else clauses.change ++ [.symbol .semicolon]

/-- `{ first while ( test ) { body change ; } }` -/
def block (clauses : ForClauses) : List TokenKind :=
  .symbol .leftBrace :: (clauses.initial ++ .keyword .whileKw :: .symbol .leftParen ::
    (clauses.condition ++ .symbol .rightParen :: .symbol .leftBrace ::
      (clauses.body ++ (clauses.advance ++ [.symbol .rightBrace, .symbol .rightBrace]))))

/-- The clauses are what the grammar says, and the statement ends only behind its
body. -/
structure Proper (clauses : ForClauses) : Prop where
  first : ∃ initial, Grammar.Initial (oneLine clauses.first) initial
  test : ∃ condition, Bound (oneLine clauses.test) condition
  change : ∃ advance, Bound (oneLine clauses.change) advance
  endless : .endOfInput ∉ clauses.statement

end ForClauses

variable {clauses : ForClauses}

@[simp] theorem oneLine_nil : oneLine [] = [] := rfl

@[simp] theorem oneLine_cons (kind : TokenKind) (kinds : List TokenKind) :
    oneLine (kind :: kinds) = ⟨kind, 1⟩ :: oneLine kinds := rfl

@[simp] theorem oneLine_append (kinds others : List TokenKind) :
    oneLine (kinds ++ others) = oneLine kinds ++ oneLine others :=
  List.map_append

theorem oneLine_eq_nil {kinds : List TokenKind} : oneLine kinds = [] ↔ kinds = [] :=
  List.map_eq_nil_iff

theorem length_oneLine (kinds : List TokenKind) : (oneLine kinds).length = kinds.length :=
  List.length_map _

theorem map_kind_oneLine (kinds : List TokenKind) : (oneLine kinds).map Token.kind = kinds := by
  simp [oneLine, Function.comp_def]

/-- On the first line a token list is its spelling. -/
theorem Spells.unplaced {tokens : List Token} {kinds : List TokenKind}
    (spells : Spells tokens kinds) :
    tokens.map (Token.mapLine fun _ => 1) = oneLine kinds ++ [⟨.endOfInput, 1⟩] := by
  have place : Token.mapLine (fun _ => 1) = (fun kind => ⟨kind, 1⟩) ∘ Token.kind := rfl
  rw [place, ← List.map_map, spells]
  exact oneLine_append kinds [.endOfInput]

/-! ## From the for statement to the block -/

/-- The statement is parsed to the trees of its clauses, and to no others. -/
theorem ForClauses.Proper.parts {tree : Stmt} (proper : clauses.Proper)
    (phrase : Grammar.Declaration (oneLine clauses.statement) tree) :
    ∃ initial condition advance dangling body, Grammar.Initial (oneLine clauses.first) initial ∧
      Bound (oneLine clauses.test) condition ∧ Bound (oneLine clauses.change) advance ∧
      Statement dangling (oneLine clauses.body) body ∧
      tree = forTree initial condition 1 advance body 1 := by
  obtain ⟨initial, first⟩ := proper.first
  obtain ⟨condition, test⟩ := proper.test
  obtain ⟨advance, change⟩ := proper.change
  simp only [ForClauses.statement, oneLine_cons, oneLine_append] at phrase
  obtain ⟨paren, _, _, _, _, semicolon, _, _, close, dangling, inner, body, first', test', change',
    body', all, rfl⟩ := phrase.of_for
  have never : ¬ Level.assignment.StartsWith (.symbol .semicolon) := id
  have never' : ¬ Level.assignment.StartsWith (.symbol .rightParen) := id
  obtain ⟨rfl, rfl, fromTest⟩ := first.unique first' (List.cons.inj all).2
  obtain ⟨rfl, rfl⟩ := test.unique test' rfl never fromTest
  obtain ⟨semicolons, fromChange⟩ := List.cons.inj (List.append_cancel_left fromTest)
  cases semicolons
  obtain ⟨rfl, rfl⟩ := change.unique change' rfl never' fromChange
  obtain ⟨-, rfl⟩ := List.cons.inj (List.append_cancel_left fromChange)
  exact ⟨_, _, _, dangling, body, first, test, change, body', rfl⟩

/-- Tokens that are all on the first line are their kinds, written on one line. -/
theorem oneLine_map_kind {tokens : List Token} (first : ∀ token ∈ tokens, token.line = 1) :
    oneLine (tokens.map Token.kind) = tokens := by
  rw [oneLine, List.map_map]
  refine (List.map_congr_left fun token mem => ?_).trans (List.map_id tokens)
  rw [Function.comp_apply, ← first token mem, id]

namespace Grammar

/-- The statement in front of the loop stands in the block. -/
theorem Initial.declarations {initial : Option Stmt}
    (phrase : Initial (oneLine clauses.first) initial) :
    Declarations (oneLine clauses.initial) initial.toList := by
  generalize spelled : oneLine clauses.first = tokens at phrase
  cases phrase with
  | none =>
      have first : clauses.first = [.symbol .semicolon] := by
        rw [← map_kind_oneLine clauses.first, spelled]
        rfl
      rw [ForClauses.initial, if_pos first]
      exact .nil
  | varDecl inner =>
      have first : clauses.first ≠ [.symbol .semicolon] := by
        intro first
        rw [first] at spelled
        cases spelled
      rw [ForClauses.initial, if_neg first, spelled]
      simpa using Declarations.cons (.varDecl inner) .nil
  | @expression tokens _ _ inner =>
      have first : clauses.first ≠ [.symbol .semicolon] := by
        intro first
        obtain ⟨token, rest, rfl, -⟩ := inner.head
        rw [first] at spelled
        simpa using congrArg List.length spelled
      rw [ForClauses.initial, if_neg first, spelled]
      simpa using Declarations.cons (.statement (.expression inner)) .nil

/-- The condition of the loop is there. -/
theorem Bound.condition {condition : Option Expr}
    (phrase : Bound (oneLine clauses.test) condition) :
    Expression .assignment (oneLine clauses.condition)
      (condition.getD (.literal (.bool true) 1)) := by
  generalize spelled : oneLine clauses.test = tokens at phrase
  cases phrase with
  | none =>
      rw [ForClauses.condition, if_pos (oneLine_eq_nil.mp spelled)]
      exact .of_primary .true
  | some inner =>
      obtain ⟨token, rest, rfl, -⟩ := inner.head
      have test : clauses.test ≠ [] := by
        rw [Ne, ← oneLine_eq_nil, spelled]
        exact List.cons_ne_nil _ _
      rw [ForClauses.condition, if_neg test, spelled]
      exact inner

/-- The advance stands behind the body. -/
theorem Bound.advance {advance : Option Expr} {dangling : Bool} {body : Stmt}
    (phrase : Bound (oneLine clauses.change) advance)
    (inner : Statement dangling (oneLine clauses.body) body) :
    Declarations (oneLine (clauses.body ++ clauses.advance)) (forStep advance body) := by
  generalize spelled : oneLine clauses.change = tokens at phrase
  rw [oneLine_append]
  cases phrase with
  | none =>
      rw [ForClauses.advance, if_pos (oneLine_eq_nil.mp spelled)]
      exact .cons (.statement inner) .nil
  | some value =>
      obtain ⟨token, rest, rfl, -⟩ := value.head
      have change : clauses.change ≠ [] := by
        rw [Ne, ← oneLine_eq_nil, spelled]
        exact List.cons_ne_nil _ _
      have step := Declarations.cons (.statement (@Statement.expression _ _ 1 value)) .nil
      rw [List.append_nil] at step
      rw [ForClauses.advance, if_neg change, oneLine_append, spelled]
      exact .cons (.statement inner) step

/-- Declarations in front of others are declarations together. -/
theorem Declarations.append {others : List Token} {more : List Stmt} :
    ∀ {tokens : List Token} {trees : List Stmt}, Declarations tokens trees →
      Declarations others more → Declarations (tokens ++ others) (trees ++ more)
  | _, _, .nil, behind => behind
  | _, _, .cons first rest, behind => by
      rw [List.append_assoc]
      exact .cons first (rest.append behind)

end Grammar

/-- The block has the tree of the for statement. -/
theorem ForClauses.block_statement {initial : Option Stmt} {condition advance : Option Expr}
    {dangling : Bool} {body : Stmt} (first : Grammar.Initial (oneLine clauses.first) initial)
    (test : Bound (oneLine clauses.test) condition)
    (change : Bound (oneLine clauses.change) advance)
    (inner : Statement dangling (oneLine clauses.body) body) :
    Statement false (oneLine clauses.block) (forTree initial condition 1 advance body 1) := by
  have line : body.line = 1 := by
    obtain ⟨token, mem, same⟩ := inner.line_mem
    obtain ⟨kind, -, rfl⟩ := List.mem_map.mp mem
    exact same.symm
  have pass : Statement false (sym .leftBrace 1 ::
      (oneLine (clauses.body ++ clauses.advance) ++ [sym .rightBrace 1]))
      (forBody advance body) := by
    rw [forBody, line]
    exact .block (change.advance inner)
  have loop : Declarations _ [forWhile condition 1 advance body 1] :=
    .cons (.statement (@Statement.whileLoop 1 1 _ _ 1 _ _ _ test.condition pass)) .nil
  have whole : Statement false _
      (.block (initial.toList ++ [forWhile condition 1 advance body 1]) 1) :=
    @Statement.block 1 _ _ 1 (first.declarations.append loop)
  rw [forTree_eq]
  convert whole using 1
  simp [ForClauses.block]

/-- Declarations with one tree are a single declaration. -/
theorem Grammar.Declarations.single {tokens : List Token} {tree : Stmt}
    (phrases : Declarations tokens [tree]) : Grammar.Declaration tokens tree := by
  cases phrases with
  | cons first rest =>
      cases rest
      rwa [List.append_nil]

/-! ## Parsing both -/

/-- The nesting is not reported as too deep, or the room is enough for any nesting of so
many tokens. -/
def Fits (room : Nat) (tokens : List Token) : Prop :=
  (∀ error ∈ (parse room tokens).errors, error.cause ≠ .nestedTooDeeply) ∨
    16 * tokens.length + 5 ≤ room

variable {tokens tokens' : List Token} {kinds : List TokenKind} {tree : Stmt} {room room' : Nat}

/-- The parse without its lines is that of the spelling. -/
theorem Spells.parse_oneLine (spells : Spells tokens kinds) (room : Nat) :
    parse room (oneLine kinds ++ [⟨.endOfInput, 1⟩]) =
      (parse room tokens).mapLines fun _ => 1 := by
  rw [← spells.unplaced, parse_mapLines (.inl rfl)]

/-- A text that spells some kinds has one more token, the end of input. -/
theorem Spells.length_eq (spells : Spells tokens kinds) : tokens.length = kinds.length + 1 := by
  rw [← List.length_map, spells, List.length_append, List.length_singleton]

/-- A spelling that is accepted as one statement is one of the grammar. -/
theorem Spells.declaration (spells : Spells tokens kinds) (endless : .endOfInput ∉ kinds)
    (accepted : parse room tokens = ⟨[tree], []⟩) :
    Grammar.Declaration (oneLine kinds) tree.unplaced := by
  have enough : 5 ≤ room := by
    by_contra small
    rw [parse_small (by omega)] at accepted
    cases accepted
  have flat := spells.parse_oneLine room
  rw [accepted] at flat
  have inner : ∀ token ∈ oneLine kinds, token.kind ≠ .endOfInput := by
    intro token mem atEnd
    obtain ⟨kind, spelled, rfl⟩ := List.mem_map.mp mem
    exact endless (atEnd ▸ spelled)
  have phrases := @Parse.declarations_of_accepted room enough (oneLine kinds) 1 inner
    (by rw [flat]; rfl)
  rw [flat] at phrases
  exact phrases.single

/-- A spelling of one statement is accepted where its nesting fits. -/
theorem Spells.accepted (spells : Spells tokens kinds)
    (phrase : Grammar.Declaration (oneLine kinds) tree) (enough : 5 ≤ room)
    (fits : Fits room tokens) :
    ∃ tree', parse room tokens = ⟨[tree'], []⟩ ∧ tree'.unplaced = tree := by
  have program : Program (oneLine kinds ++ [⟨.endOfInput, 1⟩]) [tree] := by
    simpa using Program.mk (.cons phrase .nil)
  have flat := spells.parse_oneLine room
  have parsed : parse room (oneLine kinds ++ [⟨.endOfInput, 1⟩]) = ⟨[tree], []⟩ := by
    rcases fits with shallow | large
    · refine parse_of_program_fits program enough fun error mem => ?_
      rw [flat] at mem
      obtain ⟨noted, found, rfl⟩ := List.mem_map.mp mem
      exact shallow noted found
    · have length := spells.length_eq
      exact parse_of_program_room program (by simpa [length, length_oneLine] using large)
  rw [flat] at parsed
  obtain ⟨statements, errors⟩ := Parsed.mk.inj parsed
  obtain ⟨tree', trees, placed⟩ := List.map_eq_singleton_iff.mp statements
  refine ⟨tree', ?_, placed⟩
  rw [← trees, ← List.map_eq_nil_iff.mp errors]

/-- A for statement that is accepted has clauses. -/
theorem Spells.exists_clauses (spells : Spells tokens (.keyword .forKw :: kinds))
    (endless : .endOfInput ∉ kinds) (accepted : parse room tokens = ⟨[tree], []⟩) :
    ∃ clauses : ForClauses, clauses.Proper ∧ clauses.statement = .keyword .forKw :: kinds := by
  have endless' : TokenKind.endOfInput ∉ TokenKind.keyword .forKw :: kinds := by simp [endless]
  have phrase := spells.declaration endless' accepted
  rw [oneLine_cons] at phrase
  obtain ⟨paren, first, initial, test, condition, semicolon, change, advance, close, dangling,
    inner, body, first', test', change', body', all, -⟩ := phrase.of_for
  -- each part is its own spelling, since everything is on the first line
  have places : ∀ token ∈ oneLine kinds, token.line = 1 := by
    intro token mem
    obtain ⟨kind, -, rfl⟩ := List.mem_map.mp mem
    rfl
  have spelled := congrArg (List.map Token.kind) all
  rw [map_kind_oneLine] at spelled
  rw [all] at places
  simp only [List.mem_cons, List.mem_append, or_imp, forall_and] at places
  obtain ⟨-, firstLine, testLine, -, changeLine, -, -⟩ := places
  refine ⟨⟨first.map Token.kind, test.map Token.kind, change.map Token.kind,
    inner.map Token.kind⟩, ⟨⟨initial, ?_⟩, ⟨condition, ?_⟩, ⟨advance, ?_⟩, ?_⟩, ?_⟩
  · rwa [oneLine_map_kind firstLine]
  · rwa [oneLine_map_kind testLine]
  · rwa [oneLine_map_kind changeLine]
  · rw [ForClauses.statement]
    simpa [spelled] using endless
  · rw [ForClauses.statement, spelled]
    simp

/-- The run of a text whose tokens are known. -/
theorem run_of_lex {limits : Limits} {source : String} {tokens : List Token}
    (split : lex source = ⟨tokens, none⟩)
    (allowed : nestingBudget limits.maxCallDepth ≤ maxNesting) :
    run limits source = .ok ((Interpreter.new limits).runAnalyzed
      ⟨(parse (parsingRoom limits.maxCallDepth) tokens).statements,
        (parse (parsingRoom limits.maxCallDepth) tokens).errors.map .ofSyntaxError⟩).1 := by
  rw [run_eq, analyze_eq_ok (congrArg Lexed.error? split) allowed, programOf, split]
  rfl

/-- A text that is spelled up to its end is split. -/
theorem Spells.lexes {source : String} (spells : Spells (lex source).tokens kinds) :
    (lex source).error? = none := by
  rcases exists_scan source.toList with
    ⟨body, scans⟩ | ⟨before, rest, read, cause, parts, scans, stuck⟩
  · rw [lex_eq_lexAt, scans.lex_end]
  · rw [lex_eq_lexAt, scans.lex_stuck parts stuck] at spells
    have ending : TokenKind.endOfInput ∈ read.map Token.kind := by
      rw [spells]
      simp
    obtain ⟨token, mem, atEnd⟩ := List.mem_map.mp ending
    exact absurd atEnd (scans.endless token mem)

/-- The block is accepted where the for statement is, if its nesting fits. -/
theorem ForClauses.Proper.parse_block (proper : clauses.Proper)
    (spells : Spells tokens clauses.statement) (spells' : Spells tokens' clauses.block)
    (accepted : parse room tokens = ⟨[tree], []⟩) (enough : 5 ≤ room')
    (fits : Fits room' tokens') :
    ∃ tree', parse room' tokens' = ⟨[tree'], []⟩ ∧ tree'.unplaced = tree.unplaced := by
  obtain ⟨initial, condition, advance, dangling, body, first, test, change, inner, same⟩ :=
    proper.parts (spells.declaration proper.endless accepted)
  rw [same]
  exact spells'.accepted (.statement (block_statement first test change inner)) enough fits

/-- A statement has the same report as another one with the same tree up to lines. -/
theorem run_unplaced_congr {limits : Limits} {source source' : String} {tree tree' : Stmt}
    (analyzed : analyze limits.maxCallDepth source = .ok ⟨[tree], []⟩)
    (analyzed' : analyze limits.maxCallDepth source' = .ok ⟨[tree'], []⟩)
    (same : tree'.unplaced = tree.unplaced) :
    (run limits source').map Report.unplaced = (run limits source).map Report.unplaced := by
  have analyses : Analysis.mapLines (fun _ => 1) ⟨[tree'], []⟩ =
      Analysis.mapLines (fun _ => 1) ⟨[tree], []⟩ := by
    simpa [Analysis.mapLines, Stmt.unplaced] using same
  have reports (analysis : Analysis) :
      ((Interpreter.new limits).runAnalyzed analysis).1.unplaced =
        ((Interpreter.new limits).runAnalyzed (analysis.mapLines fun _ => 1)).1 :=
    (runAnalyzed_mapLines _ _ analysis).symm
  rw [run_eq, run_eq, analyzed, analyzed']
  simp only [Except.map, reports, analyses]

/-- **A for loop is a while loop in a block.** Every for statement has clauses. Write
the block with the loop that they stand for, on any lines. Then both are parsed without
a mistake to one statement, with the same tree up to lines, and both texts have the
same report up to lines: they print the same and fail with the same message, or not at
all, for any number of passes. The one way out is that the block, which is nested one
deeper, is reported as nested too deeply; there is a limit that fits every block of the
same length. -/
theorem for_desugars :
    (∀ (kinds : List TokenKind) (tokens : List Token) (room : Nat) (tree : Stmt),
      Spells tokens (.keyword .forKw :: kinds) → .endOfInput ∉ kinds →
      parse room tokens = ⟨[tree], []⟩ →
      ∃ clauses : ForClauses, clauses.Proper ∧ clauses.statement = .keyword .forKw :: kinds) ∧
    ∀ clauses : ForClauses, clauses.Proper →
      (∀ (tokens tokens' : List Token) (room room' : Nat) (tree : Stmt),
        Spells tokens clauses.statement → Spells tokens' clauses.block →
        parse room tokens = ⟨[tree], []⟩ → 5 ≤ room' → Fits room' tokens' →
        ∃ tree', parse room' tokens' = ⟨[tree'], []⟩ ∧ tree'.unplaced = tree.unplaced) ∧
      ∀ (limits : Limits) (source source' : String) (tree : Stmt),
        Spells (lex source).tokens clauses.statement →
        Spells (lex source').tokens clauses.block →
        analyze limits.maxCallDepth source = .ok ⟨[tree], []⟩ →
        Fits (parsingRoom limits.maxCallDepth) (lex source').tokens →
        ∃ tree', analyze limits.maxCallDepth source' = .ok ⟨[tree'], []⟩ ∧
          tree'.unplaced = tree.unplaced ∧
          (run limits source').map Report.unplaced = (run limits source).map Report.unplaced := by
  refine ⟨fun kinds tokens room tree spells endless => spells.exists_clauses endless,
    fun clauses proper => ⟨fun tokens tokens' room room' tree => proper.parse_block, ?_⟩⟩
  intro limits source source' tree spells spells' analyzed fits
  obtain ⟨allowed, accepted⟩ := (analyze_eq_ok_nil_iff spells.lexes).mp analyzed
  obtain ⟨tree', accepted', same⟩ :=
    proper.parse_block spells spells' accepted (five_le_parsingRoom limits.maxCallDepth) fits
  have analyzed' := (analyze_eq_ok_nil_iff spells'.lexes).mpr ⟨allowed, accepted'⟩
  exact ⟨tree', analyzed', same, run_unplaced_congr analyzed analyzed' same⟩

/-- A result without mistakes that has one statement is that statement. -/
theorem Parsed.eq_of_one {parsed : Parsed} (one : parsed.statements.length = 1)
    (accepted : parsed.errors = []) : ∃ tree, parsed = ⟨[tree], []⟩ := by
  obtain ⟨tree, trees⟩ := List.length_eq_one_iff.mp one
  exact ⟨tree, by rw [← trees, ← accepted]⟩

/-- The clauses of a loop of one pass. -/
def onceMore : ForClauses where
  first := [.keyword .varKw, .identifier "more", .symbol .equal, .keyword .trueKw,
    .symbol .semicolon]
  test := [.identifier "more"]
  change := [.identifier "more", .symbol .equal, .keyword .falseKw]
  body := [.keyword .ifKw, .symbol .leftParen, .identifier "more", .symbol .rightParen,
    .keyword .printKw, .string "again", .symbol .semicolon]

/-- The loop of one pass and its block, on two lines, print one line each. -/
theorem for_desugars_onceMore :
    let source := "for (var more = true; more; more = false) if (more) print \"again\";"
    let source' := "\x7b var more = true; while (more) \x7b if (more)\n" ++
      "print \"again\"; more = false; \x7d \x7d"
    (∃ clauses : ForClauses, clauses.Proper ∧ clauses.statement = onceMore.statement) ∧
    (∃ tree', parse 500 (lex source').tokens = ⟨[tree'], []⟩) ∧
    (run ⟨255, 10⟩ source').map Report.unplaced = (run ⟨255, 10⟩ source).map Report.unplaced ∧
    run ⟨255, 10⟩ source = .ok ⟨true, ["again"], [], true⟩ := by
  intro source source'
  have proper : onceMore.Proper :=
    ⟨⟨_, .varDecl (.initial (.of_primary .true))⟩, ⟨_, .some (.of_primary .name)⟩,
      ⟨_, .some (.assign (.of_primary .false))⟩, by decide⟩
  have split : lex source = ⟨oneLine onceMore.statement ++ [⟨.endOfInput, 1⟩], none⟩ := by
    decide +kernel
  have split' : lex source' = ⟨oneLine (onceMore.block.take 15) ++
      (onceMore.block.drop 15).map (⟨·, 2⟩) ++ [⟨.endOfInput, 2⟩], none⟩ := by
    decide +kernel
  have spells : Spells (lex source).tokens onceMore.statement := by
    rw [split]
    decide
  have spells' : Spells (lex source').tokens onceMore.block := by
    rw [split']
    decide
  have fits (room : Nat) (large : 405 ≤ room) : Fits room (lex source').tokens := by
    rw [split']
    exact .inr large
  obtain ⟨tree, accepted⟩ : ∃ tree, parse (parsingRoom 255) (lex source).tokens = ⟨[tree], []⟩ := by
    rw [split]
    exact Parsed.eq_of_one (by decide +kernel) (by decide +kernel)
  have analyzed := (analyze_eq_ok_nil_iff spells.lexes).mpr ⟨by decide, accepted⟩
  obtain ⟨exist, block⟩ := for_desugars
  obtain ⟨parses, runs⟩ := block onceMore proper
  obtain ⟨tree', parsed, -⟩ :=
    parses _ _ _ 500 _ spells spells' accepted (by decide) (fits 500 (by decide))
  obtain ⟨_, -, -, same⟩ := runs ⟨255, 10⟩ _ _ _ spells spells' analyzed (fits _ (by decide))
  refine ⟨exist _ _ _ _ spells (by decide) accepted, ⟨tree', parsed⟩, same, ?_⟩
  refine (@run_of_lex ⟨255, 10⟩ _ _ split (by decide)).trans ?_
  decide +kernel

/-- A for statement with a body that is nested almost as deeply as one call allows. -/
def deepClauses : ForClauses where
  first := [.symbol .semicolon]
  test := [.keyword .falseKw]
  change := []
  body := List.replicate 1009 (.symbol .bang) ++ [.keyword .trueKw, .symbol .semicolon]

def deepLoop : List Char :=
  "for (; false;) ".toList ++ List.replicate 1009 '!' ++ "true;".toList

def deepBlock : List Char :=
  "\x7b while (false) \x7b ".toList ++ List.replicate 1009 '!' ++ "true; \x7d \x7d".toList

set_option maxRecDepth 4000 in
/-- The limit on nesting does tell the two apart: the for statement completes, and the
block that it stands for is reported. -/
theorem for_desugars_tooDeep :
    deepClauses.Proper ∧
    Spells (lex (String.ofList deepLoop)).tokens deepClauses.statement ∧
    Spells (lex (String.ofList deepBlock)).tokens deepClauses.block ∧
    (∃ tree, analyze 1 (String.ofList deepLoop) = .ok ⟨[tree], []⟩) ∧
    (∀ tree', analyze 1 (String.ofList deepBlock) ≠ .ok ⟨[tree'], []⟩) ∧
    run ⟨1, 10⟩ (String.ofList deepLoop) = .ok ⟨true, [], [], true⟩ ∧
    run ⟨1, 10⟩ (String.ofList deepBlock) = .ok ⟨false, [],
      [⟨.parse, some 1, "Expression nested too deeply", "ParseError"⟩], true⟩ := by
  have proper : deepClauses.Proper :=
    ⟨⟨_, .none⟩, ⟨_, .some (.of_primary .false)⟩, ⟨_, .none⟩, by decide +kernel⟩
  have loop : lex (String.ofList deepLoop) =
      ⟨oneLine deepClauses.statement ++ [⟨.endOfInput, 1⟩], none⟩ := by
    rw [lex_ofList]
    decide +kernel
  have block : lex (String.ofList deepBlock) =
      ⟨oneLine deepClauses.block ++ [⟨.endOfInput, 1⟩], none⟩ := by
    rw [lex_ofList]
    decide +kernel
  have spells : ∀ kinds, Spells (oneLine kinds ++ [⟨.endOfInput, 1⟩]) kinds := by
    intro kinds
    simp [Spells, map_kind_oneLine]
  have allowed : nestingBudget 1 ≤ maxNesting := by decide
  have accepted :
      (parse (parsingRoom 1) (lex (String.ofList deepLoop)).tokens).statements.length = 1 ∧
      (parse (parsingRoom 1) (lex (String.ofList deepLoop)).tokens).errors = [] := by
    rw [loop]
    decide +kernel
  have refused :
      (parse (parsingRoom 1) (lex (String.ofList deepBlock)).tokens).errors.length = 1 := by
    rw [block]
    decide +kernel
  refine ⟨proper, by rw [loop]; exact spells _, by rw [block]; exact spells _, ?_, ?_, ?_, ?_⟩
  · obtain ⟨tree, parsed⟩ := Parsed.eq_of_one accepted.1 accepted.2
    exact ⟨tree, (analyze_eq_ok_nil_iff (by rw [loop])).mpr ⟨allowed, parsed⟩⟩
  · intro tree' analyzed
    obtain ⟨-, parsed⟩ := (analyze_eq_ok_nil_iff (by rw [block])).mp analyzed
    rw [parsed] at refused
    cases refused
  · refine (@run_of_lex ⟨1, 10⟩ _ _ loop allowed).trans ?_
    decide +kernel
  · refine (@run_of_lex ⟨1, 10⟩ _ _ block allowed).trans ?_
    decide +kernel

end TernLang
