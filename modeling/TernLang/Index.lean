import TernLang.Interpreter
import TernLang.Text.Blank
import TernLang.Text.Lines
import TernLang.Text.Word

/-! # The index of a document

The names that a document declares, wherever they stand, found by parsing it
and never by running it. The parser recovers from mistakes, so a half-written
document has an index too, next to its diagnostics.
-/

namespace TernLang

/-- What a name was declared as. -/
inductive SymbolKind where
  | var | function
  deriving DecidableEq, Repr

def SymbolKind.keyword : SymbolKind → String
  | var => "var"
  | function => "def"

/-- A declaration in a program. -/
structure Declaration where
  name : String
  kind : SymbolKind
  params : List String
  line : Nat
  deriving DecidableEq, Repr

namespace Declaration

/-- Joins the declarations that several statements hold. -/
def collect (find : Stmt → Option (List Declaration)) : List Stmt → Option (List Declaration)
  | [] => some []
  | stmt :: rest => do
      let first ← find stmt
      let others ← collect find rest
      pure (first ++ others)

/-- The declarations in statements and everything inside them, in the order of
the source. Every level of nesting takes one unit of `room`; `none` means that
there is more. -/
def inside : (room : Nat) → List Stmt → Option (List Declaration)
  | 0, _ => none
  | room + 1, stmts => collect (fun stmt =>
      match stmt with
      | .funDecl name params body line => do
          pure (⟨name, .function, params, line⟩ :: (← inside room body))
      | .varDecl name _ line => some [⟨name, .var, [], line⟩]
      | .block body _ => inside room body
      | .ifElse _ thenBranch none _ => inside room [thenBranch]
      | .ifElse _ thenBranch (some elseBranch) _ => do
          pure ((← inside room [thenBranch]) ++ (← inside room [elseBranch]))
      | .whileLoop _ body _ => inside room [body]
      | _ => some []) stmts

end Declaration

/-- A name of a document: where it was declared (lines and columns count from
zero) and as what. -/
structure DocumentSymbol where
  name : String
  kind : SymbolKind
  line : Nat
  column : Nat
  params : List String
  deriving DecidableEq, Repr

namespace DocumentSymbol

/-- The declaration of the name, as a reader would write it. -/
def signature (symbol : DocumentSymbol) : String :=
  match symbol.kind with
  | .function => "def " ++ symbol.name ++ "(" ++ ", ".intercalate symbol.params ++ ")"
  | .var => "var " ++ symbol.name

end DocumentSymbol

/-- The names of a document in the order of their first declarations, and what
is wrong with it. -/
structure DocumentIndex where
  symbols : List DocumentSymbol
  diagnostics : List Diagnostic
  deriving DecidableEq, Repr

/-- Why a document has no index: it cannot be parsed under the limit on calls in
progress, or its statements are nested too deeply. -/
inductive IndexError where
  | limit (error : LimitTooLarge)
  | nestedTooDeeply
  deriving DecidableEq, Repr

namespace Index

/-- What follows `word` at the front of a text. -/
def afterWord? : (word text : List Char) → Option (List Char)
  | [], text => some text
  | _ :: _, [] => none
  | w :: word, c :: text => if w = c then afterWord? word text else none

/-- The text is empty or does not start with a word character. -/
def atWordEnd : List Char → Bool
  | [] => true
  | c :: _ => !Text.isWordChar c

/-- If a text starts with a keyword, blanks and a whole name, the distance of
the name from the start. -/
def nameOffset? (keyword name text : List Char) : Option Nat := do
  let rest ← afterWord? keyword text
  let gap := rest.takeWhile Text.isBlank
  let remaining ← afterWord? name (rest.dropWhile Text.isBlank)
  if !gap.isEmpty && atWordEnd remaining then some (keyword.length + gap.length) else none

/-- The first place in a text where a keyword that starts a word, blanks and a
whole name stand: the position of the name. `afterWordChar` tells whether a
word character stands in front of the text, `start` how many characters do. -/
def findName (keyword name : List Char) :
    (afterWordChar : Bool) → (start : Nat) → List Char → Option Nat
  | _, _, [] => none
  | afterWordChar, start, c :: rest =>
      match (if afterWordChar then none else nameOffset? keyword name (c :: rest)) with
      | some offset => some (start + offset)
      | none => findName keyword name (Text.isWordChar c) (start + 1) rest

/-- The column of the declaration of a name on a line, or zero. -/
def column (lines : List Text.Line) (line : Nat) (kind : SymbolKind) (name : String) : Nat :=
  match lines[line]? with
  | none => 0
  | some found => (findName kind.keyword.toList name.toList false 0 found.text).getD 0

/-- Puts a symbol in the place of the one with its name, or at the end. -/
def put : List DocumentSymbol → DocumentSymbol → List DocumentSymbol
  | [], symbol => [symbol]
  | old :: rest, symbol =>
      if old.name = symbol.name then symbol :: rest else old :: put rest symbol

/-- Adds a declaration: a function takes the place of what was declared under
its name, a variable does not. -/
def add (lines : List Text.Line) (symbols : List DocumentSymbol) (declared : Declaration) :
    List DocumentSymbol :=
  let line := declared.line - 1
  let symbol : DocumentSymbol :=
    ⟨declared.name, declared.kind, line, column lines line declared.kind declared.name,
      declared.params⟩
  match declared.kind with
  | .function => put symbols symbol
  | .var => if symbols.any (·.name == declared.name) then symbols else put symbols symbol

/-- The nesting of statements that can be indexed: four units of the nesting
outside of runs are in use before. -/
def room : Nat := baseNesting - 4

/-- The index of a document whose declarations are given. -/
def ofDeclarations (text : String) (declared : List Declaration) (diagnostics : List Diagnostic) :
    DocumentIndex :=
  ⟨declared.foldl (add (Text.lines text.toList)) [], diagnostics⟩

def build (maxCallDepth : Int) (text : String) : Except IndexError DocumentIndex :=
  match analyze maxCallDepth text with
  | .error error => .error (.limit error)
  | .ok analysis =>
      match Declaration.inside room analysis.statements with
      | none => .error .nestedTooDeeply
      | some declared => .ok (ofDeclarations text declared analysis.diagnostics)

def builtinHelp : List (String × String) :=
  [("hash", "hash(s) -> SHA-256 hex digest of the string s")]

def methodHelp : List (String × String) :=
  [("push", "list.push(v) -> appends v"),
    ("pop", "list.pop() -> removes and returns the last element"),
    ("insertAt", "list.insertAt(i, v) -> inserts v before position i"),
    ("remove", "list.remove(i) -> removes the element at position i"),
    ("index", "list.index(v) -> first position of v, or -1"),
    ("len", "list.len() -> number of elements"),
    ("sort", "list.sort() -> sorts in place and returns the list")]

/-- The help on a word: built-in functions and methods come before the names of
the document. -/
def describe (word : String) (symbols : List DocumentSymbol) : Option String :=
  match builtinHelp.lookup word with
  | some text => some text
  | none =>
      match methodHelp.lookup word with
      | some text => some text
      | none =>
          match symbols.find? (·.name == word) with
          | some symbol =>
              let signature := symbol.signature
              some s!"{signature} (defined at {symbol.line + 1}:{symbol.column + 1})"
          | none => none

end Index

end TernLang
