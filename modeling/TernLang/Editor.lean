import TernLang.Index
import TernLang.Settings

/-! # Answers to an editor

The open documents of an editor and the answers to its questions about them:
problems, the help on a word, completions and an outline. A document is indexed
when it is opened or changed; questions change nothing. `handle` takes the events
one at a time.
-/

namespace TernLang.Editor

/-- A stretch of a document; lines and characters count from zero. -/
structure Range where
  startLine : Nat
  startChar : Nat
  endLine : Nat
  endChar : Nat
  deriving DecidableEq, Repr

/-- A problem as an editor shows it. -/
structure Problem where
  range : Range
  message : String
  code : String
  deriving DecidableEq, Repr

/-- The whole of a line; a line that does not exist is empty. -/
def lineRange (lines : List Text.Line) (line : Nat) : Range :=
  let width := match lines[line]? with
    | some found => found.text.length
    | none => 0
  ⟨line, 0, line, width⟩

/-- The line that a diagnostic belongs to; one without line belongs to the
first. -/
def problemLine (diagnostic : Diagnostic) : Nat :=
  diagnostic.line.getD 1 - 1

/-- The problems of a document, each on the whole of its line. -/
def problems (text : String) (diagnostics : List Diagnostic) : List Problem :=
  let lines := Text.lines text.toList
  diagnostics.map fun diagnostic =>
    ⟨lineRange lines (problemLine diagnostic), diagnostic.message, diagnostic.kind⟩

structure Position where
  line : Nat
  character : Nat
  deriving DecidableEq, Repr

/-- A line with its terminator. -/
def fullLine? (text : String) (line : Nat) : Option (List Char) :=
  ((Text.lines text.toList)[line]?).map Text.Line.full

/-- The part of a line in front of a position. -/
def lineBefore (text : String) (position : Position) : List Char :=
  match fullLine? text position.line with
  | some line => line.take position.character
  | none => []

/-- The word around a position, or at the end of the line if the position is
beyond it. -/
def wordAt (text : String) (position : Position) : Option String :=
  match fullLine? text position.line with
  | none => none
  | some line =>
      let before := (line.take position.character).reverse.takeWhile Text.isWordChar
      let after := (line.drop position.character).takeWhile Text.isWordChar
      let word := before.reverse ++ after
      if word.isEmpty then none else some (String.ofList word)

/-- An open document. -/
structure Document where
  text : String
  index : DocumentIndex
  deriving DecidableEq, Repr

/-- The open documents, in the order in which they were opened. -/
abbrev Store := List (String × Document)

namespace Store

def get? : Store → String → Option Document
  | [], _ => none
  | (key, document) :: rest, uri => if key = uri then some document else get? rest uri

/-- Puts a document in the place of the one under its name, or at the end. -/
def put : Store → String → Document → Store
  | [], uri, document => [(uri, document)]
  | (key, old) :: rest, uri, document =>
      if key = uri then (key, document) :: rest else (key, old) :: put rest uri document

def erase (store : Store) (uri : String) : Store :=
  store.filter fun entry => entry.1 != uri

end Store

/-- The help on the word at a position. -/
def hover (store : Store) (uri : String) (position : Position) : Option String := do
  let document ← store.get? uri
  let word ← wordAt document.text position
  Index.describe word document.index.symbols

/-- What a completion stands for. -/
inductive CompletionKind where
  | method | function | var | keyword
  deriving DecidableEq, Repr

/-- A completion: the text to insert, what it stands for and an explanation. -/
structure Completion where
  label : String
  kind : CompletionKind
  detail : Option String
  deriving DecidableEq, Repr

def sortedKeywords : List Keyword :=
  [.andKw, .defKw, .elseKw, .falseKw, .forKw, .ifKw, .nullKw, .orKw, .printKw, .returnKw, .trueKw,
    .varKw, .whileKw]

/-- A point, apart from blanks, stands in front of the position. -/
def afterPoint (text : String) (position : Position) : Bool :=
  (Text.trimRight (lineBefore text position)).getLast? == some '.'

/-- The completion for a name of a document. -/
def Completion.ofSymbol (symbol : DocumentSymbol) : Completion :=
  match symbol.kind with
  | .function => ⟨symbol.name, .function, some symbol.signature⟩
  | .var => ⟨symbol.name, .var, some symbol.signature⟩

/-- The completions at a position: behind a point the methods of lists, else the
keywords, the built-in functions and the names of the document. -/
def complete (store : Store) (uri : String) (position : Position) : List Completion :=
  match store.get? uri with
  | none => []
  | some document =>
      if afterPoint document.text position then
        Index.methodHelp.map fun (name, help) => ⟨name, .method, some help⟩
      else
        sortedKeywords.map (fun word => ⟨word.text, .keyword, none⟩) ++
          Index.builtinHelp.map (fun (name, help) => ⟨name, .function, some help⟩) ++
          document.index.symbols.map Completion.ofSymbol

/-- The place of a symbol's name. -/
def symbolRange (symbol : DocumentSymbol) : Range :=
  ⟨symbol.line, symbol.column, symbol.line, symbol.column + symbol.name.length⟩

/-- The outline of a document: its names and their places. -/
def outline (store : Store) (uri : String) : Option (List (DocumentSymbol × Range)) :=
  (store.get? uri).map fun document =>
    document.index.symbols.map fun symbol => (symbol, symbolRange symbol)

/-! ## Events

An editor tells its server about documents and asks it about them. What the server
has done before it fails at an event stays done.
-/

/-- Why a document cannot be indexed. -/
inductive Failure where
  | setting (error : SettingError)
  | index (error : IndexError)
  deriving DecidableEq, Repr

/-- Problems sent to the editor for a document. -/
structure Publication where
  uri : String
  problems : List Problem
  deriving DecidableEq, Repr

/-- A server: the open documents, and everything it has published, in this order. -/
structure Server where
  documents : Store
  published : List Publication
  deriving DecidableEq, Repr

/-- What an editor can tell a server or ask it. -/
inductive Event where
  | opened (uri text : String)
  | changed (uri : String) (texts : List String)
  | closed (uri : String)
  | hover (uri : String) (position : Position)
  | completion (uri : String) (position : Position)
  | outline (uri : String)
  deriving DecidableEq, Repr

/-- What a server answers; what it is told has no answer. -/
inductive Answer where
  | done
  | hover (help : Option String)
  | completion (items : List Completion)
  | outline (symbols : Option (List (DocumentSymbol × Range)))
  deriving DecidableEq, Repr

/-- What a server does. -/
abbrev Serve := EStateM Failure Server

/-- The index of a text, under the limit that is set. -/
def indexText (vars : Variables) (text : String) : Except Failure DocumentIndex :=
  match Settings.maxCallDepth vars with
  | .error error => .error (.setting error)
  | .ok depth => (Index.build depth text).mapError .index

def updateDocuments (change : Store → Store) : Serve Unit :=
  modify fun server => { server with documents := change server.documents }

def publish (uri : String) (problems : List Problem) : Serve Unit :=
  modify fun server => { server with published := server.published ++ [⟨uri, problems⟩] }

/-- Indexes a text and keeps it as the document under a name; its problems are
published. -/
def refresh (vars : Variables) (uri text : String) : Serve Unit := do
  match indexText vars text with
  | .error failure => throw failure
  | .ok index =>
      updateDocuments (·.put uri ⟨text, index⟩)
      publish uri (problems text index.diagnostics)

/-- Changes a document to the last of several texts; if there is none, the text
it has is indexed again. -/
def changeDocument (vars : Variables) (uri : String) (texts : List String) : Serve Unit := do
  match texts.getLast? with
  | some text => refresh vars uri text
  | none => refresh vars uri ((((← get).documents.get? uri).map (·.text)).getD "")

/-- Closes a document; it has no problems any more. -/
def closeDocument (uri : String) : Serve Unit := do
  updateDocuments (·.erase uri)
  publish uri []

/-- What a server does with an event, under the variables that are set at that
time. -/
def handle (vars : Variables) : Event → Serve Answer
  | .opened uri text => do
      refresh vars uri text
      pure .done
  | .changed uri texts => do
      changeDocument vars uri texts
      pure .done
  | .closed uri => do
      closeDocument uri
      pure .done
  | .hover uri position => do
      pure (.hover (hover (← get).documents uri position))
  | .completion uri position => do
      pure (.completion (complete (← get).documents uri position))
  | .outline uri => do
      pure (.outline (outline (← get).documents uri))

namespace Server

def new : Server :=
  ⟨[], []⟩

/-- A server after an event, however that ends. -/
def step (server : Server) (vars : Variables) (event : Event) : Server :=
  match handle vars event server with
  | .ok _ after => after
  | .error _ after => after

/-- A server after several events, each with the variables that are set at its
time. -/
def after (server : Server) (events : List (Variables × Event)) : Server :=
  events.foldl (fun server (vars, event) => server.step vars event) server

end Server

end TernLang.Editor
