import Mathlib.Data.List.Induction
import TernLang.Editor

/-! # The open documents follow the events

Whatever an editor tells its server and asks it, about any documents and in any order:
**a document is open exactly if opening or changing it has succeeded since it was closed
last, with the text of the last success and its index, and the problems published last
are those of this text** (`documents_follow_events`). A server that fails at an event is
left as it was.

All of this comes from what one event can do (`handle_cases`). It touches one document
at most; the others are as the events in front of it have left them, which is what the
induction over the events carries along (`last_concat`).
-/

namespace TernLang.Editor

/-! ## The store -/

namespace Store

variable {store : Store} {uri other : String} {document : Document}

@[simp] theorem get?_put_self : (store.put uri document).get? uri = some document := by
  induction store with
  | nil => simp [put, get?]
  | cons entry rest ih =>
      obtain ⟨key, old⟩ := entry
      by_cases here : key = uri
      · simp [put, get?, here]
      · simp [put, get?, here, ih]

theorem get?_put_other (different : uri ≠ other) :
    (store.put uri document).get? other = store.get? other := by
  induction store with
  | nil => simp [put, get?, different]
  | cons entry rest ih =>
      obtain ⟨key, old⟩ := entry
      by_cases here : key = uri
      · have elsewhere : key ≠ other := here ▸ different
        simp [put, get?, here, different]
      · simp [put, get?, here, ih]

@[simp] theorem get?_erase_self : (store.erase uri).get? uri = none := by
  induction store with
  | nil => rfl
  | cons entry rest ih =>
      obtain ⟨key, old⟩ := entry
      unfold erase at ih ⊢
      by_cases here : key = uri
      · simpa [here] using ih
      · simpa [here, get?] using ih

theorem get?_erase_other (different : uri ≠ other) :
    (store.erase uri).get? other = store.get? other := by
  induction store with
  | nil => rfl
  | cons entry rest ih =>
      obtain ⟨key, old⟩ := entry
      unfold erase at ih ⊢
      by_cases here : key = uri
      · simpa [here, get?, different] using ih
      · by_cases found : key = other
        · subst found
          simp [here, get?]
        · simpa [here, get?, found] using ih

end Store

/-! ## One event -/

namespace Event

/-- The document that an event is about. -/
def uri : Event → String
  | opened uri _ => uri
  | changed uri _ => uri
  | closed uri => uri
  | hover uri _ => uri
  | completion uri _ => uri
  | outline uri => uri

/-- The text that an event gives to its document: the last one of several, and the one
that it has, or an empty one, if there is none. -/
def text? (store : Store) : Event → Option String
  | opened _ text => some text
  | changed uri texts =>
      some (texts.getLast?.getD (((store.get? uri).map (·.text)).getD ""))
  | closed _ | hover _ _ | completion _ _ | outline _ => none

def IsQuestion : Event → Prop
  | hover _ _ | completion _ _ | outline _ => True
  | opened _ _ | changed _ _ | closed _ => False

end Event

namespace Server

/-- The problems of a document that were published last. -/
def lastPublished (server : Server) (uri : String) : Option (List Problem) :=
  ((server.published.filter (·.uri = uri)).getLast?).map (·.problems)

/-- A server that keeps a document and publishes its problems. -/
def store (server : Server) (uri : String) (document : Document) : Server :=
  ⟨server.documents.put uri document,
    server.published ++ [⟨uri, problems document.text document.index.diagnostics⟩]⟩

/-- A server that forgets a document. -/
def forget (server : Server) (uri : String) : Server :=
  ⟨server.documents.erase uri, server.published ++ [⟨uri, []⟩]⟩

end Server

variable {vars : Variables} {server : Server} {event : Event} {uri : String}

/-- A document is stored with its index, or the request fails and nothing changes. -/
theorem refresh_run (vars : Variables) (uri text : String) (server : Server) :
    refresh vars uri text server =
      match indexText vars text with
      | .error failure => .error failure server
      | .ok index => .ok () (server.store uri ⟨text, index⟩) := by
  unfold refresh
  cases indexText vars text <;> rfl

/-- An event that gives its document a text is a matter of indexing this text. -/
theorem handle_of_text {text : String} (given : event.text? server.documents = some text) :
    handle vars event server =
      match indexText vars text with
      | .error failure => .error failure server
      | .ok index => .ok .done (server.store event.uri ⟨text, index⟩) := by
  have refreshed : ∀ uri, (refresh vars uri text >>= fun _ => pure Answer.done) server =
      match indexText vars text with
      | .error failure => .error failure server
      | .ok index => .ok .done (server.store uri ⟨text, index⟩) := by
    intro uri
    show EStateM.bind _ _ server = _
    rw [EStateM.bind, refresh_run]
    cases indexText vars text <;> rfl
  cases event with
  | opened uri text =>
      cases given
      exact refreshed uri
  | changed uri texts =>
      cases given
      rw [← refreshed]
      show EStateM.bind (changeDocument vars uri texts) _ server = _
      unfold changeDocument
      cases texts.getLast? <;> rfl
  | closed | hover | completion | outline => cases given

/-- **What one event can do**: store the text it gives to its document, fail at this text
and do nothing, forget its document, or answer and do nothing. -/
theorem handle_cases (vars : Variables) (event : Event) (server : Server) :
    (∃ text index, event.text? server.documents = some text ∧ indexText vars text = .ok index ∧
      handle vars event server = .ok .done (server.store event.uri ⟨text, index⟩)) ∨
    (∃ text failure, event.text? server.documents = some text ∧
      indexText vars text = .error failure ∧ handle vars event server = .error failure server) ∨
    (∃ uri, event = .closed uri ∧ handle vars event server = .ok .done (server.forget uri)) ∨
    (event.IsQuestion ∧ ∃ answer, handle vars event server = .ok answer server) := by
  cases given : event.text? server.documents with
  | some text =>
      have handled := @handle_of_text vars server event text given
      cases indexed : indexText vars text with
      | ok index =>
          rw [indexed] at handled
          exact .inl ⟨text, index, rfl, indexed, handled⟩
      | error failure =>
          rw [indexed] at handled
          exact .inr (.inl ⟨text, failure, rfl, indexed, handled⟩)
  | none =>
      cases event with
      | opened | changed => cases given
      | closed uri => exact .inr (.inr (.inl ⟨uri, rfl, rfl⟩))
      | hover | completion | outline => exact .inr (.inr (.inr ⟨trivial, _, rfl⟩))

/-- Opening or changing the document succeeds: the event gives it the text, and the
index is that of the text under the limit that is set. -/
structure Stores (vars : Variables) (server : Server) (event : Event) (uri : String)
    (document : Document) : Prop where
  about : event.uri = uri
  text : event.text? server.documents = some document.text
  index : ∃ depth, Settings.maxCallDepth vars = .ok depth ∧
    Index.build depth document.text = .ok document.index

/-- A text has an index if the limit is well-formed and the build survives. -/
theorem indexText_ok_iff {text : String} {index : DocumentIndex} :
    indexText vars text = .ok index ↔
      ∃ depth, Settings.maxCallDepth vars = .ok depth ∧ Index.build depth text = .ok index := by
  unfold indexText
  cases Settings.maxCallDepth vars with
  | error error => simp
  | ok depth => cases built : Index.build depth text <;> simp [Except.mapError, built]

/-- What is stored for a document is the index of its text. -/
theorem Stores.indexText_eq {document : Document} (stores : Stores vars server event uri document) :
    indexText vars document.text = .ok document.index :=
  indexText_ok_iff.mpr stores.index

/-- An event stores one document at most under a name. -/
theorem Stores.unique {document other : Document} (first : Stores vars server event uri document)
    (second : Stores vars server event uri other) : document = other := by
  have texts : document.text = other.text := Option.some.inj (first.text.symm.trans second.text)
  have indices := second.indexText_eq
  rw [← texts, first.indexText_eq] at indices
  obtain ⟨text, index⟩ := document
  cases texts
  cases indices
  rfl

/-- The event stores the document or closes it. -/
def Touches (vars : Variables) (server : Server) (event : Event) (uri : String) : Prop :=
  event = .closed uri ∨ ∃ document, Stores vars server event uri document

namespace Server

/-! ## What a step leaves -/

theorem lastPublished_append_self (problems : List Problem) {documents : Store} :
    Server.lastPublished ⟨documents, server.published ++ [⟨uri, problems⟩]⟩ uri =
      some problems := by
  simp [lastPublished]

theorem lastPublished_append_other {other : String} (problems : List Problem) {documents : Store}
    (different : uri ≠ other) :
    Server.lastPublished ⟨documents, server.published ++ [⟨uri, problems⟩]⟩ other =
      server.lastPublished other := by
  simp [lastPublished, different]

/-- The document is found in the store, and its problems are the last published ones. -/
theorem step_of_stores {document : Document} (stores : Stores vars server event uri document) :
    (server.step vars event).documents.get? uri = some document ∧
      (server.step vars event).lastPublished uri =
        some (problems document.text document.index.diagnostics) := by
  have handled := @handle_of_text vars _ _ _ stores.text
  rw [stores.indexText_eq, stores.about] at handled
  rw [step, handled]
  exact ⟨Store.get?_put_self, lastPublished_append_self _⟩

/-- A document that is closed is gone, and so are its problems. -/
theorem step_closed (vars : Variables) (server : Server) (uri : String) :
    (server.step vars (.closed uri)).documents.get? uri = none ∧
      (server.step vars (.closed uri)).lastPublished uri = some [] :=
  ⟨Store.get?_erase_self, lastPublished_append_self []⟩

/-- A document that an event does not touch is as it was, and so are the problems
published last for it. -/
theorem step_untouched (untouched : ¬ Touches vars server event uri) :
    (server.step vars event).documents.get? uri = server.documents.get? uri ∧
      (server.step vars event).lastPublished uri = server.lastPublished uri := by
  rcases handle_cases vars event server with ⟨text, index, given, indexed, handled⟩ |
    ⟨text, failure, -, -, handled⟩ | ⟨closed, rfl, handled⟩ | ⟨-, answer, handled⟩
  · have elsewhere : event.uri ≠ uri := by
      intro here
      exact untouched (.inr ⟨⟨text, index⟩, here, given, indexText_ok_iff.mp indexed⟩)
    rw [step, handled]
    exact ⟨Store.get?_put_other elsewhere, lastPublished_append_other _ elsewhere⟩
  · rw [step, handled]
    exact ⟨rfl, rfl⟩
  · have elsewhere : closed ≠ uri := by
      rintro rfl
      exact untouched (.inl rfl)
    rw [step, handled]
    exact ⟨Store.get?_erase_other elsewhere, lastPublished_append_other _ elsewhere⟩
  · rw [step, handled]
    exact ⟨rfl, rfl⟩

/-- An event about another document does not touch this one. -/
theorem not_touches_of_ne (different : event.uri ≠ uri) : ¬ Touches vars server event uri := by
  rintro (rfl | ⟨document, stores⟩)
  · exact different rfl
  · exact different stores.about

/-! ## Any number of events -/

/-- The last event comes on top of all others. -/
theorem after_concat (server : Server) (events : List (Variables × Event))
    (step : Variables × Event) :
    server.after (events ++ [step]) = (server.after events).step step.1 step.2 := by
  simp [after]

theorem after_parts (server : Server) (earlier later : List (Variables × Event))
    (step : Variables × Event) :
    (server.after (earlier ++ [step])).after later = server.after (earlier ++ step :: later) := by
  simp [after]

end Server

/-- None of the events touches the document. -/
def Quiet (uri : String) : Server → List (Variables × Event) → Prop
  | _, [] => True
  | server, (vars, event) :: later =>
      ¬ Touches vars server event uri ∧ Quiet uri (server.step vars event) later

/-- Events are quiet about a document if the earlier ones are, and so is the last. -/
theorem quiet_concat {events : List (Variables × Event)} {step : Variables × Event} :
    Quiet uri server (events ++ [step]) ↔
      Quiet uri server events ∧ ¬ Touches step.1 (server.after events) step.2 uri := by
  induction events generalizing server with
  | nil => simp [Quiet, Server.after]
  | cons first rest ih =>
      show _ ∧ Quiet uri _ (rest ++ [step]) ↔ _
      rw [ih, ← and_assoc]
      exact Iff.rfl

theorem Quiet.not_closed {events : List (Variables × Event)} (quiet : Quiet uri server events) :
    ∀ step ∈ events, step.2 ≠ .closed uri := by
  induction events generalizing server with
  | nil => simp
  | cons first rest ih =>
      obtain ⟨untouched, quiet⟩ := quiet
      intro step mem
      rcases List.mem_cons.mp mem with rfl | later
      · exact fun closed => untouched (.inl closed)
      · exact ih quiet step later

/-- The last of the events that touches the document is one of which something holds. -/
def Last (uri : String) (holds : Server → Variables → Event → Prop)
    (events : List (Variables × Event)) : Prop :=
  ∃ earlier vars event later, events = earlier ++ (vars, event) :: later ∧
    holds (Server.new.after earlier) vars event ∧
    Quiet uri (Server.new.after (earlier ++ [(vars, event)])) later

/-- The last touching event is the newest one, or the newest one touches nothing. -/
theorem last_concat {holds : Server → Variables → Event → Prop}
    {events : List (Variables × Event)} {step : Variables × Event} :
    Last uri holds (events ++ [step]) ↔
      holds (Server.new.after events) step.1 step.2 ∨
        (Last uri holds events ∧ ¬ Touches step.1 (Server.new.after events) step.2 uri) := by
  constructor
  · rintro ⟨earlier, vars, event, later, parts, held, quiet⟩
    rcases List.eq_nil_or_concat later with rfl | ⟨front, newest, rfl⟩
    · obtain ⟨rfl, same⟩ := List.append_inj' parts rfl
      cases same
      exact .inl held
    · rw [List.concat_eq_append, ← List.cons_append, ← List.append_assoc] at parts
      obtain ⟨rfl, same⟩ := List.append_inj' parts rfl
      cases same
      rw [List.concat_eq_append, quiet_concat] at quiet
      refine .inr ⟨⟨earlier, vars, event, front, rfl, held, quiet.1⟩, ?_⟩
      rw [← Server.after_parts]
      exact quiet.2
  · rintro (held | ⟨⟨earlier, vars, event, later, rfl, held, quiet⟩, untouched⟩)
    · exact ⟨events, step.1, step.2, [], rfl, held, trivial⟩
    · refine ⟨earlier, vars, event, later ++ [step], by simp, held, quiet_concat.mpr ⟨quiet, ?_⟩⟩
      rw [Server.after_parts]
      exact untouched

/-- Opening or changing the document has succeeded since it was closed last. -/
def StoredSinceClosed (uri : String) (events : List (Variables × Event)) : Prop :=
  ∃ earlier vars event later document, events = earlier ++ (vars, event) :: later ∧
    Stores vars (Server.new.after earlier) event uri document ∧
    ∀ step ∈ later, step.2 ≠ .closed uri

/-- A document was stored since it was closed exactly if one was stored last: what came
behind the last success has not touched it. -/
theorem storedSinceClosed_iff {events : List (Variables × Event)} :
    StoredSinceClosed uri events ↔
      ∃ document, Last uri (fun server vars event => Stores vars server event uri document)
        events := by
  constructor
  · rintro ⟨earlier, vars, event, later, document, rfl, stores, noneClosed⟩
    induction later using List.reverseRecOn with
    | nil => exact ⟨document, earlier, vars, event, [], rfl, stores, trivial⟩
    | append_singleton front step ih =>
        simp only [List.mem_append, List.mem_singleton, or_imp, forall_and, forall_eq] at noneClosed
        obtain ⟨kept, last⟩ := ih noneClosed.1
        rw [← List.cons_append, ← List.append_assoc]
        by_cases touched : Touches step.1
            (Server.new.after (earlier ++ (vars, event) :: front)) step.2 uri
        · rcases touched with closed | ⟨newer, stores'⟩
          · exact absurd closed noneClosed.2
          · exact ⟨newer, last_concat.mpr (.inl stores')⟩
        · exact ⟨kept, last_concat.mpr (.inr ⟨last, touched⟩)⟩
  · rintro ⟨document, earlier, vars, event, later, rfl, stores, quiet⟩
    refine ⟨earlier, vars, event, later, document, rfl, stores, ?_⟩
    exact quiet.not_closed

/-- The documents and what was published last, by the event that touched a document
last. -/
theorem documents_after (events : List (Variables × Event)) (uri : String) :
    (∀ document, (Server.new.after events).documents.get? uri = some document ↔
      Last uri (fun server vars event => Stores vars server event uri document) events) ∧
    (∀ document, (Server.new.after events).documents.get? uri = some document →
      (Server.new.after events).lastPublished uri =
        some (problems document.text document.index.diagnostics)) ∧
    (Last uri (fun _ _ event => event = .closed uri) events →
      (Server.new.after events).documents.get? uri = none ∧
        (Server.new.after events).lastPublished uri = some []) := by
  induction events using List.reverseRecOn with
  | nil =>
      have nothing : ∀ holds, ¬ Last uri holds [] := by
        rintro holds ⟨earlier, vars, event, later, parts, -⟩
        simp at parts
      refine ⟨fun document => iff_of_false nofun (nothing _), fun document => nofun,
        fun last => absurd last (nothing _)⟩
  | append_singleton events step ih =>
      obtain ⟨found, shown, closed⟩ := ih
      rw [Server.after_concat]
      simp only [last_concat]
      -- only an event that touches the document can be the last one that did
      by_cases touched : Touches step.1 (Server.new.after events) step.2 uri
      · simp only [not_true, touched, and_false, or_false]
        rcases touched with gone | ⟨stored, stores⟩
        · rw [gone]
          obtain ⟨absent, published⟩ := Server.step_closed step.1 (Server.new.after events) uri
          refine ⟨fun document => iff_of_false ?_ ?_, fun document open' => ?_, fun _ => ?_⟩
          · simp [absent]
          · exact fun stores => nomatch stores.text
          · simp [absent] at open'
          · exact ⟨absent, published⟩
        · obtain ⟨present, published⟩ := Server.step_of_stores stores
          refine ⟨fun document => ?_, fun document open' => ?_, fun closed => ?_⟩
          · rw [present, Option.some.injEq]
            constructor
            · rintro rfl
              exact stores
            · exact fun again => stores.unique again
          · rw [present] at open'
            cases open'
            exact published
          · rw [closed] at stores
            exact nomatch stores.text
      · obtain ⟨documents, published⟩ := Server.step_untouched touched
        have notStored : ∀ document,
            ¬ Stores step.1 (Server.new.after events) step.2 uri document :=
          fun document stores => touched (.inr ⟨document, stores⟩)
        have notClosed : step.2 ≠ .closed uri := fun closed => touched (.inl closed)
        simp only [documents, published, notStored, notClosed, touched, not_false_eq_true, and_true,
          false_or]
        exact ⟨found, shown, closed⟩

/-- **The open documents follow the events.** After any events, each under variables of
its own, a document is open exactly if opening or changing it has succeeded since it was
closed last. Its text and its index are those of the last success, and the problems
published last are those of this text; after it was closed, there are none. An event
about another document changes neither the document nor what was published last for it,
a question changes nothing at all, and neither does an event that the server fails at,
in particular one that would store a text while the limit that is set is none. -/
theorem documents_follow_events (events : List (Variables × Event)) (uri : String) :
    let server := Server.new.after events
    ((∃ document, server.documents.get? uri = some document) ↔ StoredSinceClosed uri events) ∧
    (∀ document, server.documents.get? uri = some document ↔
      Last uri (fun server vars event => Stores vars server event uri document) events) ∧
    (∀ document, server.documents.get? uri = some document →
      server.lastPublished uri = some (problems document.text document.index.diagnostics)) ∧
    (Last uri (fun _ _ event => event = .closed uri) events →
      server.documents.get? uri = none ∧ server.lastPublished uri = some []) ∧
    (∀ vars event, event.uri ≠ uri →
      (server.step vars event).documents.get? uri = server.documents.get? uri ∧
        (server.step vars event).lastPublished uri = server.lastPublished uri) ∧
    (∀ vars event, event.IsQuestion → server.step vars event = server) ∧
    (∀ vars event failure after, handle vars event server = .error failure after →
      after = server ∧ server.step vars event = server) ∧
    (∀ vars event error, (event.text? server.documents).isSome →
      Settings.maxCallDepth vars = .error error →
        handle vars event server = .error (.setting error) server) := by
  intro server
  obtain ⟨found, shown, closed⟩ := documents_after events uri
  refine ⟨?_, found, shown, closed, ?_, ?_, ?_, ?_⟩
  · rw [storedSinceClosed_iff]
    exact exists_congr found
  · intro vars event different
    exact Server.step_untouched (Server.not_touches_of_ne different)
  · intro vars event question
    cases event with
    | opened | changed | closed => exact question.elim
    | hover | completion | outline => rfl
  · intro vars event failure after failed
    -- an event is handled without failure, or fails before the server is changed
    have unchanged : after = server := by
      rcases handle_cases vars event server with ⟨_, _, -, -, handled⟩ | ⟨_, _, -, -, handled⟩ |
        ⟨_, -, handled⟩ | ⟨-, _, handled⟩
      · cases handled.symm.trans failed
      · cases handled.symm.trans failed
        rfl
      · cases handled.symm.trans failed
      · cases handled.symm.trans failed
    refine ⟨unchanged, ?_⟩
    rw [Server.step, failed]
    exact unchanged
  · intro vars event error given invalid
    obtain ⟨text, given⟩ := Option.isSome_iff_exists.mp given
    rw [handle_of_text given, indexText, invalid]

/-- A change that comes while the limit is set to zero leaves the document that was
opened before, and its problems. -/
theorem documents_follow_events_failure :
    let events : List (Variables × Event) := [(⟨none, none⟩, .opened "a" "print;"),
      (⟨some "0", none⟩, .changed "a" ["var x;"]), (⟨none, none⟩, .closed "b")]
    ∃ index, (Server.new.after events).documents.get? "a" = some ⟨"print;", index⟩ ∧
      (Server.new.after events).lastPublished "a" =
        some [⟨⟨0, 0, 0, 6⟩, "Expected expression but found ';'", "ParseError"⟩] := by
  intro events
  have stored : (Server.new.after events).documents.get? "a" = some ⟨"print;", [],
      [⟨.parse, some 1, "Expected expression but found ';'", "ParseError"⟩]⟩ := by
    decide +kernel
  obtain ⟨-, -, shown, -⟩ := documents_follow_events events "a"
  exact ⟨_, stored, shown _ stored⟩

end TernLang.Editor
