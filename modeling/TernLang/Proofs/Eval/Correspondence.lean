import Mathlib.Data.List.Forall2
import TernLang.Proofs.Eval.Bind
import TernLang.Proofs.Nodes
import TernLang.Proofs.Sorting.Natural

/-! # Two runs on corresponding heaps

A `Correspondence` says when two heaps, two values and two scopes correspond, in a
world that later steps may extend, and what single steps on corresponding heaps
have to give: corresponding readings, corresponding heaps again. `Corresponds` is
the statement that two computations on corresponding machines end alike: with
corresponding results or with the same stop, on corresponding machines, after
printing the same lines.

The module below this one shows, once and for all, that running a program
corresponds to running it; whatever a correspondence can express is then kept by
every run. With equal machines on both sides it is an invariant of a single run.
-/

namespace TernLang

/-! ## Values that look alike -/

/-- Values of one kind, and the same constant if they are constants. Only
comparing and printing can tell them apart. -/
inductive Value.Alike : Value → Value → Prop
  | null : Alike .null .null
  | bool (b : Bool) : Alike (.bool b) (.bool b)
  | number (x : Float) (i i' : Nat) : Alike (.number x i) (.number x i')
  | string (s : String) : Alike (.string s) (.string s)
  | list (ref ref' : ListRef) : Alike (.list ref) (.list ref')
  | function (ref ref' : FunctionRef) : Alike (.function ref) (.function ref')
  | hash : Alike (.native .hash) (.native .hash)
  | method (m : ListMethod) (ref ref' : ListRef) (i i' : Nat) :
      Alike (.native (.method m ref i)) (.native (.method m ref' i'))

namespace Value.Alike

variable {v v' : Value}

theorem refl (v : Value) : v.Alike v := by
  cases v with
  | native n => cases n <;> constructor
  | _ => constructor

theorem type_eq (alike : v.Alike v') : v'.type = v.type := by
  cases alike <;> rfl

theorem truthy_eq (alike : v.Alike v') : v'.truthy = v.truthy := by
  cases alike <;> rfl

end Value.Alike

/-- Outcomes with corresponding values, or with the same number. -/
inductive Outcome.Alike (values : Value → Value → Prop) : Outcome → Outcome → Prop
  | value {v v' : Value} : values v v' → Alike values (.value v) (.value v')
  | number (x : Float) : Alike values (.number x) (.number x)

/-- The same names in the same order, with corresponding values. -/
def Bindings.Alike (values : Value → Value → Prop) : Bindings → Bindings → Prop :=
  List.Forall₂ fun entry entry' => entry'.1 = entry.1 ∧ values entry.2 entry'.2

/-- Arrays of corresponding values. -/
def Elementwise (values : Value → Value → Prop) (items items' : Array Value) : Prop :=
  List.Forall₂ values items.toList items'.toList

/-- The same function in corresponding scopes, whose nodes stand on given
places. -/
structure Closure.Alike (scopes : ScopeRef → ScopeRef → Prop) (places : Nat → Prop)
    (closure closure' : Closure) : Prop where
  name : closure'.name = closure.name
  params : closure'.params = closure.params
  body : closure'.body = closure.body
  scope : scopes closure.scope closure'.scope
  placed : Node.Placed places (Stmt.nodesAll closure.body)

/-- Two readings that both give something, and corresponding things, or both fail
for the same reason. -/
inductive Readings {ε α β : Type} (related : α → β → Prop) : Except ε α → Except ε β → Prop
  | ok {a : α} {b : β} : related a b → Readings related (.ok a) (.ok b)
  | error (e : ε) : Readings related (.error e) (.error e)

/-! ## Images

Often what corresponds to a thing is its image under a function. -/

/-- `b` is the image of `a`, and something holds of `a`. -/
def Image {α β : Type} (f : α → β) (holds : α → Prop) (a : α) (b : β) : Prop :=
  b = f a ∧ holds a

section Image

variable {α β : Type} {f : α → β} {holds : α → Prop}

/-- Two lists are related by the image of a function exactly when the second is the first,
mapped. -/
theorem forall₂_image_iff {xs : List α} {ys : List β} :
    List.Forall₂ (Image f holds) xs ys ↔ ys = xs.map f ∧ ∀ x ∈ xs, holds x := by
  constructor
  · intro related
    induction related with
    | nil => simp
    | cons first _ ih =>
        obtain ⟨rfl, held⟩ := first
        obtain ⟨rfl, others⟩ := ih
        exact ⟨rfl, by simpa using ⟨held, others⟩⟩
  · rintro ⟨rfl, held⟩
    induction xs with
    | nil => exact .nil
    | cons x rest ih =>
        refine .cons ⟨rfl, held x List.mem_cons_self⟩ (ih ?_)
        intro y mem
        exact held y (List.mem_cons_of_mem x mem)

theorem elementwise_image_iff {f : Value → Value} {holds : Value → Prop} {xs ys : Array Value} :
    Elementwise (Image f holds) xs ys ↔ ys = xs.map f ∧ ∀ x ∈ xs, holds x := by
  unfold Elementwise
  rw [forall₂_image_iff, ← Array.toList_map, Array.toList_inj]
  simp only [Array.mem_toList_iff]

/-- Bindings related by the image of a function keep their names and map their values. -/
theorem bindings_image {f : Value → Value} {holds : Value → Prop} {bindings bindings' : Bindings}
    (alike : bindings.Alike (Image f holds) bindings') :
    bindings' = bindings.map (fun entry => (entry.1, f entry.2)) ∧
      ∀ entry ∈ bindings, holds entry.2 := by
  have images : List.Forall₂ (Image (fun entry : String × Value => (entry.1, f entry.2))
      (fun entry => holds entry.2)) bindings bindings' := by
    refine alike.imp ?_
    rintro ⟨name, value⟩ ⟨name', value'⟩ ⟨names, values, held⟩
    exact ⟨Prod.ext names values, held⟩
  exact forall₂_image_iff.mp images

/-- A reading corresponds to its image if something holds of what it gives. -/
theorem readings_image {ε : Type} {read : Except ε α} (held : ∀ a, read = .ok a → holds a) :
    Readings (Image f holds) read (read.map f) := by
  cases read with
  | ok a => exact .ok ⟨rfl, held a rfl⟩
  | error e => exact .error e

end Image

/-- A stop whose line, if it has one, is among the places. -/
def Stop.Within (places : Nat → Prop) : Stop → Prop
  | .fault _ (some line) => places line
  | _ => True

namespace Eval

/-- When the heaps of two runs correspond, and what single steps must keep. A
world says which objects correspond; it only grows (`Later`). -/
structure Correspondence where
  World : Type
  Later : World → World → Prop
  Heaps : World → Heap → Heap → Prop
  Values : World → Value → Value → Prop
  Scopes : World → ScopeRef → ScopeRef → Prop
  Places : Nat → Prop
  later_refl (w : World) : Later w w
  later_trans {w w' w'' : World} : Later w w' → Later w' w'' → Later w w''
  values_later {w w' : World} {v v' : Value} : Later w w' → Values w v v' → Values w' v v'
  scopes_later {w w' : World} {s s' : ScopeRef} : Later w w' → Scopes w s s' → Scopes w' s s'
  alike {w : World} {v v' : Value} : Values w v v' → v.Alike v'
  constant (w : World) (literal : Literal) : Values w (.ofLiteral literal) (.ofLiteral literal)
  receiver {w : World} {m : ListMethod} {ref ref' : ListRef} {i i' : Nat} :
    Values w (.native (.method m ref i)) (.native (.method m ref' i')) →
      Values w (.list ref) (.list ref')
  lookup {w : World} {h h' : Heap} {s s' : ScopeRef} (name : String) : Heaps w h h' →
    Scopes w s s' → Readings (Values w) (h.lookup s name) (h'.lookup s' name)
  owner {w : World} {h h' : Heap} {s s' : ScopeRef} (name : String) : Heaps w h h' →
    Scopes w s s' → Readings (Scopes w) (h.owner s name) (h'.owner s' name)
  define {w : World} {h h' : Heap} {s s' : ScopeRef} (name : String) {v v' : Value} :
    Heaps w h h' → Scopes w s s' → Values w v v' →
      Heaps w (h.define s name v) (h'.define s' name v')
  items {w : World} {h h' : Heap} {ref ref' : ListRef} : Heaps w h h' →
    Values w (.list ref) (.list ref') → Elementwise (Values w) (h.items ref) (h'.items ref')
  modifyItems {w : World} {h h' : Heap} {ref ref' : ListRef}
    {change change' : Array Value → Array Value} : Heaps w h h' →
    Values w (.list ref) (.list ref') →
    Elementwise (Values w) (change (h.items ref)) (change' (h'.items ref')) →
      Heaps w (h.modifyItems ref change) (h'.modifyItems ref' change')
  closure {w : World} {h h' : Heap} {f f' : FunctionRef} : Heaps w h h' →
    Values w (.function f) (.function f') →
      Option.Rel (Closure.Alike (Scopes w) Places) h.functions[f.id]? h'.functions[f'.id]?
  equal {w : World} {h h' : Heap} (room : Nat) {a a' b b' : Value} : Heaps w h h' →
    Values w a a' → Values w b b' → h'.equal room a' b' = h.equal room a b
  render {w : World} {h h' : Heap} (room : Nat) {v v' : Value} : Heaps w h h' →
    Values w v v' → h'.render room v' = h.render room v
  newScope {w : World} {h h' : Heap} {s s' : ScopeRef} {bindings bindings' : Bindings} :
    Heaps w h h' → Scopes w s s' → bindings.Alike (Values w) bindings' →
      ∃ w', Later w w' ∧
        Heaps w' (h.newScope ⟨bindings, some s⟩).2 (h'.newScope ⟨bindings', some s'⟩).2 ∧
        Scopes w' (h.newScope ⟨bindings, some s⟩).1 (h'.newScope ⟨bindings', some s'⟩).1
  newList {w : World} {h h' : Heap} {items items' : Array Value} : Heaps w h h' →
    Elementwise (Values w) items items' →
      ∃ w', Later w w' ∧ Heaps w' (h.newList items).2 (h'.newList items').2 ∧
        Values w' (.list (h.newList items).1) (.list (h'.newList items').1)
  newFunction {w : World} {h h' : Heap} {c c' : Closure} : Heaps w h h' →
    c.Alike (Scopes w) Places c' →
      ∃ w', Later w w' ∧ Heaps w' (h.newFunction c).2 (h'.newFunction c').2 ∧
        Values w' (.function (h.newFunction c).1) (.function (h'.newFunction c').1)
  newNumber {w : World} {h h' : Heap} (x : Float) : Heaps w h h' →
    ∃ w', Later w w' ∧ Heaps w' (h.newNumber x).2 (h'.newNumber x).2 ∧
      Values w' (h.newNumber x).1 (h'.newNumber x).1
  newMethod {w : World} {h h' : Heap} (m : ListMethod) {ref ref' : ListRef} : Heaps w h h' →
    Values w (.list ref) (.list ref') →
      ∃ w', Later w w' ∧ Heaps w' (h.newMethod m ref).2 (h'.newMethod m ref').2 ∧
        Values w' (h.newMethod m ref).1 (h'.newMethod m ref').1

variable (C : Correspondence)

/-- Two runs have come from the machines `m` and `m'` to `n` and `n'`. -/
structure Advances (w w' : C.World) (m m' n n' : Machine) : Prop where
  later : C.Later w w'
  heaps : C.Heaps w' n.heap n'.heap
  depth : n.callDepth = m.callDepth
  depth' : n'.callDepth = m'.callDepth
  printed : ∃ lines : Array String, n.output = m.output ++ lines ∧ n'.output = m'.output ++ lines

/-- Two computations that started on `m` and `m'` have ended alike. -/
inductive EndsAlike {α : Type} (w : C.World) (m m' : Machine) (post : C.World → α → α → Prop) :
    EStateM.Result Stop Machine α → EStateM.Result Stop Machine α → Prop
  | ok {w' : C.World} {n n' : Machine} {a a' : α} : Advances C w w' m m' n n' → post w' a a' →
      EndsAlike w m m' post (.ok a n) (.ok a' n')
  | error {w' : C.World} {n n' : Machine} {stop : Stop} : Advances C w w' m m' n n' →
      stop.Within C.Places → EndsAlike w m m' post (.error stop n) (.error stop n')

/-- On corresponding machines the two computations end alike. -/
def Corresponds {α : Type} (w : C.World) (post : C.World → α → α → Prop) (p q : Eval α) : Prop :=
  ∀ m m' : Machine, C.Heaps w m.heap m'.heap → m'.callDepth = m.callDepth →
    EndsAlike C w m m' post (p m) (q m')

/-- Nothing is said about the results. -/
def anyResults {α : Type} (_ : C.World) (_ _ : α) : Prop := True

/-- Both completions are normal, or both return corresponding values on the same
line. -/
inductive Completions (w : C.World) : Completion → Completion → Prop
  | normal : Completions w .normal .normal
  | returned {v v' : Value} {line : Nat} : C.Values w v v' → C.Places line →
      Completions w (.returned v line) (.returned v' line)

variable {C} {w w' : C.World} {α β : Type}

/-! ## Rules -/

theorem Advances.refl {m m' : Machine} (heaps : C.Heaps w m.heap m'.heap) :
    Advances C w w m m' m m' :=
  ⟨C.later_refl w, heaps, rfl, rfl, #[], by simp, by simp⟩

/-- A step that changes nothing but the heap. -/
theorem Advances.ofHeaps {m m' : Machine} {h h' : Heap} (later : C.Later w w')
    (heaps : C.Heaps w' h h') : Advances C w w' m m' { m with heap := h } { m' with heap := h' } :=
  ⟨later, heaps, rfl, rfl, #[], by simp, by simp⟩

theorem Advances.trans {w'' : C.World} {m m' n n' o o' : Machine}
    (first : Advances C w w' m m' n n') (second : Advances C w' w'' n n' o o') :
    Advances C w w'' m m' o o' := by
  obtain ⟨lines, printed, printed'⟩ := first.printed
  obtain ⟨more, printedMore, printedMore'⟩ := second.printed
  refine ⟨C.later_trans first.later second.later, second.heaps, ?_, ?_, lines ++ more, ?_, ?_⟩
  · rw [second.depth, first.depth]
  · rw [second.depth', first.depth']
  · rw [printedMore, printed, Array.append_assoc]
  · rw [printedMore', printed', Array.append_assoc]

/-- What ends alike from a later point has ended alike from the first one. -/
theorem EndsAlike.after {m m' n n' : Machine} {post : C.World → α → α → Prop}
    {left right : EStateM.Result Stop Machine α} (first : Advances C w w' m m' n n')
    (ends : EndsAlike C w' n n' post left right) : EndsAlike C w m m' post left right := by
  cases ends with
  | ok second held => exact .ok (first.trans second) held
  | error second within => exact .error (first.trans second) within

theorem Corresponds.pure {post : C.World → α → α → Prop} {a a' : α} (held : post w a a') :
    Corresponds C w post (Pure.pure a) (Pure.pure a') :=
  fun _ _ heaps _ => .ok (.refl heaps) held

/-- One computation after another, in the world that the first one leaves. -/
theorem Corresponds.bind {mid : C.World → α → α → Prop} {post : C.World → β → β → Prop}
    {p q : Eval α} {f g : α → Eval β} (first : Corresponds C w mid p q)
    (second : ∀ {w'}, C.Later w w' → ∀ {a a'}, mid w' a a' → Corresponds C w' post (f a) (g a')) :
    Corresponds C w post (p >>= f) (q >>= g) := by
  intro m m' heaps depth
  have ends := first m m' heaps depth
  rw [bind_run, bind_run]
  generalize p m = left at ends
  generalize q m' = right at ends
  cases ends with
  | ok advances held =>
      refine (second advances.later held _ _ advances.heaps ?_).after advances
      rw [advances.depth', advances.depth, depth]
  | error advances within => exact .error advances within

theorem tooDeep_corresponds {post : C.World → α → α → Prop} :
    Corresponds C w post tooDeep tooDeep :=
  fun _ _ heaps _ => .error (.refl heaps) trivial

theorem fault_corresponds {post : C.World → α → α → Prop} (cause : Fault) :
    Corresponds C w post (fault cause) (fault cause) :=
  fun _ _ heaps _ => .error (.refl heaps) trivial

/-- Changing how both computations stop. -/
theorem Corresponds.mapStop {post : C.World → α → α → Prop} {p q : Eval α} {change : Stop → Stop}
    (corresponds : Corresponds C w post p q)
    (keeps : ∀ stop : Stop, stop.Within C.Places → (change stop).Within C.Places) :
    Corresponds C w post (mapStop change p) (mapStop change q) := by
  intro m m' heaps depth
  have ends := corresponds m m' heaps depth
  unfold Eval.mapStop
  generalize p m = left at ends
  generalize q m' = right at ends
  cases ends with
  | ok advances held => exact .ok advances held
  | error advances within => exact .error advances (keeps _ within)

theorem Corresponds.located {post : C.World → α → α → Prop} {p q : Eval α} {line : Nat}
    (corresponds : Corresponds C w post p q) (place : C.Places line) :
    Corresponds C w post (Eval.mapStop (Stop.located line) p)
      (Eval.mapStop (Stop.located line) q) := by
  refine corresponds.mapStop fun stop within => ?_
  cases stop with
  | fault cause place' =>
      cases place' with
      | none => exact place
      | some _ => exact within
  | tooDeep => trivial
  | outOfPasses => trivial

/-! ## Steps on the heap -/

/-- Readings of related heaps that are related make corresponding evaluations. -/
theorem inspect_corresponds {post : C.World → α → α → Prop} {read read' : Heap → Except Fault α}
    (related : ∀ {h h'}, C.Heaps w h h' → Readings (post w) (read h) (read' h')) :
    Corresponds C w post (inspect read) (inspect read') := by
  intro m m' heaps _
  have readings := related heaps
  unfold inspect
  generalize read m.heap = left at readings
  generalize read' m'.heap = right at readings
  cases readings with
  | ok held => exact .ok (.refl heaps) held
  | error fault => exact .error (.refl heaps) trivial

/-- A reading that can stop for other reasons than a fault; its stops have no line
yet. -/
theorem query_corresponds {post : C.World → α → α → Prop} {read read' : Heap → Except Stop α}
    (related : ∀ {h h'}, C.Heaps w h h' → Readings (post w) (read h) (read' h'))
    (within : ∀ h stop, read h = .error stop → stop.Within C.Places) :
    Corresponds C w post (query read) (query read') := by
  intro m m' heaps _
  have readings := related heaps
  have stops := within m.heap
  unfold query
  generalize read m.heap = left at readings stops
  generalize read' m'.heap = right at readings
  cases readings with
  | ok held => exact .ok (.refl heaps) held
  | error stop => exact .error (.refl heaps) (stops stop rfl)

/-- Changes that take related heaps to related heaps correspond, in the world as it
stands. -/
theorem update_corresponds {change change' : Heap → Heap}
    (related : ∀ {h h'}, C.Heaps w h h' → C.Heaps w (change h) (change' h')) :
    Corresponds C w (anyResults C) (update change) (update change') :=
  fun _ _ heaps _ => .ok (.ofHeaps (C.later_refl w) (related heaps)) trivial

/-- Allocations on both sides correspond when some later world relates the new places. -/
theorem allocate_corresponds {post : C.World → α → α → Prop} {create create' : Heap → α × Heap}
    (related : ∀ {h h'}, C.Heaps w h h' → ∃ w', C.Later w w' ∧
      C.Heaps w' (create h).2 (create' h').2 ∧ post w' (create h).1 (create' h').1) :
    Corresponds C w post (allocate create) (allocate create') := by
  intro m m' heaps _
  obtain ⟨w', later, heaps', held⟩ := related heaps
  exact .ok (.ofHeaps later heaps') held

end Eval

end TernLang
