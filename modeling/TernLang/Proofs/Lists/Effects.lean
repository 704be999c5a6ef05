import TernLang.Proofs.Confinement
import TernLang.Proofs.Eval.Bind
import TernLang.Proofs.Heap.Lists
import TernLang.Proofs.Heap.Readings
import TernLang.Proofs.Lists.Bounds
import TernLang.Proofs.Sorting.Stable

/-! # Effects of operations on lists

Indexing, slices and calls of methods, as the evaluator carries them out once their
operands have values (`ListOperation.run`). **An operation that fails changes nothing, and
one that succeeds changes its receiver at most** (`operations_touch_receiver`), also where
the receiver is among the arguments or the elements. A slice is a new list. So what is
done later to other lists, the sliced one among them, cannot be seen in it, and what is
done to it cannot be seen in them (`items_runAll`).
-/

namespace TernLang

/-- How much longer a list is after a call of a method that succeeds. -/
def ListMethod.growth : ListMethod → ℤ
  | push | insertAt => 1
  | pop | remove => -1
  | index | len | sort => 0

/-- The methods that only read. -/
def ListMethod.reads : ListMethod → Bool
  | index | len => true
  | push | pop | insertAt | remove | sort => false

/-- Operations on lists: an element at a position, a slice, a call of a bound method. -/
inductive ListOperation where
  | item (target index : Value)
  | slice (target : Value) (first last : Option Value)
  | call (method : ListMethod) (receiver : ListRef) (identity : Nat) (arguments : List Value)

namespace Eval

variable {α : Type} {read : Heap → Except Fault α} {machine : Machine}

theorem inspect_ok {a : α} (ok : read machine.heap = .ok a) :
    inspect read machine = .ok a machine := by
  rw [inspect, ok]

theorem inspect_error {fault : Fault} (failed : read machine.heap = .error fault) :
    inspect read machine = .error (.ofFault fault) machine := by
  rw [inspect, failed]

end Eval

namespace ListOperation

/-- What the evaluator does when the operands have values. -/
def run (room : Nat) : ListOperation → Eval Value
  | item target index => Eval.inspect (·.getItem target index)
  | slice target first last => do Eval.newList (← Eval.inspect (·.slice target first last))
  | call method receiver identity arguments =>
      Eval.callNative room (.method method receiver identity) arguments

/-- The list that is operated on, if it is a list. -/
def receiver? : ListOperation → Option ListRef
  | item (.list ref) _ => some ref
  | slice (.list ref) _ _ => some ref
  | call _ ref _ _ => some ref
  | _ => none

/-- How much longer the receiver is afterwards. -/
def growth : ListOperation → ℤ
  | call method _ _ _ => method.growth
  | _ => 0

def reads : ListOperation → Bool
  | call method _ _ _ => method.reads
  | _ => true

def isSlice : ListOperation → Bool
  | slice _ _ _ => true
  | _ => false

/-- The machine after several operations, each carried out whether those before it failed
or not. -/
def runAll (room : Nat) : List ListOperation → Machine → Machine
  | [], machine => machine
  | op :: rest, machine => runAll room rest (Eval.machineAfter (op.run room machine))

/-! The evaluator carries out nothing else on lists. -/

section Evaluator

variable (limits : Limits) (room : Nat) (scope : ScopeRef)

/-- An index expression evaluates list and position and reads the element, at its line. -/
theorem evaluate_index (target position : Expr) (line : Nat) :
    Eval.evaluate limits (room + 2) scope (.index target position line) =
      Eval.mapStop (Stop.located line) (do
        let list ← Eval.evaluate limits room scope target
        let index ← Eval.evaluate limits room scope position
        (item list index).run room) := by
  rw [Eval.evaluate]
  rfl

/-- A slice expression evaluates list and bounds and makes a list of the part, at its
line. -/
theorem evaluate_slice (target : Expr) (first last : Option Expr) (line : Nat) :
    Eval.evaluate limits (room + 2) scope (.slice target first last line) =
      Eval.mapStop (Stop.located line) (do
        let list ← Eval.evaluate limits room scope target
        let low ← Eval.optional (Eval.evaluate limits room scope) first
        let high ← Eval.optional (Eval.evaluate limits room scope) last
        (slice list low high).run room) := by
  rw [Eval.evaluate]
  rfl

/-- Calling a method of a list runs the list operation of its name. -/
theorem apply_method (method : ListMethod) (ref : ListRef) (identity : Nat)
    (arguments : List Value) :
    Eval.apply limits (room + 3) (.native (.method method ref identity)) arguments =
      (call method ref identity arguments).run room := by
  rw [Eval.apply]
  rfl

end Evaluator

end ListOperation

/-! ## Methods -/

namespace Heap

variable {h : Heap} {room : Nat} {method : ListMethod} {ref : ListRef} {arguments : List Value}
  {value : Value} {change : Array Value → Array Value}

/-- The elements are sorted without a loss. -/
theorem size_of_sortItems {items sorted : Array Value} (sorts : sortItems items = .ok sorted) :
    sorted.size = items.size := by
  have kept : (Sorting.sort sortsBefore items.toList).toArray.size = items.size := by
    rw [List.size_toArray, (Sorting.sort_perm _ _).length_eq, Array.length_toList]
  unfold sortItems at sorts
  split at sorts
  · cases sorts
    rfl
  · split at sorts
    · cases sorts
      exact kept
    · cases sorts
      exact kept
    · cases sorts

/-- **What a method does to the length of its receiver**, and that reading does nothing. -/
theorem change_of_methodEffect
    (effect : h.methodEffect room method ref arguments = .ok (value, change)) :
    ((change (h.items ref)).size : ℤ) = (h.items ref).size + method.growth ∧
      (method.reads = true → change = id) := by
  unfold methodEffect at effect
  split at effect
  case h_1 value =>
    cases effect
    exact ⟨by simp [ListMethod.growth], Bool.false_ne_true.elim⟩
  case h_2 =>
    split at effect
    · rename_i last
      cases effect
      obtain ⟨rest, same⟩ := Array.back?_eq_some_iff.mp last
      exact ⟨by rw [same]; simp [ListMethod.growth], Bool.false_ne_true.elim⟩
    · cases effect
  case h_3 index value =>
    dsimp only at effect
    split at effect
    · rename_i i below
      cases effect
      -- the guard has put the position in range, so the length changes
      have inside := (positionBelow_eq_ok_iff.mp below).2
      refine ⟨?_, Bool.false_ne_true.elim⟩
      show (((h.items ref).insertIdxIfInBounds i value).size : ℤ) = _
      rw [Array.insertIdxIfInBounds, dif_pos (by omega), Array.size_insertIdx]
      rfl
    · cases effect
  case h_4 index =>
    dsimp only at effect
    split at effect
    · rename_i i below
      cases effect
      have inside := (positionBelow_eq_ok_iff.mp below).2
      refine ⟨?_, Bool.false_ne_true.elim⟩
      show (((h.items ref).eraseIdxIfInBounds i).size : ℤ) = _
      rw [Array.eraseIdxIfInBounds, dif_pos inside, Array.size_eraseIdx]
      exact Int.ofNat_sub (by omega)
    · cases effect
  case h_5 target =>
    split at effect
    · cases effect
      exact ⟨(Int.add_zero _).symm, fun _ => rfl⟩
    · cases effect
  case h_6 =>
    cases effect
    exact ⟨(Int.add_zero _).symm, fun _ => rfl⟩
  case h_7 =>
    split at effect
    · rename_i sorted sorts
      cases effect
      refine ⟨?_, Bool.false_ne_true.elim⟩
      rw [size_of_sortItems sorts]
      exact (Int.add_zero _).symm
    · cases effect
  case h_8 => cases effect

/-- A method is refused for the number of its arguments. -/
theorem methodEffect_of_length_ne (differ : arguments.length ≠ method.arity) :
    h.methodEffect room method ref arguments =
      .error (.ofFault (.wrongArity method.text method.arity arguments.length)) := by
  unfold methodEffect
  split
  case h_8 => rfl
  all_goals exact absurd rfl differ

/-- **The evaluator calls a method** by `callMethod`, on the heap of its machine. -/
theorem callNative_method (identity : Nat) (machine : Machine) :
    Eval.callNative room (.method method ref identity) arguments machine =
      match machine.heap.callMethod room method ref arguments with
      | .ok (value, heap) => .ok value { machine with heap := heap }
      | .error stop => .error stop machine := by
  unfold Eval.callNative callMethod
  by_cases differ : arguments.length ≠ (Native.method method ref identity).arity
  · rw [if_pos differ, methodEffect_of_length_ne differ]
    rfl
  · rw [if_neg differ]
    cases effect : machine.heap.methodEffect room method ref arguments with
    | error stop =>
        have found : Eval.query (·.methodEffect room method ref arguments) machine =
            .error stop machine := by
          rw [Eval.query, effect]
        exact Eval.bind_run_error found
    | ok result =>
        have found : Eval.query (·.methodEffect room method ref arguments) machine =
            .ok result machine := by
          rw [Eval.query, effect]
        exact (Eval.bind_run_ok found).trans rfl

end Heap

/-! ## Operations -/

namespace ListOperation

variable {room : Nat} {op : ListOperation} {machine after : Machine} {value : Value}
  {result : EStateM.Result Stop Machine Value} {ref : ListRef}

/-- All that an operation can do: fail and change nothing; read; change its receiver and
nothing else; or make a new list. -/
inductive Performs (machine : Machine) : ListOperation → EStateM.Result Stop Machine Value → Prop
  | fails {op : ListOperation} (stop : Stop) : Performs machine op (.error stop machine)
  | reads {op : ListOperation} {ref : ListRef} (value : Value) : op.receiver? = some ref →
      op.growth = 0 → op.isSlice = false →
        Performs machine op (.ok value machine)
  | changes {method : ListMethod} {ref : ListRef} {identity : Nat} {arguments : List Value}
      {change : Array Value → Array Value} (value : Value) : method.reads = false →
        ((change (machine.heap.items ref)).size : ℤ) =
          (machine.heap.items ref).size + method.growth →
        Performs machine (.call method ref identity arguments)
          (.ok value { machine with heap := machine.heap.modifyItems ref change })
  | copies {ref : ListRef} {first last : Option Value} {part : Array Value} :
      machine.heap.slice (.list ref) first last = .ok part →
      Performs machine (.slice (.list ref) first last)
        (.ok (.list (machine.heap.newList part).1)
          { machine with heap := (machine.heap.newList part).2 })

/-- Reading an element performs the operation it is named after. -/
theorem performs_item (target index : Value) :
    Performs machine (.item target index) ((item target index).run room machine) := by
  show Performs machine _ (Eval.inspect (·.getItem target index) machine)
  cases read : machine.heap.getItem target index with
  | error fault =>
      rw [Eval.inspect_error read]
      exact .fails _
  | ok element =>
      rw [Eval.inspect_ok read]
      cases target with
      | list ref => exact .reads element rfl rfl rfl
      | _ => cases read

theorem performs_slice (target : Value) (first last : Option Value) :
    Performs machine (.slice target first last) ((slice target first last).run room machine) := by
  show Performs machine _ ((Eval.inspect (·.slice target first last) >>= Eval.newList) machine)
  cases read : machine.heap.slice target first last with
  | error fault =>
      rw [Eval.bind_run_error (Eval.inspect_error read)]
      exact .fails _
  | ok part =>
      rw [Eval.bind_run_ok (Eval.inspect_ok read)]
      cases target with
      | list ref => exact .copies read
      | _ => cases read

theorem performs_call (method : ListMethod) (ref : ListRef) (identity : Nat)
    (arguments : List Value) :
    Performs machine (.call method ref identity arguments)
      ((call method ref identity arguments).run room machine) := by
  rw [run, Heap.callNative_method, Heap.callMethod]
  cases effect : machine.heap.methodEffect room method ref arguments with
  | error stop => exact .fails stop
  | ok result =>
      obtain ⟨value, change⟩ := result
      obtain ⟨length, reading⟩ := Heap.change_of_methodEffect effect
      cases reads : method.reads with
      | false => exact .changes value reads length
      | true =>
          have none : method.growth = 0 := by cases method <;> first | rfl | cases reads
          have kept : machine.heap.modifyItems ref change = machine.heap :=
            Heap.modifyItems_of_self (by rw [reading reads]; rfl)
          show Performs machine _
            (.ok value { machine with heap := machine.heap.modifyItems ref change })
          rw [kept]
          exact .reads value rfl none rfl

/-- **An operation does no more than this.** -/
theorem run_performs (room : Nat) (op : ListOperation) (machine : Machine) :
    Performs machine op (op.run room machine) := by
  cases op with
  | item target index => exact performs_item target index
  | slice target first last => exact performs_slice target first last
  | call method ref identity arguments => exact performs_call method ref identity arguments

/-- The lists and variables after an operation on `ref` that succeeded: only the receiver may
have other elements, and no variable and no element of another list is another value. So
each of them that was the receiver still is, and shows the elements that it has now. -/
structure Effect (op : ListOperation) (ref : ListRef) (before after : Heap) : Prop where
  others (other : ListRef) : other.id < before.lists.size → other ≠ ref →
    after.items other = before.items other
  reading : op.reads = true → after.items ref = before.items ref
  length : ((after.items ref).size : ℤ) = (before.items ref).size + op.growth
  names (scope : ScopeRef) (name : String) : after.lookup scope name = before.lookup scope name
  functions : after.functions = before.functions

theorem effect_self (op : ListOperation) (ref : ListRef) (heap : Heap) (none : op.growth = 0) :
    op.Effect ref heap heap where
  others _ _ _ := rfl
  reading _ := rfl
  length := by rw [none, add_zero]
  names _ _ := rfl
  functions := rfl

/-- A slice touches no list there was, and its result is new. -/
theorem effect_newList {heap : Heap} (inHeap : ref.id < heap.lists.size) (first last : Option Value)
    (part : Array Value) :
    (slice (.list ref) first last).Effect ref heap (heap.newList part).2 where
  others _ inside _ := Heap.items_newList_other inside part
  reading _ := Heap.items_newList_other inHeap part
  length := by
    rw [Heap.items_newList_other inHeap part]
    exact (Int.add_zero _).symm
  names := Heap.lookup_congr rfl
  functions := rfl

/-- A method that writes changes its receiver by its growth, and no other list. -/
theorem effect_modifyItems {heap : Heap} (inHeap : ref.id < heap.lists.size) {method : ListMethod}
    {change : Array Value → Array Value} (identity : Nat) (arguments : List Value)
    (writes : method.reads = false)
    (length : ((change (heap.items ref)).size : ℤ) = (heap.items ref).size + method.growth) :
    (call method ref identity arguments).Effect ref heap (heap.modifyItems ref change) where
  others _ _ differ := Heap.items_modifyItems_other differ
  reading reads := absurd (writes.symm.trans reads) Bool.false_ne_true
  length := by rw [Heap.items_modifyItems_self inHeap, length, growth]
  names := Heap.lookup_congr rfl
  functions := rfl

/-- What succeeds has an effect on the receiver alone. -/
theorem Performs.effect (performs : Performs machine op (.ok value after))
    (inHeap : ∀ ref, op.receiver? = some ref → ref.id < machine.heap.lists.size) :
    ∃ ref, op.receiver? = some ref ∧ op.Effect ref machine.heap after.heap ∧
      after.output = machine.output ∧ after.callDepth = machine.callDepth := by
  cases performs with
  | reads value receiver none notSlice =>
      exact ⟨_, receiver, effect_self _ _ _ none, rfl, rfl⟩
  | changes value writes length =>
      exact ⟨_, rfl, effect_modifyItems (inHeap _ rfl) _ _ writes length, rfl, rfl⟩
  | copies cut => exact ⟨_, rfl, effect_newList (inHeap _ rfl) _ _ _, rfl, rfl⟩

/-- A slice is a list that was not there before. -/
theorem Performs.fresh {target : Value} {first last : Option Value}
    (performs : Performs machine (.slice target first last) (.ok value after)) :
    ∃ fresh : ListRef, value = .list fresh ∧ machine.heap.lists.size ≤ fresh.id ∧
      fresh.id < after.heap.lists.size ∧
      machine.heap.slice target first last = .ok (after.heap.items fresh) := by
  cases performs with
  | reads value receiver none notSlice => cases notSlice
  | copies cut =>
      refine ⟨_, rfl, Nat.le_refl _, ?_, ?_⟩
      · show machine.heap.lists.size < (machine.heap.lists.push _).size
        rw [Array.size_push]
        exact Nat.lt_succ_self _
      · rw [Heap.items_newList_self, cut]

/-! ## Later operations -/

variable {p : ListRef}

/-- **One operation** leaves every list that it is not applied to. -/
theorem items_machineAfter (inHeap : p.id < machine.heap.lists.size)
    (other : op.receiver? ≠ some p) :
    (Eval.machineAfter (op.run room machine)).heap.items p = machine.heap.items p ∧
      p.id < (Eval.machineAfter (op.run room machine)).heap.lists.size := by
  have performed := op.run_performs room machine
  generalize op.run room machine = result at performed
  cases performed with
  | fails stop => exact ⟨rfl, inHeap⟩
  | reads value receiver none notSlice => exact ⟨rfl, inHeap⟩
  | changes value writes length =>
      refine ⟨Heap.items_modifyItems_other fun same => other (congrArg some same.symm), ?_⟩
      rwa [Eval.machineAfter, Heap.size_lists_modifyItems]
  | copies cut =>
      refine ⟨Heap.items_newList_other inHeap _, ?_⟩
      show p.id < (machine.heap.lists.push _).size
      rw [Array.size_push]
      omega

/-- **Several operations** leave every list that none of them is applied to. -/
theorem items_runAll {ops : List ListOperation} (inHeap : p.id < machine.heap.lists.size)
    (others : ∀ op ∈ ops, op.receiver? ≠ some p) :
    (runAll room ops machine).heap.items p = machine.heap.items p := by
  induction ops generalizing machine with
  | nil => rfl
  | cons op rest ih =>
      obtain ⟨same, inHeap'⟩ :=
        @items_machineAfter room op machine p inHeap (others op List.mem_cons_self)
      rw [runAll, ih inHeap' fun later mem => others later (List.mem_cons_of_mem _ mem), same]

end ListOperation

/-- **Operations on lists are atomic and touch only their receiver.** One that fails leaves
the machine as it was. One that succeeds was applied to a list; the other lists, the
variables and what was printed stay as they are; the receiver grows by the number of
elements that the method stands for, and stays as it is if it is only read. A slice is a
list that was not there before. Whatever operations follow, a list that none of them is
applied to, such as the slice or the list it was taken from, keeps its elements. -/
theorem operations_touch_receiver (room : Nat) (op : ListOperation) (machine : Machine)
    (inHeap : ∀ ref, op.receiver? = some ref → ref.id < machine.heap.lists.size) :
    (∀ stop after, op.run room machine = .error stop after → after = machine) ∧
    ∀ value after, op.run room machine = .ok value after →
      (∃ ref, op.receiver? = some ref ∧ op.Effect ref machine.heap after.heap ∧
        after.output = machine.output ∧ after.callDepth = machine.callDepth) ∧
      (∀ target first last, op = .slice target first last →
        ∃ fresh : ListRef, value = .list fresh ∧ machine.heap.lists.size ≤ fresh.id ∧
          fresh.id < after.heap.lists.size ∧
          machine.heap.slice target first last = .ok (after.heap.items fresh)) ∧
      ∀ room' later p, p.id < after.heap.lists.size →
        (∀ op ∈ later, ListOperation.receiver? op ≠ some p) →
          (ListOperation.runAll room' later after).heap.items p = after.heap.items p := by
  constructor
  · intro stop after failed
    have performed := op.run_performs room machine
    rw [failed] at performed
    cases performed
    rfl
  · intro value after succeeded
    have performed := op.run_performs room machine
    rw [succeeded] at performed
    refine ⟨?_, ?_, fun room' later p => ListOperation.items_runAll⟩
    · exact performed.effect inHeap
    · rintro target first last rfl
      exact performed.fresh

/-- A list is pushed to itself: it is one longer, and the one other list is as before. -/
theorem operations_touch_receiver_itself :
    let machine : Machine := ⟨{ Heap.empty with lists := #[#[.null], #[.list ⟨0⟩]] }, #[], 0⟩
    let push := ListOperation.call .push ⟨0⟩ 1 [.list ⟨0⟩]
    ∃ after, push.run 0 machine = .ok .null after ∧
      push.Effect ⟨0⟩ machine.heap after.heap ∧
      after.heap.items ⟨0⟩ = #[.null, .list ⟨0⟩] := by
  intro machine push
  have inHeap : ∀ ref, push.receiver? = some ref → ref.id < machine.heap.lists.size := by
    rintro _ ⟨⟩
    decide
  have ran : push.run 0 machine = .ok .null
      { machine with heap := machine.heap.modifyItems ⟨0⟩ (·.push (.list ⟨0⟩)) } :=
    Heap.callNative_method 1 machine
  obtain ⟨-, succeeds⟩ := operations_touch_receiver 0 push machine inHeap
  obtain ⟨⟨ref, receiver, effect, -⟩, -⟩ := succeeds _ _ ran
  cases receiver
  exact ⟨_, ran, effect, rfl⟩

end TernLang
