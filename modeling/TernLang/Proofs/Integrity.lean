import TernLang.Proofs.Eval.Grounded
import TernLang.Proofs.Eval.Links

/-! # References never dangle

Throughout a run the heap is intact: every reference in it leads to something, and
from every scope a finite chain of outer links leads to the outermost scope of the
program. **Searching a name, reading, assigning and counting the scopes around go
along this chain** and nowhere else, and the chain of a scope is the same in all
states in which the scope is there (`heaps_intact`).

Values refer to each other freely: a list may hold itself, and a function may be bound
in the very scope in which it was declared. Scopes do not: a link is made with its
scope, to one that is older.
-/

namespace TernLang

/-- Every reference leads to something, and from every scope a chain leads to the
outermost scope of the program. -/
structure Heap.Intact (h : Heap) : Prop where
  closed : h.Closed h.InUse
  walks : ∀ s : ScopeRef, h.InUse s.place →
    ∃ refs, h.Walks s refs ∧ refs.getLast? = some freshGlobals.1

/-- What is grounded is intact. -/
theorem Heap.Grounded.intact {h : Heap} (grounded : h.Grounded) : h.Intact where
  closed := grounded.closed
  walks s used := by
    obtain ⟨refs, chain, last⟩ := grounded.chain used
    exact ⟨refs, chain.walks grounded.wellFormed, last⟩

namespace Eval

/-- The heaps of a run: what a task starts on, and what it leaves. -/
inductive Visits (limits : Limits) (stmts : List Stmt) : Heap → Prop
  | start {calls : Nat} {task : Task} {m : Machine} : Reaches limits stmts calls task m →
      Visits limits stmts m.heap
  | finish {calls : Nat} {task : Task} {m : Machine} : Reaches limits stmts calls task m →
      Visits limits stmts (machineAfter (task.run limits m)).heap

variable {limits : Limits} {stmts : List Stmt} {h h' : Heap}

/-- Every heap that a run visits is grounded. -/
theorem Visits.grounded (visits : Visits limits stmts h) : h.Grounded := by
  cases visits with
  | start reached => exact reached.sustained.1.grounded
  | finish reached =>
      obtain ⟨before, used⟩ := reached.sustained
      exact (Task.yields limits _ before.grounded used).heap.grounded

/-- The machine that the run of a program leaves. -/
def finalMachine (limits : Limits) (stmts : List Stmt) : Machine :=
  machineAfter (executeProgram limits (executionRoom limits.maxCallDepth) freshGlobals.1 stmts
    startMachine)

/-- The links of every state are still there at the end of the run. -/
theorem Visits.links (visits : Visits limits stmts h) :
    h.links <+: (finalMachine limits stmts).heap.links := by
  cases visits with
  | @start _ task m reached =>
      obtain ⟨before, used⟩ := reached.sustained
      have ends := (Task.yields limits task before.grounded used).heap.continues.links
      exact ReachesFrom.leaves reached ends
  | finish reached => exact ReachesFrom.leaves reached List.prefix_rfl

/-- The chain of a scope at the end of a run is its chain in every state. -/
theorem Visits.chain_iff (visits : Visits limits stmts h) {s : ScopeRef} (used : h.InUse s.place)
    {refs : List ScopeRef} :
    h.OuterChain s refs ↔ (finalMachine limits stmts).heap.OuterChain s refs := by
  constructor
  · exact fun chain => chain.kept visits.links
  · intro chain
    obtain ⟨others, here, -⟩ := visits.grounded.chain used
    rwa [chain.unique (here.kept visits.links)]

end Eval

/-- **No reference dangles in any state of a run**, whatever the program is and however
it ends. The heap is intact when a task starts and when it has ended, a scope has the
same chain in any two states in which it is there, what a task holds is in use, and so
is what it gives. -/
theorem heaps_intact (limits : Limits) (stmts : List Stmt) :
    (∀ h, Eval.Visits limits stmts h → h.Intact) ∧
    (∀ h h', Eval.Visits limits stmts h → Eval.Visits limits stmts h' →
      ∀ s : ScopeRef, h.InUse s.place → h'.InUse s.place →
        ∀ refs, h.OuterChain s refs ↔ h'.OuterChain s refs) ∧
    (∀ calls task m, Eval.Reaches limits stmts calls task m →
      (∀ place ∈ task.places, m.heap.InUse place) ∧
      ∀ v ∈ task.values limits m,
        v.Inside (Eval.machineAfter (task.run limits m)).heap.InUse) := by
  refine ⟨?_, ?_, ?_⟩
  · exact fun h visits => visits.grounded.intact
  · intro h h' visits visits' s used used' refs
    rw [visits.chain_iff used, visits'.chain_iff used']
  · intro calls task m reached
    obtain ⟨before, used⟩ := reached.sustained
    exact ⟨used, (Eval.Task.yields limits task before.grounded used).inside⟩

/-- A program with a list in itself, and with a function in the scope that it was
declared in, which is that of a call. -/
def circles : List Stmt :=
  [.varDecl "xs" (some (.list [] 1)) 1,
    .expression (.call (.member (.var "xs" 1) "push" 1) [.var "xs" 1] 1) 1,
    .funDecl "f" [] [.funDecl "g" [] [] 2] 2,
    .expression (.call (.var "f" 3) [] 3) 3]

/-- The heap that the program leaves. -/
def circlesHeap : Heap where
  lists := #[#[.list ⟨0⟩]]
  scopes := #[
    ⟨[("hash", .native .hash), ("xs", .list ⟨0⟩), ("f", .function ⟨0⟩)], none⟩,
    ⟨[("g", .function ⟨1⟩)], some ⟨0⟩⟩]
  functions := #[⟨"f", [], [.funDecl "g" [] [] 2], ⟨0⟩⟩, ⟨"g", [], [], ⟨1⟩⟩]
  nextIdentity := 2

theorem circles_reaches : Eval.Reaches ⟨3, 10⟩ circles 0 (.program 1114 freshGlobals.1 [])
    ⟨circlesHeap, #[], 0⟩ := by
  have begun : Eval.ReachesFrom ⟨3, 10⟩ (.program 1114 freshGlobals.1 circles)
      Eval.startMachine 0 (.program 1114 freshGlobals.1 circles) Eval.startMachine := .start
  have list := begun.step (.program rfl)
  have pushed := list.step (.program rfl)
  have declared := pushed.step (.program rfl)
  exact declared.step (.program rfl)

/-- The list that holds itself and the function in its own scope are no obstacle: from
that scope a chain leads to the outermost one. -/
theorem heaps_intact_circles :
    analyze 3 "var xs = []; xs.push(xs);\ndef f() { def g() {} }\nf();" = .ok ⟨circles, []⟩ ∧
    Eval.Visits ⟨3, 10⟩ circles circlesHeap ∧ circlesHeap.Closed circlesHeap.InUse ∧
    ∃ refs, circlesHeap.Walks ⟨1⟩ refs ∧ refs.getLast? = some freshGlobals.1 := by
  have visited : Eval.Visits ⟨3, 10⟩ circles circlesHeap := .start circles_reaches
  have intact := (heaps_intact ⟨3, 10⟩ circles).1 circlesHeap visited
  exact ⟨rfl, visited, intact.closed, intact.walks ⟨1⟩ rfl⟩

end TernLang
