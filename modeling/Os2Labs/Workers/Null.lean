import Mathlib.Data.Fintype.EquivFin
import Os2Labs.Workers.Swaps

/-!
# Null pointers

Where the code of the workers reads a `next` field twice, the second read comes after a
lock, or is of the first node, which always has a successor; or it is the one in the walk
of `should_swap == 0`.  `null_free_iff`: a run makes no thread go through `NULL` when this
one finds no `NULL`, and only then.
-/

namespace Os2Labs.Workers

open Conc

variable {Node Tid : Type}

/-- What a thread knows of the pointers it has read without a lock. -/
def Aware (first : Option Node) : Pc Node → Prop
  | .startLoad => first ≠ none
  | .startNext p | .testNextNext _ p | .walkTest p | .walkStep p => p ≠ none
  | .testNext _ a | .loadNext a => first = some a
  | _ => True

/-- A thread that knows all that goes through no null pointer. -/
theorem Aware.not_null {first : Option Node} {next : Node → Option Node} {pc : Pc Node}
    (aware : Aware first pc) (facts : Facts next pc) : ¬ (code pc).Null := by
  cases pc <;> simp only [code, Code.Null, Aware, Facts, not_false_eq_true] at aware facts ⊢
  all_goals simp_all

theorem aware_loop {first : Option Node} (k : Kind) (p : Option Node) : Aware first (loop k p) := by
  cases k <;> cases p <;> trivial

section Aware

variable {pc : Pc Node}

theorem Aware.first {first : Option Node} (aware : Aware first pc) {k : Option Node → Pc Node}
    (here : code pc = .first k) : Aware first (k first) := by
  cases pc <;> simp only [code, reduceCtorEq, Code.first.injEq] at here
  all_goals subst here
  case startLoad => exact aware
  case startTest | loadFirst => cases first <;> simp [Aware]

theorem Aware.load {first : Option Node} (aware : Aware first pc) {a : Node}
    {k : Option Node → Pc Node} (here : code pc = .load (some a) k) {answer : Option Node}
    (successor : first = some a → answer ≠ none)
    (careful : pc = .walkStep (some a) → answer ≠ none) : Aware first (k answer) := by
  cases pc <;> simp only [code, reduceCtorEq, Code.load.injEq] at here
  all_goals obtain ⟨from_a, rfl⟩ := here
  case testNext k curr => cases answer <;> cases k <;> first | exact aware | trivial
  case loadNext curr1 =>
    cases from_a
    exact successor aware
  case walkTest curr1 => cases answer <;> first | exact aware | trivial
  case walkStep curr1 => exact careful (congrArg _ from_a)
  case skip kind curr => exact aware_loop kind answer
  case startNext | testNextNext | testSecond | testThird => cases answer <;> trivial
  all_goals trivial

/-- After a step that reads no pointer a thread needs to know nothing new. -/
theorem aware_goes {first answer : Option Node} {new : Pc Node} (goes : (code pc).Goes answer new)
    (no_first : ∀ k, code pc ≠ .first k) (no_load : ∀ p k, code pc ≠ .load p k) :
    Aware first new := by
  cases pc <;> simp only [code, Code.Goes] at goes
  case tryFirst k curr => rcases goes with ⟨_ | _, rfl⟩ <;> trivial
  case trySecond k curr p =>
    rcases goes with ⟨_ | _, rfl⟩ <;> cases p <;> cases k <;> trivial
  case tryThird curr1 second p => rcases goes with ⟨_ | _, rfl⟩ <;> cases p <;> trivial
  case rand curr1 =>
    obtain ⟨_ | _, rfl⟩ := goes
    · exact Option.some_ne_none curr1
    · trivial
  all_goals subst goes
  case unlockFirst | unlockCurr | unlock3 => exact aware_loop _ _
  all_goals first
    | trivial
    | exact (no_first _ rfl).elim
    | exact (no_load _ _ rfl).elim

end Aware

variable [DecidableEq Node] [DecidableEq Tid] {variant : Variant} {s s' : State Node Tid} {t : Tid}
  {initial l : List Node} {first : Option Node} {kind : Tid → Kind} {done : Node → Option Node}

/-- The first node always has a successor, also while a swap is in progress. -/
theorem Ordered.successor [Fintype Tid] (ordered : Ordered initial s done l)
    (owned : Owned variant first kind s) (known : Known initial s) (two : 2 ≤ initial.length)
    {a : Node} (at_first : s.first = some a) : s.next a ≠ none := by
  have linked := ordered.linked
  rw [at_first] at linked
  by_cases settled : ∀ t, a ∉ unwritten (s.pc t)
  · have length := ordered.exchanges.perm.length_eq
    rw [← ordered.written a settled]
    match l, linked with
    | [_], _ => simp only [List.length_singleton] at length; omega
    | _ :: b :: _, ⟨same, next, _⟩ =>
      cases same
      rw [next]
      exact Option.some_ne_none b
  · simp only [not_forall, not_not] at settled
    obtain ⟨t, pending⟩ := settled
    rcases unwritten_linked (owned.facts t) (ordered.promised t) pending with succ | ⟨b, holds, ba⟩
    · exact succ
    · exact (Linked.next_ne_start linked (ordered.held_mem known holds) ba).elim

/-- The node whose `next` the walk of `should_swap == 0` reads again to go on. -/
def Pc.walked : Pc Node → Option Node
  | .walkStep curr1 => curr1
  | _ => none

/-- It finds a node there. -/
def Careful (s : State Node Tid) (e : Event Tid) : Prop :=
  ∀ curr1 ∈ (s.pc e.thread).walked, s.next curr1 ≠ none

instance (s : State Node Tid) (e : Event Tid) : Decidable (Careful s e) :=
  inferInstanceAs (Decidable (∀ curr1 ∈ (s.pc e.thread).walked, s.next curr1 ≠ none))

theorem Move.aware (move : Move variant s t s') (known : Known initial s)
    (aware : Aware s.first (s.pc t)) (successor : ∀ a, s.first = some a → s.next a ≠ none)
    (careful : ∀ a ∈ (s.pc t).walked, s.next a ≠ none) : Aware s.first (s'.pc t) := by
  rcases known.goes move with ⟨answer, new, pc, goes, -⟩
  have at_new : s'.pc t = new := by rw [pc, goto_pc_self]
  cases move with
  | first here =>
    rw [goto_pc_self]
    exact aware.first here
  | @load a k here =>
    rw [goto_pc_self]
    refine aware.load here (successor a) fun walks => careful a ?_
    rw [walks]
    rfl
  | store here | lock here | fail here | unlock here | values here | rand here | count here =>
    rw [at_new]
    exact aware_goes goes (by simp [here]) (by simp [here])

/-- When the walk finds no node there, it goes through a null pointer next. -/
theorem null_of_careless {e : Event Tid} (moved : step variant s e = some s')
    (careless : ¬ Careful s e) : (code (s'.pc e.thread)).Null := by
  obtain ⟨a, walks, ends⟩ : ∃ a, s.pc e.thread = .walkStep (some a) ∧ s.next a = none := by
    unfold Careful Pc.walked at careless
    simp only [not_forall, not_not] at careless
    obtain ⟨a, here, ends⟩ := careless
    split at here
    · next curr1 at_walk => exact ⟨a, at_walk.trans (congrArg _ here), ends⟩
    · cases here
  simp only [step, walks, code, ends, Option.some.injEq] at moved
  subst moved
  rw [goto_pc_self]
  rfl

/-! ## Runs -/

section Runs

variable [Finite Tid] {next : Node → Option Node} (linked : Linked next first initial)
  (three : 3 ≤ initial.length)
include linked three

/-- In a run whose walks always find a node, no thread goes through a null pointer. -/
theorem null_free (reached : Reachable (restrict Careful (step variant)) (init first next kind) s) :
    ∀ t, ¬ (code (s.pc t)).Null := by
  have := Fintype.ofFinite Tid
  have aware : ∀ t, Aware s.first (s.pc t) := by
    apply reached.induction (motive := fun s => ∀ t, Aware s.first (s.pc t))
    · intro t
      show Aware first (start (kind t))
      cases kind t <;> trivial
    · intro a b e before ih moved u
      rcases restrict_eq_some.mp moved with ⟨careful, moved⟩
      have move := step_move moved
      have here := owned before.of_restrict
      rcases ordered linked before.of_restrict with ⟨known, done, l, ordered⟩
      have same : b.first = a.first := (here.step move).first.trans here.first.symm
      rw [same]
      by_cases who : u = e.thread
      · subst who
        have successor := fun x => ordered.successor here known (by omega) (a := x)
        exact move.aware known (ih e.thread) successor careful
      · rcases known.goes move with ⟨answer, new, pc, -, -⟩
        rw [pc, goto_pc_of_ne new who]
        exact ih u
  exact fun t => (aware t).not_null ((owned reached.of_restrict).facts t)

/-- When a run goes through no null pointer.  With at least three nodes, no thread ever is about
to go through a null pointer in a run exactly when the walk of `should_swap == 0` finds a
node whenever it reads `curr1->next` the second time. -/
theorem null_free_iff {es : List (Event Tid)}
    (ran : run (step variant) (init first next kind) es = some s) :
    (∀ fs a, fs <+: es → run (step variant) (init first next kind) fs = some a →
        ∀ t, ¬ (code (a.pc t)).Null) ↔
      ∀ fs e a, fs ++ [e] <+: es → run (step variant) (init first next kind) fs = some a →
        Careful a e := by
  constructor
  · intro free fs e a shorter reached
    by_contra careless
    rcases run_prefix shorter ran with ⟨b, further⟩
    rcases run_snoc.mp further with ⟨a', again, moved⟩
    cases reached.symm.trans again
    exact free _ b shorter further e.thread (null_of_careless moved careless)
  · intro careful fs a shorter reached
    refine null_free linked three ⟨fs, run_restrict reached fun gs e b shorter' => ?_⟩
    exact careful gs e b (shorter'.trans shorter)

end Runs

end Os2Labs.Workers
