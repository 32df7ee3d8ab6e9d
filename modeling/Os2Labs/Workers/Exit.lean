import Os2Labs.Workers.Null

/-!
# The exits of the workers

Both functions give up when they find too few elements: on the way in, `process_thread` reads
`first` and `first->next`, and `swap_thread` also reads `next` of the node it has read as
`first->next`.  The first node always has a successor (`Ordered.successor`), but the node after
it can be carried to the end of the list between the last two of these reads.

`exit_free_iff`: in a run no thread exits exactly when the third read always finds a node.
-/

namespace Os2Labs.Workers

open Conc

variable {Node Tid : Type}

/-- The nodes whose `next` decides about an exit are read from `storage->first`, but for the
last one. -/
def AtFirst (first : Option Node) : Pc Node → Prop
  | .startNext p => p = first
  | .testNext _ a => first = some a
  | _ => True

/-- The node read as `first->next`, whose `next` decides about the exit of `swap_thread`. -/
def Pc.tested : Pc Node → Option Node
  | .testNextNext _ next => next
  | _ => none

/-- The third read of `swap_thread` finds a node. -/
def Enough (s : State Node Tid) (e : Event Tid) : Prop :=
  ∀ a ∈ (s.pc e.thread).tested, s.next a ≠ none

instance (s : State Node Tid) (e : Event Tid) : Decidable (Enough s e) :=
  inferInstanceAs (Decidable (∀ a ∈ (s.pc e.thread).tested, s.next a ≠ none))

theorem atFirst_loop (first : Option Node) (k : Kind) (p : Option Node) :
    AtFirst first (loop k p) := by
  cases k <;> cases p <;> trivial

theorem loop_ne_exit (j k : Kind) (p : Option Node) : Pc.exit k ≠ loop j p := by
  cases j <;> cases p <;> exact nofun

/-- What is read from `storage->first` is the first node. -/
theorem atFirst_goes {first answer : Option Node} {pc new : Pc Node}
    (goes : (code pc).Goes answer new) (answered : ∀ k, code pc = .first k → answer = first) :
    AtFirst first new := by
  cases pc <;> simp only [code, Code.Goes] at goes
  case tryFirst k curr => rcases goes with ⟨_ | _, rfl⟩ <;> trivial
  case trySecond k curr p =>
    rcases goes with ⟨_ | _, rfl⟩ <;> cases p <;> cases k <;> trivial
  case tryThird curr1 second p => rcases goes with ⟨_ | _, rfl⟩ <;> cases p <;> trivial
  case rand curr1 => rcases goes with ⟨_ | _, rfl⟩ <;> trivial
  all_goals subst goes
  case startTest => cases answer <;> trivial
  case startLoad => exact answered _ rfl
  case loadFirst k =>
    have same := answered _ rfl
    cases answer with
    | none => trivial
    | some a => exact same.symm
  case skip | unlockFirst | unlockCurr | unlock3 => exact atFirst_loop _ _ _
  case testNext k a => cases answer <;> cases k <;> trivial
  case startNext | testNextNext | walkTest | testSecond | testThird => cases answer <;> trivial
  all_goals trivial

/-- The reads that lead to an exit. -/
theorem exit_goes {answer : Option Node} {pc : Pc Node} {k : Kind}
    (goes : (code pc).Goes answer (.exit k)) :
    answer = none ∧ ((∃ j, code pc = .first j) ∨ (∃ p, pc = .startNext p) ∨
      (∃ a, pc = .testNext k a) ∨ ∃ a p, pc = .testNextNext a p) := by
  cases pc <;> simp only [code, Code.Goes, reduceCtorEq] at goes
  case tryFirst kind curr => rcases goes with ⟨_ | _, same⟩ <;> cases same
  case trySecond kind curr p =>
    rcases goes with ⟨_ | _, same⟩ <;> cases p <;> cases kind <;> cases same
  case tryThird curr1 second p => rcases goes with ⟨_ | _, same⟩ <;> cases p <;> cases same
  case rand curr1 => rcases goes with ⟨_ | _, same⟩ <;> cases same
  case skip | unlockFirst | unlockCurr | unlock3 => exact (loop_ne_exit _ _ _ goes).elim
  case startTest =>
    cases answer with
    | none => exact ⟨rfl, Or.inl ⟨_, rfl⟩⟩
    | some a => cases goes
  case loadFirst kind =>
    cases answer with
    | none => exact ⟨rfl, Or.inl ⟨_, rfl⟩⟩
    | some a => cases goes
  case startNext p =>
    cases answer with
    | none => exact ⟨rfl, Or.inr (Or.inl ⟨p, rfl⟩)⟩
    | some a => cases goes
  case testNext kind a =>
    cases answer with
    | none =>
      cases goes
      exact ⟨rfl, Or.inr (Or.inr (Or.inl ⟨a, rfl⟩))⟩
    | some b => cases kind <;> cases goes
  case testNextNext a p =>
    cases answer with
    | none => exact ⟨rfl, Or.inr (Or.inr (Or.inr ⟨a, p, rfl⟩))⟩
    | some b => cases goes
  case walkTest | testSecond | testThird => cases answer <;> cases goes

variable [DecidableEq Node] [DecidableEq Tid] {variant : Variant} {s s' : State Node Tid} {t : Tid}
  {initial l : List Node} {first : Option Node} {kind : Tid → Kind}

theorem Move.atFirst (move : Move variant s t s') (known : Known initial s)
    (atFirst : ∀ u, AtFirst s.first (s.pc u)) : ∀ u, AtFirst s.first (s'.pc u) := by
  rcases known.goes move with ⟨answer, new, pc, goes, -⟩
  intro u
  by_cases who : u = t
  · subst who
    cases move with
    | @first k here =>
      have goes : (code (s.pc u)).Goes s.first (k s.first) := by
        rw [here]
        rfl
      rw [goto_pc_self]
      exact atFirst_goes goes fun _ _ => rfl
    | load here | store here | lock here | fail here | unlock here | values here | rand here
    | count here =>
      rw [pc, goto_pc_self]
      exact atFirst_goes goes fun k reads => by rw [here] at reads; cases reads
  · rw [pc, goto_pc_of_ne new who]
    exact atFirst u

/-- A step to an exit reads `NULL` behind the node that was read as `first->next`. -/
theorem Move.not_exit (move : Move variant s t s') (known : Known initial s)
    (atFirst : AtFirst s.first (s.pc t)) {a : Node} (start : s.first = some a)
    (successor : s.next a ≠ none) (enough : ∀ b ∈ (s.pc t).tested, s.next b ≠ none) :
    ∀ k, s'.pc t ≠ .exit k := by
  intro k exits
  rcases known.goes move with ⟨answer, new, pc, goes, -⟩
  have at_new : s'.pc t = new := by rw [pc, goto_pc_self]
  rw [← at_new, exits] at goes
  cases move with
  | first here =>
    have goes : (code (s.pc t)).Goes s.first (.exit k) := by
      rw [here, ← exits, goto_pc_self]
      rfl
    cases start.symm.trans (exit_goes goes).1
  | @load b j here =>
    rw [goto_pc_self] at exits
    have goes : (code (s.pc t)).Goes (s.next b) (.exit k) := by
      rw [here, ← exits]
      rfl
    rcases exit_goes goes with ⟨ends, ⟨i, reads⟩ | ⟨p, pc⟩ | ⟨c, pc⟩ | ⟨c, p, pc⟩⟩
    · rw [here] at reads
      cases reads
    · rw [pc] at here atFirst
      cases here
      rw [← atFirst] at start
      cases start
      exact successor ends
    · rw [pc] at here atFirst
      cases here
      rw [start] at atFirst
      cases atFirst
      exact successor ends
    · rw [pc] at here enough
      cases here
      exact enough b rfl ends
  | store here | lock here | fail here | unlock here | values here | rand here | count here =>
    have any : (code (s.pc t)).Goes (some a) (.exit k) := by
      rw [here] at goes ⊢
      exact goes
    cases (exit_goes any).1

/-- When the third read finds no node, the thread exits. -/
theorem exit_of_not_enough {e : Event Tid} (moved : step variant s e = some s')
    (short : ¬ Enough s e) : s'.pc e.thread = .exit .swap := by
  obtain ⟨curr1, a, tests, ends⟩ :
      ∃ curr1 a, s.pc e.thread = .testNextNext curr1 (some a) ∧ s.next a = none := by
    unfold Enough Pc.tested at short
    simp only [not_forall, not_not] at short
    obtain ⟨a, here, ends⟩ := short
    split at here
    · next curr1 next at_test => exact ⟨curr1, a, at_test.trans (congrArg _ here), ends⟩
    · cases here
  simp only [step, tests, code, ends, Option.some.injEq] at moved
  subst moved
  rw [goto_pc_self]
  rfl

/-! ## Runs -/

section Runs

variable [Finite Tid] {next : Node → Option Node} (linked : Linked next first initial)
  (three : 3 ≤ initial.length)
include linked

theorem reachable_atFirst (reached : Reachable (step variant) (init first next kind) s) :
    ∀ t, AtFirst s.first (s.pc t) := by
  have := Fintype.ofFinite Tid
  apply reached.induction (motive := fun s => ∀ t, AtFirst s.first (s.pc t))
  · intro t
    show AtFirst first (start (kind t))
    cases kind t <;> trivial
  · intro a b e before ih moved
    have move := step_move moved
    have same : b.first = a.first :=
      ((owned before).step move).first.trans (owned before).first.symm
    rw [same]
    exact move.atFirst (ordered linked before).1 ih

include three

/-- In a run whose third reads always find a node, no thread exits. -/
theorem exit_free (reached : Reachable (restrict Enough (step variant)) (init first next kind) s) :
    ∀ t k, s.pc t ≠ .exit k := by
  have := Fintype.ofFinite Tid
  apply reached.induction (motive := fun s => ∀ t k, s.pc t ≠ .exit k)
  · intro t k
    show start (kind t) ≠ .exit k
    cases kind t <;> exact nofun
  · intro a b e before ih moved u k
    rcases restrict_eq_some.mp moved with ⟨enough, moved⟩
    have move := step_move moved
    have here := owned before.of_restrict
    rcases ordered linked before.of_restrict with ⟨known, done, l, ordered⟩
    by_cases who : u = e.thread
    · subst who
      obtain ⟨x, start⟩ : ∃ x, a.first = some x := by
        rw [here.first]
        cases initial with
        | nil => simp at three
        | cons x rest => exact ⟨x, linked.1⟩
      have successor := ordered.successor here known (by omega) start
      exact move.not_exit known (reachable_atFirst linked before.of_restrict e.thread) start
        successor enough k
    · rcases known.goes move with ⟨answer, new, pc, -, -⟩
      rw [pc, goto_pc_of_ne new who]
      exact ih u k

/-- When a run makes no worker give up.  With at least three nodes, no thread ever takes the
exit for too few elements in a run exactly when every thread of `swap_thread` that reads
`next` of the node it has read as `first->next` finds a node there. -/
theorem exit_free_iff {es : List (Event Tid)}
    (ran : run (step variant) (init first next kind) es = some s) :
    (∀ fs a, fs <+: es → run (step variant) (init first next kind) fs = some a →
        ∀ t k, a.pc t ≠ .exit k) ↔
      ∀ fs e a, fs ++ [e] <+: es → run (step variant) (init first next kind) fs = some a →
        Enough a e := by
  constructor
  · intro free fs e a shorter reached
    by_contra short
    rcases run_prefix shorter ran with ⟨b, further⟩
    rcases run_snoc.mp further with ⟨a', again, moved⟩
    cases reached.symm.trans again
    exact free _ b shorter further e.thread .swap (exit_of_not_enough moved short)
  · intro enough fs a shorter reached
    refine exit_free linked three ⟨fs, run_restrict reached fun gs e b shorter' => ?_⟩
    exact enough gs e b (shorter'.trans shorter)

end Runs

end Os2Labs.Workers
