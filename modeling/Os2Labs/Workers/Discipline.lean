import Mathlib.Data.Fintype.EquivFin
import Mathlib.Data.List.Chain
import Os2Labs.Workers.Swaps

/-!
# Which nodes a worker has locked

The code finds the nodes to unlock by reading `next` fields again, after the swap has
changed them.  `discipline`: it unlocks only what it has locked, has nothing locked at
the head of its inner loop, and when it compares or swaps the nodes it has locked are
neighbours in the list, and stay so whatever the other threads do.
-/

namespace Os2Labs.Workers

open Conc

variable {Node Tid : Type}

/-- The head of the inner loop: the test of `should_swap`, or of `curr != NULL`.  With
`curr == NULL` the next access is that behind the loop (`loop`). -/
def Pc.head : Pc Node → Bool
  | .walkTest _ | .tryFirst .. | .countPass | .loadFirst .swap => true
  | _ => false

/-- The nodes a thread has locked when it compares or swaps, in the order of the list. -/
def Pc.working : Pc Node → Option (List Node)
  | .loadPair curr second | .compare curr second _ => some [curr, second]
  | .loadCurr2 curr1 second third | .loadCurr3 curr1 second third _
  | .loadCurr3Next curr1 second third _ _ | .loadTail curr1 second third _ _
  | .storeCurr2 curr1 second third _ _ _ => some [curr1, second, third]
  | _ => none

/-- The local variables that the comparison and the three writes of a swap are about. -/
def Pc.operands : Pc Node → Option (List (Option Node))
  | .compare curr _ curr2 => some [some curr, curr2]
  | .storeCurr2 curr1 _ _ curr2 curr3 _ => some [some curr1, curr2, curr3]
  | _ => none

/-- The thread has locked the nodes of `l` and no others, and they are distinct and follow
each other in the list. -/
structure Neighbours (s : State Node Tid) (t : Tid) (l : List Node) : Prop where
  nodup : l.Nodup
  chain : l.IsChain fun a b => s.next a = some b
  locked : ∀ a, a ∈ l ↔ ∃ m, (t, m) ∈ s.lock a

def Code.isUnlock : Code Node → Bool
  | .unlock .. => true
  | _ => false

/-- The step is neither a write of a `next` field nor an unlock of `t`. -/
def Keeps (t : Tid) (s : State Node Tid) (e : Event Tid) : Prop :=
  e.thread = t → (code (s.pc t)).isStore = false ∧ (code (s.pc t)).isUnlock = false

instance [DecidableEq Tid] (t : Tid) (s : State Node Tid) (e : Event Tid) :
    Decidable (Keeps t s e) :=
  inferInstanceAs (Decidable (e.thread = t → _))

/-- The points from there to the next write or unlock. -/
def Pc.span : Pc Node → Option (List Node)
  | .passSecond .process curr second | .unlockTmp .process curr second _ => some [curr, second]
  | pc => pc.working

theorem span_of_working {pc : Pc Node} {l : List Node} (working : pc.working = some l) :
    pc.span = some l := by
  cases pc <;> first | exact working | cases working

/-- The nodes of the span are those that are held. -/
theorem held_of_span {pc : Pc Node} {l : List Node} (span : pc.span = some l) : held pc = l := by
  unfold Pc.span at span
  split at span
  · cases span
    rfl
  · cases span
    rfl
  · cases pc <;> cases span <;> rfl

/-- The span ends with a write or an unlock. -/
theorem span_goes {pc new : Pc Node} {answer : Option Node} {l : List Node}
    (span : pc.span = some l) (goes : (code pc).Goes answer new)
    (no_store : (code pc).isStore = false) (no_unlock : (code pc).isUnlock = false) :
    new.span = some l := by
  unfold Pc.span at span
  split at span
  · cases span
    cases goes
    rfl
  · cases no_unlock
  · cases pc <;> cases span <;> first | (cases goes; rfl) | cases no_store

/-- A swap works with exclusive locks, a comparison with two nodes. -/
theorem working_cases {pc : Pc Node} {l : List Node} (working : pc.working = some l) :
    pc.kind = .swap ∨ ∃ a b, l = [a, b] := by
  cases pc <;> cases working <;> first | exact Or.inl rfl | exact Or.inr ⟨_, _, rfl⟩

/-- What is unlocked is a node. -/
theorem Facts.unlock_some {next : Node → Option Node} {pc k : Pc Node} {p : Option Node}
    (facts : Facts next pc) (here : code pc = .unlock p k) : ∃ a, p = some a := by
  cases pc <;> simp only [code, reduceCtorEq, Code.unlock.injEq] at here
  all_goals obtain ⟨rfl, -⟩ := here
  case unlockFirst kind tmp curr => exact ⟨tmp, rfl⟩
  case unlockTmp kind tmp second curr => exact ⟨tmp, rfl⟩
  case unlockCurr kind second curr => exact ⟨second, facts⟩
  case unlock1 tmp second third curr1 curr2 => exact ⟨tmp, rfl⟩
  case unlock2 second third curr1 curr2 => exact ⟨third, facts.1⟩
  case unlock3 second curr1 curr2 => exact ⟨second, facts⟩

/-- When a thread compares or swaps, its local variables are the nodes it has locked. -/
theorem Facts.operands {next : Node → Option Node} {pc : Pc Node} (facts : Facts next pc)
    {ps : List (Option Node)} (operands : pc.operands = some ps) :
    ∃ l, pc.working = some l ∧ ps = l.map some := by
  cases pc <;> cases operands
  case compare curr second curr2 =>
    rcases facts with ⟨-, rfl⟩
    exact ⟨[curr, second], rfl, rfl⟩
  case storeCurr2 curr1 second third curr2 curr3 tail =>
    rcases facts with ⟨-, -, rfl, rfl, -⟩
    exact ⟨[curr1, second, third], rfl, rfl⟩

/-- They follow each other. -/
theorem Facts.chain {next : Node → Option Node} {pc : Pc Node} (facts : Facts next pc)
    {l : List Node} (working : pc.working = some l) :
    l.IsChain fun a b => next a = some b := by
  cases pc <;> cases working
  case loadPair curr second => exact List.isChain_pair.mpr facts
  case compare curr second curr2 => exact List.isChain_pair.mpr facts.1
  case loadCurr2 curr1 second third =>
    exact List.isChain_cons_cons.mpr ⟨facts.1, List.isChain_pair.mpr facts.2⟩
  all_goals exact List.isChain_cons_cons.mpr ⟨facts.1, List.isChain_pair.mpr facts.2.1⟩

theorem head_held {pc : Pc Node} (head : pc.head = true) : held pc = [] := by
  cases pc <;> first | rfl | cases head

variable [DecidableEq Node] [DecidableEq Tid] {variant : Variant} {s s' : State Node Tid} {t : Tid}
  {initial l : List Node} {first : Option Node} {kind : Tid → Kind} {done : Node → Option Node}

/-- The locks of a thread are those of the nodes it holds. -/
theorem Locks.mem_iff (locks : Locks variant s) {a : Node} {m : Mode} :
    (t, m) ∈ s.lock a ↔ m = variant.mode (s.pc t).kind ∧ a ∈ held (s.pc t) := by
  rw [← List.count_pos_iff, locks.count]
  split
  · next same =>
    rw [List.count_pos_iff]
    exact ⟨fun holds => ⟨same, holds⟩, fun both => both.2⟩
  · next other =>
    constructor
    · intro none_there
      omega
    · intro both
      exact (other both.1).elim

/-- No other thread is going to write to a node that a thread holds. -/
theorem Owned.settled (owned : Owned variant first kind s) {a : Node} (holds : a ∈ held (s.pc t))
    (mine : a ∉ unwritten (s.pc t)) : ∀ u, a ∉ unwritten (s.pc u) := by
  intro u pending
  by_cases who : u = t
  · rw [who] at pending
    exact mine pending
  · have swap : (s.pc u).kind = .swap := by
      cases pc : s.pc u <;> rw [pc] at pending <;> first | rfl | cases pending
    exact owned.locks.apart swap (unwritten_held _ pending) (Ne.symm who) holds

/-- No node that a thread holds comes behind itself. -/
theorem Ordered.next_ne_self [Fintype Tid] (ordered : Ordered initial s done l)
    (owned : Owned variant first kind s) (known : Known initial s) {a : Node}
    (holds : a ∈ held (s.pc t)) (mine : a ∉ unwritten (s.pc t)) : s.next a ≠ some a := by
  rw [← ordered.written a (owned.settled holds mine)]
  exact Linked.next_ne_self ordered.linked (ordered.held_mem known holds)

/-- When a thread compares or swaps, the nodes it has locked are neighbours. -/
theorem Ordered.neighbours [Fintype Tid] (ordered : Ordered initial s done l)
    (owned : Owned variant first kind s) (known : Known initial s) {w : List Node}
    (working : (s.pc t).working = some w) : Neighbours s t w := by
  have holds := held_of_span (span_of_working working)
  have idle : unwritten (s.pc t) = [] := by
    cases pc : s.pc t <;> rw [pc] at working <;> first | rfl | cases working
  have chain := (owned.facts t).chain working
  refine ⟨?_, chain, ?_⟩
  · rcases working_cases working with swap | ⟨a, b, rfl⟩
    · rw [← holds]
      exact owned.locks.nodup swap
    · -- shared locks can be taken twice, but the list has no loop
      have ab := List.isChain_pair.mp chain
      have ne := ordered.next_ne_self owned known (t := t) (a := a)
        (by rw [holds]; simp) (by rw [idle]; simp)
      simp only [List.nodup_cons, List.mem_singleton, List.not_mem_nil, not_false_eq_true,
        List.nodup_nil, and_true]
      intro same
      exact ne (ab.trans (congrArg some same.symm))
  · intro a
    rw [← holds]
    constructor
    · intro member
      exact ⟨variant.mode (s.pc t).kind, owned.locks.mem.mpr member⟩
    · intro locked
      rcases locked with ⟨m, locked⟩
      exact (owned.locks.mem_iff.mp locked).2

/-- A step that is not a write or an unlock of `t` leaves the nodes of `t` alone. -/
theorem Neighbours.step (owned : Owned variant first kind s) (known : Known initial s)
    {w : List Node} (span : (s.pc t).span = some w) (neighbours : Neighbours s t w) {e : Event Tid}
    (keeps : Keeps t s e) (moved : step variant s e = some s') :
    (s'.pc t).span = some w ∧ Neighbours s' t w := by
  have move := step_move moved
  have owned' := owned.step move
  have span' : (s'.pc t).span = some w := by
    rcases known.goes move with ⟨answer, new, pc, goes, -⟩
    by_cases who : e.thread = t
    · rcases keeps who with ⟨no_store, no_unlock⟩
      rw [who] at goes pc
      rw [pc, goto_pc_self]
      exact span_goes span goes no_store no_unlock
    · rw [pc, goto_pc_of_ne new (Ne.symm who)]
      exact span
  have same : ∀ a ∈ w, s'.next a = s.next a := by
    intro a member
    by_cases who : e.thread = t
    · rw [who] at move
      have no_store := (keeps who).1
      cases move with
      | store here =>
        rw [here] at no_store
        cases no_store
      | _ => rfl
    · apply move.frame owned.locks (owned.facts e.thread) (Ne.symm who) a
      rw [held_of_span span]
      exact member
  refine ⟨span', neighbours.nodup, ?_, fun a => ?_⟩
  · apply neighbours.chain.imp_of_mem_imp
    intro a b member _ ab
    rw [same a member]
    exact ab
  · rw [← held_of_span span']
    constructor
    · intro member
      exact ⟨variant.mode (s'.pc t).kind, owned'.locks.mem.mpr member⟩
    · intro locked
      rcases locked with ⟨m, locked⟩
      exact (owned'.locks.mem_iff.mp locked).2

/-- **Lock discipline.**  What a thread unlocks it has locked; at the head of its inner loop it
has nothing locked; and when it compares or swaps, its local variables are the nodes it has
locked, which are distinct neighbours in the list, and stay so until it writes or unlocks. -/
theorem discipline [Finite Tid] {next : Node → Option Node} (linked : Linked next first initial)
    (reached : Reachable (step variant) (init first next kind) s) (t : Tid) :
    (∀ p k, code (s.pc t) = .unlock p k →
      ∃ a, p = some a ∧ (t, variant.mode (s.pc t).kind) ∈ s.lock a) ∧
    ((s.pc t).head = true → ∀ a m, (t, m) ∉ s.lock a) ∧
    (∀ ps, (s.pc t).operands = some ps → ∃ l, (s.pc t).working = some l ∧ ps = l.map some) ∧
    ∀ l, (s.pc t).working = some l →
      ∀ s', Reachable (restrict (Keeps t) (step variant)) s s' → Neighbours s' t l := by
  have := Fintype.ofFinite Tid
  have here := owned reached
  refine ⟨fun p k unlocks => ?_, fun head a m => ?_, fun ps => (here.facts t).operands,
    fun l working s' later => ?_⟩
  · rcases (here.facts t).unlock_some unlocks with ⟨a, rfl⟩
    refine ⟨a, rfl, here.locks.mem.mpr ?_⟩
    exact ((here.facts t).held_unlock unlocks).1.mem_iff.mpr List.mem_cons_self
  · rw [here.locks.mem_iff, head_held head]
    exact fun both => List.not_mem_nil both.2
  · rcases ordered linked reached with ⟨known, done, order, ordered⟩
    have both : (s'.pc t).span = some l ∧ Neighbours s' t l := by
      refine later.induction
        (motive := fun s' => (s'.pc t).span = some l ∧ Neighbours s' t l)
        ⟨span_of_working working, ordered.neighbours here known working⟩ ?_
      intro a b e between ih moved
      rcases restrict_eq_some.mp moved with ⟨keeps, moved⟩
      have so_far := reached.trans between.of_restrict
      exact ih.2.step (owned so_far) (Workers.ordered linked so_far).1 ih.1 keeps moved
    exact both.2

/-- A comparison of the first two of three nodes. -/
theorem discipline_compare : ∃ s, Reachable (step .rwlock) (init (some 0) triple pair) s ∧
    (s.pc 1).operands = some [some 0, some 1] ∧ Neighbours s 1 [0, 1] := by
  have reached : Reachable (step .rwlock) (init (some 0) triple pair) _ :=
    ⟨List.replicate 10 ⟨1, true⟩, rfl⟩
  refine ⟨_, reached, rfl, ?_⟩
  exact (discipline triple_linked reached 1).2.2.2 [0, 1] rfl _ (.refl _)

end Os2Labs.Workers
