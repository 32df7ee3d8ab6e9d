import Mathlib.Data.List.Rotate
import Os2Labs.Workers.Discipline
import Os2Labs.Workers.Pass

/-!
# The passes of `swap_thread`

What one execution of the inner loop of `swap_thread` with `should_swap == 1` does to the list.

* `swap_pass_ends`: whatever the `trylock`s say, it executes its body once for each node, and the
  new order is the old one after as many exchanges as it has counted.
* `swap_pass_rotates`: when they all succeed, it carries the second node to the end.
-/

namespace Os2Labs.Workers

open Conc

variable {Node Tid : Type}

theorem over_swap {pc : Pc Node} (swap : pc.kind = .swap) :
    pc.over = true ↔ pc = .loadFirst .swap := by
  constructor
  · intro ended
    cases pc <;> simp only [Pc.over, Bool.false_eq_true] at ended
    case loadFirst k =>
      cases k
      · cases ended
      · rfl
    case countPass => cases swap
  · intro here
    rw [here]
    rfl

/-- When the pass is over the cursor has left the list. -/
theorem cursor_over {pc : Pc Node} (ended : pc.over = true) : pc.cursor = none := by
  cases pc <;> first | rfl | cases ended

/-- While the body is executed there is a node at the cursor. -/
theorem cursor_begun (pc : Pc Node) : pc.begun = 0 ∨ pc.begun = 1 ∧ pc.cursor ≠ none := by
  cases pc <;> simp [Pc.begun, Pc.cursor]

variable [DecidableEq Node] [DecidableEq Tid] {variant : Variant} {s s' : State Node Tid}
  {t : Tid} {fails : Bool} {l pre rest : List Node} {start n : Nat} {g : Tally Node}
  {first : Option Node} {next : Node → Option Node} {kind : Tid → Kind}

omit [DecidableEq Tid] in
/-- The body is executed at most once for each node. -/
theorem Along.bodies_le (along : Along t fails l start s g n pre rest) : g.bodies ≤ l.length := by
  have bodies := along.bodies
  have length := along.swept.length
  rcases cursor_begun (s.pc t) with before | ⟨during, some_node⟩
  · omega
  · rw [← along.cursor, Ne, List.head?_eq_none_iff] at some_node
    have more := List.length_pos_iff.mpr some_node
    omega

omit [DecidableEq Tid] in
theorem Along.steps_le (along : Along t fails l start s g n pre rest) :
    g.steps ≤ 22 * l.length := by
  have steps := along.steps
  have bodies := along.bodies_le
  omega

omit [DecidableEq Tid] in
/-- At the end of a pass nothing is before the cursor. -/
theorem Along.finished (along : Along t fails l start s g n pre rest)
    (ended : (s.pc t).over = true) : rest = [] := by
  rw [← List.head?_eq_none_iff, along.cursor, cursor_over ended]

omit [DecidableEq Node] [DecidableEq Tid] in
/-- Where a swapping thread has no swap in progress, its counter shows the swaps it has begun. -/
theorem swaps_idle (swap : (s.pc t).kind = .swap) (idle : swapped (s.pc t) = 0) :
    swaps s t = s.counter t := by
  unfold swaps
  rw [if_pos swap, idle, Nat.add_zero]

omit [DecidableEq Tid] in
/-- The end of a pass of `swap_thread`. -/
theorem Along.swap_over (along : Along t fails l (swaps s t) s' g n pre rest)
    (begins : ∃ a, s.pc t = .tryFirst .swap a) (ended : s'.pc t = .loadFirst .swap) :
    g.bodies = l.length ∧ s'.counter t = s.counter t + n ∧
      Swept (May fails .swap) l n pre [] ∧ Linked s'.next s'.first pre := by
  obtain ⟨a, begins⟩ := begins
  have empty := along.finished (by rw [ended]; rfl)
  subst empty
  have length := along.swept.length
  have bodies := along.bodies
  have begun := along.begun
  have linked := along.linked
  have swept := along.swept
  rw [ended] at bodies linked swept
  have counted : swaps s t = s.counter t := swaps_idle (by rw [begins]; rfl) (by rw [begins]; rfl)
  have counted' : swaps s' t = s'.counter t := swaps_idle (by rw [ended]; rfl) (by rw [ended]; rfl)
  rw [counted, counted'] at begun
  rw [List.append_nil] at linked
  exact ⟨bodies.trans length, begun, swept, linked⟩

/-- **A swap pass ends whatever the `trylock`s say.**  While no other thread writes a `next` field,
a pass over any list is never stuck, and takes at most 22 steps for each node.  At its end it has
executed its body once for each node; the order is the old one after as many exchanges of
neighbours behind the first node as the counter has been incremented; and it holds no lock. -/
theorem swap_pass_ends (reached : Reachable (step variant) (init first next kind) s)
    (linked : Linked s.next s.first l) {a : Node} (at_first : s.first = some a)
    (begins : s.pc t = .tryFirst .swap a)
    (ran : Reachable (recorded (restrict (InPass t true) (step variant)) (tally t))
      (s, Tally.zero) (s', g)) :
    g.bodies ≤ l.length ∧ g.steps ≤ 22 * l.length ∧
    (s'.pc t ≠ .loadFirst .swap →
      ∃ e x, e.thread = t ∧ restrict (InPass t true) (step variant) s' e = some x) ∧
    (s'.pc t = .loadFirst .swap → g.bodies = l.length ∧
      (∃ n l', s'.counter t = s.counter t + n ∧ Exchanges n l l' ∧ l'.Perm l ∧
        l'.head? = l.head? ∧ Linked s'.next s'.first l') ∧
      ∀ b m, (t, m) ∉ s'.lock b) := by
  obtain ⟨here, n, pre, rest, along⟩ := along reached linked at_first begins ran
  have swap : (s'.pc t).kind = .swap := by
    rw [here.kinds t, ← (owned reached).kinds t, begins]
    rfl
  refine ⟨along.bodies_le, along.steps_le, fun more => ?_, fun ended => ?_⟩
  · refine goes_on here along.inner ?_ nofun
    rw [Bool.eq_false_iff]
    intro ended
    exact more ((over_swap swap).mp ended)
  · obtain ⟨bodies, counter, swept, linked'⟩ := along.swap_over ⟨a, begins⟩ ended
    have exchanges := swept.exchanges
    rw [List.append_nil] at exchanges
    refine ⟨bodies, ⟨n, pre, counter, exchanges, exchanges.perm, exchanges.head, linked'⟩, ?_⟩
    intro b m locked
    rw [here.locks.mem_iff, ended] at locked
    exact List.not_mem_nil locked.2

/-- A pass over three nodes in which every `trylock` fails. -/
theorem swap_pass_ends_failing : ∃ (s s' : State (Fin 3) (Fin 2)) (g : Tally (Fin 3)),
    Reachable (step .mutex) (init (some 0) triple pair) s ∧
    Reachable (recorded (restrict (InPass 0 true) (step .mutex)) (tally 0)) (s, Tally.zero)
      (s', g) ∧
    s'.pc 0 = .loadFirst .swap ∧ g.bodies = [0, 1, 2].length := by
  have reached : Reachable (step .mutex) (init (some 0) triple pair) _ :=
    ⟨List.replicate 5 ⟨0, true⟩, rfl⟩
  have ended := swap_pass_ends (t := 0) reached triple_linked rfl rfl
    ⟨List.replicate 6 ⟨0, false⟩, rfl⟩
  exact ⟨_, _, _, reached, ⟨List.replicate 6 ⟨0, false⟩, rfl⟩, rfl, (ended.2.2.2 rfl).1⟩

/-! ## When every `trylock` succeeds -/

/-- `t` executes its inner loop once, with `should_swap == 1`, and all its `trylock`s succeed. -/
structure SwapPass (variant : Variant) (t : Tid) (s s' : State Node Tid) : Prop where
  begins : ∃ a, s.first = some a ∧ s.pc t = .tryFirst .swap a
  ran : Reachable (restrict (InPass t false) (step variant)) s s'
  ended : s'.pc t = .loadFirst .swap

/-- Nobody writes a `next` field. -/
def NoWrite (s : State Node Tid) (e : Event Tid) : Prop := (code (s.pc e.thread)).isStore = false

instance (s : State Node Tid) (e : Event Tid) : Decidable (NoWrite s e) :=
  inferInstanceAs (Decidable ((code (s.pc e.thread)).isStore = false))

/-- Some of these passes, between which nobody writes a `next` field. -/
inductive SwapPasses (variant : Variant) (t : Tid) : Nat → State Node Tid → State Node Tid → Prop
  | zero (s : State Node Tid) : SwapPasses variant t 0 s s
  | succ {k : Nat} {s a b c : State Node Tid} (before : SwapPasses variant t k s a)
      (between : Reachable (restrict NoWrite (step variant)) a b) (pass : SwapPass variant t b c) :
      SwapPasses variant t (k + 1) s c

theorem SwapPasses.reachable {k : Nat} (passes : SwapPasses variant t k s s') :
    Reachable (step variant) s s' := by
  induction passes with
  | zero s => exact .refl s
  | succ before between pass ih => exact (ih.trans between.of_restrict).trans pass.ran.of_restrict

/-- Without a write the list stays, and no swap is counted that had not begun. -/
theorem between_passes (reached : Reachable (step variant) (init first next kind) s)
    (between : Reachable (restrict NoWrite (step variant)) s s') :
    s'.first = s.first ∧ s'.next = s.next ∧ ∀ t, swaps s' t = swaps s t := by
  refine between.induction
    (motive := fun s' => s'.first = s.first ∧ s'.next = s.next ∧ ∀ t, swaps s' t = swaps s t)
    ⟨rfl, rfl, fun _ => rfl⟩ ?_
  intro a b e before same moved
  obtain ⟨quiet, moved⟩ := restrict_eq_some.mp moved
  obtain ⟨first_same, next_same, swaps_same⟩ := same
  have here := owned (reached.trans before.of_restrict)
  have move := step_move moved
  refine ⟨?_, ?_, fun t => ?_⟩
  · rw [(here.step move).first, ← here.first, first_same]
  · rw [move.next_quiet quiet, next_same]
  · rw [swaps_quiet here move quiet t, swaps_same t]

/-- A pass can be tallied. -/
theorem SwapPass.recorded (pass : SwapPass variant t s s') :
    ∃ g, Reachable (recorded (restrict (InPass t false) (step variant)) (tally t)) (s, Tally.zero)
      (s', g) := by
  have ran := pass.ran
  exact Reachable.recorded (x := (s, Tally.zero)) ran

/-- What a pass does. -/
theorem SwapPass.rotates (reached : Reachable (step variant) (init first next kind) s) {a b : Node}
    {cs : List Node} (linked : Linked s.next s.first (a :: b :: cs))
    (pass : SwapPass variant t s s') :
    Linked s'.next s'.first (a :: (cs ++ [b])) ∧ s'.counter t = s.counter t + cs.length := by
  obtain ⟨a', at_first, begins⟩ := pass.begins
  obtain ⟨g, ran⟩ := pass.recorded
  obtain ⟨-, n, pre, rest, along⟩ := along reached linked at_first begins ran
  obtain ⟨-, counter, swept, linked'⟩ := along.swap_over ⟨a', begins⟩ pass.ended
  have must : ∀ r : List Node, May false .swap r → r.length ≤ 2 := by
    intro r may
    rcases may with fails | process | short
    · cases fails
    · cases process
    · exact short
  rcases swept.carried must with ⟨x, after, -, none_left, -⟩ | ⟨-, none_left, -⟩ |
    ⟨rfl, -, rfl⟩
  · cases none_left
  · cases none_left
  · exact ⟨linked', counter⟩

/-- What some passes do.  `c` is the counter before. -/
theorem SwapPasses.rotate (reached : Reachable (step variant) (init first next kind) s) {a : Node}
    {bs : List Node} (linked : Linked s.next s.first (a :: bs)) (some_more : bs ≠ [])
    (idle : s.pc t = .loadFirst .swap) {k : Nat} (passes : SwapPasses variant t k s s') :
    Linked s'.next s'.first (a :: bs.rotate k) ∧
      s'.counter t = s.counter t + k * (bs.length - 1) ∧ s'.pc t = .loadFirst .swap := by
  induction passes with
  | zero s => exact ⟨by rwa [List.rotate_zero], by simp, idle⟩
  | @succ k s x y z before between pass ih =>
    obtain ⟨linked_x, counter_x, idle_x⟩ := ih reached linked idle
    have reached_x := reached.trans before.reachable
    obtain ⟨first_same, next_same, swaps_same⟩ := between_passes reached_x between
    obtain ⟨a', -, begins⟩ := pass.begins
    have counter_y : y.counter t = x.counter t := by
      have same := swaps_same t
      rw [swaps_idle (by rw [begins]; rfl) (by rw [begins]; rfl),
        swaps_idle (by rw [idle_x]; rfl) (by rw [idle_x]; rfl)] at same
      exact same
    rw [← first_same, ← next_same] at linked_x
    cases there : bs.rotate k with
    | nil => exact (some_more (List.rotate_eq_nil_iff.mp there)).elim
    | cons b cs =>
      have length : bs.length = cs.length + 1 := by
        rw [← List.length_rotate bs k, there]
        rfl
      rw [there] at linked_x
      obtain ⟨linked_z, counter_z⟩ := pass.rotates (reached_x.trans between.of_restrict) linked_x
      refine ⟨?_, ?_, pass.ended⟩
      · rw [← List.rotate_rotate, there]
        simpa using linked_z
      · rw [counter_z, counter_y, counter_x, length, Nat.succ_mul]
        omega

/-- No lock is left that another thread does not hold. -/
theorem free_over (owned : Owned variant first kind s) (ended : s.pc t = .loadFirst .swap)
    {p : Node}
    (others : ∀ u, u ≠ t → p ∉ held (s.pc u)) : s.lock p = [] := by
  rw [List.eq_nil_iff_forall_not_mem]
  rintro ⟨u, m⟩ locked
  have holds := (owned.locks.mem_iff.mp locked).2
  by_cases who : u = t
  · rw [who, ended] at holds
    cases holds
  · exact others u who holds

/-- **A swap pass is a rotation.**  A pass over `a, b, cs` in which every `trylock` succeeds, and no
other thread writes a `next` field, goes on as long as the locks it needs are free, takes at most
22 steps for each node, and ends with the list `a, cs, b`, its counter incremented by the length of
`cs`, and no lock left that another thread does not hold.  So `k` passes rotate the list behind
its first node by `k` places, and after one more than `cs` has nodes the order is the old one. -/
theorem swap_pass_rotates (reached : Reachable (step variant) (init first next kind) s)
    {a b : Node} {cs : List Node} (linked : Linked s.next s.first (a :: b :: cs)) :
    (s.pc t = .tryFirst .swap a → ∀ s' g,
      Reachable (recorded (restrict (InPass t false) (step variant)) (tally t)) (s, Tally.zero)
        (s', g) →
      g.steps ≤ 22 * (cs.length + 2) ∧
      (s'.pc t ≠ .loadFirst .swap →
        (∀ p k, code (s'.pc t) = .tryLock (some p) k → s'.lock p = []) →
        ∃ e x, e.thread = t ∧ restrict (InPass t false) (step variant) s' e = some x) ∧
      (s'.pc t = .loadFirst .swap →
        Linked s'.next s'.first (a :: (cs ++ [b])) ∧ s'.counter t = s.counter t + cs.length ∧
        ∀ p, (∀ u, u ≠ t → p ∉ held (s'.pc u)) → s'.lock p = [])) ∧
    (s.pc t = .loadFirst .swap → ∀ k s', SwapPasses variant t k s s' →
      Linked s'.next s'.first (a :: (b :: cs).rotate k) ∧
      s'.counter t = s.counter t + k * cs.length ∧
      (∀ p, (∀ u, u ≠ t → p ∉ held (s'.pc u)) → s'.lock p = []) ∧
      (k = cs.length + 1 → Linked s'.next s'.first (a :: b :: cs))) := by
  have at_first : s.first = some a := linked.1
  refine ⟨fun begins s' g ran => ?_, fun idle k s' passes => ?_⟩
  · obtain ⟨here, n, pre, rest, along⟩ := along reached linked at_first begins ran
    have swap : (s'.pc t).kind = .swap := by
      rw [here.kinds t, ← (owned reached).kinds t, begins]
      rfl
    refine ⟨along.steps_le, fun more free => ?_, fun ended => ?_⟩
    · refine goes_on here along.inner ?_ fun p k tries _ => ?_
      · rw [Bool.eq_false_iff]
        intro ended
        exact more ((over_swap swap).mp ended)
      · rw [swap, variant.mode_swap]
        exact free p k tries
    · have pass : SwapPass variant t s s' := ⟨⟨a, at_first, begins⟩, ran.of_recorded, ended⟩
      obtain ⟨linked', counter⟩ := pass.rotates reached linked
      exact ⟨linked', counter, fun p => free_over here ended⟩
  · obtain ⟨linked', counter, ended⟩ := passes.rotate reached linked (List.cons_ne_nil b cs) idle
    refine ⟨linked', counter, fun p => free_over (owned (reached.trans passes.reachable)) ended, ?_⟩
    intro whole
    rw [whole, show cs.length + 1 = (b :: cs).length from rfl, List.rotate_length] at linked'
    exact linked'

/-- A pass over three nodes. -/
theorem swap_pass_rotates_triple : ∃ (s s' : State (Fin 3) (Fin 2)) (g : Tally (Fin 3)),
    Reachable (step .mutex) (init (some 0) triple pair) s ∧
    Reachable (recorded (restrict (InPass 0 false) (step .mutex)) (tally 0)) (s, Tally.zero)
      (s', g) ∧
    s'.pc 0 = .loadFirst .swap ∧ Linked s'.next s'.first [0, 2, 1] ∧ s'.counter 0 = 1 := by
  have reached : Reachable (step .mutex) (init (some 0) triple pair) _ :=
    ⟨List.replicate 5 ⟨0, true⟩, rfl⟩
  have ended := (swap_pass_rotates (t := 0) reached triple_linked).1 rfl _ _
    ⟨List.replicate 35 ⟨0, true⟩, rfl⟩
  exact ⟨_, _, _, reached, ⟨List.replicate 35 ⟨0, true⟩, rfl⟩, rfl, (ended.2.2 rfl).1,
    (ended.2.2 rfl).2.1⟩

end Os2Labs.Workers
