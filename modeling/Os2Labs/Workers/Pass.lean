import Os2Labs.Conc.Sweep
import Os2Labs.Workers.Null
import Os2Labs.Workers.Turn

/-!
# One pass over the list

What a pass of the inner loop does while no other thread writes a `next` field.  `Along` says
where a pass is: what its cursor has left behind, what it has before it, and how many swaps it has
made.  Each execution of the body is one turn of a sweep (`Swept`).

`Along.step` is about one step during a pass and `along` about a whole one; `goes_on` says that a
pass is never stuck.
-/

namespace Os2Labs.Workers

open Conc

variable {Node Tid : Type}

/-! ## Where a pass is -/

/-- What is counted of a pass: executions of the body, steps, and what was compared. -/
structure Tally (Node : Type) where
  bodies : Nat
  steps : Nat
  compared : List (Node × Node)

def Tally.zero : Tally Node := ⟨0, 0, []⟩

/-- The tally after a step from a point. -/
def Tally.after (g : Tally Node) (pc : Pc Node) : Tally Node where
  bodies := g.bodies + if pc.begins then 1 else 0
  steps := g.steps + 1
  compared := g.compared ++ (code pc).pairs

def Code.isTryLock : Code Node → Bool
  | .tryLock .. => true
  | _ => false

/-- Where the cursor may pass on without a swap. -/
def May (fails : Bool) (k : Kind) (rest : List Node) : Prop :=
  fails = true ∨ k = .process ∨ rest.length ≤ 2

variable [DecidableEq Tid]

/-- The recorder of the steps of `t`. -/
def tally (t : Tid) (s : State Node Tid) (e : Event Tid) (_ : State Node Tid) (g : Tally Node) :
    Tally Node :=
  if e.thread = t then g.after (s.pc t) else g

/-- A step during a pass of `t`: the other threads write no `next` field, and every `trylock` of
`t` succeeds unless some are allowed to fail.  When the pass is over `t` stops. -/
def InPass (t : Tid) (fails : Bool) (s : State Node Tid) (e : Event Tid) : Prop :=
  if e.thread = t then
    (s.pc t).over = false ∧ ((code (s.pc t)).isTryLock = true → fails = true ∨ e.choice = true)
  else (code (s.pc e.thread)).isStore = false

instance (t : Tid) (fails : Bool) (s : State Node Tid) (e : Event Tid) :
    Decidable (InPass t fails s e) :=
  inferInstanceAs (Decidable (if e.thread = t then
    (s.pc t).over = false ∧ ((code (s.pc t)).isTryLock = true → fails = true ∨ e.choice = true)
  else (code (s.pc e.thread)).isStore = false))

variable [DecidableEq Node]

/-- The `next` fields with the swap of a thread completed. -/
def completed (next : Node → Option Node) : Pc Node → Node → Option Node
  | .storeCurr3 a b c _ _ => Function.update (Function.update next c (some b)) a (some c)
  | .storeCurr1 a _ c _ => Function.update next a (some c)
  | _ => next

omit [DecidableEq Tid] in
theorem completed_idle {pc : Pc Node} (idle : unwritten pc = []) (next : Node → Option Node) :
    completed next pc = next := by
  cases pc <;> first | rfl | cases idle

omit [DecidableEq Node] [DecidableEq Tid] in
theorem unwritten_idle {pc : Pc Node} (idle : swapped pc = 0) : unwritten pc = [] := by
  cases pc <;> first | rfl | cases idle

/-- A pass of `t` over the list `l`: it has left `pre` behind, has `rest` before it, and has made
`n` swaps. -/
structure Along (t : Tid) (fails : Bool) (l : List Node) (start : Nat) (s : State Node Tid)
    (g : Tally Node) (n : Nat) (pre rest : List Node) : Prop where
  inner : (s.pc t).inner = true
  linked : Linked (completed s.next (s.pc t)) s.first (pre ++ rest)
  swept : Swept (May fails (s.pc t).kind) l n pre rest
  cursor : rest.head? = (s.pc t).cursor
  begun : swaps s t = start + n
  bodies : g.bodies = pre.length + (s.pc t).begun
  steps : g.steps + (s.pc t).left ≤ 22 * g.bodies
  short : fails = false → (s.pc t).Short rest
  compared : fails = false → (s.pc t).kind = .process →
    g.compared = (adjacent l).take (pre.length + (s.pc t).paired)

variable {variant : Variant} {s s' : State Node Tid} {t u : Tid} {fails : Bool}
  {l pre rest : List Node} {start n : Nat} {g : Tally Node} {first : Option Node}
  {kind : Tid → Kind}

/-- A step of another thread. -/
theorem Along.other (along : Along t fails l start s g n pre rest)
    (owned : Owned variant first kind s) (move : Move variant s u s') (other : u ≠ t)
    (quiet : (code (s.pc u)).isStore = false) : Along t fails l start s' g n pre rest := by
  obtain ⟨answer, new, pc, -, -⟩ := move.goes
  have same : s'.pc t = s.pc t := by rw [pc, goto_pc_of_ne new (Ne.symm other)]
  have first_same : s'.first = s.first := (owned.step move).first.trans owned.first.symm
  obtain ⟨inner, linked, swept, cursor, begun, bodies, steps, short, compared⟩ := along
  rw [← same] at inner linked swept cursor bodies steps short compared
  rw [← first_same, ← move.next_quiet quiet] at linked
  rw [← swaps_quiet owned move quiet t] at begun
  exact ⟨inner, linked, swept, cursor, begun, bodies, steps, short, compared⟩

omit [DecidableEq Tid] in
/-- `process_thread` makes no swaps. -/
theorem Along.none_made (along : Along t fails l start s g n pre rest)
    (process : (s.pc t).kind = .process) : n = 0 := by
  have begun := along.begun
  unfold swaps at begun
  rw [process, if_neg (by decide)] at begun
  omega

omit [DecidableEq Tid] in
/-- A turn that does not move the cursor. -/
theorem Along.still (along : Along t fails l start s g n pre rest) {new : Pc Node}
    (pc : s'.pc t = new) (first_same : s'.first = s.first) (kind_same : new.kind = (s.pc t).kind)
    (view : completed s'.next new = completed s.next (s.pc t)) (inner : new.inner = true)
    (cursor : new.cursor = (s.pc t).cursor) (begun : swaps s' t = swaps s t)
    (bodies : new.begun = (s.pc t).begun + if (s.pc t).begins then 1 else 0)
    (steps : new.left + 1 ≤ (s.pc t).left + if (s.pc t).begins then 22 else 0)
    (short : fails = false → new.Short rest)
    (compared : fails = false → (s.pc t).kind = .process →
      g.compared ++ (code (s.pc t)).pairs = (adjacent l).take (pre.length + new.paired)) :
    Along t fails l start s' (g.after (s.pc t)) n pre rest := by
  have before := along.bodies
  have so_far := along.steps
  rw [← pc] at inner cursor bodies steps short compared kind_same view
  refine ⟨inner, ?_, ?_, along.cursor.trans cursor.symm, begun.trans along.begun, ?_, ?_, short,
    ?_⟩
  · rw [view, first_same]
    exact along.linked
  · rw [kind_same]
    exact along.swept
  · show g.bodies + _ = _
    omega
  · show g.steps + 1 + _ ≤ 22 * (g.bodies + _)
    split at steps <;> split <;> omega
  · intro succeeds process
    exact compared succeeds (kind_same.symm.trans process)

/-- A step of `t` that writes no `next` field. -/
theorem Along.quiet (along : Along t fails l start s g n pre rest)
    (owned : Owned variant first kind s) (move : Move variant s t s')
    (more : (s.pc t).over = false) (quiet : (code (s.pc t)).isStore = false)
    (succeeds : fails = false → ∀ p k, code (s.pc t) = .tryLock p k → s'.pc t = k true) :
    ∃ pre rest, Along t fails l start s' (g.after (s.pc t)) n pre rest := by
  obtain ⟨answer, new, pc, goes, read⟩ := move.goes
  have at_new : s'.pc t = new := by rw [pc, goto_pc_self]
  rw [at_new] at succeeds
  have facts := owned.facts t
  have first_same : s'.first = s.first := (owned.step move).first.trans owned.first.symm
  have next_same := move.next_quiet quiet
  have kind_same : new.kind = (s.pc t).kind := by
    rw [← at_new, (owned.step move).kinds t, owned.kinds t]
  have idle : unwritten new = [] := unwritten_idle (swapped_goes goes quiet)
  have view : completed s'.next new = completed s.next (s.pc t) := by
    rw [completed_idle idle, completed_idle (unwritten_quiet quiet), next_same]
  have begun := swaps_quiet owned move quiet t
  have linked := along.linked
  rw [completed_idle (unwritten_quiet quiet)] at linked
  obtain ⟨q, -, before⟩ := seg_append.mp linked
  have short : fails = false → new.Short rest := fun all =>
    facts.short goes read before along.cursor (succeeds all)
  obtain ⟨inner, turn⟩ := facts.turn goes read along.inner more quiet
  cases turn with
  | begin begins cursor bodies left paired silent =>
    refine ⟨pre, rest, along.still at_new first_same kind_same view inner cursor begun ?_ ?_ short
      ?_⟩
    · rw [bodies.1, bodies.2, begins]
      rfl
    · rw [begins, if_pos rfl]
      omega
    · intro all process
      rw [silent, List.append_nil, along.compared all process, paired.1, paired.2]
  | stay begins cursor bodies left paired =>
    refine ⟨pre, rest, along.still at_new first_same kind_same view inner cursor begun ?_ ?_ short
      ?_⟩
    · rw [bodies, begins]
      rfl
    · rw [begins]
      exact left
    · intro all process
      rw [along.compared all process, paired]
      cases compared : (code (s.pc t)).pairs with
      | nil => exact List.append_nil _
      | cons x xs =>
        -- the pair at the cursor
        obtain ⟨rfl, at_cursor, successor, unpaired⟩ := facts.pairs compared
        have whole := along.swept.unchanged (along.none_made process)
        rw [← along.cursor, List.head?_eq_some_iff] at at_cursor
        obtain ⟨after, rfl⟩ := at_cursor
        have behind := Linked.head? before.2
        rw [successor, List.head?_eq_some_iff] at behind
        obtain ⟨later, rfl⟩ := behind
        rw [unpaired, ← whole]
        exact (take_adjacent pre later x.1 x.2).symm
  | @pass a begins passes here cursor past bodies left paired silent =>
    have at_cursor := along.cursor.trans here
    rw [List.head?_eq_some_iff] at at_cursor
    obtain ⟨after, rfl⟩ := at_cursor
    have same_begun : g.bodies + (if (s.pc t).begins then 1 else 0) = g.bodies := by
      rw [begins]
      rfl
    have length : (pre ++ [a]).length = pre.length + 1 := List.length_append
    have before_bodies := along.bodies
    have so_far := along.steps
    refine ⟨pre ++ [a], after, ?_⟩
    rw [← at_new] at inner cursor past bodies left paired short kind_same
    refine ⟨inner, ?_, ?_, ?_, begun.trans along.begun, ?_, ?_, fun _ => short_of_past past after,
      ?_⟩
    · rw [at_new, completed_idle idle, next_same, first_same, List.append_assoc]
      exact linked
    · rw [kind_same]
      apply along.swept.pass
      cases all : fails with
      | true => exact Or.inl rfl
      | false => exact Or.inr (short_swap passes (along.short all))
    · rw [cursor]
      exact Linked.head? before.2
    · show g.bodies + _ = _
      rw [same_begun]
      omega
    · show g.steps + 1 + _ ≤ 22 * (g.bodies + _)
      rw [same_begun]
      omega
    · intro all process
      rw [kind_same] at process
      show g.compared ++ (code (s.pc t)).pairs = _
      rw [silent, List.append_nil, along.compared all process, paired, length]
      rcases short_process passes process (along.short all) with pair | last
      · rw [pair]
      · -- the cursor is at the last node, so that all pairs have been compared
        have whole := congrArg List.length (along.swept.unchanged (along.none_made process))
        rw [List.length_append] at whole
        have pairs := length_adjacent l
        rw [List.take_of_length_le (by omega), List.take_of_length_le (by omega)]

/-- A write that completes a swap. -/
theorem Along.rewrite (along : Along t fails l start s g n pre rest) {x : Node} {v : Option Node}
    {k : Pc Node} (swap : (s.pc t).kind = .swap) (pending : swapped (s.pc t) = 1)
    (still : swapped k = 1) (same_kind : k.kind = .swap)
    (view : completed (Function.update s.next x v) k = completed s.next (s.pc t))
    (inner : k.inner = true) (cursor : k.cursor = (s.pc t).cursor)
    (bodies : k.begun = (s.pc t).begun) (steps : k.left + 1 = (s.pc t).left)
    (begins : (s.pc t).begins = false) (past : k.passes = false) :
    Along t fails l start { s.goto t k with next := Function.update s.next x v }
      (g.after (s.pc t)) n pre rest := by
  have counted : swaps s t = s.counter t + swapped (s.pc t) := if_pos swap
  have at_new : State.pc { s.goto t k with next := Function.update s.next x v } t = k :=
    goto_pc_self k
  apply along.still at_new rfl (same_kind.trans swap.symm) view inner cursor
  · rw [swaps_written still same_kind, counted, pending]
  · rw [begins]
    exact bodies
  · rw [begins]
    exact steps.le
  · intro _
    exact short_of_past past rest
  · intro _ process
    rw [swap] at process
    cases process

/-- The writes of a swap: the first one moves the cursor. -/
theorem Along.store (along : Along t fails l start s g n pre rest)
    (owned : Owned variant first kind s) {x : Node} {v : Option Node} {k : Pc Node}
    (here : code (s.pc t) = .store (some x) v k) :
    ∃ n pre rest, Along t fails l start { s.goto t k with next := Function.update s.next x v }
      (g.after (s.pc t)) n pre rest := by
  have facts := owned.facts t
  have swap := (facts.store_held here).1
  have distinct := owned.locks.nodup swap
  have counted : swaps s t = s.counter t + swapped (s.pc t) := if_pos swap
  rcases facts.stores here with ⟨a, c, pc, rfl, ab, bc, tail⟩ | ⟨a, b, pc, rfl, rfl⟩ |
    ⟨b, c, pc, rfl, rfl⟩
  · -- the two nodes behind the cursor change places
    have linked := along.linked
    have swept := along.swept
    have cursor := along.cursor
    have begun := along.begun
    have bodies := along.bodies
    have steps := along.steps
    have view : completed s.next (s.pc t) = s.next := by rw [pc]; rfl
    have same_kind : (s.pc t).kind = .swap := swap
    rw [view] at linked
    rw [same_kind] at swept
    rw [pc] at cursor distinct counted bodies steps
    obtain ⟨after, rfl⟩ := List.head?_eq_some_iff.mp cursor
    obtain ⟨q, -, from_a⟩ := seg_append.mp linked
    have from_x := from_a.2
    rw [ab] at from_x
    obtain ⟨later, rfl⟩ := List.head?_eq_some_iff.mp (Linked.head? from_x)
    have from_c := from_x.2
    rw [bc] at from_c
    obtain ⟨post, rfl⟩ := List.head?_eq_some_iff.mp (Linked.head? from_c)
    obtain ⟨⟨a_x, a_c⟩, x_c⟩ : (a ≠ x ∧ a ≠ c) ∧ x ≠ c := by simpa [held] using distinct
    have at_new : State.pc _ t = _ :=
      goto_pc_self (s := s) (t := t) (.storeCurr3 a x c (some x) (some c))
    have written := swaps_written (s := s) (t := t) (x := x) (v := v)
      (k := .storeCurr3 a x c (some x) (some c)) rfl rfl
    refine ⟨n + 1, pre ++ [a], c :: x :: post, ?_⟩
    refine ⟨congrArg Pc.inner at_new, ?_, ?_, (congrArg Pc.cursor at_new).symm, ?_, ?_, ?_, ?_, ?_⟩
    · show Linked (completed (Function.update s.next x v) (State.pc _ t)) s.first _
      rw [at_new, List.append_assoc]
      apply linked.exchange
      · intro y not_a not_x not_c
        simp only [completed]
        rw [Function.update_of_ne not_a, Function.update_of_ne not_c, Function.update_of_ne not_x]
      · exact Function.update_self ..
      · simp only [completed]
        rw [Function.update_of_ne (Ne.symm a_c), Function.update_self]
      · simp only [completed]
        rw [Function.update_of_ne (Ne.symm a_x), Function.update_of_ne x_c, Function.update_self,
          tail]
    · rw [congrArg Pc.kind at_new]
      exact swept.swap
    · rw [written]
      simp only [swapped] at counted
      omega
    · show g.bodies + _ = _
      rw [congrArg Pc.begun at_new, pc, List.length_append]
      exact bodies
    · show g.steps + 1 + _ ≤ 22 * (g.bodies + _)
      rw [congrArg Pc.left at_new, pc]
      simp only [Pc.left, Pc.begins] at steps ⊢
      exact steps
    · intro _
      exact short_of_past (congrArg Pc.passes at_new) _
    · intro _ process
      rw [congrArg Pc.kind at_new] at process
      cases process
  · refine ⟨n, pre, rest, along.rewrite swap (by rw [pc]; rfl) rfl rfl ?_ rfl ?_ ?_ ?_ ?_ rfl⟩
    all_goals
      rw [pc]
      rfl
  · refine ⟨n, pre, rest, along.rewrite swap (by rw [pc]; rfl) rfl rfl ?_ rfl ?_ ?_ ?_ ?_ rfl⟩
    all_goals
      rw [pc]
      rfl

/-! ## A whole pass -/

/-- Where a `trylock` takes its thread. -/
theorem pc_tryLock {e : Event Tid} (moved : step variant s e = some s') {p : Option Node}
    {k : Bool → Pc Node} (here : code (s.pc e.thread) = .tryLock p k) :
    s'.pc e.thread = k e.choice := by
  unfold step at moved
  simp only [here] at moved
  cases p with
  | none => cases moved
  | some a =>
    simp only at moved
    split at moved
    · next succeeds =>
      split at moved
      · cases moved
        rw [succeeds]
        exact goto_pc_self _
      · cases moved
    · next fails =>
      cases moved
      rw [Bool.eq_false_of_not_eq_true fails]
      exact goto_pc_self _

/-- A step during a pass. -/
theorem Along.step (along : Along t fails l start s g n pre rest)
    (owned : Owned variant first kind s) {e : Event Tid} (within : InPass t fails s e)
    (moved : Workers.step variant s e = some s') :
    ∃ n pre rest, Along t fails l start s' (tally t s e s' g) n pre rest := by
  have move := step_move moved
  unfold InPass at within
  unfold tally
  split at within
  · next who =>
    rw [if_pos who]
    obtain ⟨more, outcome⟩ := within
    cases writes : (code (s.pc t)).isStore with
    | false =>
      rw [who] at move
      refine ⟨n, along.quiet owned move more writes fun all p k here => ?_⟩
      rw [here, all] at outcome
      have succeeds : e.choice = true := by simpa [Code.isTryLock] using outcome
      rw [← who] at here ⊢
      rw [pc_tryLock moved here, succeeds]
    | true =>
      rw [who] at move
      cases move with
      | store here => exact along.store owned here
      | first here | load here | lock here | fail here | unlock here | values here | rand here
      | count here =>
        rw [here] at writes
        cases writes
  · next other =>
    rw [if_neg other]
    exact ⟨n, pre, rest, along.other owned move other within⟩

omit [DecidableEq Tid] in
/-- The first execution of the body begins. -/
theorem Along.init {k : Kind} {a : Node} (linked : Linked s.next s.first l)
    (at_first : s.first = some a) (begins : s.pc t = .tryFirst k a) :
    Along t fails l (swaps s t) s Tally.zero 0 [] l := by
  refine ⟨?_, ?_, .start, ?_, rfl, ?_, ?_, ?_, ?_⟩
  all_goals try rw [begins]
  · rfl
  · exact linked
  · exact (Linked.head? linked).trans at_first
  · rfl
  · exact Nat.le_refl 0
  · intro _
    trivial
  · intro _ _
    rfl

/-- **Where a pass is.** -/
theorem along {next : Node → Option Node} {k : Kind} {a : Node}
    (reached : Reachable (Workers.step variant) (init first next kind) s)
    (linked : Linked s.next s.first l) (at_first : s.first = some a)
    (begins : s.pc t = .tryFirst k a)
    (ran : Reachable (recorded (restrict (InPass t fails) (Workers.step variant)) (tally t))
      (s, Tally.zero) (s', g)) :
    Owned variant first kind s' ∧ ∃ n pre rest, Along t fails l (swaps s t) s' g n pre rest := by
  have later : ∀ {x : State Node Tid × Tally Node},
      Reachable (recorded (restrict (InPass t fails) (Workers.step variant)) (tally t))
        (s, Tally.zero) x → Owned variant first kind x.1 := fun there =>
    owned (reached.trans there.of_recorded.of_restrict)
  refine ⟨later ran, ?_⟩
  refine ran.induction
    (motive := fun x => ∃ n pre rest, Along t fails l (swaps s t) x.1 x.2 n pre rest)
    ⟨0, [], l, .init linked at_first begins⟩ ?_
  intro x y e before so_far moved
  obtain ⟨n, pre, rest, so_far⟩ := so_far
  obtain ⟨moved, noted⟩ := recorded_eq_some.mp moved
  obtain ⟨within, moved⟩ := restrict_eq_some.mp moved
  rw [noted]
  exact so_far.step (later before) within moved

omit [DecidableEq Tid] [DecidableEq Node] in
theorem exit_of_halt {pc : Pc Node} (halts : code pc = .halt) : ∃ k, pc = .exit k := by
  cases pc <;> first | exact ⟨_, rfl⟩ | cases halts

/-- A pass that is not over goes on, if not at a `trylock` that has to succeed and cannot. -/
theorem goes_on (owned : Owned variant first kind s) (inner : (s.pc t).inner = true)
    (more : (s.pc t).over = false)
    (free : ∀ a k, code (s.pc t) = .tryLock (some a) k → fails = false →
      Available (s.lock a) (variant.mode (s.pc t).kind)) :
    ∃ e s', e.thread = t ∧ restrict (InPass t fails) (Workers.step variant) s e = some s' := by
  have facts := owned.facts t
  have aware : Aware s.first (s.pc t) := by
    cases pc : s.pc t <;> rw [pc] at inner more <;> trivial
  have no_null : ¬ (code (s.pc t)).Null := aware.not_null facts
  have unhalted : code (s.pc t) ≠ .halt := by
    intro halts
    obtain ⟨k, pc⟩ := exit_of_halt halts
    rw [pc] at inner
    cases inner
  -- a `trylock` fails where that is allowed
  have within : InPass t fails s ⟨t, !fails⟩ := by
    unfold InPass
    rw [if_pos rfl]
    refine ⟨more, fun _ => ?_⟩
    cases fails
    · exact Or.inr rfl
    · exact Or.inl rfl
  suffices moves : ∃ s', Workers.step variant s ⟨t, !fails⟩ = some s' by
    obtain ⟨s', moved⟩ := moves
    exact ⟨_, s', rfl, restrict_eq_some.mpr ⟨within, moved⟩⟩
  simp only [Workers.step]
  cases here : code (s.pc t) with
  | first k | rand k | count k => exact ⟨_, rfl⟩
  | load p k =>
    rw [here] at no_null
    obtain ⟨a, rfl⟩ := Option.ne_none_iff_exists'.mp no_null
    exact ⟨_, rfl⟩
  | store p v k =>
    rw [here] at no_null
    obtain ⟨a, rfl⟩ := Option.ne_none_iff_exists'.mp no_null
    exact ⟨_, rfl⟩
  | tryLock p k =>
    rw [here] at no_null
    obtain ⟨a, rfl⟩ := Option.ne_none_iff_exists'.mp no_null
    cases all : fails with
    | true => exact ⟨_, rfl⟩
    | false => exact ⟨_, if_pos (free a k here all)⟩
  | unlock p k =>
    rw [here] at no_null
    obtain ⟨a, rfl⟩ := Option.ne_none_iff_exists'.mp no_null
    have mine := (facts.held_unlock here).1.mem_iff.mpr List.mem_cons_self
    exact ⟨_, if_pos (owned.locks.mem.mpr mine)⟩
  | values p q k =>
    rw [here] at no_null
    obtain ⟨some_p, some_q⟩ := not_or.mp no_null
    obtain ⟨a, rfl⟩ := Option.ne_none_iff_exists'.mp some_p
    obtain ⟨b, rfl⟩ := Option.ne_none_iff_exists'.mp some_q
    exact ⟨_, rfl⟩
  | halt => exact (unhalted here).elim

end Os2Labs.Workers
