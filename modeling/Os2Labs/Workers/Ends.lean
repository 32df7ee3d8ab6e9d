import Os2Labs.Conc.Inevitable
import Os2Labs.Workers.Delay

/-!
# All passes end

When no thread begins another pass, all the passes in progress end, whatever is scheduled and
whatever the `trylock`s say (`passes_end`), although the threads carry the nodes at each other's
cursors to the front.

The rank of a thread is how much of its pass is left.  A swap may take other threads up, but only
those at the node that it carries, which comes to stand where the cursor of the swap goes; they
have then less before them than the swapping thread had.
-/

namespace Os2Labs.Workers

open Conc

variable {Node Tid : Type}

/-- What there is to do before the cursor is on the list. -/
def Pc.prep : Pc Node → Nat
  | .startTest => 8
  | .startLoad => 7
  | .startNext _ => 6
  | .loadFirst .process => 5
  | .testNext .. => 4
  | .loadNext _ => 3
  | .testNextNext .. => 2
  | .rand _ => 1
  | _ => 0

/-- The node that the pass or the walk of `should_swap == 0` has got to. -/
def Pc.place : Pc Node → Option Node
  | .walkTest p | .walkStep p => p
  | pc => pc.cursor

/-- Whether the place is about to be left. -/
def Pc.entered : Pc Node → Nat
  | .walkStep _ => 1
  | pc => pc.begun

def Pc.todo : Pc Node → Nat
  | .walkStep _ => 1
  | pc => pc.left

variable [DecidableEq Node]

/-- How much of its pass a thread has before it. -/
def Pc.rank (l : List Node) (pc : Pc Node) : Nat :=
  22 * (if pc.prep = 0 then ahead l pc.place - pc.entered else l.length) + pc.prep + pc.todo

theorem rank_inner {pc : Pc Node} (inner : pc.inner = true) (l : List Node) :
    pc.rank l = 22 * (ahead l pc.cursor - pc.begun) + pc.left := by
  cases pc <;> try cases inner
  case loadFirst k =>
    cases k
    · cases inner
    · rfl
  all_goals rfl

omit [DecidableEq Node] in
theorem todo_le (pc : Pc Node) :
    pc.todo ≤ 21 ∧ (pc.entered = 0 ∧ pc.todo ≤ 8 ∨ pc.entered = 1) := by
  cases pc <;> simp [Pc.todo, Pc.entered, Pc.left, Pc.begun]

variable [DecidableEq Tid] {variant : Variant} {s s' : State Node Tid} {t u : Tid}
  {initial l l' : List Node} {first : Option Node} {kind : Tid → Kind}
  {done done' : Node → Option Node}

section Rank

variable [Fintype Tid]

/-- Outside of the inner loop. -/
theorem Ordered.rank_outside (ordered : Ordered initial s done l)
    (owned : Owned variant first kind s)
    (known : Known initial s) (move : Move variant s t s') (outside : (s.pc t).inner = false) :
    (s'.pc t).rank l < (s.pc t).rank l := by
  obtain ⟨answer, new, pc, goes, read⟩ := move.goes
  have in_list : ∀ a, a ∈ nodes (s.pc t) → a ∈ l := fun a member =>
    ordered.exchanges.perm.mem_iff.mpr (known.locals t member)
  have most : ∀ p, ahead l p ≤ l.length := fun p => ahead_le
  rw [pc, goto_pc_self]
  cases here : s.pc t <;> rw [here] at outside goes read in_list <;> try cases outside
  case loadFirst k =>
    cases k
    · cases goes
      cases answer <;> simp [Pc.rank, Pc.prep, Pc.place, Pc.cursor, Pc.entered, Pc.begun, Pc.todo,
        Pc.left]
    · cases outside
  case rand curr1 =>
    have bound := most (some curr1)
    rcases goes with ⟨_ | _, rfl⟩
    all_goals
      simp [Pc.rank, Pc.prep, Pc.place, Pc.cursor, Pc.entered, Pc.begun, Pc.todo, Pc.left]
      omega
  case testNext k curr =>
    have bound := most (some curr)
    cases goes
    cases answer <;> cases k
    all_goals
      simp [Pc.rank, Pc.prep, Pc.place, Pc.cursor, Pc.entered, Pc.begun, Pc.todo, Pc.left,
        afterTest]
    all_goals omega
  case walkTest p =>
    cases p with
    | none =>
      cases move <;> simp_all [code]
    | some a =>
      have pos := ahead_pos (in_list a (by simp [nodes]))
      cases goes
      cases answer
      all_goals
        simp [Pc.rank, Pc.prep, Pc.place, Pc.cursor, Pc.entered, Pc.begun, Pc.todo, Pc.left]
      all_goals omega
  case walkStep p =>
    cases p with
    | none =>
      cases move <;> simp_all [code]
    | some a =>
      have less := ordered.ahead_next owned known (in_list a (by simp [nodes]))
      cases goes
      rw [read a _ rfl]
      simp [Pc.rank, Pc.prep, Pc.place, Pc.entered, Pc.begun, Pc.todo, Pc.left]
      omega
  case exit k => exact goes.elim
  all_goals
    cases goes
    cases answer
    all_goals simp [Pc.rank, Pc.prep, Pc.place, Pc.cursor, Pc.entered, Pc.begun, Pc.todo, Pc.left]

/-- Every step takes its thread down. -/
theorem Ordered.rank_lt (ordered : Ordered initial s done l) (owned : Owned variant first kind s)
    (known : Known initial s) (move : Move variant s t s') (more : (s.pc t).over = false)
    (reordered : Reordered s t s' l l') : (s'.pc t).rank l' < (s.pc t).rank l := by
  cases inner : (s.pc t).inner with
  | false =>
    cases reordered with
    | same => exact ordered.rank_outside owned known move inner
    | exchange here =>
      rw [here] at inner
      cases inner
  | true =>
    obtain ⟨inner', onward⟩ := ordered.onward owned known move inner more reordered
    rw [rank_inner inner, rank_inner inner']
    have short := (todo_le (s.pc t)).1
    cases onward with
    | begin begins same begun left =>
      have pos : 0 < ahead l (s.pc t).cursor := by
        cases pc : s.pc t <;> rw [pc] at begins <;> try cases begins
        case tryFirst k curr =>
          refine ahead_pos (ordered.exchanges.perm.mem_iff.mpr (known.locals t ?_))
          rw [pc]
          exact List.mem_singleton_self curr
      omega
    | stay begins same begun left =>
      rw [same, begun]
      omega
    | pass begins less begun left => omega

/-- A step takes other threads up only below where its own thread was. -/
theorem Ordered.rank_others (ordered : Ordered initial s done l) (reordered : Reordered s t s' l l')
    (pc : Pc Node) : pc.rank l' = pc.rank l ∨ pc.rank l' < (s.pc t).rank l := by
  cases reordered with
  | same => exact Or.inl rfl
  | @exchange a b c p q v pre post here there split =>
    subst split
    obtain ⟨at_a, new_c, -, new_b, -, others⟩ := ahead_exchange ordered.linked.nodup
    have length : (pre ++ a :: c :: b :: post).length = (pre ++ a :: b :: c :: post).length := by
      simp
    have mine : (s.pc t).rank (pre ++ a :: b :: c :: post) = 22 * (post.length + 2) + 9 := by
      rw [here]
      show 22 * (ahead _ (some a) - 1) + 0 + 9 = _
      omega
    rw [mine]
    unfold Pc.rank
    rw [length]
    obtain ⟨most, entered⟩ := todo_le pc
    by_cases on_list : pc.prep = 0
    · rw [if_pos on_list, if_pos on_list]
      by_cases is_c : pc.place = some c
      · rw [is_c]
        omega
      · by_cases is_b : pc.place = some b
        · rw [is_b]
          omega
        · rw [others pc.place is_b is_c]
          exact Or.inl rfl
    · rw [if_neg on_list, if_neg on_list]
      exact Or.inl rfl

end Rank

/-! ## Until no pass is in progress -/

/-- The pass is over, or the thread has given up or is at a null pointer. -/
def Pc.Stopped (pc : Pc Node) : Prop :=
  pc.over = true ∨ (∃ k, pc = .exit k) ∨ (code pc).Null

/-- No thread begins another pass. -/
def NoNewPass (s : State Node Tid) (e : Event Tid) : Prop := (s.pc e.thread).over = false

instance (s : State Node Tid) (e : Event Tid) : Decidable (NoNewPass s e) :=
  inferInstanceAs (Decidable ((s.pc e.thread).over = false))

/-- A thread that has not stopped can move. -/
theorem goes_on_unstopped (owned : Owned variant first kind s) (going : ¬ (s.pc t).Stopped) :
    ∃ e s', restrict NoNewPass (step variant) s e = some s' := by
  unfold Pc.Stopped at going
  simp only [not_or] at going
  obtain ⟨more, unhalted, no_null⟩ := going
  have more := Bool.eq_false_of_not_eq_true more
  cases inner : (s.pc t).inner with
  | true =>
    have moves : ∃ e s', e.thread = t ∧ restrict (InPass t true) (step variant) s e = some s' :=
      goes_on owned inner more fun _ _ _ same => (by cases same)
    obtain ⟨e, s', who, moved⟩ := moves
    refine ⟨e, s', restrict_eq_some.mpr ⟨?_, (restrict_eq_some.mp moved).2⟩⟩
    unfold NoNewPass
    rw [who]
    exact more
  | false =>
    suffices moves : ∃ s', step variant s ⟨t, true⟩ = some s' by
      obtain ⟨s', moved⟩ := moves
      have goes : NoNewPass s ⟨t, true⟩ := more
      exact ⟨_, s', restrict_eq_some.mpr ⟨goes, moved⟩⟩
    simp only [step]
    cases here : code (s.pc t) with
    | first k | rand k => exact ⟨_, rfl⟩
    | load p k =>
      rw [here] at no_null
      obtain ⟨a, rfl⟩ := Option.ne_none_iff_exists'.mp no_null
      exact ⟨_, rfl⟩
    | halt => exact (unhalted (exit_of_halt here)).elim
    | store p v k | tryLock p k | unlock p k | values p q k | count k =>
      cases pc : s.pc t <;> rw [pc] at inner here <;> first | (cases here; done) | cases inner

/-- A thread that has stopped holds no lock. -/
theorem stopped_held (owned : Owned variant first kind s) (stopped : (s.pc t).Stopped) :
    held (s.pc t) = [] := by
  rcases stopped with ended | ⟨k, pc⟩ | null
  · cases pc : s.pc t <;> rw [pc] at ended <;> first | rfl | cases ended
  · rw [pc]
    rfl
  · -- it does not know enough
    by_contra holds
    have aware : Aware s.first (s.pc t) := by
      cases pc : s.pc t <;> rw [pc] at holds <;> trivial
    exact aware.not_null (owned.facts t) null

/-- **All passes end.**  From every reachable state, when no thread begins another pass, whatever is
scheduled and whatever the `trylock`s and `rand` say, after finitely many steps every thread has
come to the end of its pass (or to one of the exits, or to a null pointer); then all the locks
are free and the list runs through all the nodes. -/
theorem passes_end [Finite Tid] {next : Node → Option Node} (linked : Linked next first initial)
    (reached : Reachable (step variant) (init first next kind) s) :
    Inevitable (restrict NoNewPass (step variant))
      (fun s' => (∀ t, (s'.pc t).Stopped) ∧ (∀ a, s'.lock a = []) ∧
        ∃ l, Linked s'.next s'.first l ∧ l.Perm initial) s := by
  have := Fintype.ofFinite Tid
  refine Inevitable.mono (I := fun s => Reachable (step variant) (init first next kind) s)
    (P := fun s' => ∀ t, (s'.pc t).Stopped) ?_ ?_ ?_ reached
  · obtain ⟨-, done, l, ordered⟩ := ordered linked reached
    refine inevitable_of_ranks (I := fun s f => Reachable (step variant) (init first next kind) s ∧
      ∃ done l, Ordered initial s done l ∧ f = fun t => (s.pc t).rank l) ?_ ?_
      ⟨reached, done, l, ordered, rfl⟩
    · intro s f before going
      obtain ⟨t, going⟩ := not_forall.mp going
      exact goes_on_unstopped (owned before.1) going
    · intro s f e s' known moved
      obtain ⟨before, done, l, ordered, rfl⟩ := known
      obtain ⟨more, moved⟩ := restrict_eq_some.mp moved
      have here := owned before
      have known := (Workers.ordered linked before).1
      have move := step_move moved
      obtain ⟨done', l', ordered', reordered⟩ := ordered.reorder here known move
      refine ⟨fun t => (s'.pc t).rank l', e.thread, ⟨before.tail moved, done', l', ordered', rfl⟩,
        ordered.rank_lt here known move more reordered, ?_⟩
      intro u who
      obtain ⟨answer, new, pc, -, -⟩ := move.goes
      have same : s'.pc u = s.pc u := by rw [pc, goto_pc_of_ne new who]
      show (s'.pc u).rank l' = _ ∨ (s'.pc u).rank l' < _
      rw [same]
      exact ordered.rank_others reordered (s.pc u)
  · intro s e s' before moved
    exact before.tail (restrict_eq_some.mp moved).2
  · intro s before stopped
    have here := owned before
    obtain ⟨-, done, l, ordered⟩ := ordered linked before
    have nothing : ∀ t, held (s.pc t) = [] := fun t => stopped_held here (stopped t)
    have whole : done = s.next := by
      funext a
      apply ordered.written a
      intro t pending
      have member := unwritten_held _ pending
      rw [nothing t] at member
      cases member
    refine ⟨stopped, fun a => ?_, l, whole ▸ ordered.linked, ordered.exchanges.perm⟩
    rw [List.eq_nil_iff_forall_not_mem]
    intro h locked
    have member := (here.locks.mem_iff (t := h.1) (m := h.2)).mp locked
    rw [nothing h.1] at member
    cases member.2

/-- While a swap is half done and `process_thread` is at the node that it carries. -/
def halfDone (process swap : Tid) : List (Event Tid) :=
  List.replicate 9 ⟨process, false⟩ ++ List.replicate 19 ⟨swap, true⟩

theorem passes_end_halfDone : ∃ s, Reachable (step .mutex) (init (some 0) triple pair) s ∧
    (s.pc 0).detached = some 2 ∧ (s.pc 1).place = some 2 ∧
    Inevitable (restrict NoNewPass (step .mutex))
      (fun s' => (∀ t, (s'.pc t).Stopped) ∧ (∀ a, s'.lock a = []) ∧
        ∃ l, Linked s'.next s'.first l ∧ l.Perm [0, 1, 2]) s := by
  have reached : Reachable (step .mutex) (init (some 0) triple pair) _ := ⟨halfDone 1 0, rfl⟩
  exact ⟨_, reached, rfl, rfl, passes_end triple_linked reached⟩

end Os2Labs.Workers
