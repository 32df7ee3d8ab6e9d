import Os2Labs.Workers.Exit
import Os2Labs.Workers.SwapPass

/-!
# One swapping thread, and several

The walk and the size check of `swap_thread` read `next` fields without a lock.  While nobody else
swaps, what they have read is still there when they go on (`fresh`).  A second swapping thread can
carry the node in hand to the end of the list in between: one of its passes does, on a list of
any length (`carried_away`).

So `never_null_iff` and `never_exits_iff`: no run makes a thread go through `NULL`, and no run makes
one give up, if and only if at most one thread executes `swap_thread`.
-/

namespace Os2Labs.Workers

open Conc

variable {Node Tid : Type}

/-- At most one thread executes `swap_thread`. -/
def OneSwapper (kind : Tid → Kind) : Prop := ∀ t u, kind t = .swap → kind u = .swap → t = u

/-! ## One swapping thread -/

/-- What a thread has read without a lock is still there. -/
def Fresh (first : Option Node) (next : Node → Option Node) : Pc Node → Prop
  | .testNext _ a | .loadNext a => first = some a
  | .testNextNext a p => first = some a ∧ next a = p
  | .walkStep p => ∀ a ∈ p, next a ≠ none
  | _ => True

theorem fresh_loop (first : Option Node) (next : Node → Option Node) (k : Kind)
    (p : Option Node) : Fresh first next (loop k p) := by
  cases k <;> cases p <;> trivial

/-- `process_thread` has read `storage->first` only. -/
theorem Fresh.process {first : Option Node} {next next' : Node → Option Node} {pc : Pc Node}
    (fresh : Fresh first next pc) (process : pc.kind = .process) : Fresh first next' pc := by
  cases pc <;> first | exact fresh | cases process

theorem unwritten_process {pc : Pc Node} (process : pc.kind = .process) : unwritten pc = [] := by
  cases pc <;> first | rfl | cases process

section Fresh

variable {first : Option Node} {next : Node → Option Node} {pc : Pc Node}

theorem fresh_first {k : Option Node → Pc Node} (here : code pc = .first k) :
    Fresh first next (k first) := by
  cases pc <;> simp only [code, reduceCtorEq, Code.first.injEq] at here
  all_goals subst here
  case startTest => cases first <;> trivial
  case startLoad => trivial
  case loadFirst k =>
    cases first with
    | none => trivial
    | some a => exact rfl

theorem Fresh.load (fresh : Fresh first next pc) {a : Node} {k : Option Node → Pc Node}
    (here : code pc = .load (some a) k) : Fresh first next (k (next a)) := by
  cases pc <;> simp only [code, reduceCtorEq, Code.load.injEq] at here
  all_goals obtain ⟨from_a, rfl⟩ := here
  case testNext k curr =>
    cases next a with
    | none => trivial
    | some b =>
      cases k with
      | process => trivial
      | swap => exact fresh
  case loadNext curr1 =>
    cases from_a
    exact ⟨fresh, rfl⟩
  case walkTest curr1 =>
    cases there : next a with
    | none => trivial
    | some b =>
      intro c here
      cases from_a.symm.trans here
      rw [there]
      exact Option.some_ne_none b
  case skip kind curr => exact fresh_loop first next kind _
  case startNext | testNextNext | testSecond | testThird => cases next a <;> trivial
  all_goals trivial

/-- A step that answers no pointer leads to a point where nothing has been read. -/
theorem fresh_goes {answer : Option Node} {new : Pc Node} (goes : (code pc).Goes answer new)
    (no_first : ∀ k, code pc ≠ .first k) (no_load : ∀ p k, code pc ≠ .load p k) :
    Fresh first next new := by
  cases pc <;> simp only [code, Code.Goes] at goes
  case tryFirst k curr => rcases goes with ⟨_ | _, rfl⟩ <;> trivial
  case trySecond k curr p => rcases goes with ⟨_ | _, rfl⟩ <;> cases p <;> cases k <;> trivial
  case tryThird curr1 second p => rcases goes with ⟨_ | _, rfl⟩ <;> cases p <;> trivial
  case rand curr1 => rcases goes with ⟨_ | _, rfl⟩ <;> trivial
  all_goals subst goes
  case unlockFirst | unlockCurr | unlock3 => exact fresh_loop ..
  all_goals first
    | trivial
    | exact (no_first _ rfl).elim
    | exact (no_load _ _ rfl).elim

end Fresh

variable [DecidableEq Node] [DecidableEq Tid] {variant : Variant} {s s' : State Node Tid}
  {t u : Tid}
  {initial l : List Node} {first : Option Node} {next : Node → Option Node} {kind : Tid → Kind}

theorem Move.fresh (move : Move variant s t s') (fresh : Fresh s.first s.next (s.pc t)) :
    Fresh s'.first s'.next (s'.pc t) := by
  obtain ⟨answer, new, pc, goes, -⟩ := move.goes
  have at_new : s'.pc t = new := by rw [pc, goto_pc_self]
  cases move with
  | first here =>
    rw [goto_pc_self]
    exact fresh_first here
  | load here =>
    rw [goto_pc_self]
    exact fresh.load here
  | store here | lock here | fail here | unlock here | values here | rand here | count here =>
    rw [at_new]
    exact fresh_goes goes (by simp [here]) (by simp [here])

/-- With one swapping thread, what a thread has read is still there. -/
theorem fresh (one : OneSwapper kind)
    (reached : Reachable (step variant) (init first next kind) s) :
    ∀ t, Fresh s.first s.next (s.pc t) := by
  apply reached.induction (motive := fun s => ∀ t, Fresh s.first s.next (s.pc t))
  · intro t
    show Fresh first next (start (kind t))
    cases kind t <;> trivial
  · intro a b e before ih moved u
    have move := step_move moved
    have here := owned before
    by_cases who : u = e.thread
    · rw [who]
      exact move.fresh (ih e.thread)
    · obtain ⟨answer, new, pc, -, -⟩ := move.goes
      have same_first : b.first = a.first := (here.step move).first.trans here.first.symm
      rw [pc, goto_pc_of_ne new who, same_first]
      cases quiet : (code (a.pc e.thread)).isStore with
      | false =>
        rw [move.next_quiet quiet]
        exact ih u
      | true =>
        -- the one that writes is the one that swaps
        have swaps : kind e.thread = .swap := by
          cases move with
          | store writes => rw [← here.kinds, ((here.facts e.thread).store_held writes).1]
          | first reads | load reads | lock reads | fail reads | unlock reads | values reads
          | rand reads | count reads =>
            rw [reads] at quiet
            cases quiet
        refine (ih u).process ?_
        rw [here.kinds]
        cases of_u : kind u with
        | process => rfl
        | swap => exact (who (one u e.thread of_u swaps)).elim

section Alone

variable (one : OneSwapper kind)
include one

/-- With one swapping thread the walk finds a node where its test has found one. -/
theorem careful_alone (reached : Reachable (step variant) (init first next kind) s)
    (e : Event Tid) : Careful s e := by
  have fresh := fresh one reached e.thread
  intro a walks
  cases pc : s.pc e.thread <;> rw [pc] at fresh walks
  case walkStep p => exact fresh a walks
  all_goals cases walks

variable [Finite Tid] (linked : Linked next first initial) (three : 3 ≤ initial.length)
include linked three

/-- With one swapping thread the second node has a successor while that thread is not swapping. -/
theorem enough_alone (reached : Reachable (step variant) (init first next kind) s)
    (e : Event Tid) : Enough s e := by
  have := Fintype.ofFinite Tid
  have fresh := fresh one reached e.thread
  have here := owned reached
  obtain ⟨-, done, l, ordered⟩ := ordered linked reached
  intro b tests
  cases pc : s.pc e.thread <;> rw [pc] at fresh tests
  case testNextNext a p =>
    obtain ⟨at_first, second⟩ := fresh
    rw [show p = some b from tests] at second
    have idle : ∀ u, unwritten (s.pc u) = [] := by
      intro u
      by_cases who : u = e.thread
      · rw [who, pc]
        rfl
      · apply unwritten_process
        rw [here.kinds]
        cases of_u : kind u with
        | process => rfl
        | swap =>
          have swaps : kind e.thread = .swap := by rw [← here.kinds, pc]; rfl
          exact (who (one u e.thread of_u swaps)).elim
    have settled : ∀ x, done x = s.next x := by
      intro x
      refine ordered.written x fun u => ?_
      rw [idle u]
      exact List.not_mem_nil
    have length := ordered.exchanges.perm.length_eq
    have chain := ordered.linked
    match l, chain with
    | [], _ | [_], _ | [_, _], _ =>
      simp only [List.length_cons, List.length_nil] at length
      omega
    | _ :: _ :: c :: _, ⟨is_first, is_second, is_third, _⟩ =>
      cases at_first.symm.trans is_first
      rw [settled, second] at is_second
      cases is_second
      rw [← settled, is_third]
      exact Option.some_ne_none c
  all_goals cases tests

end Alone

/-! ## Several -/

omit [DecidableEq Node] [DecidableEq Tid] in
/-- Where a swapping thread starts. -/
theorem init_swap (swaps : kind t = .swap) : (init first next kind).pc t = .loadFirst .swap :=
  congrArg start swaps

omit [DecidableEq Node] in
/-- No thread holds a lock to begin with. -/
theorem held_start (k : Kind) :
    held (start k : Pc Node) = [] ∧ (start k : Pc Node).critical = false := by
  cases k <;> exact ⟨rfl, rfl⟩

omit [DecidableEq Node] in
theorem goto_goto (p q : Pc Node) : (s.goto t p).goto t q = s.goto t q := by
  simp only [State.goto, Function.update_idem]

/-- A read that finds something. -/
theorem reads {p q : Pc Node} {a b : Node} {k : Option Node → Pc Node}
    (here : code p = .load (some a) k) (found : s.next a = some b) (goes : k (some b) = q) :
    Reachable (step variant) (s.goto t p) (s.goto t q) := by
  refine .one (e := ⟨t, true⟩) ?_
  simp only [step, goto_pc_self, here, goto_goto]
  rw [show (s.goto t p).next = s.next from rfl, found, goes]

section Reads

variable {a b c : Node} {cs : List Node} (idle : s.pc t = .loadFirst .swap)
include idle

/-- The first two reads of the size check. -/
theorem reads_second (linked : Linked s.next s.first (a :: b :: cs)) :
    Reachable (step variant) s (s.goto t (.testNextNext a (some b))) := by
  obtain ⟨at_first, second, -⟩ := linked
  have begins : Reachable (step variant) s (s.goto t (.testNext .swap a)) := by
    refine .one (e := ⟨t, true⟩) ?_
    simp only [step, idle, code, at_first, Option.elim_some]
  have tested : Reachable (step variant) (s.goto t (.testNext .swap a)) (s.goto t (.loadNext a)) :=
    reads rfl second rfl
  exact (begins.trans tested).trans (reads rfl second rfl)

/-- The size check, and what `rand` decides. -/
theorem rands (linked : Linked s.next s.first (a :: b :: c :: cs)) (choice : Bool) :
    Reachable (step variant) s
      (s.goto t (if choice then .tryFirst .swap a else .walkTest (some a))) := by
  have read : Reachable (step variant) s (s.goto t (.testNextNext a (some b))) :=
    reads_second idle linked
  obtain ⟨-, -, third, -⟩ := linked
  have tested : Reachable (step variant) (s.goto t (.testNextNext a (some b)))
      (s.goto t (.rand a)) := reads rfl third rfl
  refine (read.trans tested).tail (e := ⟨t, choice⟩) ?_
  simp only [step, goto_pc_self, code, goto_goto]

/-- The walk up to the second node. -/
theorem walks_second (linked : Linked s.next s.first (a :: b :: c :: cs)) :
    Reachable (step variant) s (s.goto t (.walkStep (some b))) := by
  have begins : Reachable (step variant) s (s.goto t (.walkTest (some a))) :=
    rands idle linked false
  obtain ⟨-, second, third, -⟩ := linked
  have tested : Reachable (step variant) (s.goto t (.walkTest (some a)))
      (s.goto t (.walkStep (some a))) := reads rfl second rfl
  have walked : Reachable (step variant) (s.goto t (.walkStep (some a)))
      (s.goto t (.walkTest (some b))) := reads rfl second rfl
  exact ((begins.trans tested).trans walked).trans (reads rfl third rfl)

end Reads

omit [DecidableEq Tid] in
/-- A pass tries to lock no node that its thread has locked already. -/
theorem Along.untried {fails : Bool} {start n : Nat} {g : Tally Node} {pre rest : List Node}
    (along : Along t fails l start s g n pre rest) (facts : Facts s.next (s.pc t)) {p : Node}
    {k : Bool → Pc Node} (tries : code (s.pc t) = .tryLock (some p) k) : p ∉ held (s.pc t) := by
  have linked := along.linked
  have cursor := along.cursor
  cases pc : s.pc t <;> rw [pc] at tries linked cursor facts <;>
    simp only [code, reduceCtorEq, Code.tryLock.injEq] at tries
  case tryFirst kind curr => exact List.not_mem_nil
  case trySecond kind curr next =>
    obtain ⟨rfl, -⟩ := tries
    obtain ⟨after, rfl⟩ := List.head?_eq_some_iff.mp cursor
    obtain ⟨q, -, from_curr⟩ := seg_append.mp linked
    have behind := from_curr.2
    rw [show completed s.next (.trySecond kind curr (some p)) = s.next from rfl, facts.2] at behind
    obtain ⟨later, rfl⟩ := List.head?_eq_some_iff.mp (Linked.head? behind)
    have distinct := Linked.nodup from_curr
    simp only [List.nodup_cons, List.mem_cons, not_or] at distinct
    exact List.mem_singleton.not.mpr (Ne.symm distinct.1.1)
  case tryThird curr1 second next =>
    obtain ⟨rfl, -⟩ := tries
    obtain ⟨after, rfl⟩ := List.head?_eq_some_iff.mp cursor
    obtain ⟨q, -, from_curr⟩ := seg_append.mp linked
    have behind := from_curr.2
    rw [show completed s.next (.tryThird curr1 second (some p)) = s.next from rfl, facts.1]
      at behind
    obtain ⟨later, rfl⟩ := List.head?_eq_some_iff.mp (Linked.head? behind)
    have behind := behind.2
    rw [facts.2.2] at behind
    obtain ⟨last, rfl⟩ := List.head?_eq_some_iff.mp (Linked.head? behind)
    have distinct := Linked.nodup from_curr
    simp only [List.nodup_cons, List.mem_cons, not_or] at distinct
    simp [held, Ne.symm distinct.1.2.1, Ne.symm distinct.2.1.1]

/-- A step of a pass during which the other threads hold no lock. -/
theorem pass_moves (owned : Owned variant first kind s) (swap : (s.pc t).kind = .swap)
    {start n : Nat} {g : Tally Node} {pre rest : List Node}
    (along : Along t false l start s g n pre rest) (more : s.pc t ≠ .loadFirst .swap)
    (free : ∀ u, u ≠ t → held (s.pc u) = []) :
    ∃ e s', e.thread = t ∧ restrict (InPass t false) (step variant) s e = some s' := by
  refine goes_on owned along.inner ?_ fun p k tries _ => ?_
  · rw [Bool.eq_false_iff]
    exact fun ended => more ((over_swap swap).mp ended)
  · rw [swap, variant.mode_swap]
    show s.lock p = []
    rw [List.eq_nil_iff_forall_not_mem]
    rintro ⟨u, mode⟩ locked
    have holds := (owned.locks.mem_iff.mp locked).2
    by_cases who : u = t
    · rw [who] at holds
      exact along.untried (owned.facts t) tries holds
    · rw [free u who] at holds
      cases holds

/-- A thread completes its pass when the others hold no lock and wait. -/
theorem completes (reached : Reachable (step variant) (init first next kind) s) {a : Node}
    (linked : Linked s.next s.first l) (at_first : s.first = some a)
    (begins : s.pc t = .tryFirst .swap a) (free : ∀ u, u ≠ t → held (s.pc u) = []) :
    ∃ s', SwapPass variant t s s' ∧ ∀ u, u ≠ t → s'.pc u = s.pc u := by
  -- by induction on the number of steps it has made, of which there are at most 22 for each node
  have goes : ∀ m, ∃ s' g,
      Reachable (recorded (restrict (InPass t false) (step variant)) (tally t)) (s, Tally.zero)
        (s', g) ∧ (∀ u, u ≠ t → s'.pc u = s.pc u) ∧ (s'.pc t = .loadFirst .swap ∨ g.steps = m) := by
    intro m
    induction m with
    | zero => exact ⟨s, Tally.zero, .refl _, fun _ _ => rfl, Or.inr rfl⟩
    | succ m ih =>
      obtain ⟨x, g, ran, others, at_x⟩ := ih
      by_cases ended : x.pc t = .loadFirst .swap
      · exact ⟨x, g, ran, others, Or.inl ended⟩
      · obtain ⟨here, n, pre, rest, along⟩ := along reached linked at_first begins ran
        have swap : (x.pc t).kind = .swap := by
          rw [here.kinds t, ← (owned reached).kinds t, begins]
          rfl
        obtain ⟨e, y, who, moved⟩ := pass_moves here swap along ended fun u other => by
          rw [others u other, free u other]
        refine ⟨y, tally t x e y g, ran.tail (recorded_eq_some.mpr ⟨moved, rfl⟩), ?_, Or.inr ?_⟩
        · intro u other
          obtain ⟨answer, new, pc, -, -⟩ := (step_move (restrict_eq_some.mp moved).2).goes
          rw [← others u other, pc, goto_pc_of_ne new]
          rw [who]
          exact other
        · rw [tally, if_pos who, ← at_x.resolve_left ended]
          rfl
  obtain ⟨s', g, ran, others, ended | counted⟩ := goes (22 * l.length + 1)
  · exact ⟨s', ⟨⟨a, at_first, begins⟩, ran.of_recorded, ended⟩, others⟩
  · obtain ⟨-, n, pre, rest, along⟩ := along reached linked at_first begins ran
    have bound := along.steps_le
    omega

/-- When the others hold no lock, a thread can make a pass while they wait. -/
theorem passes_alone (reached : Reachable (step variant) (init first next kind) s) {a b c : Node}
    {cs : List Node} (linked : Linked s.next s.first (a :: b :: c :: cs))
    (idle : s.pc t = .loadFirst .swap) (free : ∀ u, u ≠ t → held (s.pc u) = []) :
    ∃ s', Reachable (step variant) s s' ∧ s'.pc t = .loadFirst .swap ∧
      (∀ u, u ≠ t → s'.pc u = s.pc u) ∧ Linked s'.next s'.first (a :: (c :: cs ++ [b])) ∧
      s'.counter t = s.counter t + (c :: cs).length := by
  have begins : Reachable (step variant) s (s.goto t (.tryFirst .swap a)) := rands idle linked true
  have same_pc : ∀ u, u ≠ t → (s.goto t (.tryFirst .swap a)).pc u = s.pc u :=
    fun u other => goto_pc_of_ne _ other
  obtain ⟨s', pass, others⟩ := completes (reached.trans begins) linked linked.1
    (goto_pc_self _) fun u other => by rw [same_pc u other, free u other]
  have rotated := pass.rotates (reached.trans begins) linked
  exact ⟨s', begins.trans pass.ran.of_restrict, pass.ended,
    fun u other => (others u other).trans (same_pc u other), rotated⟩

/-- A thread can make a pass before the others begin, and then no lock is held. -/
theorem passes_first {a b c : Node} {cs : List Node}
    (linked : Linked next first (a :: b :: c :: cs)) (swaps : kind t = .swap) :
    ∃ s, Reachable (step variant) (init first next kind) s ∧ s.counter t = (c :: cs).length ∧
      (∀ u, (s.pc u).critical = false) ∧ ∀ p, s.lock p = [] := by
  have begins : Reachable (step variant) (init first next kind) (init first next kind) := .refl _
  obtain ⟨s, reached, ended, waits, -, counted⟩ := passes_alone begins linked (init_swap swaps)
    fun u _ => (held_start (kind u)).1
  refine ⟨s, reached, ?_, fun u => ?_, fun p => free_over (owned reached) ended fun u other => ?_⟩
  · rw [counted]
    exact Nat.zero_add _
  · by_cases who : u = t
    · rw [who, ended]
      rfl
    · rw [waits u who]
      exact (held_start (kind u)).2
  · rw [waits u other]
    show p ∉ held (start (kind u))
    rw [(held_start (kind u)).1]
    exact List.not_mem_nil

/-- **What a swapping thread can do to a node in hand.**  When the others hold no lock, a pass can
carry the second node of a list of any length to its end while they wait. -/
theorem carried_away (reached : Reachable (step variant) (init first next kind) s) {a b c : Node}
    {cs : List Node} (linked : Linked s.next s.first (a :: b :: c :: cs))
    (idle : s.pc t = .loadFirst .swap) (free : ∀ u, u ≠ t → held (s.pc u) = []) :
    ∃ s', Reachable (step variant) s s' ∧ (∀ u, u ≠ t → s'.pc u = s.pc u) ∧ s'.next b = none := by
  obtain ⟨s', further, -, others, carried, -⟩ := passes_alone reached linked idle free
  obtain ⟨q, -, at_last, last⟩ := seg_append.mp (show Linked s'.next s'.first
    ((a :: c :: cs) ++ [b]) from carried)
  exact ⟨s', further, others, last⟩

/-! ## Runs -/

section Runs

variable [Finite Tid] (linked : Linked next first initial) (three : 3 ≤ initial.length)
include linked three

omit [Finite Tid] in
/-- A second thread gets to a point where it has the second node in hand, and a first one carries
that node away. -/
theorem carried_in_hand (swaps : kind t = .swap) (other : u ≠ t) {point : Node → Node → Pc Node}
    (unlocked : ∀ a b, held (point a b) = [])
    (gets : ∀ a b c cs, Linked next first (a :: b :: c :: cs) →
      Reachable (step variant) (init first next kind) ((init first next kind).goto u (point a b))) :
    ∃ s a b, Reachable (step variant) (init first next kind) s ∧ s.pc u = point a b ∧
      s.next b = none := by
  match initial, linked with
  | [], _ | [_], _ | [_, _], _ =>
    simp only [List.length_cons, List.length_nil] at three
    omega
  | a :: b :: c :: cs, linked =>
    have begins := gets a b c cs linked
    have idle : ((init first next kind).goto u (point a b)).pc t = .loadFirst .swap := by
      rw [goto_pc_of_ne _ (Ne.symm other)]
      exact init_swap swaps
    obtain ⟨s, further, others, carried⟩ := carried_away begins linked idle fun v differs => by
      by_cases who : v = u
      · rw [who, goto_pc_self, unlocked]
      · rw [goto_pc_of_ne _ who]
        exact (held_start (kind v)).1
    exact ⟨s, a, b, begins.trans further, (others u other).trans (goto_pc_self _), carried⟩

/-- **When the workers are free of null pointers.**  For any list of at least three nodes, no
interleaving makes a thread go through `NULL` if and only if at most one thread executes
`swap_thread`. -/
theorem never_null_iff :
    (∀ s, Reachable (step variant) (init first next kind) s → ∀ t, ¬ (code (s.pc t)).Null) ↔
      OneSwapper kind := by
  constructor
  · intro free t u swaps swaps'
    by_contra differ
    have in_hand : ∃ s, ∃ _ b, Reachable (step variant) (init first next kind) s ∧
        s.pc u = .walkStep (some b) ∧ s.next b = none :=
      carried_in_hand linked three swaps (Ne.symm differ) (fun _ _ => rfl)
        fun a b c cs chain => walks_second (init_swap swaps') chain
    obtain ⟨s, a, b, reached, walks, ends⟩ := in_hand
    have moved : step variant s ⟨u, true⟩ = some (s.goto u (.walkTest none)) := by
      simp only [step, walks, code, ends]
    refine free _ (reached.tail moved) u ?_
    rw [goto_pc_self]
    rfl
  · intro one s reached
    obtain ⟨es, ran⟩ := reached
    exact (null_free_iff linked three ran).mpr
      (fun fs e a _ before => careful_alone one ⟨fs, before⟩ e) es s (List.prefix_refl es) ran

end Runs

/-- The second of two swapping threads walks to the second node and finds that it has a successor,
the first one moves that node to the end of the list, and the second one walks on. -/
def overtaken : List (Event (Fin 2)) :=
  List.replicate 8 ⟨.last 1, false⟩ ++ swapOnce.take 19 ++ [⟨.last 1, false⟩]

/-- The walk goes through a null pointer. -/
theorem walks_through_null : ∃ s : State (Fin 3) (Fin 2),
    Reachable (step .mutex) (init (some 0) triple fun _ => .swap) s ∧ s.pc 1 = .walkTest none ∧
      ¬ ∀ t, ¬ (code (s.pc t)).Null := by
  have reached : Reachable (step .mutex) (init (some 0) triple fun _ => .swap) _ :=
    ⟨overtaken, rfl⟩
  exact ⟨_, reached, rfl, fun free => free 1 rfl⟩

theorem pair_oneSwapper : OneSwapper pair := by
  unfold OneSwapper
  decide

/-- Three nodes, with one swapping thread and with two. -/
theorem never_null_iff_triple :
    (∀ s, Reachable (step .rwlock) (init (some 0) triple pair) s → ∀ t, ¬ (code (s.pc t)).Null) ∧
    ¬ ∀ s : State (Fin 3) (Fin 2), Reachable (step .mutex) (init (some 0) triple fun _ => .swap) s →
      ∀ t, ¬ (code (s.pc t)).Null := by
  refine ⟨(never_null_iff triple_linked (by decide)).mpr pair_oneSwapper, fun free => ?_⟩
  have one := (never_null_iff triple_linked (by decide)).mp free
  exact absurd (one 0 1 rfl rfl) (by decide)

section Runs

variable [Finite Tid] (linked : Linked next first initial) (three : 3 ≤ initial.length)
include linked three

/-- **When no worker gives up.**  For any list of at least three nodes, no interleaving makes a
thread take the exit for too few elements if and only if at most one thread executes
`swap_thread`. -/
theorem never_exits_iff :
    (∀ s, Reachable (step variant) (init first next kind) s → ∀ t k, s.pc t ≠ .exit k) ↔
      OneSwapper kind := by
  constructor
  · intro free t u swaps swaps'
    by_contra differ
    have in_hand : ∃ s a b, Reachable (step variant) (init first next kind) s ∧
        s.pc u = .testNextNext a (some b) ∧ s.next b = none :=
      carried_in_hand linked three swaps (Ne.symm differ) (fun _ _ => rfl)
        fun a b c cs chain => reads_second (init_swap swaps') chain
    obtain ⟨s, a, b, reached, tests, ends⟩ := in_hand
    have moved : step variant s ⟨u, true⟩ = some (s.goto u (.exit .swap)) := by
      simp only [step, tests, code, ends, Option.isNone_none, ↓reduceIte]
    exact free _ (reached.tail moved) u .swap (goto_pc_self _)
  · intro one s reached
    obtain ⟨es, ran⟩ := reached
    exact (exit_free_iff linked three ran).mpr
      (fun fs e a _ before => enough_alone one linked three ⟨fs, before⟩ e) es s
      (List.prefix_refl es) ran

end Runs

/-- The second thread reads the second node as `first->next`, the first one moves that node to the
end of the list, and the second one reads on. -/
def carriedAway : List (Event (Fin 2)) :=
  List.replicate 3 ⟨.last 1, false⟩ ++ swapOnce.take 19 ++ [⟨.last 1, false⟩]

/-- A worker gives up on a list of three nodes. -/
theorem gives_up_on_three : ∃ s : State (Fin 3) (Fin 2),
    Reachable (step .mutex) (init (some 0) triple fun _ => .swap) s ∧
      s.pc 1 = .exit .swap ∧ ¬ ∀ t k, s.pc t ≠ .exit k := by
  have reached : Reachable (step .mutex) (init (some 0) triple fun _ => .swap) _ :=
    ⟨carriedAway, rfl⟩
  exact ⟨_, reached, rfl, fun free => free 1 .swap rfl⟩

/-- Three nodes, with one swapping thread and with two. -/
theorem never_exits_iff_triple :
    (∀ s, Reachable (step .rwlock) (init (some 0) triple pair) s → ∀ t k, s.pc t ≠ .exit k) ∧
    ¬ ∀ s : State (Fin 3) (Fin 2), Reachable (step .mutex) (init (some 0) triple fun _ => .swap) s →
      ∀ t k, s.pc t ≠ .exit k := by
  refine ⟨(never_exits_iff triple_linked (by decide)).mpr pair_oneSwapper, fun free => ?_⟩
  have one := (never_exits_iff triple_linked (by decide)).mp free
  exact absurd (one 0 1 rfl rfl) (by decide)

end Os2Labs.Workers
