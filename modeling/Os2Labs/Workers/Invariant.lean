import Os2Labs.Conc.Exchange
import Os2Labs.Conc.Population
import Os2Labs.Workers.Code

/-!
# What the workers know

`held` are the nodes whose lock a thread holds at a point, and `Facts` what it knows of
their `next` fields.  Only a thread that holds a node exclusively writes its `next`, so the
facts of a thread are stable under the steps of the others.

This module is about single steps of a thread: where its code goes (`Advance`), and what
that does to `held` and `Facts`; and about the locks (`Locks`).
-/

namespace Os2Labs.Workers

open Conc

variable {Node Tid : Type}

/-- The nodes a thread has locked. -/
@[grind =] def held : Pc Node → List Node
  | .testSecond _ a | .loadSecond _ a | .trySecond _ a _ | .passFirst _ a | .unlockFirst _ a _ =>
      [a]
  | .loadThird a b | .testThird a b _ | .reloadSecond a b | .reloadThird a b _ | .tryThird a b _
  | .passSecond _ a b | .unlockTmp _ a b _ | .loadPair a b | .compare a b _ => [a, b]
  | .unlockCurr _ b _ => [b]
  | .loadCurr2 a b c | .loadCurr3 a b c _ | .loadCurr3Next a b c _ _ | .loadTail a b c _ _
  | .storeCurr2 a b c _ _ _ | .storeCurr3 a b c _ _ | .storeCurr1 a b c _ | .countSwap a b c
  | .reloadCurr1 a b c | .reloadCurr2 a b c _ | .unlock1 a b c _ _ => [a, b, c]
  | .unlock2 b c _ _ => [b, c]
  | .unlock3 b _ _ => [b]
  | _ => []

/-- What a thread knows of the nodes it has locked. -/
@[grind =] def Facts (next : Node → Option Node) : Pc Node → Prop
  | .loadSecond _ a => next a ≠ none
  | .trySecond _ a p => p ≠ none ∧ next a = p
  | .loadThird a b | .passSecond _ a b | .loadPair a b => next a = some b
  | .compare a b p => next a = some b ∧ p = some b
  | .testThird a b p => next a = some b ∧ p = some b
  | .reloadSecond a b => next a = some b ∧ next b ≠ none
  | .reloadThird a b p => next a = some b ∧ next b ≠ none ∧ p = some b
  | .tryThird a b p => next a = some b ∧ p ≠ none ∧ next b = p
  | .unlockTmp _ _ b p | .unlockCurr _ b p => p = some b
  | .loadCurr2 a b c => next a = some b ∧ next b = some c
  | .loadCurr3 a b c p => next a = some b ∧ next b = some c ∧ p = some b
  | .loadCurr3Next a b c p q => next a = some b ∧ next b = some c ∧ p = some b ∧ q = some b
  | .loadTail a b c p q => next a = some b ∧ next b = some c ∧ p = some b ∧ q = some c
  | .storeCurr2 a b c p q v =>
      next a = some b ∧ next b = some c ∧ p = some b ∧ q = some c ∧ next c = v
  | .storeCurr3 a b c p q => next a = some b ∧ next b = next c ∧ p = some b ∧ q = some c
  | .storeCurr1 a b c q => next a = some b ∧ next c = some b ∧ q = some c
  | .countSwap a b c | .reloadCurr1 a b c => next a = some c ∧ next c = some b
  | .reloadCurr2 a b c p => next a = some c ∧ next c = some b ∧ p = some c
  | .unlock1 _ b c p q | .unlock2 b c p q => p = some c ∧ q = some b
  | .unlock3 b _ q => q = some b
  | _ => True

/-- A thread goes on without taking or releasing a lock. -/
inductive Advance (pc : Pc Node) : Pc Node → Prop
  | first {k : Option Node → Pc Node} (here : code pc = .first k) (p : Option Node) :
    Advance pc (k p)
  | load {p : Option Node} {k : Option Node → Pc Node} (here : code pc = .load p k)
      (q : Option Node) : Advance pc (k q)
  | store {p v : Option Node} {k : Pc Node} (here : code pc = .store p v k) : Advance pc k
  | fail {p : Option Node} {k : Bool → Pc Node} (here : code pc = .tryLock p k) :
    Advance pc (k false)
  | values {p q : Option Node} {k : Pc Node} (here : code pc = .values p q k) : Advance pc k
  | rand {k : Bool → Pc Node} (here : code pc = .rand k) (b : Bool) : Advance pc (k b)
  | count {k : Pc Node} (here : code pc = .count k) : Advance pc k

theorem held_loop (k : Kind) (p : Option Node) : held (loop k p) = [] ∧ (loop k p).kind = k := by
  cases k <;> cases p <;> exact ⟨rfl, rfl⟩

theorem held_afterTest (k : Kind) (a : Node) :
    held (afterTest k a) = [] ∧ (afterTest k a).kind = k := by
  cases k <;> exact ⟨rfl, rfl⟩

/-- Only locks change what is held. -/
theorem Advance.keeps {pc new : Pc Node} (advance : Advance pc new) :
    held new = held pc ∧ new.kind = pc.kind := by
  cases advance with
  | first here p =>
    cases pc <;> simp only [code, reduceCtorEq, Code.first.injEq] at here
    all_goals subst here
    all_goals cases p <;> exact ⟨rfl, rfl⟩
  | load here q =>
    cases pc <;> simp only [code, reduceCtorEq, Code.load.injEq] at here
    all_goals obtain ⟨rfl, rfl⟩ := here
    all_goals first
      | exact ⟨rfl, rfl⟩
      | exact held_loop _ _
      | cases q <;> first | exact ⟨rfl, rfl⟩ | exact held_afterTest _ _
  | store here =>
    cases pc <;> simp only [code, reduceCtorEq, Code.store.injEq] at here
    all_goals obtain ⟨rfl, rfl, rfl⟩ := here
    all_goals exact ⟨rfl, rfl⟩
  | fail here =>
    cases pc <;> simp only [code, reduceCtorEq, Code.tryLock.injEq] at here
    all_goals obtain ⟨rfl, rfl⟩ := here
    all_goals exact ⟨rfl, rfl⟩
  | values here =>
    cases pc <;> simp only [code, reduceCtorEq, Code.values.injEq] at here
    obtain ⟨rfl, rfl, rfl⟩ := here
    exact ⟨rfl, rfl⟩
  | rand here b =>
    cases pc <;> simp only [code, reduceCtorEq, Code.rand.injEq] at here
    subst here
    cases b <;> exact ⟨rfl, rfl⟩
  | count here =>
    cases pc <;> simp only [code, reduceCtorEq, Code.count.injEq] at here
    all_goals subst here
    all_goals exact ⟨rfl, rfl⟩

/-- A `trylock` that succeeds. -/
theorem held_tryLock {pc : Pc Node} {a : Node} {k : Bool → Pc Node}
    (here : code pc = .tryLock (some a) k) :
    (held (k true)).Perm (a :: held pc) ∧ (k true).kind = pc.kind := by
  cases pc <;> simp only [code, reduceCtorEq, Code.tryLock.injEq] at here
  case tryFirst kind curr =>
    obtain ⟨⟨⟩, rfl⟩ := here
    exact ⟨List.Perm.refl _, rfl⟩
  case trySecond kind curr next =>
    obtain ⟨rfl, rfl⟩ := here
    cases kind <;> exact ⟨List.Perm.swap _ _ _, rfl⟩
  case tryThird curr1 second next =>
    obtain ⟨rfl, rfl⟩ := here
    refine ⟨?_, rfl⟩
    exact ((List.Perm.swap _ _ _).cons _).trans (List.Perm.swap _ _ _)

/-- An unlock gives back a lock that is held. -/
theorem Facts.held_unlock {next : Node → Option Node} {pc : Pc Node} (facts : Facts next pc)
    {a : Node} {k : Pc Node} (here : code pc = .unlock (some a) k) :
    (held pc).Perm (a :: held k) ∧ k.kind = pc.kind := by
  cases pc <;> simp only [code, reduceCtorEq, Code.unlock.injEq] at here
  case unlockFirst kind tmp curr =>
    obtain ⟨⟨⟩, rfl⟩ := here
    rcases held_loop kind curr with ⟨none_held, same⟩
    rw [none_held]
    exact ⟨List.Perm.refl _, same⟩
  case unlockTmp kind tmp second curr =>
    obtain ⟨⟨⟩, rfl⟩ := here
    exact ⟨List.Perm.refl _, rfl⟩
  case unlockCurr kind second curr =>
    obtain ⟨rfl, rfl⟩ := here
    cases facts
    obtain ⟨none_held, same⟩ := held_loop kind (some a)
    rw [none_held]
    exact ⟨List.Perm.refl _, same⟩
  case unlock1 tmp second third curr1 curr2 =>
    obtain ⟨⟨⟩, rfl⟩ := here
    exact ⟨List.Perm.refl _, rfl⟩
  case unlock2 second third curr1 curr2 =>
    obtain ⟨rfl, rfl⟩ := here
    obtain ⟨⟨⟩, -⟩ := facts
    exact ⟨List.Perm.swap _ _ _, rfl⟩
  case unlock3 second curr1 curr2 =>
    obtain ⟨rfl, rfl⟩ := here
    cases facts
    rcases held_loop .swap curr1 with ⟨none_held, same⟩
    rw [none_held]
    exact ⟨List.Perm.refl _, same⟩

/-! ## Facts -/

section Facts

variable {next next' : Node → Option Node} {pc : Pc Node}

/-- Facts are about nodes that are held. -/
theorem Facts.congr (agree : ∀ a ∈ held pc, next' a = next a) (facts : Facts next pc) :
    Facts next' pc := by
  cases pc <;> first | trivial | grind

theorem facts_loop (k : Kind) (p : Option Node) : Facts next (loop k p) := by
  cases k <;> cases p <;> trivial

theorem facts_afterTest (k : Kind) (a : Node) : Facts next (afterTest k a) := by
  cases k <;> trivial

theorem Facts.first {k : Option Node → Pc Node} (here : code pc = .first k) (p : Option Node) :
    Facts next (k p) := by
  cases pc <;> simp only [code, reduceCtorEq, Code.first.injEq] at here
  all_goals subst here
  all_goals cases p <;> trivial

/-- A load from a node answers what is there. -/
theorem Facts.load (facts : Facts next pc) {a : Node} {k : Option Node → Pc Node}
    (here : code pc = .load (some a) k) : Facts next (k (next a)) := by
  cases pc <;> simp only [code, reduceCtorEq, Code.load.injEq] at here
  all_goals obtain ⟨from_a, rfl⟩ := here
  case skip kind curr => exact facts_loop kind _
  case testNext kind curr =>
    cases next a with
    | none => trivial
    | some _ => exact facts_afterTest kind curr
  case startNext | testNextNext | walkTest => cases next a <;> trivial
  case testSecond kind curr =>
    cases from_a
    cases there : next a with
    | none => trivial
    | some b =>
      intro no_second
      rw [there] at no_second
      cases no_second
  case testThird curr1 second p =>
    obtain ⟨linked, rfl⟩ := facts
    cases from_a
    cases there : next a with
    | none => exact linked
    | some c =>
      refine ⟨linked, fun no_third => ?_⟩
      rw [there] at no_third
      cases no_third
  all_goals grind

theorem Facts.tryLock (facts : Facts next pc) {p : Option Node} {k : Bool → Pc Node}
    (here : code pc = .tryLock p k) (b : Bool) : Facts next (k b) := by
  cases pc <;> simp only [code, reduceCtorEq, Code.tryLock.injEq] at here
  case tryFirst kind curr =>
    obtain ⟨-, rfl⟩ := here
    cases b <;> trivial
  case trySecond kind curr p =>
    obtain ⟨-, rfl⟩ := here
    obtain ⟨-, linked⟩ := facts
    cases p with
    | none => cases b <;> trivial
    | some second => cases b <;> cases kind <;> first | exact linked | trivial
  case tryThird curr1 second p =>
    obtain ⟨-, rfl⟩ := here
    obtain ⟨linked, -, linked'⟩ := facts
    cases p with
    | none => cases b <;> exact linked
    | some third =>
      cases b with
      | false => exact linked
      | true => exact ⟨linked, linked'⟩

theorem Facts.unlock (facts : Facts next pc) {p : Option Node} {k : Pc Node}
    (here : code pc = .unlock p k) : Facts next k := by
  cases pc <;> simp only [code, reduceCtorEq, Code.unlock.injEq] at here
  all_goals obtain ⟨-, rfl⟩ := here
  case unlockTmp | unlock1 => exact facts
  case unlock2 => exact facts.2
  all_goals exact facts_loop _ _

/-- The steps that neither read nor write a `next` field and take no lock. -/
theorem Facts.values (facts : Facts next pc) {p q : Option Node} {k : Pc Node}
    (here : code pc = .values p q k) : Facts next k := by
  cases pc <;> simp only [code, reduceCtorEq, Code.values.injEq] at here
  obtain ⟨-, -, rfl⟩ := here
  exact facts.1

theorem Facts.rand {k : Bool → Pc Node} (here : code pc = .rand k) (b : Bool) :
    Facts next (k b) := by
  cases pc <;> simp only [code, reduceCtorEq, Code.rand.injEq] at here
  subst here
  cases b <;> trivial

theorem Facts.count (facts : Facts next pc) {k : Pc Node} (here : code pc = .count k) :
    Facts next k := by
  cases pc <;> simp only [code, reduceCtorEq, Code.count.injEq] at here
  all_goals subst here
  · exact facts
  · trivial

/-- Only a swap writes, and to the nodes it has locked. -/
theorem Facts.store_held (facts : Facts next pc) {a : Node} {v : Option Node} {k : Pc Node}
    (here : code pc = .store (some a) v k) : pc.kind = .swap ∧ a ∈ held pc := by
  cases pc <;> simp only [code, reduceCtorEq, Code.store.injEq] at here
  case storeCurr2 curr1 second third curr2 curr3 tail =>
    obtain ⟨rfl, -⟩ := here
    obtain ⟨-, -, ⟨⟩, -⟩ := facts
    exact ⟨rfl, by simp [held]⟩
  case storeCurr3 curr1 second third curr2 curr3 =>
    obtain ⟨rfl, -⟩ := here
    obtain ⟨-, -, -, ⟨⟩⟩ := facts
    exact ⟨rfl, by simp [held]⟩
  case storeCurr1 curr1 second third curr3 =>
    obtain ⟨⟨⟩, -⟩ := here
    exact ⟨rfl, by simp [held]⟩

/-- The three writes of a swap. -/
theorem Facts.store [DecidableEq Node] (facts : Facts next pc) (distinct : (held pc).Nodup)
    {a : Node} {v : Option Node} {k : Pc Node} (here : code pc = .store (some a) v k) :
    Facts (Function.update next a v) k := by
  cases pc <;> simp only [code, reduceCtorEq, Code.store.injEq] at here
  all_goals
    obtain ⟨to_a, rfl, rfl⟩ := here
    simp only [held, List.nodup_cons, List.mem_cons, List.not_mem_nil, or_false, not_or] at distinct
    simp only [Facts] at facts ⊢
  · obtain ⟨ab, bc, rfl, rfl, rfl⟩ := facts
    cases to_a
    simp [distinct, ab, Ne.symm distinct.2.1]
  · obtain ⟨ab, bc, rfl, rfl⟩ := facts
    cases to_a
    simp [distinct, ab]
  · obtain ⟨ab, cb, rfl⟩ := facts
    cases to_a
    simp [cb, Ne.symm distinct.1.2]

end Facts

/-! ## Steps -/

variable [DecidableEq Tid] {variant : Variant} {s s' : State Node Tid} {t u : Tid}

@[simp] theorem goto_pc_self (new : Pc Node) : (s.goto t new).pc t = new :=
  Function.update_self ..

theorem goto_pc_of_ne (new : Pc Node) (other : u ≠ t) : (s.goto t new).pc u = s.pc u :=
  Function.update_of_ne other ..

variable [DecidableEq Node]

/-- The steps by the access they make. -/
inductive Move (variant : Variant) (s : State Node Tid) (t : Tid) : State Node Tid → Prop
  | first {k : Option Node → Pc Node} (here : code (s.pc t) = .first k) :
    Move variant s t (s.goto t (k s.first))
  | load {a : Node} {k : Option Node → Pc Node} (here : code (s.pc t) = .load (some a) k) :
    Move variant s t (s.goto t (k (s.next a)))
  | store {a : Node} {v : Option Node} {k : Pc Node} (here : code (s.pc t) = .store (some a) v k) :
    Move variant s t { s.goto t k with next := Function.update s.next a v }
  | lock {a : Node} {k : Bool → Pc Node} (here : code (s.pc t) = .tryLock (some a) k)
      (free : Available (s.lock a) (variant.mode (s.pc t).kind)) :
    Move variant s t { s.goto t (k true) with
      lock := Function.update s.lock a ((t, variant.mode (s.pc t).kind) :: s.lock a) }
  | fail {a : Node} {k : Bool → Pc Node} (here : code (s.pc t) = .tryLock (some a) k) :
    Move variant s t (s.goto t (k false))
  | unlock {a : Node} {k : Pc Node} (here : code (s.pc t) = .unlock (some a) k)
      (mine : (t, variant.mode (s.pc t).kind) ∈ s.lock a) :
    Move variant s t { s.goto t k with
      lock := Function.update s.lock a ((s.lock a).erase (t, variant.mode (s.pc t).kind)) }
  | values {a b : Node} {k : Pc Node} (here : code (s.pc t) = .values (some a) (some b) k) :
    Move variant s t (s.goto t k)
  | rand {k : Bool → Pc Node} (here : code (s.pc t) = .rand k) (b : Bool) :
    Move variant s t (s.goto t (k b))
  | count {k : Pc Node} (here : code (s.pc t) = .count k) :
    Move variant s t { s.goto t k with
      counter := Function.update s.counter t (s.counter t + 1) }

theorem step_move {e : Event Tid} (moved : step variant s e = some s') :
    Move variant s e.thread s' := by
  unfold step at moved
  simp only at moved
  split at moved
  · next k here =>
    cases moved
    exact .first here
  · next a k here =>
    cases moved
    exact .load here
  · next a v k here =>
    cases moved
    exact .store here
  · next a k here =>
    split at moved
    · split at moved
      · next free =>
        cases moved
        exact .lock here free
      · cases moved
    · cases moved
      exact .fail here
  · next a k here =>
    split at moved
    · next mine =>
      cases moved
      exact .unlock here mine
    · cases moved
  · next a b k here =>
    cases moved
    exact .values here
  · next k here =>
    cases moved
    exact .rand here _
  · next k here =>
    cases moved
    exact .count here
  · cases moved

/-! ## Locks -/

/-- The locks are as the threads believe, and an exclusive holder is alone. -/
structure Locks (variant : Variant) (s : State Node Tid) : Prop where
  count : ∀ t a m, (s.lock a).count (t, m) =
    if m = variant.mode (s.pc t).kind then (held (s.pc t)).count a else 0
  alone : ∀ t a, (t, Mode.exclusive) ∈ s.lock a → s.lock a = [(t, .exclusive)]

theorem Locks.init (first : Option Node) (next : Node → Option Node) (kind : Tid → Kind) :
    Locks variant (init first next kind) := by
  refine ⟨fun t a m => ?_, fun t a member => ?_⟩
  · cases here : kind t <;> simp [Workers.init, here, start, held]
  · cases member

theorem Variant.mode_swap (variant : Variant) : variant.mode .swap = .exclusive := by
  cases variant <;> rfl

/-- A thread that holds a lock is among the holders. -/
theorem Locks.mem (locks : Locks variant s) {a : Node} :
    (t, variant.mode (s.pc t).kind) ∈ s.lock a ↔ a ∈ held (s.pc t) := by
  rw [← List.count_pos_iff, locks.count, if_pos rfl, List.count_pos_iff]

section Swap

variable (locks : Locks variant s) (swap : (s.pc t).kind = .swap)
include locks swap

/-- A swapping thread is alone with its nodes. -/
theorem Locks.holders {a : Node} (holds : a ∈ held (s.pc t)) :
    s.lock a = [(t, .exclusive)] := by
  apply locks.alone t a
  rw [← variant.mode_swap, ← swap]
  exact locks.mem.mpr holds

theorem Locks.apart {a : Node} (holds : a ∈ held (s.pc t)) (other : u ≠ t) :
    a ∉ held (s.pc u) := by
  intro shares
  have member := locks.mem.mpr shares
  rw [locks.holders swap holds, List.mem_singleton] at member
  exact other (congrArg Prod.fst member)

theorem Locks.nodup : (held (s.pc t)).Nodup := by
  apply List.nodup_iff_count_le_one.mpr
  intro a
  by_cases holds : a ∈ held (s.pc t)
  · have counted := locks.count t a .exclusive
    rw [swap, variant.mode_swap, if_pos rfl, locks.holders swap holds, List.count_singleton_self]
      at counted
    exact counted.ge
  · rw [List.count_eq_zero_of_not_mem holds]
    exact Nat.zero_le 1

end Swap

/-- A step that touches no lock. -/
theorem Locks.keep (locks : Locks variant s) {new : Pc Node} (advance : Advance (s.pc t) new)
    (lock : s'.lock = s.lock) (pc : s'.pc = (s.goto t new).pc) : Locks variant s' := by
  obtain ⟨same_held, same_kind⟩ := advance.keeps
  refine ⟨fun u a m => ?_, fun u a => ?_⟩
  · rw [lock, pc, locks.count]
    by_cases who : u = t
    · subst who
      rw [goto_pc_self, same_held, same_kind]
    · rw [goto_pc_of_ne new who]
  · rw [lock]
    exact locks.alone u a

/-- What a step that touches the lock of `a` has to show: the entry of the moving thread there
changes as what it holds. -/
theorem Locks.change (locks : Locks variant s) {a : Node} {k : Pc Node}
    {holders : List (Tid × Mode)} (same_kind : k.kind = (s.pc t).kind)
    (elsewhere : ∀ b, b ≠ a → (held k).count b = (held (s.pc t)).count b)
    (others : ∀ u m, (u, m) ≠ (t, variant.mode (s.pc t).kind) →
      holders.count (u, m) = (s.lock a).count (u, m))
    (own : holders.count (t, variant.mode (s.pc t).kind) = (held k).count a)
    (alone : ∀ u, (u, Mode.exclusive) ∈ holders → holders = [(u, .exclusive)]) :
    Locks variant { s.goto t k with lock := Function.update s.lock a holders } := by
  refine ⟨fun u b m => ?_, fun u b member => ?_⟩
  · show (Function.update s.lock a holders b).count (u, m) =
      if m = variant.mode ((s.goto t k).pc u).kind then (held ((s.goto t k).pc u)).count b else 0
    by_cases who : u = t
    · subst who
      rw [goto_pc_self, same_kind]
      by_cases node : b = a
      · subst node
        rw [Function.update_self]
        split
        · next mode => rw [mode, own]
        · next mode =>
          rw [others u m (fun same => mode (congrArg Prod.snd same)), locks.count, if_neg mode]
      · rw [Function.update_of_ne node, elsewhere b node]
        exact locks.count u b m
    · rw [goto_pc_of_ne k who]
      by_cases node : b = a
      · subst node
        rw [Function.update_self, others u m (fun same => who (congrArg Prod.fst same))]
        exact locks.count u b m
      · rw [Function.update_of_ne node]
        exact locks.count u b m
  · replace member : (u, Mode.exclusive) ∈ Function.update s.lock a holders b := member
    show Function.update s.lock a holders b = _
    by_cases node : b = a
    · subst node
      rw [Function.update_self] at member ⊢
      exact alone u member
    · rw [Function.update_of_ne node] at member ⊢
      exact locks.alone u b member

theorem Locks.step (locks : Locks variant s) (facts : ∀ t, Facts s.next (s.pc t))
    (move : Move variant s t s') : Locks variant s' := by
  cases move with
  | first here => exact locks.keep (.first here _) rfl rfl
  | load here => exact locks.keep (.load here _) rfl rfl
  | store here => exact locks.keep (.store here) rfl rfl
  | fail here => exact locks.keep (.fail here) rfl rfl
  | values here => exact locks.keep (.values here) rfl rfl
  | rand here b => exact locks.keep (.rand here b) rfl rfl
  | count here => exact locks.keep (.count here) rfl rfl
  | @lock a k here free =>
    rcases held_tryLock here with ⟨more, same_kind⟩
    apply locks.change same_kind
    · intro b other
      rw [more.count_eq, List.count_cons_of_ne (Ne.symm other)]
    · intro u m other
      exact List.count_cons_of_ne (Ne.symm other)
    · rw [more.count_eq, List.count_cons_self, List.count_cons_self, locks.count, if_pos rfl]
    · intro u member
      -- an exclusive lock was free, and a shared one has only shared holders
      cases mode : variant.mode (s.pc t).kind with
      | exclusive =>
        rw [mode] at free member
        rw [show s.lock a = [] from free] at member ⊢
        rw [List.mem_singleton.mp member]
      | shared =>
        rw [mode] at free member
        rcases List.mem_cons.mp member with same | earlier
        · cases same
        · cases free _ earlier
  | @unlock a k here mine =>
    rcases (facts t).held_unlock here with ⟨less, same_kind⟩
    apply locks.change same_kind
    · intro b other
      rw [less.count_eq, List.count_cons_of_ne (Ne.symm other)]
    · intro u m other
      exact List.count_erase_of_ne other
    · rw [List.count_erase_self, locks.count, if_pos rfl, less.count_eq, List.count_cons_self,
        Nat.add_sub_cancel]
    · intro u member
      have before := locks.alone u a (List.mem_of_mem_erase member)
      rw [before] at mine member
      rw [List.mem_singleton.mp mine, List.erase_cons_head] at member
      cases member

/-- The moving thread knows again what its new point asks for, and does not change its kind. -/
theorem Move.mover (locks : Locks variant s) (mine : Facts s.next (s.pc t))
    (move : Move variant s t s') :
    ∃ new, s'.pc = (s.goto t new).pc ∧ Facts s'.next new ∧ new.kind = (s.pc t).kind := by
  cases move with
  | first here => exact ⟨_, rfl, .first here _, (Advance.first here _).keeps.2⟩
  | load here => exact ⟨_, rfl, mine.load here, (Advance.load here _).keeps.2⟩
  | store here =>
    have distinct := locks.nodup (mine.store_held here).1
    exact ⟨_, rfl, mine.store distinct here, (Advance.store here).keeps.2⟩
  | lock here free => exact ⟨_, rfl, mine.tryLock here true, (held_tryLock here).2⟩
  | fail here => exact ⟨_, rfl, mine.tryLock here false, (Advance.fail here).keeps.2⟩
  | unlock here holds => exact ⟨_, rfl, mine.unlock here, (mine.held_unlock here).2⟩
  | values here => exact ⟨_, rfl, mine.values here, (Advance.values here).keeps.2⟩
  | rand here b => exact ⟨_, rfl, .rand here b, (Advance.rand here b).keeps.2⟩
  | count here => exact ⟨_, rfl, mine.count here, (Advance.count here).keeps.2⟩

/-- A write of one thread is to a node that no other thread has locked. -/
theorem Move.frame (locks : Locks variant s) (mine : Facts s.next (s.pc t))
    (move : Move variant s t s') (other : u ≠ t) : ∀ a ∈ held (s.pc u), s'.next a = s.next a := by
  intro b holds
  cases move with
  | store here =>
    rcases mine.store_held here with ⟨swap, mine⟩
    refine Function.update_of_ne ?_ ..
    intro same
    subst same
    exact locks.apart swap mine other holds
  | _ => rfl

/-! ## Runs -/

/-- What the threads rely on. -/
structure Owned (variant : Variant) (first : Option Node) (kind : Tid → Kind)
    (s : State Node Tid) : Prop where
  locks : Locks variant s
  facts : ∀ t, Facts s.next (s.pc t)
  kinds : ∀ t, (s.pc t).kind = kind t
  first : s.first = first

theorem Owned.step {first : Option Node} {kind : Tid → Kind} (owned : Owned variant first kind s)
    (move : Move variant s t s') : Owned variant first kind s' := by
  obtain ⟨new, pc, facts, same_kind⟩ := move.mover owned.locks (owned.facts t)
  refine ⟨owned.locks.step owned.facts move, fun u => ?_, fun u => ?_, ?_⟩
  · by_cases who : u = t
    · rw [who, pc, goto_pc_self]
      exact facts
    · rw [pc, goto_pc_of_ne new who]
      exact (owned.facts u).congr (move.frame owned.locks (owned.facts t) who)
  · by_cases who : u = t
    · rw [who, pc, goto_pc_self, same_kind, owned.kinds]
    · rw [pc, goto_pc_of_ne new who, owned.kinds]
  · rw [← owned.first]
    cases move <;> rfl

theorem owned {first : Option Node} {next : Node → Option Node} {kind : Tid → Kind}
    (reached : Reachable (step variant) (init first next kind) s) :
    Owned variant first kind s := by
  refine reached.invariant ⟨.init first next kind, ?_, ?_, rfl⟩ fun a b e before moved =>
    before.step (step_move moved)
  · intro t
    show Facts next (start (kind t))
    cases kind t <;> trivial
  · intro t
    show (start (kind t)).kind = kind t
    cases kind t <;> rfl

end Os2Labs.Workers
