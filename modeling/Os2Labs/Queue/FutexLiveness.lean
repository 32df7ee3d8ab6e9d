import Mathlib.Data.Prod.Lex
import Mathlib.Order.WellFounded
import Os2Labs.Conc.Population
import Os2Labs.Queue.FutexMutex

/-!
# Every call behind the futex mutex returns

A mutex that loses no wake-up may still keep a thread waiting.  This module is about a finite
number of threads that make no further calls, and about kernels that wake nobody for no
reason: whatever is scheduled, after finitely many steps all calls have returned
(`calls_return`).

The measure is lexicographic: how far the threads are through their calls, what is left of the
critical section, and how far the threads in `mutex_lock` are from sleeping while the mutex is
taken, or from taking it while it is free.  That somebody can move is `Attended`.
-/

namespace Os2Labs.Queue.FutexMutex

open Conc

variable {Tid κ : Type} [DecidableEq Tid]

/-- Neither a new call nor a spurious wake-up. -/
def Unprompted : Locked.Event Tid Call Fresh (Kernel Tid) → Prop
  | .call .. => False
  | .lock _ x => x ≠ .spurious
  | .access .. | .unlock .. => True

instance : (e : Locked.Event Tid Call Fresh (Kernel Tid)) → Decidable (Unprompted e)
  | .call .. => inferInstanceAs (Decidable False)
  | .lock _ x => inferInstanceAs (Decidable (x ≠ .spurious))
  | .access .. | .unlock .. => inferInstanceAs (Decidable True)

/-- The calls in progress go on. -/
def goOn (cl : Client κ Call Reply) : State Tid sig Mem Call Reply κ →
    Locked.Event Tid Call Fresh (Kernel Tid) → Option (State Tid sig Mem Call Reply κ) :=
  restrict (fun _ e => Unprompted e) (Locked.step object cl)

/-! ## The measure -/

abbrev Pc (Tid : Type) [DecidableEq Tid] := Locked.Pc (futexMutex Tid) sig Call Reply

/-- How many parts of its call a thread has before it. -/
def parts : Pc Tid → Nat
  | .idle => 0
  | .locking _ _ => 3
  | .inside _ _ | .unlocking _ _ UnlockPc.compareExchange => 2
  | .unlocking _ _ UnlockPc.futexWake => 1

/-- The accesses left of the critical section. -/
noncomputable def left : Pc Tid → Nat
  | .inside _ p => p.depth
  | _ => 0

/-- The way of a thread in `mutex_lock` to its sleep, or to the mutex when that is free. -/
def way (lock : Int) (asleep : Bool) : Pc Tid → Nat
  | .locking _ LockPc.compareExchange => if lock = 1 then 1 else 2
  | .locking _ LockPc.futexWait => if lock = 1 then 2 else 1
  | .locking _ LockPc.sleeping => if asleep then 0 else 3
  | _ => 0

noncomputable def measure [Fintype Tid] (s : State Tid sig Mem Call Reply κ) : Nat ×ₗ Nat ×ₗ Nat :=
  toLex (∑ t, parts (s.pc t), toLex (∑ t, left (s.pc t),
    ∑ t, way s.lock.lock (decide (t ∈ s.lock.sleepers)) (s.pc t)))

variable [Fintype Tid] {cl : Client κ Call Reply} {s s' : State Tid sig Mem Call Reply κ} {t : Tid}
  {new : Pc Tid}

/-- A part of a call is over. -/
theorem measure_lt_of_parts (pc : s'.pc = Function.update s.pc t new)
    (less : parts new < parts (s.pc t)) : measure s' < measure s := by
  have others : ∀ u, u ≠ t → parts (s'.pc u) = parts (s.pc u) := by
    intro u ne
    rw [pc, Function.update_of_ne ne]
  have moved := sum_move others
  rw [pc, Function.update_self, ← pc] at moved
  refine Prod.Lex.toLex_lt_toLex.mpr (Or.inl ?_)
  simp only
  omega

/-- An access of the critical section. -/
theorem measure_lt_of_left (pc : s'.pc = Function.update s.pc t new)
    (same : parts new = parts (s.pc t)) (less : left new < left (s.pc t)) :
    measure s' < measure s := by
  have others : ∀ u, u ≠ t → s'.pc u = s.pc u := by
    intro u ne
    rw [pc, Function.update_of_ne ne]
  have parts_move := sum_move (f := fun u => parts (s.pc u)) (g := fun u => parts (s'.pc u))
    (t := t) fun u ne => congrArg parts (others u ne)
  have left_move := sum_move (f := fun u => left (s.pc u)) (g := fun u => left (s'.pc u))
    (t := t) fun u ne => congrArg left (others u ne)
  simp only [pc, Function.update_self] at parts_move left_move
  refine Prod.Lex.toLex_lt_toLex.mpr (Or.inr ⟨?_, Prod.Lex.toLex_lt_toLex.mpr (Or.inl ?_)⟩)
  · simp only [pc]
    omega
  · simp only [pc]
    omega

/-- A step inside `mutex_lock`. -/
theorem measure_lt_of_way (pc : s'.pc = Function.update s.pc t new)
    (parts_same : parts new = parts (s.pc t)) (left_same : left new = left (s.pc t))
    (lock : s'.lock.lock = s.lock.lock)
    (others : ∀ u, u ≠ t → (u ∈ s'.lock.sleepers ↔ u ∈ s.lock.sleepers))
    (less : way s.lock.lock (decide (t ∈ s'.lock.sleepers)) new <
      way s.lock.lock (decide (t ∈ s.lock.sleepers)) (s.pc t)) : measure s' < measure s := by
  have elsewhere : ∀ u, u ≠ t → s'.pc u = s.pc u := by
    intro u ne
    rw [pc, Function.update_of_ne ne]
  have parts_move := sum_move (f := fun u => parts (s.pc u)) (g := fun u => parts (s'.pc u))
    (t := t) fun u ne => congrArg parts (elsewhere u ne)
  have left_move := sum_move (f := fun u => left (s.pc u)) (g := fun u => left (s'.pc u))
    (t := t) fun u ne => congrArg left (elsewhere u ne)
  have way_move := sum_move
    (f := fun u => way s.lock.lock (decide (u ∈ s.lock.sleepers)) (s.pc u))
    (g := fun u => way s'.lock.lock (decide (u ∈ s'.lock.sleepers)) (s'.pc u)) (t := t) <| by
      intro u ne
      simp only [lock, elsewhere u ne, others u ne]
  simp only [pc, lock, Function.update_self] at parts_move left_move way_move
  refine Prod.Lex.toLex_lt_toLex.mpr (Or.inr ⟨?_, Prod.Lex.toLex_lt_toLex.mpr (Or.inr ⟨?_, ?_⟩)⟩)
  · simp only [pc]
    omega
  · simp only [pc]
    omega
  · simp only [pc, lock]
    omega

omit [Fintype Tid] in
/-- A step of `mutex_lock` that does not return, in a kernel that wakes nobody for no reason. -/
theorem mutexLock_goes {x : Kernel Tid} (calm : x ≠ .spurious) {m m' : MutexT Tid} {a a' : LockPc}
    (moved : mutexLock t x m a = some (m', some a')) :
    (a = .compareExchange ∧ m.lock ≠ 1 ∧ m' = m ∧ a' = .futexWait) ∨
    (a = .futexWait ∧ m.lock = 0 ∧ m' = { m with sleepers := insert t m.sleepers } ∧
      a' = .sleeping) ∨
    (a = .futexWait ∧ m.lock ≠ 0 ∧ m' = m ∧ a' = .compareExchange) ∨
    (a = .sleeping ∧ t ∉ m.sleepers ∧ m' = m ∧ a' = .compareExchange) := by
  cases a with
  | compareExchange =>
    by_cases free : m.lock = 1
    · simp only [mutexLock, Conc.compareExchange, free, ↓reduceIte] at moved
      cases moved
    · simp only [mutexLock, Conc.compareExchange, free, ↓reduceIte] at moved
      cases moved
      exact Or.inl ⟨rfl, free, rfl, rfl⟩
  | futexWait =>
    by_cases taken : m.lock = 0
    · simp only [mutexLock, taken, ↓reduceIte] at moved
      cases moved
      exact Or.inr (Or.inl ⟨rfl, taken, by rw [taken], rfl⟩)
    · simp only [mutexLock, taken, ↓reduceIte] at moved
      cases moved
      exact Or.inr (Or.inr (Or.inl ⟨rfl, taken, rfl, rfl⟩))
  | sleeping =>
    by_cases asleep : t ∈ m.sleepers
    · simp only [mutexLock, asleep, calm, ↓reduceIte] at moved
      cases moved
    · simp only [mutexLock, asleep, ↓reduceIte] at moved
      cases moved
      exact Or.inr (Or.inr (Or.inr ⟨rfl, asleep, rfl, rfl⟩))

omit [Fintype Tid] in
theorem parts_unlocking {pc : Pc Tid} {c : Call} {r : Reply} {p : UnlockPc}
    (unlocking : pc.atUnlock = some (c, r, p)) :
    parts pc = if p = .compareExchange then 2 else 1 := by
  unfold Locked.Pc.atUnlock at unlocking
  split at unlocking
  · cases unlocking
    rfl
  · cases unlocking
    cases p <;> rfl
  · cases unlocking

/-- Every step decreases the measure. -/
theorem measure_lt {e : Locked.Event Tid Call Fresh (Kernel Tid)} (owned : Locked.Owned s)
    (bounded : ∀ t c p, s.pc t = .inside c p → p.Bounded) (moved : goOn cl s e = some s') :
    measure s' < measure s := by
  obtain ⟨calm, moved⟩ := restrict_eq_some.mp moved
  rcases Locked.step_cases moved with ⟨t, c, rfl, out, -, rfl⟩ |
    ⟨t, c, a, x, w, rfl, locking, done, rfl⟩ | ⟨t, c, a, x, w, a', rfl, locking, done, rfl⟩ |
    ⟨t, c, o, k, x, r, m, rfl, inside, done, rfl⟩ |
    ⟨t, c, r, p, x, w, p', rfl, unlocking, done, rfl⟩
  · exact calm.elim
  · exact measure_lt_of_parts rfl (by rw [locking]; exact Nat.lt_succ_self 2)
  · rcases mutexLock_goes calm done with ⟨rfl, taken, rfl, rfl⟩ | ⟨rfl, taken, rfl, rfl⟩ |
      ⟨rfl, free, rfl, rfl⟩ | ⟨rfl, awake, rfl, rfl⟩
    · -- the compare-exchange fails
      refine measure_lt_of_way rfl (by rw [locking]; rfl) (by rw [locking]; rfl) rfl
        (fun _ _ => Iff.rfl) ?_
      simp only [locking, way, taken, ↓reduceIte, Nat.lt_succ_self]
    · -- the thread falls asleep
      refine measure_lt_of_way rfl (by rw [locking]; rfl) (by rw [locking]; rfl) rfl ?_ ?_
      · intro u ne
        simp only [Finset.mem_insert, ne, false_or]
      · simp [locking, way, taken]
    · -- the mutex has become free
      have open_ : s.lock.lock = 1 := by
        rcases owned with ⟨open_, -⟩ | ⟨held, -⟩
        · exact open_
        · exact (free held).elim
      refine measure_lt_of_way rfl (by rw [locking]; rfl) (by rw [locking]; rfl) rfl
        (fun _ _ => Iff.rfl) ?_
      simp only [locking, way, open_, ↓reduceIte, Nat.lt_succ_self]
    · -- the thread has been woken
      refine measure_lt_of_way rfl (by rw [locking]; rfl) (by rw [locking]; rfl) rfl
        (fun _ _ => Iff.rfl) ?_
      simp only [locking, way, awake, decide_false, Bool.false_eq_true, ↓reduceIte]
      split <;> decide
  · refine measure_lt_of_left rfl (by rw [inside]; rfl) ?_
    rw [inside]
    exact (bounded t c _ inside).depth_lt r
  · apply measure_lt_of_parts rfl
    rw [parts_unlocking unlocking]
    rcases mutexUnlock_cases done with ⟨rfl, -, -, rfl⟩ | ⟨rfl, -, -, rfl⟩ | ⟨rfl, -, -, rfl⟩ |
      ⟨rfl, u, -, -, rfl⟩
    · exact Nat.one_lt_two
    · exact Nat.two_pos
    · exact Nat.one_pos
    · exact Nat.one_pos

/-! ## Somebody can move -/

omit [Fintype Tid] in
theorem goOn_of_step {e : Locked.Event Tid Call Fresh (Kernel Tid)} (calm : Unprompted e)
    (goes : ∃ s', Locked.step object cl s e = some s') : ∃ e s', goOn cl s e = some s' := by
  obtain ⟨s', moved⟩ := goes
  exact ⟨e, s', restrict_eq_some.mpr ⟨calm, moved⟩⟩

omit [Fintype Tid] in
/-- A thread in `mutex_unlock` can move. -/
theorem goOn_unlock {c : Call} {r : Reply} {p : UnlockPc}
    (unlocking : (s.pc t).atUnlock = some (c, r, p)) : ∃ e s', goOn cl s e = some s' := by
  have releases : ∃ x w p', mutexUnlock x s.lock p = some (w, p') := by
    cases p with
    | compareExchange =>
      refine ⟨.proceed, ?_⟩
      simp only [mutexUnlock]
      split
      · exact ⟨_, _, rfl⟩
      · exact ⟨_, _, rfl⟩
    | futexWake =>
      by_cases nobody : s.lock.sleepers = ∅
      · exact ⟨.proceed, s.lock, none, if_pos nobody⟩
      · obtain ⟨u, asleep⟩ := Finset.nonempty_iff_ne_empty.mpr nobody
        refine ⟨.wake u, { s.lock with sleepers := s.lock.sleepers.erase u }, none, ?_⟩
        simp only [mutexUnlock, nobody, asleep, ↓reduceIte]
  obtain ⟨x, w, p', done⟩ := releases
  refine goOn_of_step (e := .unlock t x) trivial ?_
  simp only [Locked.step, unlocking, done, Option.map_some]
  exact ⟨_, rfl⟩

omit [Fintype Tid] in
/-- A thread awake in `mutex_lock` can move. -/
theorem goOn_lock {c : Call} {a : LockPc} (locking : s.pc t = .locking c a)
    (awake : t ∉ s.lock.sleepers) : ∃ e s', goOn cl s e = some s' := by
  have goes : ∃ w a', mutexLock t .proceed s.lock a = some (w, a') := by
    cases a with
    | compareExchange =>
      simp only [mutexLock]
      split
      · exact ⟨_, _, rfl⟩
      · exact ⟨_, _, rfl⟩
    | futexWait =>
      simp only [mutexLock]
      split
      · exact ⟨_, _, rfl⟩
      · exact ⟨_, _, rfl⟩
    | sleeping =>
      simp only [mutexLock, awake, ↓reduceIte]
      exact ⟨_, _, rfl⟩
  obtain ⟨w, a', done⟩ := goes
  refine goOn_of_step (e := .lock t .proceed) (by intro same; cases same) ?_
  simp only [Locked.step, locking, done, Option.map_some]
  exact ⟨_, rfl⟩

omit [Fintype Tid] in
/-- The thread that is inside can move. -/
theorem goOn_inside {cap : Nat} (small : (cap : Int) ≤ intMax) {locals : Tid → κ}
    (reached : Reachable (Locked.step object cl) (init (queueInit cap) locals) s) {c : Call}
    {p : Code Reply} (inside : s.pc t = .inside c p) : ∃ e s', goOn cl s e = some s' := by
  cases p with
  | ret r => exact goOn_unlock (t := t) (by rw [inside]; rfl)
  | op o k =>
    have inv := Locked.sound (object_spec cap) (initial (queueInit cap) locals)
      (logged_queueInit small) reached
    have crit : (Locked.guarded s).crit t = some (c, (), .op o k) := by
      simp only [Locked.guarded, Function.comp_apply, inside, Locked.Pc.crit]
    obtain ⟨x, r, m, done⟩ := inv.enabled crit
    have performs : object.sem.exec o x s.mem = some (r, m) := done
    refine goOn_of_step (e := .access t x) trivial ?_
    simp only [Locked.step, inside, performs, Option.map_some]
    exact ⟨_, rfl⟩

omit [Fintype Tid] in
/-- While a call is in progress, some thread can move. -/
theorem goOn_possible {cap : Nat} (small : (cap : Int) ≤ intMax) {locals : Tid → κ}
    (reached : Reachable (Locked.step object cl) (init (queueInit cap) locals) s) {t : Tid}
    (busy : s.pc t ≠ .idle) : ∃ e s', goOn cl s e = some s' := by
  have someone : ∃ u, u ∉ s.lock.sleepers ∧ s.pc u ≠ .idle := by
    by_cases asleep : t ∈ s.lock.sleepers
    · exact (attended reached).someone ⟨t, asleep⟩
    · exact ⟨t, asleep, busy⟩
  obtain ⟨u, awake, busy⟩ := someone
  cases at_u : s.pc u with
  | idle => exact (busy at_u).elim
  | locking c a => exact goOn_lock at_u awake
  | inside c p => exact goOn_inside small reached at_u
  | unlocking c r p => exact goOn_unlock (t := u) (by rw [at_u]; rfl)

/-! ## The calls in progress -/

/-- Every call that was in progress still is, or has taken effect since. -/
def Since (s s' : State Tid sig Mem Call Reply κ) : Prop :=
  ∃ more, s'.log = s.log ++ more ∧ ∀ t c, (s.pc t).calling = some c →
    (s'.pc t).calling = some c ∨ ∃ r, ⟨t, c, r⟩ ∈ more

omit [Fintype Tid] in
/-- A step of `t` that leaves its call in progress. -/
theorem Since.keep {s₀ : State Tid sig Mem Call Reply κ} (since : Since s₀ s)
    (pc : s'.pc = Function.update s.pc t new) (log : s'.log = s.log)
    (calling : ∀ c, (s.pc t).calling = some c → new.calling = some c) : Since s₀ s' := by
  obtain ⟨more, grown, known⟩ := since
  refine ⟨more, log.trans grown, ?_⟩
  intro u c before
  rcases known u c before with still | effect
  · left
    rw [pc]
    by_cases same : u = t
    · rw [same, Function.update_self]
      exact calling c (same ▸ still)
    · rw [Function.update_of_ne same]
      exact still
  · exact Or.inr effect

omit [Fintype Tid] in
/-- The call of `t` takes effect. -/
theorem Since.effect {s₀ : State Tid sig Mem Call Reply κ} (since : Since s₀ s) {c : Call}
    {r : Reply} (pc : s'.pc = Function.update s.pc t new) (log : s'.log = s.log ++ [⟨t, c, r⟩])
    (calling : (s.pc t).calling = some c) : Since s₀ s' := by
  obtain ⟨more, grown, known⟩ := since
  refine ⟨more ++ [⟨t, c, r⟩], by rw [log, grown, List.append_assoc], ?_⟩
  intro u c' before
  by_cases same : u = t
  · right
    subst same
    rcases known u c' before with still | ⟨r', member⟩
    · rw [calling] at still
      cases still
      exact ⟨r, List.mem_append_right _ List.mem_cons_self⟩
    · exact ⟨r', List.mem_append_left _ member⟩
  · rcases known u c' before with still | ⟨r', member⟩
    · left
      rw [pc, Function.update_of_ne same]
      exact still
    · exact Or.inr ⟨r', List.mem_append_left _ member⟩

omit [Fintype Tid] in
theorem Since.step {s₀ : State Tid sig Mem Call Reply κ}
    {e : Locked.Event Tid Call Fresh (Kernel Tid)} (since : Since s₀ s)
    (moved : Locked.step object cl s e = some s') : Since s₀ s' := by
  rcases Locked.step_cases moved with ⟨t, c, rfl, out, -, rfl⟩ |
    ⟨t, c, a, x, w, rfl, locking, done, rfl⟩ | ⟨t, c, a, x, w, a', rfl, locking, done, rfl⟩ |
    ⟨t, c, o, k, x, r, m, rfl, inside, done, rfl⟩ |
    ⟨t, c, r, p, x, w, p', rfl, unlocking, done, rfl⟩
  · refine since.keep rfl rfl ?_
    rw [out]
    exact nofun
  · refine since.keep rfl rfl ?_
    rw [locking]
    exact fun _ => id
  · refine since.keep rfl rfl ?_
    rw [locking]
    exact fun _ => id
  · refine since.keep rfl rfl ?_
    rw [inside]
    exact fun _ => id
  · have before := (Locked.Pc.settle_of_atUnlock cl unlocking (s.locals t)).2
    rcases mutexUnlock_cases done with ⟨rfl, -, -, rfl⟩ | ⟨rfl, -, -, rfl⟩ | ⟨rfl, -, -, rfl⟩ |
      ⟨rfl, u, -, -, rfl⟩
    · exact since.effect rfl rfl before
    · exact since.effect rfl rfl before
    · refine since.keep rfl rfl ?_
      rw [before]
      exact nofun
    · refine since.keep rfl rfl ?_
      rw [before]
      exact nofun

/-- **Every call returns.**  From every reachable state, whatever is scheduled, after finitely many
steps without new calls and without spurious wake-ups every thread has returned, and every
call that was in progress has taken effect. -/
theorem calls_return {maxCount : Int} (nonneg : 0 ≤ maxCount) (isInt : maxCount ≤ intMax)
    (locals : Tid → κ)
    (reached : Reachable (Locked.step object cl) (init (queueInit maxCount) locals) s) :
    Inevitable (goOn cl) (fun s' => (∀ t, s'.pc t = .idle) ∧ ∃ more, s'.log = s.log ++ more ∧
      ∀ t c, (s.pc t).calling = some c → ∃ r, ⟨t, c, r⟩ ∈ more) s := by
  obtain ⟨cap, rfl⟩ := Int.eq_ofNat_of_zero_le nonneg
  have bounded : ∀ s, Reachable (Locked.step object cl) (init (queueInit cap) locals) s →
      ∀ t c p, s.pc t = .inside c p → p.Bounded := by
    intro s reached t c p inside
    have run : Relation.ReflTransGen (Guarded.Step object) (Locked.guarded (init (queueInit cap)
        locals)) (Locked.guarded s) := reached.refines fun _ _ _ before moved =>
      (Locked.step_acts (Locked.owned (initial _ _) before) moved).step
    apply Guarded.bounded code_bounded (Locked.Initial.vacant (initial _ _)) run t c ()
    simp only [Locked.guarded, Function.comp_apply, inside, Locked.Pc.crit]
  have keeps : ∀ s' e s'', Reachable (Locked.step object cl) (init (queueInit cap) locals) s' ∧
      Since s s' → goOn cl s' e = some s'' →
        Reachable (Locked.step object cl) (init (queueInit cap) locals) s'' ∧ Since s s'' := by
    intro s' e s'' known moved
    have moved := (restrict_eq_some.mp moved).2
    exact ⟨known.1.tail moved, known.2.step moved⟩
  have start : Since s s :=
    ⟨[], (List.append_nil _).symm, fun t c calling => Or.inl calling⟩
  have quiet : Inevitable (goOn cl) (fun s' => ∀ t, s'.pc t = .idle) s := by
    refine inevitable_of_measure wellFounded_lt measure ?_ keeps ?_ ⟨reached, start⟩
    · intro s' known busy
      obtain ⟨t, busy⟩ := not_forall.mp busy
      exact goOn_possible isInt known.1 busy
    · intro s' e s'' known _ moved
      exact Or.inr (measure_lt (Locked.owned (initial _ _) known.1) (bounded s' known.1) moved)
  refine quiet.mono keeps ?_ ⟨reached, start⟩
  intro s' known idle
  obtain ⟨more, grown, since⟩ := known.2
  refine ⟨idle, more, grown, ?_⟩
  intro t c calling
  rcases since t c calling with still | effect
  · rw [idle t] at still
    cases still
  · exact effect

/-- A reader sleeps, and another one has just failed to take the mutex, while a writer is inside. -/
def crowded : List (Locked.Event (Option Bool) Call Fresh (Kernel (Option Bool))) :=
  [.call none (.add 5), .lock none .proceed, .call (some true) .get, .lock (some true) .proceed,
    .lock (some true) .proceed, .call (some false) .get, .lock (some false) .proceed]

theorem calls_return_crowded : ∃ s : State (Option Bool) sig Mem Call Reply Unit,
    s.lock.sleepers = {some true} ∧
      Inevitable (goOn Client.any) (fun s' => (∀ t, s'.pc t = .idle) ∧
        ∃ more, s'.log = s.log ++ more ∧
          ∀ t c, (s.pc t).calling = some c → ∃ r, ⟨t, c, r⟩ ∈ more) s := by
  have reached : Reachable step (init (queueInit 1) fun _ => ()) _ := ⟨crowded, rfl⟩
  exact ⟨_, by decide,
    calls_return (show (0 : Int) ≤ 1 by decide) (by decide) (fun _ => ()) reached⟩

end Os2Labs.Queue.FutexMutex
