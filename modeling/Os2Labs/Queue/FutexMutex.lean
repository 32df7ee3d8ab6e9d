import Mathlib.Data.Finset.Basic
import Os2Labs.Conc.Lock
import Os2Labs.Queue.Object

/-!
# The queue behind the hand-written futex mutex

`lab2/2/e-mutex/queue.c`.  A thread that finds the mutex taken asks the kernel to
sleep, which compares the lock word with 0 and enqueues the thread in one step, or
returns `EAGAIN`; `mutex_unlock` wakes one sleeper of the kernel's choice.  A
sleeper may also wake for no reason.

`no_lost_wakeup` is about any critical section; `accounting` is about the
operations of the queue.
-/

namespace Os2Labs.Queue.FutexMutex

open Conc

/-- `mutex_t`, and the threads the kernel has put to sleep on it. -/
structure MutexT (Tid : Type) where
  lock : Int
  sleepers : Finset Tid

/-- The program points of `mutex_lock`. -/
inductive LockPc where
  | compareExchange
  | futexWait
  | sleeping
deriving DecidableEq

/-- The program points of `mutex_unlock`. -/
inductive UnlockPc where
  | compareExchange
  | futexWake
deriving DecidableEq

/-- What the kernel decides. -/
inductive Kernel (Tid : Type) where
  | proceed
  | spurious
  | wake (u : Tid)
deriving DecidableEq

variable {Tid : Type} [DecidableEq Tid]

/-- One step of `mutex_lock`; `FUTEX_WAIT` returns 0 or `EAGAIN`. -/
def mutexLock (t : Tid) (x : Kernel Tid) (m : MutexT Tid) :
    LockPc → Option (MutexT Tid × Option LockPc)
  | .compareExchange =>
      match Conc.compareExchange m.lock 1 0 with
      | (true, lock) => some ({ m with lock := lock }, none)
      | (false, lock) => some ({ m with lock := lock }, some .futexWait)
  | .futexWait =>
      if m.lock = 0 then some ({ m with sleepers := insert t m.sleepers }, some .sleeping)
      else some (m, some .compareExchange)
  | .sleeping =>
      if t ∈ m.sleepers then
        if x = .spurious then
          some ({ m with sleepers := m.sleepers.erase t }, some .compareExchange)
        else none
      else some (m, some .compareExchange)

/-- One step of `mutex_unlock`; `FUTEX_WAKE` wakes one sleeper if there is one. -/
def mutexUnlock (x : Kernel Tid) (m : MutexT Tid) :
    UnlockPc → Option (MutexT Tid × Option UnlockPc)
  | .compareExchange =>
      match Conc.compareExchange m.lock 0 1 with
      | (true, lock) => some ({ m with lock := lock }, some .futexWake)
      | (false, lock) => some ({ m with lock := lock }, none)
  | .futexWake =>
      if m.sleepers = ∅ then some (m, none)
      else
        match x with
        | .wake u =>
            if u ∈ m.sleepers then some ({ m with sleepers := m.sleepers.erase u }, none) else none
        | _ => none

/-- Everything a step of `mutex_lock` can do. -/
theorem mutexLock_cases {t : Tid} {x : Kernel Tid} {m m' : MutexT Tid} {a : LockPc}
    {a' : Option LockPc} (moved : mutexLock t x m a = some (m', a')) :
    (m.lock = 1 ∧ m' = { m with lock := 0 } ∧ a' = none ∧ a = .compareExchange) ∨
    (m.lock = 0 ∧ m' = { m with sleepers := insert t m.sleepers } ∧ a' = some .sleeping) ∨
    (m' = m ∧ a' = some .futexWait ∧ a = .compareExchange) ∨
    (m' = { m with sleepers := m.sleepers.erase t } ∧ a' = some .compareExchange) ∨
    (m' = m ∧ a' = some .compareExchange ∧ a = .futexWait) := by
  cases a with
  | compareExchange =>
    simp only [mutexLock, Conc.compareExchange] at moved
    by_cases free : m.lock = 1
    · simp only [free, ↓reduceIte] at moved
      cases moved
      exact Or.inl ⟨free, rfl, rfl, rfl⟩
    · simp only [free, ↓reduceIte] at moved
      cases moved
      exact Or.inr (Or.inr (Or.inl ⟨rfl, rfl, rfl⟩))
  | futexWait =>
    simp only [mutexLock] at moved
    split at moved
    · next taken =>
      cases moved
      exact Or.inr (Or.inl ⟨taken, rfl, rfl⟩)
    · cases moved
      exact Or.inr (Or.inr (Or.inr (Or.inr ⟨rfl, rfl, rfl⟩)))
  | sleeping =>
    simp only [mutexLock] at moved
    split at moved
    · split at moved
      · cases moved
        exact Or.inr (Or.inr (Or.inr (Or.inl ⟨rfl, rfl⟩)))
      · cases moved
    · next woken =>
      cases moved
      have same : m.sleepers.erase t = m.sleepers := Finset.erase_eq_of_notMem woken
      exact Or.inr (Or.inr (Or.inr (Or.inl ⟨by rw [same], rfl⟩)))

/-- Everything a step of `mutex_unlock` can do. -/
theorem mutexUnlock_cases {x : Kernel Tid} {m m' : MutexT Tid} {r : UnlockPc}
    {r' : Option UnlockPc} (moved : mutexUnlock x m r = some (m', r')) :
    (r = .compareExchange ∧ m.lock = 0 ∧ m' = { m with lock := 1 } ∧ r' = some .futexWake) ∨
    (r = .compareExchange ∧ m.lock ≠ 0 ∧ m' = m ∧ r' = none) ∨
    (r = .futexWake ∧ m.sleepers = ∅ ∧ m' = m ∧ r' = none) ∨
    (r = .futexWake ∧ ∃ u ∈ m.sleepers, m' = { m with sleepers := m.sleepers.erase u } ∧
      r' = none) := by
  cases r with
  | compareExchange =>
    simp only [mutexUnlock, Conc.compareExchange] at moved
    by_cases taken : m.lock = 0
    · simp only [taken, ↓reduceIte] at moved
      cases moved
      exact Or.inl ⟨rfl, taken, rfl, rfl⟩
    · simp only [taken, ↓reduceIte] at moved
      cases moved
      exact Or.inr (Or.inl ⟨rfl, taken, rfl, rfl⟩)
  | futexWake =>
    simp only [mutexUnlock] at moved
    split at moved
    · next nobody =>
      cases moved
      exact Or.inr (Or.inr (Or.inl ⟨rfl, nobody, rfl, rfl⟩))
    · split at moved
      · next u =>
        split at moved
        · next asleep =>
          cases moved
          exact Or.inr (Or.inr (Or.inr ⟨rfl, u, asleep, rfl, rfl⟩))
        · cases moved
      · cases moved

variable (Tid) in
/-- The mutex: 1 is free and 0 is taken. -/
abbrev futexMutex : Lock Tid (MutexT Tid) (Kernel Tid) where
  Acq := LockPc
  Rel := UnlockPc
  lock := .compareExchange
  unlock := .compareExchange
  acquire := mutexLock
  release _ := mutexUnlock
  owns r := r = .compareExchange
  word m := m.lock
  free := 1
  held := 0
  owns_unlock := rfl
  acquired := by
    intro t x m a m' moved
    rcases mutexLock_cases moved with ⟨free, rfl, -⟩ | ⟨-, -, stays⟩ | ⟨-, stays, -⟩ |
      ⟨-, stays⟩ | ⟨-, stays, -⟩
    · exact ⟨free, rfl⟩
    all_goals cases stays
  acquiring := by
    intro t x m a m' a' moved
    rcases mutexLock_cases moved with ⟨-, -, gone, -⟩ | ⟨-, rfl, -⟩ | ⟨rfl, -⟩ | ⟨rfl, -⟩ | ⟨rfl, -⟩
    · cases gone
    all_goals rfl
  released := by
    intro t x m r m' r' moved owns held
    rcases mutexUnlock_cases moved with ⟨-, -, rfl, rfl⟩ | ⟨-, free, -⟩ | ⟨rfl, -⟩ | ⟨rfl, -⟩
    · rfl
    · exact (free held).elim
    all_goals cases owns
  releasing := by
    intro t x m r m' r' moved owns
    rcases mutexUnlock_cases moved with ⟨rfl, -⟩ | ⟨rfl, -⟩ | ⟨-, -, rfl, rfl⟩ |
      ⟨-, u, -, rfl, rfl⟩
    · cases owns
    · cases owns
    all_goals exact ⟨rfl, rfl⟩
  distinct := Int.one_ne_zero

/-! ## No lost wake-up -/

section Wakeup

variable {S : Signature} {σ χ C Rep κ : Type} {O : Object S σ χ C Rep Unit} {cl : Client κ C Rep}

variable (Tid S σ C Rep κ) in
abbrev State := Locked.State (futexMutex Tid) S σ C Rep κ

/-- The mutex after `mutex_init`, and every thread outside. -/
def init (mem : σ) (locals : Tid → κ) : State Tid S σ C Rep κ where
  lock := ⟨1, ∅⟩
  mem := mem
  pc _ := .idle
  locals := locals
  log := []

theorem initial (mem : σ) (locals : Tid → κ) :
    Locked.Initial (init mem locals : State Tid S σ C Rep κ) := ⟨rfl, fun _ => rfl, rfl⟩

/-- Awake between entering `mutex_lock` and leaving it. -/
def AwakeInLock (s : State Tid S σ C Rep κ) (t : Tid) : Prop :=
  t ∉ s.lock.sleepers ∧ ∃ c a, s.pc t = .locking c a

/-- Between the unlocking compare-exchange and the `FUTEX_WAKE`. -/
def AboutToWake (s : State Tid S σ C Rep κ) (t : Tid) : Prop :=
  ∃ c r, s.pc t = .unlocking c r .futexWake

/-- The thread is blocked in `FUTEX_WAIT`. -/
def waiting : Locked.Pc (futexMutex Tid) S C Rep → Bool
  | .locking _ LockPc.sleeping => true
  | _ => false

/-- Only waiting threads sleep, and when one does, another is awake inside or in the code of the
mutex. -/
structure Attended (s : State Tid S σ C Rep κ) : Prop where
  asleep : ∀ t ∈ s.lock.sleepers, waiting (s.pc t) = true
  someone : s.lock.sleepers.Nonempty → ∃ u, u ∉ s.lock.sleepers ∧ s.pc u ≠ .idle

theorem Attended.awake {s : State Tid S σ C Rep κ} (attended : Attended s) {t : Tid}
    (here : waiting (s.pc t) = false) : t ∉ s.lock.sleepers := by
  intro asleep
  have there := attended.asleep t asleep
  rw [here] at there
  cases there

/-- A step after which `t` is awake and not outside. -/
theorem Attended.active {s s' : State Tid S σ C Rep κ} (attended : Attended s) {t : Tid}
    (fewer : s'.lock.sleepers ⊆ s.lock.sleepers) (awake : t ∉ s'.lock.sleepers)
    (busy : s'.pc t ≠ .idle) (others : ∀ u, u ≠ t → s'.pc u = s.pc u) : Attended s' := by
  refine ⟨fun u asleep => ?_, fun _ => ⟨t, awake, busy⟩⟩
  have ne : u ≠ t := by
    intro same
    subst same
    exact awake asleep
  rw [others u ne]
  exact attended.asleep u (fewer asleep)

/-- The owner of the lock is awake. -/
theorem Attended.owner_awake {s : State Tid S σ C Rep κ} (attended : Attended s) {t : Tid}
    (owner : (s.pc t).Owner) : t ∉ s.lock.sleepers := by
  apply attended.awake
  cases at_t : s.pc t with
  | locking c a =>
    rw [at_t] at owner
    exact (owner rfl).elim
  | _ => rfl

/-- At `unlock` a thread is awake. -/
theorem waiting_of_atUnlock {pc : Locked.Pc (futexMutex Tid) S C Rep} {c : C} {r : Rep}
    {p : UnlockPc} (unlocking : pc.atUnlock = some (c, r, p)) : waiting pc = false := by
  cases pc with
  | locking c a => cases unlocking
  | _ => rfl

/-- Going to sleep on a mutex that is taken. -/
theorem Attended.sleep {s : State Tid S σ C Rep κ} (owned : Locked.Owned s)
    (attended : Attended s) (taken : s.lock.lock = 0) {t : Tid} {c : C} {a : LockPc}
    (locking : s.pc t = .locking c a) :
    Attended { s with
      lock := { s.lock with sleepers := insert t s.lock.sleepers }
      pc := Function.update s.pc t (.locking c LockPc.sleeping) } := by
  constructor
  · intro u asleep
    by_cases same : u = t
    · simp only [same, Function.update_self, waiting]
    · simp only [Function.update_of_ne same]
      exact attended.asleep u (Finset.mem_of_mem_insert_of_ne asleep same)
  · intro _
    rcases owned with ⟨free, -⟩ | ⟨-, v, owner, -⟩
    · rw [show s.lock.lock = 1 from free] at taken
      cases taken
    · have ne : v ≠ t := by
        intro same
        subst same
        rw [locking] at owner
        exact owner rfl
      refine ⟨v, ?_, ?_⟩
      · rw [Finset.mem_insert]
        intro known
        rcases known with same | asleep
        · exact ne same
        · exact attended.owner_awake owner asleep
      · simp only [Function.update_of_ne ne]
        intro out
        rw [out] at owner
        exact owner rfl

theorem Attended.step {s s' : State Tid S σ C Rep κ} {e : Locked.Event Tid C χ (Kernel Tid)}
    (owned : Locked.Owned s) (attended : Attended s) (moved : Locked.step O cl s e = some s') :
    Attended s' := by
  rcases Locked.step_cases moved with ⟨t, c, -, out, -, rfl⟩ |
    ⟨t, c, a, x, w, -, locking, done, rfl⟩ | ⟨t, c, a, x, w, a', -, locking, done, rfl⟩ |
    ⟨t, c, o, k, x, r, m, -, inside, done, rfl⟩ | ⟨t, c, r, p, x, w, p', -, unlocking, done, rfl⟩
  · refine attended.active (t := t) subset_rfl ?_ ?_ fun u ne => Function.update_of_ne ne _ _
    · exact attended.awake (by rw [out]; rfl)
    · simp
  · rcases mutexLock_cases done with ⟨-, rfl, -, rfl⟩ | ⟨-, -, stays⟩ | ⟨-, stays, -⟩ |
      ⟨-, stays⟩ | ⟨-, stays, -⟩
    · refine attended.active (t := t) subset_rfl ?_ ?_ fun u ne => Function.update_of_ne ne _ _
      · exact attended.awake (by rw [locking]; rfl)
      · simp
    all_goals cases stays
  · rcases mutexLock_cases done with ⟨-, -, gone, -⟩ | ⟨taken, rfl, next⟩ | ⟨rfl, -, rfl⟩ |
      ⟨rfl, -⟩ | ⟨rfl, -, rfl⟩
    · cases gone
    · cases next
      exact attended.sleep owned taken locking
    · refine attended.active (t := t) subset_rfl ?_ ?_ fun u ne => Function.update_of_ne ne _ _
      · exact attended.awake (by rw [locking]; rfl)
      · simp
    · refine attended.active (t := t) (Finset.erase_subset _ _) (Finset.notMem_erase _ _) ?_
        fun u ne => Function.update_of_ne ne _ _
      simp
    · refine attended.active (t := t) subset_rfl ?_ ?_ fun u ne => Function.update_of_ne ne _ _
      · exact attended.awake (by rw [locking]; rfl)
      · simp
  · refine attended.active (t := t) subset_rfl ?_ ?_ fun u ne => Function.update_of_ne ne _ _
    · exact attended.awake (by rw [inside]; rfl)
    · simp
  · have awake := attended.awake (waiting_of_atUnlock unlocking)
    rcases mutexUnlock_cases done with ⟨rfl, -, rfl, rfl⟩ | ⟨rfl, free, -⟩ |
      ⟨rfl, nobody, rfl, rfl⟩ | ⟨rfl, u, asleep, rfl, rfl⟩
    · refine attended.active (t := t) subset_rfl awake ?_ fun u ne => Function.update_of_ne ne _ _
      simp
    · have owner : (s.pc t).Owner := by
        rw [Locked.Pc.Owner, Locked.Pc.crit_of_atUnlock unlocking]
        exact Option.some_ne_none _
      exact (free (owned.held owner)).elim
    · constructor
      · intro u asleep
        simp only [nobody, Finset.notMem_empty] at asleep
      · intro someone
        simp only [nobody, Finset.not_nonempty_empty] at someone
    · -- `u` is awake now, and still in `mutex_lock`
      have ne : u ≠ t := by
        intro same
        subst same
        exact awake asleep
      have still := attended.asleep u asleep
      constructor
      · intro v member
        have apart : v ≠ t := by
          intro same
          subst same
          exact awake (Finset.mem_of_mem_erase member)
        simp only [Function.update_of_ne apart]
        exact attended.asleep v (Finset.mem_of_mem_erase member)
      · intro _
        refine ⟨u, Finset.notMem_erase _ _, ?_⟩
        simp only [Function.update_of_ne ne]
        intro out
        rw [out] at still
        cases still

theorem attended {mem : σ} {locals : Tid → κ} {s : State Tid S σ C Rep κ}
    (reached : Reachable (Locked.step O cl) (init mem locals) s) : Attended s := by
  refine reached.induction ?_ fun a b e before ih moved =>
    ih.step (Locked.owned (initial mem locals) before) moved
  constructor
  · intro t asleep
    simp only [init, Finset.notMem_empty] at asleep
  · intro someone
    simp only [init, Finset.not_nonempty_empty] at someone

/-- What a thread that is awake and not outside is doing. -/
theorem awake_cases {s : State Tid S σ C Rep κ} {t : Tid} (awake : t ∉ s.lock.sleepers)
    (busy : s.pc t ≠ .idle) : (s.pc t).Owner ∨ AwakeInLock s t ∨ AboutToWake s t := by
  cases at_t : s.pc t with
  | idle => exact (busy at_t).elim
  | locking c a => exact Or.inr (Or.inl ⟨awake, c, a, at_t⟩)
  | inside c p => exact Or.inl (Option.some_ne_none _)
  | unlocking c r p =>
    cases p with
    | compareExchange => exact Or.inl (Option.some_ne_none _)
    | futexWake => exact Or.inr (Or.inr ⟨c, r, at_t⟩)

/-- **No wake-up is lost.**  Whatever the critical sections, when some thread sleeps in
`FUTEX_WAIT` another one is inside, or awake in `mutex_lock`, or about to call
`FUTEX_WAKE`; so never do all threads sleep, and when the mutex is free it is one of the last
two. -/
theorem no_lost_wakeup (mem : σ) (locals : Tid → κ) (s : State Tid S σ C Rep κ)
    (reached : Reachable (Locked.step O cl) (init mem locals) s)
    (someone : ∃ t, t ∈ s.lock.sleepers) :
    (∃ u, (s.pc u).Owner ∨ AwakeInLock s u ∨ AboutToWake s u) ∧
      (∃ u, u ∉ s.lock.sleepers) ∧
      (s.lock.lock = 1 → ∃ u, AwakeInLock s u ∨ AboutToWake s u) := by
  rcases (attended reached).someone someone with ⟨u, awake, busy⟩
  have doing := awake_cases awake busy
  refine ⟨⟨u, doing⟩, ⟨u, awake⟩, fun free => ⟨u, ?_⟩⟩
  rcases doing with owner | elsewhere
  · have held := (Locked.owned (initial mem locals) reached).held owner
    cases free.symm.trans held
  · exact elsewhere

end Wakeup

/-- One step of one thread using the queue. -/
def step : State Tid sig Mem Call Reply Unit → Locked.Event Tid Call Fresh (Kernel Tid) →
    Option (State Tid sig Mem Call Reply Unit) :=
  Locked.step object Client.any

/-- A reader sleeps while a writer is inside. -/
theorem no_lost_wakeup_sleeper : ∃ s : State Bool sig Mem Call Reply Unit,
    s.lock.sleepers = {false} ∧ (∃ u, (s.pc u).Owner ∨ AwakeInLock s u ∨ AboutToWake s u) ∧
      (∃ u, u ∉ s.lock.sleepers) ∧
      (s.lock.lock = 1 → ∃ u, AwakeInLock s u ∨ AboutToWake s u) := by
  have reached : Reachable step (init (queueInit 1) fun _ => ()) _ :=
    ⟨[.call true (.add 5), .lock true .proceed, .call false .get, .lock false .proceed,
      .lock false .proceed], rfl⟩
  exact ⟨_, by decide, no_lost_wakeup (queueInit 1) (fun _ => ()) _ reached ⟨false, by decide⟩⟩

/-! ## Accounting -/

/-- **Exact accounting.**  Any threads making any calls: at most one is between the return
of `mutex_lock` and the unlocking compare-exchange; no access faults, no assert fails and
the count never leaves `int`; and whenever no thread is there, the count, the chain and the
statistics are those of the calls whose critical section is over. -/
theorem accounting {maxCount : Int} (nonneg : 0 ≤ maxCount) (isInt : maxCount ≤ intMax)
    (s : State Tid sig Mem Call Reply Unit)
    (reached : Reachable step (init (queueInit maxCount) fun _ => ()) s) :
    (∀ t u, (s.pc t).Owner → (s.pc u).Owner → t = u) ∧ ¬ Locked.Faulty object s ∧
      ((∀ t, ¬ (s.pc t).Owner) → Exact maxCount s.mem s.log) := by
  rcases Int.eq_ofNat_of_zero_le nonneg with ⟨cap, rfl⟩
  have inv := Locked.sound (object_spec cap) (initial _ _) (logged_queueInit isInt) reached
  refine ⟨inv.exclusive, Locked.not_faulty inv, fun nobody => ?_⟩
  obtain ⟨items, holds⟩ := inv.idle fun t => not_not.mp (nobody t)
  exact holds.exact

/-- Everything one thread does between entering and leaving a call, with the mutex free. -/
def alone (t : Bool) (c : Call) (accesses : Nat) :
    List (Locked.Event Bool Call Fresh (Kernel Bool)) :=
  .call t c :: .lock t .proceed :: List.replicate accesses (.access t ⟨0, ⟨0, none⟩⟩) ++
    [.unlock t .proceed, .unlock t .proceed]

/-- An add, a failing add and a get. -/
theorem accounting_example : ∃ s : State Bool sig Mem Call Reply Unit,
    s.log.map (fun d => d.reply.ret) = [1, 0, 1] ∧ s.mem.q.addAttempts = 2 ∧
      (∀ t u, (s.pc t).Owner → (s.pc u).Owner → t = u) ∧ ¬ Locked.Faulty object s ∧
      ((∀ t, ¬ (s.pc t).Owner) → Exact 1 s.mem s.log) := by
  have reached : Reachable step (init (queueInit 1) fun _ => ()) _ :=
    ⟨alone true (.add 5) 18 ++ alone true (.add 6) 7 ++ alone false .get 15, rfl⟩
  exact ⟨_, by decide, by decide,
    accounting (show (0 : Int) ≤ 1 by decide) (by decide) _ reached⟩

end Os2Labs.Queue.FutexMutex
