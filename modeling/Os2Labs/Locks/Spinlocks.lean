import Os2Labs.Conc.LockCalls
import Os2Labs.Queue.Spinlock

/-!
# The two spinlocks

`spinlock_t` of `lab2/4/4.c` next to that of `lab2/2/a-spinlock/queue.c`.  Here 0 is free and 1
is taken; `spinlock_lock` writes 1 at every attempt and, while what it has replaced was not
0, only reads until it sees 0; `spinlock_unlock` writes 0 without looking.

`same_behaviour`: threads that call `lock` and `unlock` in any order, also to unlock what they
do not hold, have the same traces with either lock; and when they unlock only what they hold, the
traces of the abstract lock.
-/

namespace Os2Labs.Locks.Spinlocks

open Conc LockCalls
open Queue.Spinlock (spinlock)

variable {Tid : Type}

/-- The program points of `spinlock_lock`. -/
inductive SpinLockPc where
  | atomicExchange
  | atomicLoad
deriving DecidableEq

/-- One step of `spinlock_lock`: the word after it, and where to go on. -/
def spinlockLock (lock : Int) : SpinLockPc → Int × Option SpinLockPc
  | .atomicExchange => if lock ≠ 0 then (1, some .atomicLoad) else (1, none)
  | .atomicLoad => if lock ≠ 0 then (lock, some .atomicLoad) else (lock, some .atomicExchange)

/-- `spinlock_unlock`. -/
def spinlockUnlock (_lock : Int) : Int := 0

/-- Whether the lock is taken: what `spinlock_lock` looks at. -/
def taken (lock : Int) : Int := if lock ≠ 0 then 1 else 0

/-- What a step of `spinlock_lock` does to it. -/
theorem spinlockLock_taken {lock lock' : Int} {a : SpinLockPc} {a' : Option SpinLockPc}
    (moved : spinlockLock lock a = (lock', a')) :
    (taken lock = 0 ∧ lock' = 1 ∧ a' = none) ∨ (taken lock' = taken lock ∧ a'.isSome = true) := by
  cases a with
  | atomicExchange =>
    simp only [spinlockLock] at moved
    split at moved
    · next busy =>
      cases moved
      refine Or.inr ⟨?_, rfl⟩
      simp [taken, busy]
    · next free =>
      cases moved
      refine Or.inl ⟨?_, rfl, rfl⟩
      simp [taken, free]
  | atomicLoad =>
    simp only [spinlockLock] at moved
    split at moved
    · cases moved
      exact Or.inr ⟨rfl, rfl⟩
    · cases moved
      exact Or.inr ⟨rfl, rfl⟩

/-- `spinlock_t` of `lab2/4`. -/
def spinlockExchange (Tid : Type) : Lock Tid Int Unit where
  Acq := SpinLockPc
  Rel := Unit
  lock := .atomicExchange
  unlock := ()
  acquire _ _ lock a := some (spinlockLock lock a)
  release _ _ lock _ := some (spinlockUnlock lock, none)
  owns _ := true
  word := taken
  free := 0
  held := 1
  owns_unlock := rfl
  acquired := by
    intro _ _ lock a lock' moved
    rcases spinlockLock_taken (Option.some.inj moved) with ⟨free, rfl, -⟩ | ⟨-, goes⟩
    · exact ⟨free, rfl⟩
    · cases goes
  acquiring := by
    intro _ _ lock a lock' a' moved
    rcases spinlockLock_taken (Option.some.inj moved) with ⟨-, -, ends⟩ | ⟨same, -⟩
    · cases ends
    · exact same
  released := by
    intro _ _ lock _ _ _ moved _ _
    cases moved
    rfl
  releasing := nofun
  distinct := Int.zero_ne_one

/-! ## Each follows the other -/

/-- The words of the two locks. -/
def Opposite (lock lock' : Int) : Prop := (lock = 1 ∧ lock' = 0) ∨ (lock = 0 ∧ lock' = 1)

/-- A thread that spins on the free lock gets it in at most two steps. -/
theorem gets_free (t : Tid) (a : SpinLockPc) : (spinlockExchange Tid).Gets t 0 a 1 := by
  have exchange : (spinlockExchange Tid).Gets t 0 .atomicExchange 1 := .done (x := ()) rfl
  cases a with
  | atomicExchange => exact exchange
  | atomicLoad => exact .more (x := ()) rfl exchange

theorem exchange_follows :
    (spinlock Tid).Follows (spinlockExchange Tid) Opposite fun _ _ => True where
  spins := by
    intro t x w v a w' a' opposite moved
    rcases Queue.Spinlock.spinlockLock_cases w with ⟨-, got⟩ | failed
    · cases (Option.some.inj moved).symm.trans got
    · cases (Option.some.inj moved).symm.trans failed
      exact opposite
  gets := by
    intro t x w v a w' opposite moved b
    rcases Queue.Spinlock.spinlockLock_cases w with ⟨free, got⟩ | failed
    · cases (Option.some.inj moved).symm.trans got
      rcases opposite with ⟨-, rfl⟩ | ⟨taken, -⟩
      · exact ⟨1, gets_free t b, Or.inr ⟨rfl, rfl⟩⟩
      · cases free.symm.trans taken
    · cases (Option.some.inj moved).symm.trans failed
  atOnce := by
    intro t x w r w' r' moved
    cases moved
    rfl
  unlocks := by
    intro t x w v r w' opposite moved _ q
    cases moved
    refine ⟨(), 0, rfl, Or.inl ⟨?_, rfl⟩⟩
    rcases opposite with ⟨rfl, -⟩ | ⟨rfl, -⟩
    · rfl
    · rfl

theorem compareExchange_follows :
    (spinlockExchange Tid).Follows (spinlock Tid) (fun lock' lock => Opposite lock lock')
      fun _ _ => True where
  spins := by
    intro t x w v a w' a' opposite moved
    rcases opposite with ⟨rfl, rfl⟩ | ⟨rfl, rfl⟩
    · refine Or.inl ⟨rfl, ?_⟩
      cases a with
      | atomicExchange => cases moved
      | atomicLoad =>
        cases moved
        rfl
    · refine Or.inr ⟨rfl, ?_⟩
      cases a with
      | atomicExchange =>
        cases moved
        rfl
      | atomicLoad =>
        cases moved
        rfl
  gets := by
    intro t x w v a w' opposite moved b
    rcases spinlockLock_taken (Option.some.inj moved) with ⟨free, rfl, -⟩ | ⟨-, goes⟩
    · rcases opposite with ⟨rfl, -⟩ | ⟨-, rfl⟩
      · exact ⟨0, .done (x := ()) rfl, Or.inr ⟨rfl, rfl⟩⟩
      · cases free
    · cases goes
  atOnce := by
    intro t x w r w' r' moved
    cases moved
    rfl
  unlocks := by
    intro t x w v r w' opposite moved _ q
    cases moved
    refine ⟨(), 1, ?_, Or.inl ⟨rfl, rfl⟩⟩
    rcases opposite with ⟨rfl, -⟩ | ⟨rfl, -⟩
    · rfl
    · rfl

/-! ## The abstract lock -/

section Abstract

variable [DecidableEq Tid]

/-- The word of `lab2/2` and the holder. -/
def Agrees (lock : Int) (holder : Option Tid) : Prop := lock = if holder = none then 1 else 0

theorem abstract_follows :
    (spinlock Tid).Follows (Lock.abstract Tid) Agrees fun t holder => holder = some t where
  spins := by
    intro t x w v a w' a' agrees moved
    rcases Queue.Spinlock.spinlockLock_cases w with ⟨-, got⟩ | failed
    · cases (Option.some.inj moved).symm.trans got
    · cases (Option.some.inj moved).symm.trans failed
      exact agrees
  gets := by
    intro t x w v a w' agrees moved b
    rcases Queue.Spinlock.spinlockLock_cases w with ⟨free, got⟩ | failed
    · cases (Option.some.inj moved).symm.trans got
      have vacant : v = none := by
        by_contra had
        rw [Agrees, if_neg had] at agrees
        cases free.symm.trans agrees
      subst vacant
      exact ⟨some t, .done (x := ()) rfl, rfl⟩
    · cases (Option.some.inj moved).symm.trans failed
  atOnce := by
    intro t x w r w' r' moved
    cases moved
    rfl
  unlocks := by
    intro t x w v r w' agrees moved mine q
    subst mine
    cases moved
    cases agrees
    exact ⟨(), none, if_pos rfl, rfl⟩

theorem follows_abstract :
    (Lock.abstract Tid).Follows (spinlock Tid) (fun holder lock => Agrees lock holder)
      fun _ _ => True where
  spins := by
    intro t x w v a w' a' agrees moved
    simp only [Lock.abstract] at moved
    split at moved <;> cases moved
  gets := by
    intro t x w v a w' agrees moved b
    simp only [Lock.abstract] at moved
    split at moved
    · next vacant =>
      cases moved
      subst vacant
      cases agrees
      exact ⟨0, .done (x := ()) rfl, rfl⟩
    · cases moved
  atOnce := by
    intro t x w r w' r' moved
    simp only [Lock.abstract] at moved
    split at moved
    · cases moved
      rfl
    · cases moved
  unlocks := by
    intro t x w v r w' agrees moved _ q
    simp only [Lock.abstract] at moved
    split at moved
    · next mine =>
      cases moved
      subst mine
      cases agrees
      exact ⟨(), 1, rfl, rfl⟩
    · cases moved

/-- **The two spinlocks admit the same behaviours.**  Any threads that run any programs of calls of
`lock` and `unlock`: the sequences of acquisitions and unlocks that are possible with the
exchange of `lab2/4` are those that are possible with the compare-exchange of `lab2/2`; and
those in which threads unlock only what they hold are the ones of the abstract lock, which are
all of them when the programs do nothing else. -/
theorem same_behaviour {κ : Type} (cl : Client κ LockCall Unit) (locals : Tid → κ) :
    Traces (step cl) sign (init (spinlockExchange Tid) 0 locals) =
        Traces (step cl) sign (init (spinlock Tid) 1 locals) ∧
      Traces (step cl) sign (init (spinlock Tid) 1 locals) ∩ {seen | OnlyHeld seen} =
        Traces (step cl) sign (init (Lock.abstract Tid) none locals) ∧
      ((∀ seen ∈ Traces (step cl) sign (init (spinlock Tid) 1 locals), OnlyHeld seen) →
        Traces (step cl) sign (init (spinlockExchange Tid) 0 locals) =
            Traces (step cl) sign (init (Lock.abstract Tid) none locals) ∧
          Traces (step cl) sign (init (spinlock Tid) 1 locals) =
            Traces (step cl) sign (init (Lock.abstract Tid) none locals)) := by
  have same : Traces (step cl) sign (init (spinlockExchange Tid) 0 locals) =
      Traces (step cl) sign (init (spinlock Tid) 1 locals) := by
    apply Set.Subset.antisymm
    · exact Follows.traces compareExchange_follows (Or.inl ⟨rfl, rfl⟩) locals
    · exact Follows.traces exchange_follows (Or.inl ⟨rfl, rfl⟩) locals
  have held : Traces (step cl) sign (init (spinlock Tid) 1 locals) ∩ {seen | OnlyHeld seen} =
      Traces (step cl) sign (init (Lock.abstract Tid) none locals) := by
    apply Set.Subset.antisymm
    · intro seen both
      exact Follows.traces_abstract abstract_follows rfl locals both.1 both.2
    · intro seen trace
      exact ⟨Follows.traces follows_abstract rfl locals trace, abstract_onlyHeld trace⟩
  refine ⟨same, held, fun only => ?_⟩
  have all : Traces (step cl) sign (init (spinlock Tid) 1 locals) =
      Traces (step cl) sign (init (Lock.abstract Tid) none locals) := by
    rw [← held]
    exact (Set.inter_eq_left.mpr only).symm
  exact ⟨same.trans all, all⟩

/-- A program that alternates the two calls. -/
def alternating : Client Bool LockCall Unit where
  calls holds c := c = if holds then .unlock else .lock
  returns _ c _ := c = .lock

theorem alternating_disciplined : Disciplined alternating fun holds => holds where
  unlocks k calls := by
    cases k with
    | true => rfl
    | false => cases calls
  locked _ := rfl
  unlocked _ := rfl

/-- Two threads that alternate `lock` and `unlock`. -/
theorem same_behaviour_alternating :
    Traces (step alternating) sign (init (spinlockExchange Bool) 0 fun _ => false) =
        Traces (step alternating) sign (init (Lock.abstract Bool) none fun _ => false) ∧
      Traces (step alternating) sign (init (spinlock Bool) 1 fun _ => false) =
        Traces (step alternating) sign (init (Lock.abstract Bool) none fun _ => false) :=
  (same_behaviour alternating fun _ => false).2.2 fun _ trace =>
    alternating_disciplined.onlyHeld (fun _ => rfl) trace

end Abstract

end Os2Labs.Locks.Spinlocks
