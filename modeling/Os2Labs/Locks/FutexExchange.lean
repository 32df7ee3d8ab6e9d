import Os2Labs.Conc.Bisimulation
import Os2Labs.Queue.FutexMutex

/-!
# The two futex mutexes

`futex_mutex_t` of `lab2/4/4.c` next to `mutex_t` of `lab2/2/e-mutex/queue.c`.  Here 0 is free
and 1 is taken; `futex_mutex_lock` writes 1 at every attempt and looks at what it has
replaced, and `futex_mutex_unlock` writes 0 and wakes a sleeper without looking.

`interchangeable`: threads that alternate `lock` and `unlock`, with any critical section
between them, cannot be told from threads that use the other mutex.
-/

namespace Os2Labs.Locks.FutexExchange

open Conc
open Queue.FutexMutex (Kernel MutexT LockPc UnlockPc mutexLock mutexUnlock futexMutex)

/-- `futex_mutex_t`, and the threads the kernel has put to sleep on it. -/
structure FutexMutexT (Tid : Type) where
  mutex : Int
  sleepers : Finset Tid

/-- The program points of `futex_mutex_lock`. -/
inductive FutexLockPc where
  | testAndSet
  | futexWait
  | sleeping
deriving DecidableEq

/-- The program points of `futex_mutex_unlock`. -/
inductive FutexUnlockPc where
  | lockRelease
  | futexWake
deriving DecidableEq

variable {Tid : Type} [DecidableEq Tid]

/-- One step of `futex_mutex_lock`, which does not look at the result of `FUTEX_WAIT`. -/
def futexMutexLock (t : Tid) (x : Kernel Tid) (m : FutexMutexT Tid) :
    FutexLockPc → Option (FutexMutexT Tid × Option FutexLockPc)
  | .testAndSet =>
      if m.mutex ≠ 0 then some ({ m with mutex := 1 }, some .futexWait)
      else some ({ m with mutex := 1 }, none)
  | .futexWait =>
      if m.mutex = 1 then some ({ m with sleepers := insert t m.sleepers }, some .sleeping)
      else some (m, some .testAndSet)
  | .sleeping =>
      if t ∈ m.sleepers then
        if x = .spurious then
          some ({ m with sleepers := m.sleepers.erase t }, some .testAndSet)
        else none
      else some (m, some .testAndSet)

/-- One step of `futex_mutex_unlock`; `FUTEX_WAKE` wakes one sleeper if there is one. -/
def futexMutexUnlock (x : Kernel Tid) (m : FutexMutexT Tid) :
    FutexUnlockPc → Option (FutexMutexT Tid × Option FutexUnlockPc)
  | .lockRelease => some ({ m with mutex := 0 }, some .futexWake)
  | .futexWake =>
      if m.sleepers = ∅ then some (m, none)
      else
        match x with
        | .wake u =>
            if u ∈ m.sleepers then some ({ m with sleepers := m.sleepers.erase u }, none) else none
        | _ => none

/-- Whether the mutex is taken: what `futex_mutex_lock` looks at. -/
def FutexMutexT.taken (m : FutexMutexT Tid) : Int := if m.mutex ≠ 0 then 1 else 0

/-- What a step of `futex_mutex_lock` does to the word. -/
theorem futexMutexLock_taken {t : Tid} {x : Kernel Tid} {m m' : FutexMutexT Tid}
    {a : FutexLockPc} {a' : Option FutexLockPc}
    (moved : futexMutexLock t x m a = some (m', a')) :
    (m.taken = 0 ∧ m'.taken = 1 ∧ a' = none) ∨ (m'.taken = m.taken ∧ a'.isSome = true) := by
  cases a with
  | testAndSet =>
    simp only [futexMutexLock] at moved
    split at moved
    · next taken =>
      cases moved
      refine Or.inr ⟨?_, rfl⟩
      simp [FutexMutexT.taken, taken]
    · next free =>
      cases moved
      refine Or.inl ⟨?_, rfl, rfl⟩
      simp [FutexMutexT.taken, free]
  | futexWait =>
    simp only [futexMutexLock] at moved
    split at moved
    · cases moved
      exact Or.inr ⟨rfl, rfl⟩
    · cases moved
      exact Or.inr ⟨rfl, rfl⟩
  | sleeping =>
    simp only [futexMutexLock] at moved
    split at moved
    · split at moved
      · cases moved
        exact Or.inr ⟨rfl, rfl⟩
      · cases moved
    · cases moved
      exact Or.inr ⟨rfl, rfl⟩

/-- What a step of `futex_mutex_unlock` does to it. -/
theorem futexMutexUnlock_taken {x : Kernel Tid} {m m' : FutexMutexT Tid} {r : FutexUnlockPc}
    {r' : Option FutexUnlockPc} (moved : futexMutexUnlock x m r = some (m', r')) :
    (r = .lockRelease ∧ m'.taken = 0 ∧ r' = some .futexWake) ∨
      (r = .futexWake ∧ m'.taken = m.taken ∧ r' = none) := by
  cases r with
  | lockRelease =>
    simp only [futexMutexUnlock] at moved
    cases moved
    exact Or.inl ⟨rfl, rfl, rfl⟩
  | futexWake =>
    simp only [futexMutexUnlock] at moved
    split at moved
    · cases moved
      exact Or.inr ⟨rfl, rfl, rfl⟩
    · split at moved
      · split at moved
        · cases moved
          exact Or.inr ⟨rfl, rfl, rfl⟩
        · cases moved
      · cases moved

variable (Tid) in
/-- The mutex of `lab2/4`. -/
abbrev futexExchange : Lock Tid (FutexMutexT Tid) (Kernel Tid) where
  Acq := FutexLockPc
  Rel := FutexUnlockPc
  lock := .testAndSet
  unlock := .lockRelease
  acquire := futexMutexLock
  release _ := futexMutexUnlock
  owns r := r = .lockRelease
  word := FutexMutexT.taken
  free := 0
  held := 1
  owns_unlock := rfl
  acquired := by
    intro t x m a m' moved
    rcases futexMutexLock_taken moved with ⟨free, held, -⟩ | ⟨-, stays⟩
    · exact ⟨free, held⟩
    · cases stays
  acquiring := by
    intro t x m a m' a' moved
    rcases futexMutexLock_taken moved with ⟨-, -, gone⟩ | ⟨same, -⟩
    · cases gone
    · exact same
  released := by
    intro t x m r m' r' moved owns _
    rcases futexMutexUnlock_taken moved with ⟨-, free, rfl⟩ | ⟨rfl, -⟩
    · exact free
    · cases owns
  releasing := by
    intro t x m r m' r' moved owns
    rcases futexMutexUnlock_taken moved with ⟨rfl, -⟩ | ⟨-, same, rfl⟩
    · cases owns
    · exact ⟨same, rfl⟩
  distinct := Int.zero_ne_one

/-! ## The correspondence -/

/-- One mutex is free when the other one is, and the same threads sleep. -/
structure Alike (m : MutexT Tid) (m' : FutexMutexT Tid) : Prop where
  word : m.lock = 1 - m'.mutex
  bit : m'.mutex = 0 ∨ m'.mutex = 1
  sleepers : m.sleepers = m'.sleepers

/-- The same point of `futex_mutex_lock`, and of `futex_mutex_unlock`. -/
def LockPc.twin : LockPc → FutexLockPc
  | .compareExchange => .testAndSet
  | .futexWait => .futexWait
  | .sleeping => .sleeping

def UnlockPc.twin : UnlockPc → FutexUnlockPc
  | .compareExchange => .lockRelease
  | .futexWake => .futexWake

/-- The attempts succeed together, `FUTEX_WAIT` puts to sleep in both or returns `EAGAIN` in
both, and sleepers wake up together. -/
theorem lock_alike {t : Tid} {x : Kernel Tid} {m : MutexT Tid} {m' : FutexMutexT Tid}
    (alike : Alike m m') (a : LockPc) :
    Option.Rel (fun out out' => Alike out.1 out'.1 ∧ out'.2 = out.2.map LockPc.twin)
      (mutexLock t x m a) (futexMutexLock t x m' (LockPc.twin a)) := by
  rcases alike with ⟨word, bit, sleepers⟩
  cases a with
  | compareExchange =>
    simp only [mutexLock, LockPc.twin, futexMutexLock, compareExchange]
    rcases bit with zero | one
    · have free : m.lock = 1 := by omega
      simp only [free, zero, ↓reduceIte, ne_eq, not_true_eq_false]
      exact .some ⟨⟨rfl, Or.inr rfl, sleepers⟩, rfl⟩
    · have taken : m.lock = 0 := by omega
      simp only [taken, one, ne_eq, one_ne_zero, not_false_eq_true, ↓reduceIte, zero_ne_one]
      exact .some ⟨⟨rfl, Or.inr rfl, sleepers⟩, rfl⟩
  | futexWait =>
    simp only [mutexLock, LockPc.twin, futexMutexLock]
    rcases bit with zero | one
    · have free : m.lock ≠ 0 := by omega
      rw [if_neg free, if_neg (by omega)]
      exact .some ⟨⟨word, Or.inl zero, sleepers⟩, rfl⟩
    · have taken : m.lock = 0 := by omega
      rw [if_pos taken, if_pos one]
      refine .some ⟨⟨word, Or.inr one, ?_⟩, rfl⟩
      simp only [sleepers]
  | sleeping =>
    simp only [mutexLock, LockPc.twin, futexMutexLock, sleepers]
    split
    · split
      · exact .some ⟨⟨word, bit, rfl⟩, rfl⟩
      · exact .none
    · exact .some ⟨⟨word, bit, sleepers⟩, rfl⟩

/-- The holder's compare-exchange succeeds, so that both free the mutex and wake a sleeper. -/
theorem unlock_alike {x : Kernel Tid} {m : MutexT Tid} {m' : FutexMutexT Tid}
    (alike : Alike m m') (r : UnlockPc) (holds : r = .compareExchange → m.lock = 0) :
    Option.Rel (fun out out' => Alike out.1 out'.1 ∧ out'.2 = out.2.map UnlockPc.twin)
      (mutexUnlock x m r) (futexMutexUnlock x m' (UnlockPc.twin r)) := by
  rcases alike with ⟨word, bit, sleepers⟩
  cases r with
  | compareExchange =>
    simp only [mutexUnlock, UnlockPc.twin, futexMutexUnlock, compareExchange, holds rfl,
      ↓reduceIte]
    exact .some ⟨⟨rfl, Or.inl rfl, sleepers⟩, rfl⟩
  | futexWake =>
    simp only [mutexUnlock, UnlockPc.twin, futexMutexUnlock, sleepers]
    split
    · exact .some ⟨⟨word, bit, sleepers⟩, rfl⟩
    · cases x with
      | wake u =>
        simp only
        split
        · exact .some ⟨⟨word, bit, rfl⟩, rfl⟩
        · exact .none
      | proceed => exact .none
      | spurious => exact .none

variable (Tid) in
def twin : (futexMutex Tid).Twin (futexExchange Tid) where
  same := Alike
  acq := LockPc.twin
  rel := UnlockPc.twin
  lock := rfl
  unlock := rfl
  owns r := by cases r <;> rfl
  acquire alike := lock_alike alike _
  release alike holds := by
    refine unlock_alike alike _ fun here => holds ?_
    rw [here]
    rfl

/-! ## Threads that alternate `lock` and `unlock` -/

section Threads

variable {S : Signature} {σ χ C Rep κ : Type}

variable (Tid S σ C Rep κ) in
abbrev State := Locked.State (futexExchange Tid) S σ C Rep κ

/-- The mutex after `futex_mutex_init`, and every thread outside. -/
def init (mem : σ) (locals : Tid → κ) : State Tid S σ C Rep κ where
  lock := ⟨0, ∅⟩
  mem := mem
  pc _ := .idle
  locals := locals
  log := []

theorem initial (mem : σ) (locals : Tid → κ) :
    Locked.Initial (init mem locals : State Tid S σ C Rep κ) := ⟨rfl, fun _ => rfl, rfl⟩

/-- The states of the two systems correspond: the words, the sleepers, the holder, and in the same
way what every thread is doing. -/
structure Matched (s : Queue.FutexMutex.State Tid S σ C Rep κ) (s' : State Tid S σ C Rep κ) :
    Prop where
  word : s.lock.lock = 1 - s'.lock.mutex
  sleepers : s.lock.sleepers = s'.lock.sleepers
  holder : ∀ t, (s.pc t).Owner ↔ (s'.pc t).Owner
  threads : Locked.Corresponds (twin Tid) s s'

theorem matched_of_corresponds {s : Queue.FutexMutex.State Tid S σ C Rep κ}
    {s' : State Tid S σ C Rep κ} (corresponds : Locked.Corresponds (twin Tid) s s') :
    Matched s s' := by
  refine ⟨corresponds.lock.word, corresponds.lock.sleepers, fun t => ?_, corresponds⟩
  rw [corresponds.pc, Locked.Pc.Owner, Locked.Pc.Owner, Locked.translate_crit]

/-- **The two mutexes are interchangeable.**  Any number of threads that alternate `lock` and
`unlock`, whatever they do between them: matched states answer each other's steps, so the same
sequences of acquisitions and releases are possible; and with either mutex at most one
thread holds it in every reachable state. -/
theorem interchangeable (O : Object S σ χ C Rep Unit) (cl : Client κ C Rep) (mem : σ)
    (locals : Tid → κ) :
    Bisimulation (Locked.step O cl) Locked.passage (Locked.step O cl) Locked.passage
        (fun s s' => Reachable (Locked.step O cl) (Queue.FutexMutex.init mem locals) s ∧
          Matched s s') ∧
      Matched (Queue.FutexMutex.init mem locals : Queue.FutexMutex.State Tid S σ C Rep κ)
        (init mem locals) ∧
      Traces (Locked.step O cl) Locked.passage (Queue.FutexMutex.init mem locals) =
        Traces (Locked.step O cl) Locked.passage (init mem locals) ∧
      (∀ s, Reachable (Locked.step O cl) (Queue.FutexMutex.init mem locals) s →
        ∀ t u, (s.pc t).Owner → (s.pc u).Owner → t = u) ∧
      ∀ s, Reachable (Locked.step O cl) (init mem locals) s →
        ∀ t u, (s.pc t).Owner → (s.pc u).Owner → t = u := by
  have start : Matched (Queue.FutexMutex.init mem locals : Queue.FutexMutex.State Tid S σ C Rep κ)
      (init mem locals) :=
    matched_of_corresponds ⟨⟨rfl, Or.inl rfl, rfl⟩, rfl, rfl, rfl, rfl⟩
  have bisimulation : Bisimulation (Locked.step O cl) Locked.passage (Locked.step O cl)
      Locked.passage fun s s' =>
        Reachable (Locked.step O cl) (Queue.FutexMutex.init mem locals) s ∧ Matched s s' := by
    have same : ∀ (s : Queue.FutexMutex.State Tid S σ C Rep κ) (s' : State Tid S σ C Rep κ),
        Locked.Corresponds (twin Tid) s s' ↔ Matched s s' :=
      fun s s' => ⟨matched_of_corresponds, Matched.threads⟩
    simp only [← same]
    exact Locked.Corresponds.bisimulation (Queue.FutexMutex.initial mem locals)
  refine ⟨bisimulation, start, bisimulation.traces ⟨.refl _, start⟩, ?_, ?_⟩
  · intro s reached t u left right
    exact (Locked.owned (Queue.FutexMutex.initial mem locals) reached).exclusive left right
  · intro s reached t u left right
    exact (Locked.owned (initial mem locals) reached).exclusive left right

end Threads

end Os2Labs.Locks.FutexExchange
