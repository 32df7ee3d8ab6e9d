import Os2Labs.Conc.Lock
import Os2Labs.Queue.ReaderWriter

/-!
# The queue behind the spinlock

`lab2/2/a-spinlock/queue.c`: `spinlock_lock` retries a compare-exchange of the lock
word from 1 to 0 and `spinlock_unlock` exchanges it back, around the bodies of
`queue_add` and `queue_get`.
-/

namespace Os2Labs.Queue.Spinlock

open Conc

/-- One turn of the loop of `spinlock_lock`: the word after it, and whether to go on. -/
def spinlockLock (lock : Int) : Int × Option Unit :=
  match compareExchange lock 1 0 with
  | (true, lock) => (lock, none)
  | (false, lock) => (lock, some ())

def spinlockUnlock (lock : Int) : Int := (compareExchange lock 0 1).2

theorem spinlockLock_cases (lock : Int) :
    lock = 1 ∧ spinlockLock lock = (0, none) ∨ spinlockLock lock = (lock, some ()) := by
  unfold spinlockLock compareExchange
  split
  · next taken =>
    split at taken
    · next free =>
      cases taken
      exact Or.inl ⟨free, rfl⟩
    · cases taken
  · next failed =>
    split at failed
    · cases failed
    · cases failed
      exact Or.inr rfl

/-- `spinlock_t`: 1 is free and 0 is taken. -/
def spinlock (Tid : Type) : Lock Tid Int Unit where
  Acq := Unit
  Rel := Unit
  lock := ()
  unlock := ()
  acquire _ _ lock _ := some (spinlockLock lock)
  release _ _ lock _ := some (spinlockUnlock lock, none)
  owns _ := true
  word lock := lock
  free := 1
  held := 0
  owns_unlock := rfl
  acquired := by
    intro _ _ lock _ lock' moved
    rcases spinlockLock_cases lock with ⟨free, taken⟩ | failed
    · rw [taken] at moved
      cases moved
      exact ⟨free, rfl⟩
    · rw [failed] at moved
      cases moved
  acquiring := by
    intro _ _ lock _ lock' _ moved
    rcases spinlockLock_cases lock with ⟨-, taken⟩ | failed
    · rw [taken] at moved
      cases moved
    · rw [failed] at moved
      cases moved
      rfl
  released := by
    intro _ _ lock _ _ _ moved _ held
    cases moved
    subst held
    rfl
  releasing := nofun
  distinct := Int.one_ne_zero

abbrev State (κ Tid : Type) := Locked.State (spinlock Tid) sig Mem Call Reply κ

/-- After `queue_init(max_count)`. -/
def init {κ Tid : Type} (maxCount : Int) (locals : Tid → κ) : State κ Tid where
  lock := 1
  mem := queueInit maxCount
  pc _ := .idle
  locals := locals
  log := []

theorem initial {κ Tid : Type} (maxCount : Int) (locals : Tid → κ) :
    Locked.Initial (init maxCount locals) := ⟨rfl, fun _ => rfl, rfl⟩

variable {κ Tid : Type} [DecidableEq Tid]

/-- One step of one thread. -/
def step (cl : Client κ Call Reply) :
    State κ Tid → Locked.Event Tid Call Fresh Unit → Option (State κ Tid) :=
  Locked.step object cl

theorem reachable_sound {cap : Nat} (small : (cap : Int) ≤ intMax) {cl : Client κ Call Reply}
    {locals : Tid → κ} {s : State κ Tid} (reached : Reachable (step cl) (init cap locals) s) :
    Guarded.Inv object (Logged cap) (fun _ _ _ => True) (Locked.guarded s) :=
  Locked.sound (object_spec cap) (initial cap locals) (logged_queueInit small) reached

/-- The reader and the writer of `queue-threads.c` see the count. -/
theorem reachable_obtained {cap : Nat} (small : (cap : Int) ≤ intMax) {s : State Local Role}
    (reached : Reachable (step readerWriter) (init cap startLocals) s) :
    ∃ n, s.locals .reader = .reader (BitVec.ofNat 32 n) (countUp n) 0 := by
  rcases (reachable_sound small reached).past with ⟨m, items, past⟩
  have follows := (Locked.faithful (initial cap startLocals) reached).log
  have settled : (s.pc .reader).settle readerWriter (s.locals .reader) = s.locals .reader := by
    cases s.pc .reader <;> rfl
  rw [← settled]
  exact (readerWriter_in_order follows past.legal).obtained past.legal

/-- **The spinlock queue is linearizable.**  Any threads making any calls: at most
one is between the return of `spinlock_lock` and the effect of `spinlock_unlock`, no
access faults, and the completed calls, in the order of their critical sections,
have the replies of a FIFO of capacity `max_count`.  With the reader and the writer
of `queue-threads.c`, the reader obtains `0, 1, 2, ...` and never takes its `ERROR`
branch. -/
theorem linearizable {maxCount : Int} (nonneg : 0 ≤ maxCount) (isInt : maxCount ≤ intMax) :
    (∀ (Tid : Type) [DecidableEq Tid] (s : State Unit Tid),
      Reachable (step Client.any) (init maxCount fun _ => ()) s →
        (∀ t u, (s.pc t).Owner → (s.pc u).Owner → t = u) ∧ ¬ Locked.Faulty object s ∧
          ∃ items, Legal (Fifo.step maxCount.toNat) [] s.log items) ∧
    ∀ s : State Local Role, Reachable (step readerWriter) (init maxCount startLocals) s →
      ∃ n, s.locals .reader = .reader (BitVec.ofNat 32 n) (countUp n) 0 := by
  rcases Int.eq_ofNat_of_zero_le nonneg with ⟨cap, rfl⟩
  refine ⟨?_, fun s reached => reachable_obtained isInt reached⟩
  intro Tid _ s reached
  have inv := reachable_sound isInt reached
  obtain ⟨m, items, past⟩ := inv.past
  exact ⟨inv.exclusive, Locked.not_faulty inv, items, past.legal⟩

/-- A writer is inside while a reader spins; then it is the reader's turn. -/
def contended : List (Locked.Event Bool Call Fresh Unit) :=
  List.flatten [[.call true (.add 5), .call false .get, .lock true (), .lock false ()],
    List.replicate 18 (.access true ⟨0, ⟨0, none⟩⟩),
    [.lock false (), .unlock true (), .lock false ()],
    List.replicate 15 (.access false ⟨0, ⟨0, none⟩⟩), [.unlock false ()]]

theorem linearizable_contended : ∃ s : State Unit Bool,
    s.log.map (fun d => (d.thread, d.reply)) = [(true, ⟨1, none⟩), (false, ⟨1, some 5⟩)] ∧
      (∀ t u, (s.pc t).Owner → (s.pc u).Owner → t = u) ∧ ¬ Locked.Faulty object s ∧
        ∃ items, Legal (Fifo.step 1) [] s.log items := by
  have reached : Reachable (step Client.any) (init 1 fun _ => ()) _ := ⟨contended, rfl⟩
  exact ⟨_, by decide,
    (linearizable (show (0 : Int) ≤ 1 by decide) (by decide)).1 Bool _ reached⟩

end Os2Labs.Queue.Spinlock
