import Os2Labs.Conc.Service
import Os2Labs.Queue.CondVar
import Os2Labs.Queue.FutexMutex
import Os2Labs.Queue.ReaderWriter
import Os2Labs.Queue.Semaphore

/-!
# The test programs

`queue-threads.c` of `lab2/2/e-mutex`, `lab2/2/f-cond_var` and `lab2/2/g-semaphore`: the same
reader and writer over three queues.  Each of the queues is a service, in which a call takes
effect when the critical section ends: at the unlocking compare-exchange, when `operation` is
set, and when the mutex is unlocked before the `sem_post`.

`programs_in_order`: the reader obtains `0, 1, 2, ...`, also while a call that has taken
effect has yet to return, with spurious wake-ups, and with interrupted waits.
-/

namespace Os2Labs.Queue

open Conc

/-- The reader has obtained `0, 1, ..., n - 1`, expects `n`, and has never taken its `ERROR`
branch. -/
def Counts (k : Local) : Prop := ∃ n, k = .reader (BitVec.ofNat 32 n) (countUp n) 0

/-- What the reader has seen of a legal log. -/
theorem counts_of_caughtUp {cap : Nat} {log : List (Entry Role)} {items : List CInt} {k : Local}
    (legal : Legal (Fifo.step cap) [] log items)
    (caughtUp : Service.CaughtUp readerWriter startLocals log .reader k) : Counts k := by
  obtain ⟨seen, k', ⟨rest, split⟩, follows, rfl⟩ := caughtUp
  rw [← split] at legal
  obtain ⟨waiting, legal_seen, -⟩ := legal_append.mp legal
  exact (readerWriter_in_order follows legal_seen).obtained legal_seen

/-! ## The condition variable -/

namespace CondVar

variable {κ Tid : Type}

def Pc.phase : Pc → Service.Phase Call Reply
  | .idle => .idle
  | .mutexLock c | .testOperation c | .condWait c | .waiting c | .inside c _ => .calling c
  | .condSignal c r | .mutexUnlock c r => .returning c r

def service (s : State κ Tid) : Service.State κ Call Reply Tid :=
  Service.view Pc.phase s.pc s.locals s.log

variable [DecidableEq Tid] {spurious : Bool} {cl : Client κ Call Reply} {s s' : State κ Tid}

/-- A call takes effect when it sets `operation`. -/
theorem step_serves (move : Move spurious cl s s') :
    service s' = service s ∨ Service.Step cl (service s) (service s') := by
  cases move with
  | call here allowed => exact Or.inr (Service.view_call (by rw [here]; rfl) rfl allowed)
  | lock here free => exact Or.inl (Service.view_stay (by rw [here]; rfl))
  | relock here woken free => exact Or.inl (Service.view_stay (by rw [here]; rfl))
  | enter here turn => exact Or.inl (Service.view_stay (by rw [here]; rfl))
  | refuse here turn => exact Or.inl (Service.view_stay (by rw [here]; rfl))
  | wait here => exact Or.inl (Service.view_stay (by rw [here]; rfl))
  | spurious allowed asleep => exact Or.inl rfl
  | access here done => exact Or.inl (Service.view_stay (by rw [here]; rfl))
  | setOperation here => exact Or.inr (Service.view_effect (by rw [here]; rfl) rfl)
  | signalNobody here nobody => exact Or.inl (Service.view_stay (by rw [here]; rfl))
  | signal here asleep => exact Or.inl (Service.view_stay (by rw [here]; rfl))
  | unlock here => exact Or.inr (Service.view_back (by rw [here]; rfl) rfl)

/-- Each client is where it was after some beginning of the log. -/
theorem caught_up {maxCount : Int} {locals : Tid → κ}
    (reached : Reachable (step spurious cl) (init maxCount locals) s) :
    Service.Inv cl locals (service s) := by
  have run : Relation.ReflTransGen (Service.Step cl) (service (init maxCount locals)) (service s) :=
    reached.refines fun _ _ _ _ moved => step_serves (step_move moved)
  exact Service.caught_up (fun _ => rfl) rfl run

end CondVar

/-! ## The semaphores -/

namespace Semaphore

variable {κ Tid : Type}

def Pc.phase : Pc → Service.Phase Call Reply
  | .idle => .idle
  | .semWait c | .mutexLock c | .inside c _ _ => .calling c
  | .semPost c r => .returning c r

def service (s : State κ Tid) : Service.State κ Call Reply Tid :=
  Service.view Pc.phase s.pc s.locals s.log

variable [DecidableEq Tid] {eintr : Bool} {cl : Client κ Call Reply} {s s' : State κ Tid}

/-- A call takes effect when it unlocks the mutex. -/
theorem step_serves {e : Event Tid} (moved : step eintr cl s e = some s') :
    service s' = service s ∨ Service.Step cl (service s) (service s') := by
  rcases step_cases moved with ⟨t, c, -, here, allowed, rfl⟩ | ⟨t, c, -, here, -, rfl⟩ |
    ⟨t, c, -, here, -, rfl⟩ | ⟨t, c, -, here, -, rfl⟩ |
    ⟨t, c, h, o, k, new, r, m, -, here, -, rfl⟩ | ⟨t, c, h, r, -, here, rfl⟩ |
    ⟨t, c, r, -, here, rfl⟩
  · exact Or.inr (Service.view_call (by rw [here]; rfl) rfl allowed)
  · exact Or.inl (Service.view_stay (by rw [here]; rfl))
  · exact Or.inl (Service.view_stay (by rw [here]; rfl))
  · exact Or.inl (Service.view_stay (by rw [here]; rfl))
  · exact Or.inl (Service.view_stay (by rw [here]; rfl))
  · exact Or.inr (Service.view_effect (by rw [here]; rfl) rfl)
  · exact Or.inr (Service.view_back (by rw [here]; rfl) rfl)

/-- Each client is where it was after some beginning of the log. -/
theorem caught_up {maxCount : Int} {locals : Tid → κ}
    (reached : Reachable (step eintr cl) (init maxCount locals) s) :
    Service.Inv cl locals (service s) := by
  have run : Relation.ReflTransGen (Service.Step cl) (service (init maxCount locals)) (service s) :=
    reached.refines fun _ _ _ _ moved => step_serves moved
  exact Service.caught_up (fun _ => rfl) rfl run

end Semaphore

/-! ## The programs -/

/-- **The reader sees the writer's count.**  In every reachable state of the three programs the
reader has obtained `0, 1, 2, ...` and has never taken its `ERROR` branch: behind the futex
mutex, with the condition variable, with or without spurious wake-ups, and with the
semaphores, whether or not their waits can be interrupted. -/
theorem programs_in_order {maxCount : Int} (nonneg : 0 ≤ maxCount) (isInt : maxCount ≤ intMax) :
    (∀ s, Reachable (Locked.step object readerWriter)
      (FutexMutex.init (queueInit maxCount) startLocals) s → Counts (s.locals .reader)) ∧
    (∀ (spurious : Bool) (s : CondVar.State Local Role),
      Reachable (CondVar.step spurious readerWriter) (CondVar.init maxCount startLocals) s →
        Counts (s.locals .reader)) ∧
    ∀ (eintr : Bool) (s : Semaphore.State Local Role),
      Reachable (Semaphore.step eintr readerWriter) (Semaphore.init maxCount startLocals) s →
        Counts (s.locals .reader) := by
  obtain ⟨cap, rfl⟩ := Int.eq_ofNat_of_zero_le nonneg
  refine ⟨?_, ?_, ?_⟩
  · intro s reached
    have caughtUp := (Locked.caught_up (FutexMutex.initial _ _) reached).caughtUp .reader
    obtain ⟨m, items, past⟩ := (Locked.sound (object_spec cap) (FutexMutex.initial _ _)
      (logged_queueInit isInt) reached).past
    exact counts_of_caughtUp past.legal caughtUp
  · intro spurious s reached
    obtain ⟨m, items, past⟩ := (CondVar.reachable_sound isInt reached).past
    exact counts_of_caughtUp past.legal ((CondVar.caught_up reached).caughtUp .reader)
  · intro eintr s reached
    obtain ⟨m, items, past⟩ := (Semaphore.reachable_sound isInt reached).past
    exact counts_of_caughtUp past.legal ((Semaphore.caught_up reached).caughtUp .reader)

/-- The writer adds and the reader gets, and has yet to post. -/
def handedOver : List (Semaphore.Event Role) :=
  List.flatten [[.call .reader .get, .call .writer (.add 0), .semWait .writer, .lock .writer],
    List.replicate 18 (.access .writer ⟨0, ⟨0, none⟩⟩),
    [.unlock .writer, .semPost .writer, .semWait .reader, .lock .reader],
    List.replicate 15 (.access .reader ⟨0, ⟨0, none⟩⟩), [.unlock .reader]]

/-- With the value delivered, and after the `sem_post`. -/
theorem programs_in_order_handedOver : ∃ s s' : Semaphore.State Local Role,
    Fifo.delivered s.log = [0] ∧ s.locals .reader = .reader 0 [] 0 ∧ Counts (s.locals .reader) ∧
      s'.locals .reader = .reader 1 [0] 0 ∧ Counts (s'.locals .reader) := by
  have reached : Reachable (Semaphore.step false readerWriter) (Semaphore.init 1 startLocals) _ :=
    ⟨handedOver, rfl⟩
  have posted : Reachable (Semaphore.step false readerWriter) (Semaphore.init 1 startLocals) _ :=
    ⟨handedOver ++ [.semPost .reader], rfl⟩
  have inOrder := (programs_in_order (show (0 : Int) ≤ 1 by decide) (by decide)).2.2 false
  exact ⟨_, _, by decide, by decide, inOrder _ reached, by decide, inOrder _ posted⟩

end Os2Labs.Queue
