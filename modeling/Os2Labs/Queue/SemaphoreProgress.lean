import Os2Labs.Queue.CondVarStall
import Os2Labs.Queue.Semaphore

/-!
# The semaphore queue never deadlocks

Producers that loop over `queue_add` and consumers that loop over `queue_get`, with
waits that are not interrupted.  A thread is `Blocked` when the semaphore it waits for
is zero or the mutex it wants is locked; `blocked_iff` says that this is the only way
to be unable to move.

`deadlock_free`: some thread can always move.  The owner of the mutex can; with the
mutex free, all threads blocked would be in `sem_wait`, so no thread would hold a
token and both semaphores would be zero, although the tokens add up to `max_count`.
-/

namespace Os2Labs.Queue.Semaphore

open Conc
open CondVar (looping roles)

variable {κ Tid : Type}

/-- The thread that moves. -/
def Event.thread : Event Tid → Tid
  | .call t _ | .semWait t | .interrupt t | .lock t | .access t _ | .unlock t | .semPost t => t

/-- The call a thread is executing. -/
def Pc.call : Pc → Option Call
  | .idle => none
  | .semWait c | .mutexLock c | .inside c _ _ | .semPost c _ => some c

/-- The thread is in a `sem_wait` for a semaphore that is zero, or in `pthread_mutex_lock`
for a mutex that is locked. -/
def Blocked (s : State κ Tid) (t : Tid) : Prop :=
  (∃ c, s.pc t = .semWait c ∧ s.sem (waitsFor c) = 0) ∨
    ∃ c, s.pc t = .mutexLock c ∧ s.mutex ≠ none

variable [DecidableEq Tid]

/-- Some event of the thread is enabled. -/
def Movable (eintr : Bool) (cl : Client κ Call Reply) (s : State κ Tid) (t : Tid) : Prop :=
  ∃ e s', e.thread = t ∧ step eintr cl s e = some s'

/-- A thread that is not blocked can move: between two calls, in front of an open lock or
semaphore, or at the next access of its critical section. -/
theorem movable_of_not_blocked {eintr : Bool} {cl : Client κ Call Reply} {cap : Nat}
    (small : (cap : Int) ≤ intMax) {locals : Tid → κ} {s : State κ Tid}
    (reached : Reachable (step eintr cl) (init cap locals) s) {t : Tid}
    (loops : ∃ c, cl.calls (s.locals t) c = true) (goes : ¬ Blocked s t) :
    Movable eintr cl s t := by
  cases here : s.pc t with
  | idle =>
    rcases loops with ⟨c, allowed⟩
    refine ⟨.call t c, s.goto t (.semWait c), rfl, ?_⟩
    simp only [step, here, allowed, ↓reduceIte]
  | semWait c =>
    have positive : 0 < s.sem (waitsFor c) := by
      apply Nat.pos_of_ne_zero
      intro zero
      exact goes (Or.inl ⟨c, here, zero⟩)
    refine ⟨.semWait t, { s.goto t (.mutexLock c) with
      sem := Function.update s.sem (waitsFor c) (s.sem (waitsFor c) - 1) }, rfl, ?_⟩
    simp only [step, here, positive, ↓reduceIte]
  | mutexLock c =>
    have free : s.mutex = none := by
      by_contra locked
      exact goes (Or.inr ⟨c, here, locked⟩)
    refine ⟨.lock t, { s.goto t (.inside c false (code c)) with mutex := some t }, rfl, ?_⟩
    simp only [step, here, free, ↓reduceIte]
  | inside c h p =>
    cases p with
    | ret r =>
      refine ⟨.unlock t, { s.goto t (.semPost c r) with
        mutex := none, log := s.log ++ [⟨t, c, r⟩] }, rfl, ?_⟩
      simp only [step, here]
    | op o k =>
      rcases reachable_access small reached here with ⟨new, r, m, done⟩
      refine ⟨.access t new, { s.goto t (.inside c (counted h o) (k r)) with mem := m }, rfl, ?_⟩
      simp only [step, here, done, Option.map_some]
  | semPost c r =>
    refine ⟨.semPost t, { s.goto t .idle with
      sem := semPost s.sem (posts c)
      locals := Function.update s.locals t (cl.returns (s.locals t) c r) }, rfl, ?_⟩
    simp only [step, here]

/-- With uninterrupted waits, being blocked is the only way to be unable to move. -/
theorem blocked_iff {cl : Client κ Call Reply} {cap : Nat} (small : (cap : Int) ≤ intMax)
    {locals : Tid → κ} {s : State κ Tid}
    (reached : Reachable (step false cl) (init cap locals) s) {t : Tid}
    (loops : ∃ c, cl.calls (s.locals t) c = true) :
    Blocked s t ↔ ¬ Movable false cl s t := by
  constructor
  · intro blocked movable
    rcases movable with ⟨e, s', mine, moved⟩
    rcases blocked with ⟨c, here, zero⟩ | ⟨c, here, locked⟩
    · cases e <;> simp only [Event.thread] at mine <;> subst mine <;>
        simp [step, here, zero] at moved
    · cases e <;> simp only [Event.thread] at mine <;> subst mine <;>
        simp [step, here, locked] at moved
  · intro stuck
    by_contra goes
    exact stuck (movable_of_not_blocked small reached loops goes)

/-! ## Producers and consumers -/

/-- Every thread keeps to its role. -/
structure Kinds (kind : Tid → Role) (s : State Role Tid) : Prop where
  locals : s.locals = kind
  calls : ∀ t c, (s.pc t).call = some c → looping.calls (kind t) c = true

/-- A step of `t`. -/
theorem Kinds.move {kind : Tid → Role} {s s' : State Role Tid} (kinds : Kinds kind s) {t : Tid}
    {new : Pc} (pc : s'.pc = Function.update s.pc t new) (locals : s'.locals = s.locals)
    (calls : ∀ c, new.call = some c → looping.calls (kind t) c = true) : Kinds kind s' := by
  refine ⟨locals.trans kinds.locals, ?_⟩
  intro u c call
  rw [pc] at call
  by_cases same : u = t
  · rw [same, Function.update_self] at call
    rw [same]
    exact calls c call
  · rw [Function.update_of_ne same] at call
    exact kinds.calls u c call

theorem Kinds.step {kind : Tid → Role} {eintr : Bool} {s s' : State Role Tid} {e : Event Tid}
    (kinds : Kinds kind s) (moved : step eintr looping s e = some s') : Kinds kind s' := by
  -- a call goes on as the call it is
  have goes : ∀ {t : Tid} {c c' : Call} {new : Pc}, (s.pc t).call = some c →
      new.call = some c → new.call = some c' → looping.calls (kind t) c' = true := by
    intro t c c' new before after call
    rw [after] at call
    cases call
    exact kinds.calls t c before
  rcases step_cases moved with ⟨t, c, -, here, allowed, rfl⟩ | ⟨t, c, -, here, -, rfl⟩ |
    ⟨t, c, -, here, -, rfl⟩ | ⟨t, c, -, here, -, rfl⟩ |
    ⟨t, c, h, o, k, new, r, m, -, here, -, rfl⟩ | ⟨t, c, h, r, -, here, rfl⟩ |
    ⟨t, c, r, -, here, rfl⟩
  · refine kinds.move rfl rfl ?_
    intro c' call
    cases call
    rw [← kinds.locals]
    exact allowed
  · exact kinds.move rfl rfl fun c' => goes (by rw [here]; rfl) rfl
  · exact kinds.move rfl rfl fun c' => goes (by rw [here]; rfl) rfl
  · exact kinds.move rfl rfl fun c' => goes (by rw [here]; rfl) rfl
  · exact kinds.move rfl rfl fun c' => goes (by rw [here]; rfl) rfl
  · exact kinds.move rfl rfl fun c' => goes (by rw [here]; rfl) rfl
  · refine kinds.move rfl ?_ nofun
    exact Function.update_eq_self t s.locals

theorem reachable_kinds {kind : Tid → Role} {eintr : Bool} {maxCount : Int} {s : State Role Tid}
    (reached : Reachable (step eintr looping) (init maxCount kind) s) : Kinds kind s :=
  reached.invariant (P := Kinds kind) ⟨rfl, fun _ _ call => by cases call⟩
    fun _ _ _ before moved => before.step moved

/-- A producer or a consumer always has a call to make. -/
theorem looping_calls (role : Role) : ∃ c, looping.calls role c = true := by
  cases role with
  | writer => exact ⟨.add 0, rfl⟩
  | reader => exact ⟨.get, rfl⟩

omit [DecidableEq Tid] in
/-- With every thread in `sem_wait`, no thread holds a token. -/
theorem Conserved.full [Fintype Tid] {cap : Nat} {s : State κ Tid} (conserved : Conserved cap s)
    (waiting : ∀ t, ∃ c, s.pc t = .semWait c) :
    s.sem .spaceAvailable + s.sem .itemsAvailable = cap := by
  have nobody : population holding s.pc = 0 := by
    apply population_zero
    intro t
    rcases waiting t with ⟨c, here⟩
    rw [here]
    rfl
  have tokens := conserved.tokens
  omega

/-- Not all threads are blocked, whatever the threads of either kind are called. -/
theorem not_all_blocked [Fintype Tid] {kind : Tid → Role} {cap : Nat} (positive : 1 ≤ cap)
    (small : (cap : Int) ≤ intMax) {producer consumer : Tid} (produces : kind producer = .writer)
    (consumes : kind consumer = .reader) {s : State Role Tid}
    (reached : Reachable (step false looping) (init cap kind) s) : ∃ t, ¬ Blocked s t := by
  by_contra all
  have blocked : ∀ t, Blocked s t := by
    intro t
    by_contra goes
    exact all ⟨t, goes⟩
  have free : s.mutex = none := by
    cases locked : s.mutex with
    | none => rfl
    | some owner =>
      have inside := (owned reached owner).mpr locked
      rcases blocked owner with ⟨c, here, -⟩ | ⟨c, here, -⟩
      · rw [here] at inside
        exact (inside rfl).elim
      · rw [here] at inside
        exact (inside rfl).elim
  have waiting : ∀ t, ∃ c, s.pc t = .semWait c ∧ s.sem (waitsFor c) = 0 := by
    intro t
    rcases blocked t with waits | ⟨c, -, locked⟩
    · exact waits
    · exact (locked free).elim
  have kinds := reachable_kinds reached
  have space : s.sem .spaceAvailable = 0 := by
    rcases waiting producer with ⟨c, here, zero⟩
    have calls := kinds.calls producer c (by rw [here]; rfl)
    rw [produces] at calls
    cases c with
    | add v => exact zero
    | get => cases calls
  have items : s.sem .itemsAvailable = 0 := by
    rcases waiting consumer with ⟨c, here, zero⟩
    have calls := kinds.calls consumer c (by rw [here]; rfl)
    rw [consumes] at calls
    cases c with
    | add v => cases calls
    | get => exact zero
  have full := (reachable_conserved small reached).1.full fun t => by
    rcases waiting t with ⟨c, here, -⟩
    exact ⟨c, here⟩
  omega

/-- **The semaphore queue never deadlocks.**  With a capacity of at least one, at least one
producer and at least one consumer, in every reachable state some thread is not blocked, and
some thread can move. -/
theorem deadlock_free {maxCount : Int} (positive : 1 ≤ maxCount) (isInt : maxCount ≤ intMax)
    {p r : Nat} (producers : 1 ≤ p) (consumers : 1 ≤ r) (s : State Role (Fin p ⊕ Fin r))
    (reached : Reachable (step false looping) (init maxCount (roles p r)) s) :
    (¬ ∀ t, Blocked s t) ∧ ∃ t, Movable false looping s t := by
  rcases Int.eq_ofNat_of_zero_le (show 0 ≤ maxCount by omega) with ⟨cap, rfl⟩
  have produces : roles p r (.inl ⟨0, producers⟩) = .writer := rfl
  have consumes : roles p r (.inr ⟨0, consumers⟩) = .reader := rfl
  rcases not_all_blocked (by omega) isInt produces consumes reached with ⟨t, goes⟩
  refine ⟨fun all => goes (all t), t, ?_⟩
  exact movable_of_not_blocked isInt reached (looping_calls _) goes

/-- One producer between `sem_wait` and the mutex, one consumer waiting. -/
theorem deadlock_free_handover : ∃ s : State Role (Fin 1 ⊕ Fin 1),
    Blocked s (.inr 0) ∧ ¬ Blocked s (.inl 0) ∧
      (¬ ∀ t, Blocked s t) ∧ ∃ t, Movable false looping s t := by
  have reached : Reachable (step false looping) (init 1 (roles 1 1)) _ :=
    ⟨[.call (.inr 0) .get, .call (.inl 0) (.add 5), .semWait (.inl 0)], rfl⟩
  refine ⟨_, Or.inl ⟨.get, rfl, rfl⟩, ?_, deadlock_free (show (1 : Int) ≤ 1 by decide) (by decide)
    (by decide) (by decide) _ reached⟩
  intro blocked
  rcases blocked with ⟨c, here, -⟩ | ⟨c, -, locked⟩
  · cases here
  · exact locked rfl

end Os2Labs.Queue.Semaphore
