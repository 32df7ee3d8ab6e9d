import Mathlib.Data.Finset.Basic
import Os2Labs.Conc.Client
import Os2Labs.Queue.Object

/-!
# The queue behind a condition variable

`lab2/2/f-cond_var/queue.c`: `operation` says whose turn it is.  Both functions take
the mutex, wait on one condition variable while it is not their turn, do their work,
give the turn to the other kind, signal once and unlock.

`pthread_cond_wait` releases the mutex and starts waiting in one step; a thread that
was woken takes the mutex again and tests again.  The parameter `spurious` of the
step says whether threads also wake for no reason.

`alternation` says that the operations take turns; whether a turn always comes is the
subject of the next module.
-/

namespace Os2Labs.Queue.CondVar

open Conc

/-- `READ` and `WRITE`. -/
inductive Operation where
  | read | write
deriving DecidableEq

/-- The turn a call waits for, and the one it leaves on every return. -/
def wants : Call → Operation
  | .add _ => .write
  | .get => .read

def leaves : Call → Operation
  | .add _ => .read
  | .get => .write

/-- Where a thread is. -/
inductive Pc where
  | idle
  | mutexLock (c : Call)
  /-- At the condition of the `while`, with the mutex. -/
  | testOperation (c : Call)
  | condWait (c : Call)
  /-- In `pthread_cond_wait`: asleep, or woken and about to take the mutex again. -/
  | waiting (c : Call)
  /-- Past the loop; at the return of this code the thread sets `operation`. -/
  | inside (c : Call) (p : Code Reply)
  | condSignal (c : Call) (r : Reply)
  | mutexUnlock (c : Call) (r : Reply)

structure State (κ Tid : Type) where
  /-- The thread that has locked the mutex. -/
  mutex : Option Tid
  /-- The threads asleep on the condition variable. -/
  waiters : Finset Tid
  operation : Operation
  mem : Mem
  pc : Tid → Pc
  locals : Tid → κ
  /-- The calls that are past the waiting loop and have set `operation`, in order. -/
  log : List (Entry Tid)

inductive Event (Tid : Type) where
  | call (t : Tid) (c : Call)
  | lock (t : Tid)
  | test (t : Tid)
  | wait (t : Tid)
  | spurious (t : Tid)
  | access (t : Tid) (new : Fresh)
  | setOperation (t : Tid)
  | signal (t : Tid) (woken : Option Tid)
  | unlock (t : Tid)

variable {κ Tid : Type}

/-- After `queue_init(max_count)`. -/
def init (maxCount : Int) (locals : Tid → κ) : State κ Tid where
  mutex := none
  waiters := ∅
  operation := .write
  mem := queueInit maxCount
  pc _ := .idle
  locals := locals
  log := []

/-- The next access of some thread is undefined behaviour or a failing assert. -/
def Faulty (s : State κ Tid) : Prop :=
  ∃ t c o k, s.pc t = .inside c (.op o k) ∧ o.Faults s.mem

variable [DecidableEq Tid]

/-- Thread `t` goes to a point of its code. -/
def State.goto (s : State κ Tid) (t : Tid) (new : Pc) : State κ Tid :=
  { s with pc := Function.update s.pc t new }

/-- One step of one thread. -/
def step (spurious : Bool) (cl : Client κ Call Reply) (s : State κ Tid) :
    Event Tid → Option (State κ Tid)
  | .call t c =>
      match s.pc t with
      | .idle => if cl.calls (s.locals t) c then some (s.goto t (.mutexLock c)) else none
      | _ => none
  | .lock t =>
      match s.pc t with
      | .mutexLock c =>
          if s.mutex = none then some { s.goto t (.testOperation c) with mutex := some t }
          else none
      | .waiting c =>
          if t ∉ s.waiters ∧ s.mutex = none then
            some { s.goto t (.testOperation c) with mutex := some t }
          else none
      | _ => none
  | .test t =>
      match s.pc t with
      | .testOperation c =>
          if s.operation = wants c then some (s.goto t (.inside c (code c)))
          else some (s.goto t (.condWait c))
      | _ => none
  | .wait t =>
      match s.pc t with
      | .condWait c =>
          some { s.goto t (.waiting c) with mutex := none, waiters := insert t s.waiters }
      | _ => none
  | .spurious t =>
      if spurious ∧ t ∈ s.waiters then some { s with waiters := s.waiters.erase t } else none
  | .access t new =>
      match s.pc t with
      | .inside c (.op o k) =>
          (sem.exec o new s.mem).map fun out =>
            { s.goto t (.inside c (k out.1)) with mem := out.2 }
      | _ => none
  | .setOperation t =>
      match s.pc t with
      | .inside c (.ret r) =>
          some { s.goto t (.condSignal c r) with
            operation := leaves c
            log := s.log ++ [⟨t, c, r⟩] }
      | _ => none
  | .signal t woken =>
      match s.pc t with
      | .condSignal c r =>
          match woken with
          | none => if s.waiters = ∅ then some (s.goto t (.mutexUnlock c r)) else none
          | some u =>
              if u ∈ s.waiters then
                some { s.goto t (.mutexUnlock c r) with waiters := s.waiters.erase u }
              else none
      | _ => none
  | .unlock t =>
      match s.pc t with
      | .mutexUnlock c r =>
          some { s.goto t .idle with
            mutex := none
            locals := Function.update s.locals t (cl.returns (s.locals t) c r) }
      | _ => none

/-- The access that an event performs. -/
def performed (s : State κ Tid) : Event Tid → Option (Answered sig)
  | .access t new =>
      match s.pc t with
      | .inside _ (.op o _) => (sem.exec o new s.mem).map fun out => ⟨o, out.1⟩
      | _ => none
  | _ => none

/-- The steps by what they do. -/
inductive Move (spurious : Bool) (cl : Client κ Call Reply) (s : State κ Tid) :
    State κ Tid → Prop
  | call {t : Tid} {c : Call} (here : s.pc t = .idle) (allowed : cl.calls (s.locals t) c = true) :
    Move spurious cl s (s.goto t (.mutexLock c))
  | lock {t : Tid} {c : Call} (here : s.pc t = .mutexLock c) (free : s.mutex = none) :
    Move spurious cl s { s.goto t (.testOperation c) with mutex := some t }
  | relock {t : Tid} {c : Call} (here : s.pc t = .waiting c) (woken : t ∉ s.waiters)
      (free : s.mutex = none) :
    Move spurious cl s { s.goto t (.testOperation c) with mutex := some t }
  | enter {t : Tid} {c : Call} (here : s.pc t = .testOperation c) (turn : s.operation = wants c) :
    Move spurious cl s (s.goto t (.inside c (code c)))
  | refuse {t : Tid} {c : Call} (here : s.pc t = .testOperation c) (turn : s.operation ≠ wants c) :
    Move spurious cl s (s.goto t (.condWait c))
  | wait {t : Tid} {c : Call} (here : s.pc t = .condWait c) :
    Move spurious cl s
      { s.goto t (.waiting c) with mutex := none, waiters := insert t s.waiters }
  | spurious {t : Tid} (allowed : spurious = true) (asleep : t ∈ s.waiters) :
    Move spurious cl s { s with waiters := s.waiters.erase t }
  | access {t : Tid} {c : Call} {o : Access} {k : o.Res → Code Reply} {new : Fresh} {r : o.Res}
      {m : Mem} (here : s.pc t = .inside c (.op o k)) (done : sem.exec o new s.mem = some (r, m)) :
    Move spurious cl s { s.goto t (.inside c (k r)) with mem := m }
  | setOperation {t : Tid} {c : Call} {r : Reply} (here : s.pc t = .inside c (.ret r)) :
    Move spurious cl s { s.goto t (.condSignal c r) with
      operation := leaves c
      log := s.log ++ [⟨t, c, r⟩] }
  | signalNobody {t : Tid} {c : Call} {r : Reply} (here : s.pc t = .condSignal c r)
      (nobody : s.waiters = ∅) : Move spurious cl s (s.goto t (.mutexUnlock c r))
  | signal {t u : Tid} {c : Call} {r : Reply} (here : s.pc t = .condSignal c r)
      (asleep : u ∈ s.waiters) :
    Move spurious cl s { s.goto t (.mutexUnlock c r) with waiters := s.waiters.erase u }
  | unlock {t : Tid} {c : Call} {r : Reply} (here : s.pc t = .mutexUnlock c r) :
    Move spurious cl s { s.goto t .idle with
      mutex := none
      locals := Function.update s.locals t (cl.returns (s.locals t) c r) }

/-- Every step is one of these moves. -/
theorem step_move {spurious : Bool} {cl : Client κ Call Reply} {s s' : State κ Tid}
    {e : Event Tid} (moved : step spurious cl s e = some s') : Move spurious cl s s' := by
  cases e with
  | call t c =>
    simp only [step] at moved
    split at moved
    · next here =>
      split at moved
      · next allowed =>
        cases moved
        exact .call here allowed
      · cases moved
    · cases moved
  | lock t =>
    simp only [step] at moved
    split at moved
    · next c here =>
      split at moved
      · next free =>
        cases moved
        exact .lock here free
      · cases moved
    · next c here =>
      split at moved
      · next both =>
        cases moved
        exact .relock here both.1 both.2
      · cases moved
    · cases moved
  | test t =>
    simp only [step] at moved
    split at moved
    · next c here =>
      split at moved
      · next turn =>
        cases moved
        exact .enter here turn
      · next turn =>
        cases moved
        exact .refuse here turn
    · cases moved
  | wait t =>
    simp only [step] at moved
    split at moved
    · next c here =>
      cases moved
      exact .wait here
    · cases moved
  | spurious t =>
    simp only [step] at moved
    split at moved
    · next both =>
      cases moved
      exact .spurious both.1 both.2
    · cases moved
  | access t new =>
    simp only [step] at moved
    split at moved
    · next c o k here =>
      rcases Option.map_eq_some_iff.mp moved with ⟨⟨r, m⟩, done, rfl⟩
      exact .access here done
    · cases moved
  | setOperation t =>
    simp only [step] at moved
    split at moved
    · next c r here =>
      cases moved
      exact .setOperation here
    · cases moved
  | signal t woken =>
    simp only [step] at moved
    split at moved
    · next c r here =>
      split at moved
      · split at moved
        · next nobody =>
          cases moved
          exact .signalNobody here nobody
        · cases moved
      · split at moved
        · next asleep =>
          cases moved
          exact .signal here asleep
        · cases moved
    · cases moved
  | unlock t =>
    simp only [step] at moved
    split at moved
    · next c r here =>
      cases moved
      exact .unlock here
    · cases moved

/-! ## Mutual exclusion -/

/-- The thread has the mutex. -/
def Pc.locked : Pc → Bool
  | .testOperation _ | .condWait _ | .inside .. | .condSignal .. | .mutexUnlock .. => true
  | .idle | .mutexLock _ | .waiting _ => false

/-- What a thread past the waiting loop has left to do. -/
def Pc.crit : Pc → Option (Call × Unit × Code Reply)
  | .inside c p => some (c, (), p)
  | _ => none

/-- The queue past the waiting loops. -/
def guarded (s : State κ Tid) : Guarded.State sig Mem Call Reply Unit Tid where
  mem := s.mem
  crit := Pc.crit ∘ s.pc
  log := s.log

/-- The mutex is locked by the thread that has it. -/
def Owned (s : State κ Tid) : Prop := ∀ t, (s.pc t).locked = true ↔ s.mutex = some t

theorem Pc.crit_of_unlocked {pc : Pc} (unlocked : pc.locked = false) : pc.crit = none := by
  cases pc with
  | inside c p => cases unlocked
  | _ => rfl

omit [DecidableEq Tid] in
theorem Owned.exclusive {s : State κ Tid} (owned : Owned s) {t u : Tid}
    (left : (s.pc t).locked = true) (right : (s.pc u).locked = true) : t = u := by
  have owner := (owned t).mp left
  rw [(owned u).mp right] at owner
  exact (Option.some.inj owner).symm

/-- A thread that has the mutex and is not past its loop keeps everyone else out. -/
theorem Owned.vacant {s : State κ Tid} (owned : Owned s) {t : Tid}
    (locked : (s.pc t).locked = true) (out : (s.pc t).crit = none) : (guarded s).Vacant := by
  intro u
  by_cases same : u = t
  · rw [same]
    exact out
  · apply Pc.crit_of_unlocked
    cases other : (s.pc u).locked with
    | false => rfl
    | true => exact (same (owned.exclusive other locked)).elim

omit [DecidableEq Tid] in
/-- With the mutex free, nobody is inside. -/
theorem Owned.vacant_of_free {s : State κ Tid} (owned : Owned s) (free : s.mutex = none) :
    (guarded s).Vacant := by
  intro u
  apply Pc.crit_of_unlocked
  cases other : (s.pc u).locked with
  | false => rfl
  | true =>
    have owner := (owned u).mp other
    rw [free] at owner
    cases owner

/-- A step of `t` that neither takes nor releases the mutex. -/
theorem Owned.keep {s s' : State κ Tid} (owned : Owned s) {t : Tid} {new : Pc}
    (pc : s'.pc = Function.update s.pc t new) (mutex : s'.mutex = s.mutex)
    (same : new.locked = (s.pc t).locked) : Owned s' := by
  intro u
  rw [mutex, ← owned u, pc]
  by_cases here : u = t
  · rw [here, Function.update_self, same]
  · rw [Function.update_of_ne here]

theorem Owned.take {s s' : State κ Tid} (owned : Owned s) {t : Tid} {new : Pc}
    (pc : s'.pc = Function.update s.pc t new) (free : s.mutex = none) (mutex : s'.mutex = some t)
    (locked : new.locked = true) : Owned s' := by
  intro u
  rw [mutex, pc]
  by_cases here : u = t
  · rw [here, Function.update_self]
    exact iff_of_true locked rfl
  · rw [Function.update_of_ne here, owned u, free]
    exact iff_of_false nofun fun other => here (Option.some.inj other).symm

theorem Owned.release {s s' : State κ Tid} (owned : Owned s) {t : Tid} {new : Pc}
    (pc : s'.pc = Function.update s.pc t new) (locked : (s.pc t).locked = true)
    (mutex : s'.mutex = none) (unlocked : new.locked = false) : Owned s' := by
  intro u
  rw [mutex, pc]
  by_cases here : u = t
  · rw [here, Function.update_self, unlocked]
    exact iff_of_false nofun nofun
  · rw [Function.update_of_ne here]
    refine iff_of_false (fun other => here (owned.exclusive other locked)) nofun

theorem Owned.step {spurious : Bool} {cl : Client κ Call Reply} {s s' : State κ Tid}
    (owned : Owned s) (move : Move spurious cl s s') : Owned s' := by
  cases move with
  | call here allowed => exact owned.keep rfl rfl (by rw [here]; rfl)
  | lock here free => exact owned.take rfl free rfl rfl
  | relock here woken free => exact owned.take rfl free rfl rfl
  | enter here turn => exact owned.keep rfl rfl (by rw [here]; rfl)
  | refuse here turn => exact owned.keep rfl rfl (by rw [here]; rfl)
  | wait here => exact owned.release rfl (by rw [here]; rfl) rfl rfl
  | spurious allowed asleep => exact owned
  | access here done => exact owned.keep rfl rfl (by rw [here]; rfl)
  | setOperation here => exact owned.keep rfl rfl (by rw [here]; rfl)
  | signalNobody here nobody => exact owned.keep rfl rfl (by rw [here]; rfl)
  | signal here asleep => exact owned.keep rfl rfl (by rw [here]; rfl)
  | unlock here => exact owned.release rfl (by rw [here]; rfl) rfl rfl

theorem owned {spurious : Bool} {cl : Client κ Call Reply} {maxCount : Int} {locals : Tid → κ}
    {s : State κ Tid} (reached : Reachable (step spurious cl) (init maxCount locals) s) :
    Owned s := by
  refine reached.invariant (P := Owned) ?_ fun _ _ _ before moved => before.step (step_move moved)
  intro t
  exact iff_of_false nofun nofun

/-- A step of `t` that stays out of the critical section. -/
theorem crit_outside {pc : Tid → Pc} {t : Tid} {new : Pc} (before : (pc t).crit = none)
    (after : new.crit = none) : Pc.crit ∘ Function.update pc t new = Pc.crit ∘ pc := by
  rw [Function.comp_update, after, ← before]
  exact Function.update_eq_self t (Pc.crit ∘ pc)

/-- A step is an act of the guarded queue. -/
theorem step_acts {spurious : Bool} {cl : Client κ Call Reply} {s s' : State κ Tid}
    {e : Event Tid} (owned : Owned s) (moved : step spurious cl s e = some s') :
    Guarded.Act object (performed s e) (guarded s) (guarded s') := by
  have outside : ∀ {t : Tid} {new : Pc} {s' : State κ Tid}, (s.pc t).crit = none →
      new.crit = none → s'.mem = s.mem → s'.log = s.log →
      s'.pc = Function.update s.pc t new → Guarded.Act object none (guarded s) (guarded s') := by
    intro t new s' before after mem log pc
    have same : guarded s' = guarded s := by
      simp only [guarded, mem, log, pc, crit_outside before after]
    rw [same]
    exact Guarded.Act.stay (guarded s)
  cases e with
  | call t c =>
    simp only [step] at moved
    split at moved
    · next here =>
      split at moved
      · cases moved
        exact outside (by rw [here]; rfl) rfl rfl rfl rfl
      · cases moved
    · cases moved
  | lock t =>
    simp only [step] at moved
    split at moved
    · next c here =>
      split at moved
      · cases moved
        exact outside (by rw [here]; rfl) rfl rfl rfl rfl
      · cases moved
    · next c here =>
      split at moved
      · cases moved
        exact outside (by rw [here]; rfl) rfl rfl rfl rfl
      · cases moved
    · cases moved
  | test t =>
    simp only [step] at moved
    split at moved
    · next c here =>
      split at moved
      · cases moved
        simp only [guarded, State.goto, Function.comp_update]
        exact Guarded.Act.enter t c (owned.vacant (by rw [here]; rfl) (by rw [here]; rfl))
      · cases moved
        exact outside (by rw [here]; rfl) rfl rfl rfl rfl
    · cases moved
  | wait t =>
    simp only [step] at moved
    split at moved
    · next c here =>
      cases moved
      exact outside (by rw [here]; rfl) rfl rfl rfl rfl
    · cases moved
  | spurious t =>
    simp only [step] at moved
    split at moved
    · cases moved
      exact Guarded.Act.stay (guarded s)
    · cases moved
  | access t new =>
    simp only [step] at moved
    split at moved
    · next c o k here =>
      rcases Option.map_eq_some_iff.mp moved with ⟨⟨r, m⟩, done, rfl⟩
      simp only [guarded, State.goto, Function.comp_update, performed, here, done, Option.map_some]
      exact Guarded.Act.access (h := ()) (by simp only [Function.comp_apply, here, Pc.crit]) done
    · cases moved
  | setOperation t =>
    simp only [step] at moved
    split at moved
    · next c r here =>
      cases moved
      simp only [guarded, State.goto, Function.comp_update]
      exact Guarded.Act.leave (h := ()) (by simp only [Function.comp_apply, here, Pc.crit])
    · cases moved
  | signal t woken =>
    simp only [step] at moved
    split at moved
    · next c r here =>
      split at moved
      · split at moved
        · cases moved
          exact outside (by rw [here]; rfl) rfl rfl rfl rfl
        · cases moved
      · split at moved
        · cases moved
          exact outside (by rw [here]; rfl) rfl rfl rfl rfl
        · cases moved
    · cases moved
  | unlock t =>
    simp only [step] at moved
    split at moved
    · next c r here =>
      cases moved
      exact outside (by rw [here]; rfl) rfl rfl rfl rfl
    · cases moved

omit [DecidableEq Tid] in
/-- The access a call is about to make is defined. -/
theorem not_faulty {R : Mem → List (Entry Tid) → Prop}
    {J : List (Entry Tid) → Call → Mem × Unit → Prop} {s : State κ Tid}
    (inv : Guarded.Inv object R J (guarded s)) : ¬ Faulty s := by
  intro faulty
  rcases faulty with ⟨t, c, o, k, here, fault⟩
  have inside : (guarded s).crit t = some (c, (), .op o k) := by
    simp only [guarded, Function.comp_apply, here, Pc.crit]
  exact inv.defined inside fault

/-- The threads past their loops see the queue one call at a time. -/
theorem reachable_sound {spurious : Bool} {cl : Client κ Call Reply} {cap : Nat}
    (small : (cap : Int) ≤ intMax) {locals : Tid → κ} {s : State κ Tid}
    (reached : Reachable (step spurious cl) (init cap locals) s) :
    Guarded.Inv object (Logged cap) (fun _ _ _ => True) (guarded s) :=
  Guarded.sound (object_spec cap) (fun _ => rfl) (logged_queueInit small)
    (reached.refines fun _ _ _ before moved => (step_acts (owned before) moved).step)

/-! ## Turns -/

/-- The values of the completed adds, and what the completed gets stored, in order. -/
def added (log : List (Entry Tid)) : List CInt :=
  log.filterMap fun d => match d.call with
    | .add v => some v
    | .get => none

def fetched (log : List (Entry Tid)) : List (Option CInt) :=
  log.filterMap fun d => match d.call with
    | .add _ => none
    | .get => some d.reply.stored

omit [DecidableEq Tid] in
/-- When every call returned 1, the adds all inserted and the gets all delivered. -/
theorem fetched_of_successful {cap : Nat} {l l' : List CInt} {log : List (Entry Tid)}
    (legal : Legal (Fifo.step cap) l log l') (successful : ∀ d ∈ log, d.reply.ret = 1) :
    Fifo.inserted log = added log ∧ (Fifo.delivered log).map some = fetched log := by
  induction log generalizing l with
  | nil => exact ⟨rfl, rfl⟩
  | cons d log ih =>
    obtain ⟨t, c, r⟩ := d
    obtain ⟨reply, rest⟩ := legal
    obtain ⟨inserts, delivers⟩ :=
      ih rest fun d member => successful d (List.mem_cons_of_mem _ member)
    have one : r.ret = 1 := successful ⟨t, c, r⟩ List.mem_cons_self
    dsimp only at reply
    simp only [Fifo.inserted, Fifo.delivered, added, fetched] at inserts delivers ⊢
    cases c with
    | add v =>
      have nothing : r.stored = none := by
        rw [← reply]
        by_cases full : l.length = cap
        · rw [Fifo.step_add_full full]
        · rw [Fifo.step_add_room full]
      simp only [List.filterMap_cons, one, ↓reduceIte, nothing, inserts, delivers, and_self]
    | get =>
      cases l with
      | nil =>
        rw [Fifo.step_get_nil] at reply
        rw [← reply] at one
        cases one
      | cons v l =>
        rw [Fifo.step_get_cons] at reply
        simp only [List.filterMap_cons, inserts, ← reply, List.map_cons, delivers, and_self]

/-- The operation, the elements and the log agree on whose turn it is. -/
structure Turns (cap : Nat) (s : State κ Tid) : Prop where
  inside : ∀ t c p, s.pc t = .inside c p → s.operation = wants c
  elements : (s.operation = .write ∧ Legal (Fifo.step cap) [] s.log []) ∨
    (s.operation = .read ∧ ∃ v, Legal (Fifo.step cap) [] s.log [v])
  parity : s.operation = .write ↔ s.log.length % 2 = 0
  alternate : ∀ i d, s.log[i]? = some d → (d.call.isAdd = true ↔ i % 2 = 0)
  successful : ∀ d ∈ s.log, d.reply.ret = 1

omit [DecidableEq Tid] in
/-- The reply of a call made in its turn, and what it leaves. -/
theorem Turns.reply {cap : Nat} (room : 1 ≤ cap) {s : State κ Tid} (turns : Turns cap s)
    (inv : Guarded.Inv object (Logged cap) (fun _ _ _ => True) (guarded s)) {t : Tid} {c : Call}
    {r : Reply} (here : s.pc t = .inside c (.ret r)) :
    r.ret = 1 ∧ (leaves c = .write ∧ Legal (Fifo.step cap) [] (s.log ++ [⟨t, c, r⟩]) [] ∨
      leaves c = .read ∧ ∃ v, Legal (Fifo.step cap) [] (s.log ++ [⟨t, c, r⟩]) [v]) := by
  have inside : (guarded s).crit t = some (c, (), .ret r) := by
    simp only [guarded, Function.comp_apply, here, Pc.crit]
  rcases inv.busy t c () _ inside with ⟨-, items', after⟩
  rcases legal_append.mp after.legal with ⟨items, legal, reply, rest⟩
  dsimp only at reply rest
  have turn := turns.inside t c _ here
  rcases turns.elements with ⟨write, before⟩ | ⟨read, v, before⟩
  · obtain rfl := legal.unique before
    rw [write] at turn
    cases c with
    | get => cases turn
    | add v =>
      have space : ([] : List CInt).length ≠ cap := by
        simp only [List.length_nil]
        omega
      rw [Fifo.step_add_room space] at reply rest
      cases rest
      refine ⟨by rw [← reply], Or.inr ⟨rfl, v, after.legal⟩⟩
  · obtain rfl := legal.unique before
    rw [read] at turn
    cases c with
    | add v => cases turn
    | get =>
      rw [Fifo.step_get_cons] at reply rest
      cases rest
      exact ⟨by rw [← reply], Or.inl ⟨rfl, after.legal⟩⟩

/-- A step of `t` that does not set the operation. -/
theorem Turns.keep {cap : Nat} {s s' : State κ Tid} (turns : Turns cap s) {t : Tid} {new : Pc}
    (pc : s'.pc = Function.update s.pc t new) (operation : s'.operation = s.operation)
    (log : s'.log = s.log) (enters : ∀ c p, new = .inside c p → s.operation = wants c) :
    Turns cap s' := by
  constructor
  · intro u c p there
    rw [operation]
    rw [pc] at there
    by_cases same : u = t
    · rw [same, Function.update_self] at there
      exact enters c p there
    · rw [Function.update_of_ne same] at there
      exact turns.inside u c p there
  · rw [operation, log]
    exact turns.elements
  · rw [operation, log]
    exact turns.parity
  · rw [log]
    exact turns.alternate
  · rw [log]
    exact turns.successful

/-- The turn passes. -/
theorem Turns.pass {cap : Nat} (room : 1 ≤ cap) {s : State κ Tid} (owned : Owned s)
    (turns : Turns cap s) (inv : Guarded.Inv object (Logged cap) (fun _ _ _ => True) (guarded s))
    {t : Tid} {c : Call} {r : Reply} (here : s.pc t = .inside c (.ret r)) :
    Turns cap { s.goto t (.condSignal c r) with
      operation := leaves c
      log := s.log ++ [⟨t, c, r⟩] } := by
  rcases turns.reply room inv here with ⟨one, elements⟩
  have parity := turns.parity
  have turn := turns.inside t c _ here
  have others : ∀ u, u ≠ t → (s.pc u).locked = false := by
    intro u ne
    cases locked : (s.pc u).locked with
    | false => rfl
    | true => exact (ne (owned.exclusive locked (by rw [here]; rfl))).elim
  constructor
  · intro u c' p there
    simp only [State.goto] at there
    by_cases same : u = t
    · rw [same, Function.update_self] at there
      cases there
    · rw [Function.update_of_ne same] at there
      have out := others u same
      rw [there] at out
      cases out
  · exact elements
  · simp only [List.length_append, List.length_singleton]
    cases c with
    | add v =>
      have even : s.log.length % 2 = 0 := parity.mp turn
      exact iff_of_false nofun (by omega)
    | get =>
      have odd : ¬ s.log.length % 2 = 0 := by
        rw [← parity, turn]
        exact nofun
      exact iff_of_true rfl (by omega)
  · intro i d at_i
    simp only at at_i
    rcases Nat.lt_trichotomy i s.log.length with before | rfl | beyond
    · rw [List.getElem?_append_left before] at at_i
      exact turns.alternate i d at_i
    · rw [List.getElem?_concat_length] at at_i
      cases at_i
      rw [← parity, turn]
      cases c <;> simp [Fifo.Call.isAdd, wants]
    · rw [List.getElem?_eq_none (by simp; omega)] at at_i
      cases at_i
  · intro d member
    rcases List.mem_append.mp member with old | new
    · exact turns.successful d old
    · rw [List.mem_singleton.mp new]
      exact one

theorem Turns.step {cap : Nat} (room : 1 ≤ cap) {spurious : Bool} {cl : Client κ Call Reply}
    {s s' : State κ Tid} (owned : Owned s) (turns : Turns cap s)
    (inv : Guarded.Inv object (Logged cap) (fun _ _ _ => True) (guarded s))
    (move : Move spurious cl s s') : Turns cap s' := by
  cases move with
  | call here allowed => exact turns.keep rfl rfl rfl nofun
  | lock here free => exact turns.keep rfl rfl rfl nofun
  | relock here woken free => exact turns.keep rfl rfl rfl nofun
  | @enter t c here turn =>
    refine turns.keep rfl rfl rfl ?_
    intro c' p same
    cases same
    exact turn
  | refuse here turn => exact turns.keep rfl rfl rfl nofun
  | wait here => exact turns.keep rfl rfl rfl nofun
  | spurious allowed asleep =>
    exact ⟨turns.inside, turns.elements, turns.parity, turns.alternate, turns.successful⟩
  | access here done =>
    refine turns.keep rfl rfl rfl ?_
    intro c' p same
    cases same
    exact turns.inside _ _ _ here
  | setOperation here => exact turns.pass room owned inv here
  | signalNobody here nobody => exact turns.keep rfl rfl rfl nofun
  | signal here asleep => exact turns.keep rfl rfl rfl nofun
  | unlock here => exact turns.keep rfl rfl rfl nofun

theorem reachable_turns {spurious : Bool} {cl : Client κ Call Reply} {cap : Nat} (room : 1 ≤ cap)
    (small : (cap : Int) ≤ intMax) {locals : Tid → κ} {s : State κ Tid}
    (reached : Reachable (step spurious cl) (init cap locals) s) : Turns cap s := by
  refine reached.induction (motive := Turns cap) ?_ fun a b e before ih moved =>
    ih.step room (owned before) (reachable_sound small before) (step_move moved)
  exact ⟨nofun, Or.inl ⟨rfl, rfl⟩, iff_of_true rfl rfl, nofun, nofun⟩

/-- **The operations take turns.**  Any threads making any calls, with or without spurious
wake-ups: the calls past the waiting loops are add, get, add, get, ...; when the mutex is
free the operation tells whether the count is 0 or 1; no access faults; every call returns
1; and the `i`-th get stores the value of the `i`-th add. -/
theorem alternation {maxCount : Int} (room : 1 ≤ maxCount) (isInt : maxCount ≤ intMax)
    (spurious : Bool) (cl : Client κ Call Reply) (locals : Tid → κ) (s : State κ Tid)
    (reached : Reachable (step spurious cl) (init maxCount locals) s) :
    (∀ i d, s.log[i]? = some d → (d.call.isAdd = true ↔ i % 2 = 0)) ∧
      (s.mutex = none → (s.operation = .write ↔ s.mem.q.count = 0) ∧
        (s.operation = .read ↔ s.mem.q.count = 1)) ∧
      ¬ Faulty s ∧ (∀ d ∈ s.log, d.reply.ret = 1) ∧
      (∀ t c r, s.pc t = .inside c (.ret r) → r.ret = 1) ∧
      ∀ (i : Nat) x, (fetched s.log)[i]? = some x →
        ∃ v, x = some v ∧ (added s.log)[i]? = some v := by
  obtain ⟨cap, rfl⟩ := Int.eq_ofNat_of_zero_le (show 0 ≤ maxCount by omega)
  have space : 1 ≤ cap := by omega
  have inv := reachable_sound isInt reached
  have turns := reachable_turns space isInt reached
  refine ⟨turns.alternate, ?_, ?_, turns.successful, ?_, ?_⟩
  · intro free
    obtain ⟨items, holds⟩ := inv.idle ((owned reached).vacant_of_free free)
    obtain ⟨nodes, rep⟩ := holds.rep
    have count : s.mem.q.count = items.length := rep.count
    rcases turns.elements with ⟨write, legal⟩ | ⟨read, v, legal⟩
    · obtain rfl := holds.legal.unique legal
      rw [write, count]
      exact ⟨iff_of_true rfl rfl, iff_of_false nofun nofun⟩
    · obtain rfl := holds.legal.unique legal
      rw [read, count]
      exact ⟨iff_of_false nofun nofun, iff_of_true rfl rfl⟩
  · exact not_faulty inv
  · intro t c r here
    exact (turns.reply space inv here).1
  · intro i x at_i
    obtain ⟨m, items, past⟩ := inv.past
    have legal : Legal (Fifo.step cap) [] s.log items := past.legal
    have conserved := Fifo.conservation legal
    rcases fetched_of_successful legal turns.successful with ⟨inserts, delivers⟩
    rw [List.nil_append, inserts] at conserved
    rw [← delivers, List.getElem?_map, Option.map_eq_some_iff] at at_i
    obtain ⟨v, here, rfl⟩ := at_i
    refine ⟨v, rfl, ?_⟩
    have within : i < (Fifo.delivered s.log).length := by
      by_contra beyond
      rw [List.getElem?_eq_none (by omega)] at here
      cases here
    rw [conserved, List.getElem?_append_left within]
    exact here

/-- A reader comes first, is woken without a signal, and gets what the writer adds. -/
def readerFirst : List (Event Bool) :=
  List.flatten [
    [.call false .get, .lock false, .test false, .wait false, .spurious false, .lock false,
      .test false, .wait false, .call true (.add 5), .lock true, .test true],
    List.replicate 18 (.access true ⟨0, ⟨0, none⟩⟩),
    [.setOperation true, .signal true (some false), .unlock true, .lock false, .test false],
    List.replicate 15 (.access false ⟨0, ⟨0, none⟩⟩),
    [.setOperation false, .signal false none, .unlock false]]

/-- A reader that comes first waits for the writer, in spite of a spurious wake-up. -/
theorem alternation_reader_first : ∃ s : State Unit Bool,
    s.log.map (fun d => d.reply) = [⟨1, none⟩, ⟨1, some 5⟩] ∧
      (∀ i d, s.log[i]? = some d → (d.call.isAdd = true ↔ i % 2 = 0)) ∧
      (s.mutex = none → (s.operation = .write ↔ s.mem.q.count = 0) ∧
        (s.operation = .read ↔ s.mem.q.count = 1)) ∧
      ¬ Faulty s ∧ (∀ d ∈ s.log, d.reply.ret = 1) ∧
      (∀ t c r, s.pc t = .inside c (.ret r) → r.ret = 1) ∧
      ∀ (i : Nat) x, (fetched s.log)[i]? = some x →
        ∃ v, x = some v ∧ (added s.log)[i]? = some v := by
  have reached : Reachable (step true Client.any) (init 1 fun _ => ()) _ := ⟨readerFirst, rfl⟩
  exact ⟨_, by decide, alternation (show (1 : Int) ≤ 1 by decide) (by decide) _ _ _ _ reached⟩

end Os2Labs.Queue.CondVar
