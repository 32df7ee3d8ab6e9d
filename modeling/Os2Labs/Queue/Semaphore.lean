import Os2Labs.Conc.Client
import Os2Labs.Conc.Population
import Os2Labs.Queue.Object

/-!
# The queue behind two semaphores

`lab2/2/g-semaphore/queue.c`: `queue_add` waits for `space_available`, works under
a mutex, and posts `items_available`; `queue_get` does the reverse.  The result of
`sem_wait` is ignored, so a wait that a signal interrupts goes on without a token;
the parameter `eintr` of the step says whether that happens.

`tokens_conserved` is about uninterrupted waits: every token is in a semaphore or
with a thread, so both operations always succeed.
-/

namespace Os2Labs.Queue.Semaphore

open Conc

inductive SemT where
  | spaceAvailable | itemsAvailable
deriving DecidableEq

/-- The semaphore a call waits for, and the one it posts on every return. -/
def waitsFor : Call → SemT
  | .add _ => .spaceAvailable
  | .get => .itemsAvailable

def posts : Call → SemT
  | .add _ => .itemsAvailable
  | .get => .spaceAvailable

/-- `SEM_VALUE_MAX`. -/
def semValueMax : Nat := 2147483647

/-- `sem_post`, which fails when the semaphore has the largest value; its result is ignored. -/
def semPost (sem : SemT → Nat) (w : SemT) : SemT → Nat :=
  if sem w < semValueMax then Function.update sem w (sem w + 1) else sem

theorem semPost_of_room {sem : SemT → Nat} {w : SemT} (room : sem w < semValueMax) :
    semPost sem w = Function.update sem w (sem w + 1) :=
  if_pos room

theorem semPost_of_ne {sem : SemT → Nat} {w u : SemT} (other : u ≠ w) :
    semPost sem w u = sem u := by
  unfold semPost
  split
  · exact Function.update_of_ne other ..
  · rfl

theorem semPost_le (sem : SemT → Nat) (w : SemT) : semPost sem w w ≤ sem w + 1 := by
  unfold semPost
  split
  · rw [Function.update_self]
  · exact Nat.le_succ _

/-- Where a thread is.  `counted` is the monitor of `countedObject`. -/
inductive Pc where
  | idle
  | semWait (c : Call)
  | mutexLock (c : Call)
  | inside (c : Call) (counted : Bool) (p : Code Reply)
  | semPost (c : Call) (r : Reply)

structure State (κ Tid : Type) where
  sem : SemT → Nat
  /-- The thread that has locked the mutex. -/
  mutex : Option Tid
  mem : Mem
  pc : Tid → Pc
  locals : Tid → κ
  /-- The calls whose critical section is over, in order. -/
  log : List (Entry Tid)

inductive Event (Tid : Type) where
  | call (t : Tid) (c : Call)
  | semWait (t : Tid)
  | interrupt (t : Tid)
  | lock (t : Tid)
  | access (t : Tid) (new : Fresh)
  | unlock (t : Tid)
  | semPost (t : Tid)

variable {κ Tid : Type}

/-- After `queue_init(max_count)`. -/
def init (maxCount : Int) (locals : Tid → κ) : State κ Tid where
  sem
    | .spaceAvailable => maxCount.toNat
    | .itemsAvailable => 0
  mutex := none
  mem := queueInit maxCount
  pc _ := .idle
  locals := locals
  log := []

/-- The next access of some thread is undefined behaviour or a failing assert. -/
def Faulty (s : State κ Tid) : Prop :=
  ∃ t c h o k, s.pc t = .inside c h (.op o k) ∧ o.Faults s.mem

/-- What a thread inside has left to do. -/
def Pc.crit : Pc → Option (Call × Bool × Code Reply)
  | .inside c h p => some (c, h, p)
  | _ => none

/-- The queue behind the mutex. -/
def guarded (s : State κ Tid) : Guarded.State sig Mem Call Reply Bool Tid where
  mem := s.mem
  crit := Pc.crit ∘ s.pc
  log := s.log

/-- The mutex is locked by the thread inside. -/
def Owned (s : State κ Tid) : Prop := ∀ t, (s.pc t).crit ≠ none ↔ s.mutex = some t

theorem Owned.vacant {s : State κ Tid} (owned : Owned s) (free : s.mutex = none) :
    (guarded s).Vacant := by
  intro t
  by_contra inside
  have locked := (owned t).mp inside
  rw [free] at locked
  cases locked

variable [DecidableEq Tid]

/-- Thread `t` goes to a point of its code. -/
def State.goto (s : State κ Tid) (t : Tid) (new : Pc) : State κ Tid :=
  { s with pc := Function.update s.pc t new }

/-- One step of one thread. -/
def step (eintr : Bool) (cl : Client κ Call Reply) (s : State κ Tid) :
    Event Tid → Option (State κ Tid)
  | .call t c =>
      match s.pc t with
      | .idle => if cl.calls (s.locals t) c then some (s.goto t (.semWait c)) else none
      | _ => none
  | .semWait t =>
      match s.pc t with
      | .semWait c =>
          if 0 < s.sem (waitsFor c) then
            some { s.goto t (.mutexLock c) with
              sem := Function.update s.sem (waitsFor c) (s.sem (waitsFor c) - 1) }
          else none
      | _ => none
  | .interrupt t =>
      match s.pc t with
      | .semWait c => if eintr then some (s.goto t (.mutexLock c)) else none
      | _ => none
  | .lock t =>
      match s.pc t with
      | .mutexLock c =>
          if s.mutex = none then
            some { s.goto t (.inside c false (code c)) with mutex := some t }
          else none
      | _ => none
  | .access t new =>
      match s.pc t with
      | .inside c h (.op o k) =>
          (sem.exec o new s.mem).map fun out =>
            { s.goto t (.inside c (counted h o) (k out.1)) with mem := out.2 }
      | _ => none
  | .unlock t =>
      match s.pc t with
      | .inside c _ (.ret r) =>
          some { s.goto t (.semPost c r) with mutex := none, log := s.log ++ [⟨t, c, r⟩] }
      | _ => none
  | .semPost t =>
      match s.pc t with
      | .semPost c r =>
          some { s.goto t .idle with
            sem := semPost s.sem (posts c)
            locals := Function.update s.locals t (cl.returns (s.locals t) c r) }
      | _ => none

/-- The access that an event performs. -/
def performed (s : State κ Tid) : Event Tid → Option (Answered sig)
  | .access t new =>
      match s.pc t with
      | .inside _ _ (.op o _) => (Queue.sem.exec o new s.mem).map fun out => ⟨o, out.1⟩
      | _ => none
  | _ => none

/-- Everything a step can do. -/
theorem step_cases {eintr : Bool} {cl : Client κ Call Reply} {s s' : State κ Tid}
    {e : Event Tid} (moved : step eintr cl s e = some s') :
    (∃ t c, e = .call t c ∧ s.pc t = .idle ∧ cl.calls (s.locals t) c = true ∧
      s' = s.goto t (.semWait c)) ∨
    (∃ t c, e = .semWait t ∧ s.pc t = .semWait c ∧ 0 < s.sem (waitsFor c) ∧
      s' = { s.goto t (.mutexLock c) with
        sem := Function.update s.sem (waitsFor c) (s.sem (waitsFor c) - 1) }) ∨
    (∃ t c, e = .interrupt t ∧ s.pc t = .semWait c ∧ eintr = true ∧ s' = s.goto t (.mutexLock c)) ∨
    (∃ t c, e = .lock t ∧ s.pc t = .mutexLock c ∧ s.mutex = none ∧
      s' = { s.goto t (.inside c false (code c)) with mutex := some t }) ∨
    (∃ t c h o k new r m, e = .access t new ∧ s.pc t = .inside c h (.op o k) ∧
      sem.exec o new s.mem = some (r, m) ∧
      s' = { s.goto t (.inside c (counted h o) (k r)) with mem := m }) ∨
    (∃ t c h r, e = .unlock t ∧ s.pc t = .inside c h (.ret r) ∧
      s' = { s.goto t (.semPost c r) with mutex := none, log := s.log ++ [⟨t, c, r⟩] }) ∨
    (∃ t c r, e = .semPost t ∧ s.pc t = .semPost c r ∧
      s' = { s.goto t .idle with
        sem := semPost s.sem (posts c)
        locals := Function.update s.locals t (cl.returns (s.locals t) c r) }) := by
  cases e with
  | call t c =>
    simp only [step] at moved
    split at moved
    · next out =>
      split at moved
      · next allowed =>
        cases moved
        exact Or.inl ⟨t, c, rfl, out, allowed, rfl⟩
      · cases moved
    · cases moved
  | semWait t =>
    simp only [step] at moved
    split at moved
    · next c here =>
      split at moved
      · next positive =>
        cases moved
        exact Or.inr (Or.inl ⟨t, c, rfl, here, positive, rfl⟩)
      · cases moved
    · cases moved
  | interrupt t =>
    simp only [step] at moved
    split at moved
    · next c here =>
      split at moved
      · next allowed =>
        cases moved
        exact Or.inr (Or.inr (Or.inl ⟨t, c, rfl, here, allowed, rfl⟩))
      · cases moved
    · cases moved
  | lock t =>
    simp only [step] at moved
    split at moved
    · next c here =>
      split at moved
      · next free =>
        cases moved
        exact Or.inr (Or.inr (Or.inr (Or.inl ⟨t, c, rfl, here, free, rfl⟩)))
      · cases moved
    · cases moved
  | access t new =>
    simp only [step] at moved
    split at moved
    · next c h o k here =>
      rcases Option.map_eq_some_iff.mp moved with ⟨⟨r, m⟩, done, rfl⟩
      exact Or.inr (Or.inr (Or.inr (Or.inr (Or.inl
        ⟨t, c, h, o, k, new, r, m, rfl, here, done, rfl⟩))))
    · cases moved
  | unlock t =>
    simp only [step] at moved
    split at moved
    · next c h r here =>
      cases moved
      exact Or.inr (Or.inr (Or.inr (Or.inr (Or.inr (Or.inl ⟨t, c, h, r, rfl, here, rfl⟩)))))
    · cases moved
  | semPost t =>
    simp only [step] at moved
    split at moved
    · next c r here =>
      cases moved
      exact Or.inr (Or.inr (Or.inr (Or.inr (Or.inr (Or.inr ⟨t, c, r, rfl, here, rfl⟩)))))
    · cases moved

/-! ## Mutual exclusion -/

/-- A step of `t` outside the critical section. -/
theorem Owned.outside {s s' : State κ Tid} (owned : Owned s) {t : Tid} {new : Pc}
    (pc : s'.pc = Function.update s.pc t new) (mutex : s'.mutex = s.mutex)
    (before : (s.pc t).crit = none) (after : new.crit = none) : Owned s' := by
  intro u
  rw [mutex, ← owned u, pc]
  by_cases same : u = t
  · rw [same, Function.update_self, before, after]
  · rw [Function.update_of_ne same]

theorem Owned.step {eintr : Bool} {cl : Client κ Call Reply} {s s' : State κ Tid}
    {e : Event Tid} (owned : Owned s) (moved : step eintr cl s e = some s') : Owned s' := by
  rcases step_cases moved with ⟨t, c, -, here, -, rfl⟩ | ⟨t, c, -, here, -, rfl⟩ |
    ⟨t, c, -, here, -, rfl⟩ | ⟨t, c, -, here, free, rfl⟩ |
    ⟨t, c, h, o, k, new, r, m, -, here, done, rfl⟩ | ⟨t, c, h, r, -, here, rfl⟩ |
    ⟨t, c, r, -, here, rfl⟩
  · exact owned.outside rfl rfl (by rw [here]; rfl) rfl
  · exact owned.outside rfl rfl (by rw [here]; rfl) rfl
  · exact owned.outside rfl rfl (by rw [here]; rfl) rfl
  · intro u
    by_cases same : u = t
    · simp [State.goto, same, Pc.crit]
    · have out : (s.pc u).crit = none := owned.vacant free u
      simp [State.goto, same, out, Ne.symm same]
  · have locked := (owned t).mp (by rw [here]; exact Option.some_ne_none _)
    intro u
    by_cases same : u = t
    · simp [State.goto, same, Pc.crit, locked]
    · simpa only [State.goto, Function.update_of_ne same] using owned u
  · have locked := (owned t).mp (by rw [here]; exact Option.some_ne_none _)
    intro u
    by_cases same : u = t
    · simp [State.goto, same, Pc.crit]
    · have out : (s.pc u).crit = none := by
        by_contra inside
        have other := (owned u).mp inside
        rw [locked] at other
        exact same (Option.some.inj other).symm
      simp [State.goto, same, out]
  · exact owned.outside rfl rfl (by rw [here]; rfl) rfl

theorem owned {eintr : Bool} {cl : Client κ Call Reply} {maxCount : Int} {locals : Tid → κ}
    {s : State κ Tid} (reached : Reachable (step eintr cl) (init maxCount locals) s) : Owned s := by
  refine reached.invariant (P := Owned) ?_ fun _ _ _ before moved => before.step moved
  intro t
  simp [init, Pc.crit]

/-- A step outside the critical section leaves the guarded queue alone. -/
theorem crit_outside {pc : Tid → Pc} {t : Tid} {new : Pc} (before : (pc t).crit = none)
    (after : new.crit = none) : Pc.crit ∘ Function.update pc t new = Pc.crit ∘ pc := by
  rw [Function.comp_update, after, ← before]
  exact Function.update_eq_self t (Pc.crit ∘ pc)

/-- A step is an act of the guarded queue. -/
theorem step_acts {eintr : Bool} {cl : Client κ Call Reply} {s s' : State κ Tid}
    {e : Event Tid} (owned : Owned s) (moved : step eintr cl s e = some s') :
    Guarded.Act countedObject (performed s e) (guarded s) (guarded s') := by
  have outside : ∀ {t : Tid} {new : Pc} {s' : State κ Tid}, (s.pc t).crit = none →
      new.crit = none → s'.mem = s.mem → s'.log = s.log →
      s'.pc = Function.update s.pc t new →
      Guarded.Act countedObject none (guarded s) (guarded s') := by
    intro t new s' before after mem log pc
    have same : guarded s' = guarded s := by
      simp only [guarded, mem, log, pc, crit_outside before after]
    rw [same]
    exact Guarded.Act.stay (guarded s)
  rcases step_cases moved with ⟨t, c, rfl, here, -, rfl⟩ | ⟨t, c, rfl, here, -, rfl⟩ |
    ⟨t, c, rfl, here, -, rfl⟩ | ⟨t, c, rfl, here, free, rfl⟩ |
    ⟨t, c, h, o, k, new, r, m, rfl, here, done, rfl⟩ | ⟨t, c, h, r, rfl, here, rfl⟩ |
    ⟨t, c, r, rfl, here, rfl⟩
  · exact outside (by rw [here]; rfl) rfl rfl rfl rfl
  · exact outside (by rw [here]; rfl) rfl rfl rfl rfl
  · exact outside (by rw [here]; rfl) rfl rfl rfl rfl
  · simp only [guarded, State.goto, Function.comp_update]
    exact Guarded.Act.enter t c (owned.vacant free)
  · simp only [guarded, State.goto, Function.comp_update, performed, here, done, Option.map_some]
    exact Guarded.Act.access (h := h) (by simp only [Function.comp_apply, here, Pc.crit]) done
  · simp only [guarded, State.goto, Function.comp_update]
    exact Guarded.Act.leave (h := h) (by simp only [Function.comp_apply, here, Pc.crit])
  · exact outside (by rw [here]; rfl) rfl rfl rfl rfl

omit [DecidableEq Tid] in
/-- The access a call is about to make is defined. -/
theorem not_faulty {R : Mem → List (Entry Tid) → Prop}
    {J : List (Entry Tid) → Call → Mem × Bool → Prop} {s : State κ Tid}
    (inv : Guarded.Inv countedObject R J (guarded s)) : ¬ Faulty s := by
  intro faulty
  rcases faulty with ⟨t, c, h, o, k, here, fault⟩
  have inside : (guarded s).crit t = some (c, h, .op o k) := by
    simp only [guarded, Function.comp_apply, here, Pc.crit]
  exact inv.defined inside fault

/-- The threads see the queue one call at a time, also when waits are interrupted. -/
theorem reachable_sound {eintr : Bool} {cl : Client κ Call Reply} {cap : Nat}
    (small : (cap : Int) ≤ intMax) {locals : Tid → κ} {s : State κ Tid}
    (reached : Reachable (step eintr cl) (init cap locals) s) :
    Guarded.Inv countedObject (Logged cap) (CountedAlong cap) (guarded s) :=
  Guarded.sound (countedObject_spec cap) (fun _ => rfl) (logged_queueInit small)
    (reached.refines fun _ _ _ before moved => (step_acts (owned before) moved).step)

/-- The next access of a critical section is always possible. -/
theorem reachable_access {eintr : Bool} {cl : Client κ Call Reply} {cap : Nat}
    (small : (cap : Int) ≤ intMax) {locals : Tid → κ} {s : State κ Tid}
    (reached : Reachable (step eintr cl) (init cap locals) s) {t : Tid} {c : Call} {h : Bool}
    {o : Access} {k : o.Res → Code Reply} (here : s.pc t = .inside c h (.op o k)) :
    ∃ new r m, sem.exec o new s.mem = some (r, m) := by
  have inside : (guarded s).crit t = some (c, h, .op o k) := by
    simp only [guarded, Function.comp_apply, here, Pc.crit]
  exact (reachable_sound small reached).enabled inside

/-! ## Tokens -/

/-- Between the return of `sem_wait` and the `sem_post`. -/
def holding : Pc → Bool
  | .mutexLock _ | .inside .. | .semPost .. => true
  | .idle | .semWait _ => false

/-- The tokens in the semaphores and with the threads. -/
def State.tokens [Fintype Tid] (s : State κ Tid) : Nat :=
  s.sem .spaceAvailable + s.sem .itemsAvailable + population holding s.pc

/-- A consumer with an items token that has not yet removed an element. -/
def toRemove : Pc → Bool
  | .mutexLock .get => true
  | .inside .get counted _ => !counted
  | _ => false

/-- A producer that has inserted an element and not yet posted. -/
def toPost : Pc → Bool
  | .inside (.add _) counted _ => counted
  | .semPost (.add _) _ => true
  | _ => false

/-- Every token is in a semaphore or with a thread, and every element is accounted for. -/
structure Conserved [Fintype Tid] (cap : Nat) (s : State κ Tid) : Prop where
  tokens : s.sem .spaceAvailable + s.sem .itemsAvailable + population holding s.pc = cap
  elements : s.mem.q.count =
    s.sem .itemsAvailable + population toRemove s.pc + population toPost s.pc

/-- The monitor never forgets the write of the count. -/
theorem counted_true (o : Access) : counted true o = true := by
  cases o with
  | storeInt f z => cases f <;> rfl
  | _ => rfl

section Tokens

variable {cap : Nat} {s : State κ Tid}

omit [DecidableEq Tid] in
/-- The count, seen from inside. -/
theorem count_inside (inv : Guarded.Inv countedObject (Logged cap) (CountedAlong cap) (guarded s))
    {t : Tid} {c : Call} {h : Bool} {p : Code Reply} (here : s.pc t = .inside c h p) :
    ∃ items, Legal (Fifo.step cap) [] s.log items ∧
      s.mem.q.count = items.length + if h then growth c else 0 := by
  have inside : (guarded s).crit t = some (c, h, p) := by
    simp only [guarded, Function.comp_apply, here, Pc.crit]
  have along : CountedAlong cap s.log c (s.mem, h) := Prog.wp_always (inv.busy t c h p inside)
  exact along

omit [DecidableEq Tid] in
/-- How a critical section ends: with success, or without having touched the count of a
queue that is full or empty. -/
theorem ret_cases (inv : Guarded.Inv countedObject (Logged cap) (CountedAlong cap) (guarded s))
    {t : Tid} {c : Call} {h : Bool} {r : Reply} (here : s.pc t = .inside c h (.ret r)) :
    (h = true ∧ r.ret = 1) ∨
      (h = false ∧ ((c = .get ∧ s.mem.q.count = 0) ∨ (c ≠ .get ∧ s.mem.q.count = cap))) := by
  have inside : (guarded s).crit t = some (c, h, .ret r) := by
    simp only [guarded, Function.comp_apply, here, Pc.crit]
  rcases inv.busy t c h _ inside with ⟨⟨items, legal, along⟩, items', after⟩
  obtain ⟨nodes, rep⟩ := after.rep
  have count : s.mem.q.count = items'.length := rep.count
  have before : s.mem.q.count = items.length + if h then growth c else 0 := along
  rcases legal_append.mp after.legal with ⟨items₀, legal₀, reply, rest⟩
  obtain rfl : items₀ = items := legal₀.unique legal
  dsimp only at reply rest
  cases rest
  cases c with
  | add v =>
    by_cases full : items₀.length = cap
    · rw [Fifo.step_add_full full] at count
      dsimp only at count
      cases h with
      | true =>
        simp only [↓reduceIte, growth] at before
        omega
      | false => exact Or.inr ⟨rfl, Or.inr ⟨by simp, by rw [count, full]⟩⟩
    · rw [Fifo.step_add_room full] at count reply
      cases h with
      | true =>
        rw [← reply]
        exact Or.inl ⟨rfl, rfl⟩
      | false =>
        simp only [List.length_append, List.length_singleton, Bool.false_eq_true,
          ↓reduceIte] at count before
        omega
  | get =>
    cases items₀ with
    | nil =>
      cases h with
      | true =>
        simp only [Fifo.step_get_nil, List.length_nil, ↓reduceIte, growth] at count before
        omega
      | false => exact Or.inr ⟨rfl, Or.inl ⟨rfl, count⟩⟩
    | cons v items =>
      rw [Fifo.step_get_cons] at count reply
      cases h with
      | true =>
        rw [← reply]
        exact Or.inl ⟨rfl, rfl⟩
      | false =>
        simp only [List.length_cons, Bool.false_eq_true, ↓reduceIte] at count before
        omega

/-- Every call that has passed its critical section returns 1. -/
structure Successful (s : State κ Tid) : Prop where
  posting : ∀ t c r, s.pc t = .semPost c r → r.ret = 1
  log : ∀ d ∈ s.log, d.reply.ret = 1

/-- A step of `t` that does not leave the critical section. -/
theorem Successful.move {s' : State κ Tid} (successful : Successful s) {t : Tid} {new : Pc}
    (pc : s'.pc = Function.update s.pc t new) (log : s'.log = s.log)
    (elsewhere : ∀ c r, new ≠ .semPost c r) : Successful s' := by
  refine ⟨fun u c r here => ?_, fun d member => successful.log d (log ▸ member)⟩
  rw [pc] at here
  by_cases same : u = t
  · rw [same, Function.update_self] at here
    exact (elsewhere c r here).elim
  · rw [Function.update_of_ne same] at here
    exact successful.posting u c r here

variable [Fintype Tid]

/-- With every token accounted for, a critical section ends with success. -/
theorem Conserved.succeeds (conserved : Conserved cap s)
    (inv : Guarded.Inv countedObject (Logged cap) (CountedAlong cap) (guarded s))
    {t : Tid} {c : Call} {h : Bool} {r : Reply} (here : s.pc t = .inside c h (.ret r)) :
    h = true ∧ r.ret = 1 := by
  have tokens := conserved.tokens
  have elements := conserved.elements
  rcases ret_cases inv here with success | ⟨rfl, ⟨rfl, empty⟩ | ⟨adds, full⟩⟩
  · exact success
  · -- the consumer itself holds a token for an element
    have waiting : 0 < population toRemove s.pc := population_pos (t := t) (by rw [here]; rfl)
    omega
  · -- the producer itself holds a token for a free place
    obtain ⟨v, rfl⟩ : ∃ v, c = .add v := by
      cases c with
      | add v => exact ⟨v, rfl⟩
      | get => exact (adds rfl).elim
    have split : population (fun p => toRemove p || toPost p) s.pc =
        population toRemove s.pc + population toPost s.pc := by
      refine population_add (fun _ => rfl) fun p removes => ?_
      unfold toRemove at removes
      split at removes
      · rfl
      · rfl
      · cases removes
    have fewer : population (fun p => toRemove p || toPost p) s.pc < population holding s.pc := by
      refine population_lt (t := t) (fun p either => ?_) (by rw [here]; rfl) (by rw [here]; rfl)
      cases p with
      | idle => cases either
      | semWait c => cases either
      | _ => rfl
    omega

/-- One thread moves, and the token it takes or gives up is the one the semaphores lose or get. -/
theorem tokens_move {s' : State κ Tid} {t : Tid} {new : Pc}
    (pc : s'.pc = Function.update s.pc t new)
    (tokens : s'.sem .spaceAvailable + s'.sem .itemsAvailable + (holding new).toNat =
      s.sem .spaceAvailable + s.sem .itemsAvailable + (holding (s.pc t)).toNat) :
    s'.tokens = s.tokens := by
  have holds := population_update holding s.pc t new
  unfold State.tokens
  rw [pc]
  omega

/-- Only an interrupted wait makes tokens, and only a `sem_post` that fails loses one. -/
theorem step_tokens {cl : Client κ Call Reply} {s' : State κ Tid} {e : Event Tid}
    (moved : step false cl s e = some s') :
    s'.tokens = s.tokens ∨ semValueMax ≤ s'.tokens ∧ s'.tokens < s.tokens := by
  have apart : SemT.spaceAvailable ≠ SemT.itemsAvailable := by decide
  rcases step_cases moved with ⟨t, c, -, here, -, rfl⟩ | ⟨t, c, -, here, positive, rfl⟩ |
    ⟨t, c, -, here, never, rfl⟩ | ⟨t, c, -, here, free, rfl⟩ |
    ⟨t, c, h, o, k, new, r, m, -, here, done, rfl⟩ | ⟨t, c, h, r, -, here, rfl⟩ |
    ⟨t, c, r, -, here, rfl⟩
  · exact Or.inl (tokens_move rfl (by rw [here]; rfl))
  · -- a token goes from the semaphore to the thread
    refine Or.inl (tokens_move rfl ?_)
    cases c with
    | add v =>
      simp only [waitsFor, here, holding, Function.update_self, Bool.toNat_false,
        Bool.toNat_true, Function.update_of_ne apart.symm] at positive ⊢
      omega
    | get =>
      simp only [waitsFor, here, holding, Function.update_self, Bool.toNat_false,
        Bool.toNat_true, Function.update_of_ne apart] at positive ⊢
      omega
  · cases never
  · exact Or.inl (tokens_move rfl (by rw [here]; rfl))
  · exact Or.inl (tokens_move rfl (by rw [here]; rfl))
  · exact Or.inl (tokens_move rfl (by rw [here]; rfl))
  · by_cases room : s.sem (posts c) < semValueMax
    · -- the token goes to the other semaphore
      refine Or.inl (tokens_move rfl ?_)
      simp only [semPost_of_room room]
      cases c with
      | add v =>
        simp only [posts, here, holding, Function.update_self, Bool.toNat_false,
          Bool.toNat_true, Function.update_of_ne apart]
        omega
      | get =>
        simp only [posts, here, holding, Function.update_self, Bool.toNat_false,
          Bool.toNat_true, Function.update_of_ne apart.symm]
        omega
    · -- the token is lost, and that semaphore is as large as it can get
      right
      have gone := population_update holding s.pc t .idle
      simp only [here, holding, Bool.toNat_false, Bool.toNat_true] at gone
      simp only [State.tokens, State.goto, semPost, if_neg room]
      cases c with
      | add v =>
        simp only [posts] at room
        omega
      | get =>
        simp only [posts] at room
        omega

omit [DecidableEq Tid] in
/-- While the tokens add up to `max_count`, a thread that holds one finds room to post it. -/
theorem Conserved.room (conserved : Conserved cap s) (small : (cap : Int) ≤ intMax) {t : Tid}
    (holds : holding (s.pc t) = true) (w : SemT) : s.sem w < semValueMax := by
  have tokens := conserved.tokens
  have some_holds : 0 < population holding s.pc := population_pos holds
  have fits : cap ≤ semValueMax := Int.ofNat_le.mp small
  cases w with
  | spaceAvailable => omega
  | itemsAvailable => omega

/-- One thread moves: what it must keep of the count. -/
theorem elements_move {s' : State κ Tid} {t : Tid} {new : Pc}
    (pc : s'.pc = Function.update s.pc t new)
    (elements : s'.mem.q.count + s.sem .itemsAvailable + (toRemove (s.pc t)).toNat +
        (toPost (s.pc t)).toNat =
      s.mem.q.count + s'.sem .itemsAvailable + (toRemove new).toNat + (toPost new).toNat)
    (before : s.mem.q.count =
      s.sem .itemsAvailable + population toRemove s.pc + population toPost s.pc) :
    s'.mem.q.count =
      s'.sem .itemsAvailable + population toRemove s'.pc + population toPost s'.pc := by
  have removes := population_update toRemove s.pc t new
  have posting := population_update toPost s.pc t new
  rw [pc]
  omega

theorem Conserved.step {cl : Client κ Call Reply} {s' : State κ Tid} {e : Event Tid}
    (conserved : Conserved cap s) (small : (cap : Int) ≤ intMax)
    (inv : Guarded.Inv countedObject (Logged cap) (CountedAlong cap) (guarded s))
    (inv' : Guarded.Inv countedObject (Logged cap) (CountedAlong cap) (guarded s'))
    (moved : step false cl s e = some s') : Conserved cap s' := by
  have fits : cap ≤ semValueMax := Int.ofNat_le.mp small
  have tokens : s.tokens = cap := conserved.tokens
  have kept : s'.tokens = cap := by
    rcases step_tokens moved with same | lost
    · omega
    · omega
  refine ⟨kept, ?_⟩
  have apart : SemT.spaceAvailable ≠ SemT.itemsAvailable := by decide
  have before := conserved.elements
  rcases step_cases moved with ⟨t, c, -, here, -, rfl⟩ | ⟨t, c, -, here, positive, rfl⟩ |
    ⟨t, c, -, here, never, rfl⟩ | ⟨t, c, -, here, free, rfl⟩ |
    ⟨t, c, h, o, k, new, r, m, -, here, done, rfl⟩ | ⟨t, c, h, r, -, here, rfl⟩ |
    ⟨t, c, r, -, here, rfl⟩
  · exact elements_move rfl (by rw [here]; rfl) before
  · -- a consumer takes the token of an element
    refine elements_move rfl ?_ before
    cases c with
    | add v =>
      simp only [State.goto, waitsFor, here, toRemove, toPost, Function.update_of_ne apart.symm]
    | get =>
      simp only [State.goto, waitsFor, here, toRemove, toPost, Function.update_self,
        Bool.toNat_false, Bool.toNat_true] at positive ⊢
      omega
  · cases never
  · cases c with
    | add v => exact elements_move rfl (by rw [here]; rfl) before
    | get => exact elements_move rfl (by rw [here]; rfl) before
  · -- the count changes with the monitor
    rcases count_inside inv here with ⟨items, legal, count⟩
    obtain ⟨items', legal', count'⟩ := count_inside inv' (t := t) (Function.update_self ..)
    obtain rfl : items' = items := legal'.unique legal
    refine elements_move rfl ?_ before
    rw [here, count, count']
    cases h with
    | true =>
      rw [counted_true]
      cases c <;> rfl
    | false =>
      cases counted false o with
      | false => cases c <;> rfl
      | true =>
        cases c with
        | add v =>
          simp only [growth, toRemove, toPost, State.goto, Bool.false_eq_true, ↓reduceIte,
            Bool.toNat_false, Bool.toNat_true]
          omega
        | get =>
          simp only [growth, toRemove, toPost, State.goto, Bool.false_eq_true, ↓reduceIte,
            Bool.not_false, Bool.not_true, Bool.toNat_false, Bool.toNat_true]
          omega
  · -- the critical section has ended with success
    rcases conserved.succeeds inv here with ⟨rfl, one⟩
    cases c with
    | add v => exact elements_move rfl (by rw [here]; rfl) before
    | get => exact elements_move rfl (by rw [here]; rfl) before
  · -- a producer posts the token of its element
    have room := conserved.room small (t := t) (by rw [here]; rfl) (posts c)
    refine elements_move rfl ?_ before
    simp only [semPost_of_room room]
    cases c with
    | add v =>
      simp only [State.goto, posts, here, toRemove, toPost, Function.update_self,
        Bool.toNat_false, Bool.toNat_true]
      omega
    | get =>
      simp only [State.goto, posts, here, toRemove, toPost, Function.update_of_ne apart.symm]

theorem Successful.step {cl : Client κ Call Reply} {s' : State κ Tid} {e : Event Tid}
    (successful : Successful s) (conserved : Conserved cap s)
    (inv : Guarded.Inv countedObject (Logged cap) (CountedAlong cap) (guarded s))
    (moved : step false cl s e = some s') : Successful s' := by
  rcases step_cases moved with ⟨t, c, -, here, -, rfl⟩ | ⟨t, c, -, here, positive, rfl⟩ |
    ⟨t, c, -, here, never, rfl⟩ | ⟨t, c, -, here, free, rfl⟩ |
    ⟨t, c, h, o, k, new, r, m, -, here, done, rfl⟩ | ⟨t, c, h, r, -, here, rfl⟩ |
    ⟨t, c, r, -, here, rfl⟩
  · exact successful.move rfl rfl nofun
  · exact successful.move rfl rfl nofun
  · cases never
  · exact successful.move rfl rfl nofun
  · exact successful.move rfl rfl nofun
  · have one := (conserved.succeeds inv here).2
    constructor
    · intro u c' r' there
      simp only [State.goto] at there
      by_cases same : u = t
      · rw [same, Function.update_self] at there
        cases there
        exact one
      · rw [Function.update_of_ne same] at there
        exact successful.posting u c' r' there
    · intro d member
      rcases List.mem_append.mp member with old | new
      · exact successful.log d old
      · rw [List.mem_singleton.mp new]
        exact one
  · exact successful.move rfl rfl nofun

end Tokens

variable [Fintype Tid]

/-- What the tokens ensure, in every reachable state. -/
theorem reachable_conserved {cl : Client κ Call Reply} {cap : Nat} (small : (cap : Int) ≤ intMax)
    {locals : Tid → κ} {s : State κ Tid}
    (reached : Reachable (step false cl) (init cap locals) s) : Conserved cap s ∧ Successful s := by
  refine reached.induction (motive := fun s => Conserved cap s ∧ Successful s) ⟨?_, ?_⟩ ?_
  · constructor
    · rw [population_zero fun _ => rfl]
      rfl
    · rw [population_zero fun _ => rfl, population_zero fun _ => rfl]
      rfl
  · exact ⟨nofun, nofun⟩
  · intro a b e before ih moved
    have inv := reachable_sound small before
    have inv' := reachable_sound small (before.tail moved)
    exact ⟨ih.1.step small inv inv' moved, ih.2.step ih.1 inv moved⟩

/-- **Tokens are conserved.**  Any finite number of threads making any calls, with waits that
are not interrupted: the values of the semaphores and the tokens held add up to `max_count`;
the count is the tokens for elements, wherever they are; no access faults; every call
returns 1; no semaphore exceeds `max_count`; and what was delivered is a prefix of what
was inserted. -/
theorem tokens_conserved {maxCount : Int} (nonneg : 0 ≤ maxCount) (isInt : maxCount ≤ intMax)
    (cl : Client κ Call Reply) (locals : Tid → κ) (s : State κ Tid)
    (reached : Reachable (step false cl) (init maxCount locals) s) :
    Conserved maxCount.toNat s ∧ ¬ Faulty s ∧
      (∀ t c h r, s.pc t = .inside c h (.ret r) → r.ret = 1) ∧ Successful s ∧
      (∀ w, s.sem w ≤ maxCount.toNat) ∧ Fifo.delivered s.log <+: Fifo.inserted s.log := by
  rcases Int.eq_ofNat_of_zero_le nonneg with ⟨cap, rfl⟩
  have inv := reachable_sound isInt reached
  rcases reachable_conserved isInt reached with ⟨conserved, successful⟩
  have tokens := conserved.tokens
  refine ⟨conserved, ?_, ?_, successful, ?_, ?_⟩
  · exact not_faulty inv
  · intro t c h r here
    exact (conserved.succeeds inv here).2
  · intro w
    rw [Int.toNat_natCast]
    cases w with
    | spaceAvailable => omega
    | itemsAvailable => omega
  · obtain ⟨m, items, past⟩ := inv.past
    have conserved := Fifo.conservation past.legal
    exact ⟨items, conserved.symm⟩

/-- A consumer waits for the producer's token. -/
def handover : List (Event Bool) :=
  List.flatten [[.call false .get, .call true (.add 5), .semWait true, .lock true],
    List.replicate 18 (.access true ⟨0, ⟨0, none⟩⟩),
    [.unlock true, .semPost true, .semWait false, .lock false]]

theorem tokens_conserved_handover : ∃ s : State Unit Bool,
    s.log.map (fun d => d.reply) = [⟨1, none⟩] ∧ s.sem .itemsAvailable = 0 ∧
      Conserved 1 s ∧ ¬ Faulty s ∧ (∀ t c h r, s.pc t = .inside c h (.ret r) → r.ret = 1) ∧
      Successful s ∧ (∀ w, s.sem w ≤ 1) ∧ Fifo.delivered s.log <+: Fifo.inserted s.log := by
  have reached : Reachable (step false Client.any) (init 1 fun _ => ()) _ := ⟨handover, rfl⟩
  exact ⟨_, by decide, by decide,
    tokens_conserved (show (0 : Int) ≤ 1 by decide) (by decide) _ _ _ reached⟩

end Os2Labs.Queue.Semaphore
