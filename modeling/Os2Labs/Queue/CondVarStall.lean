import Mathlib.Data.Fintype.Sum
import Os2Labs.Queue.CondVar
import Os2Labs.Queue.ReaderWriter

/-!
# When the condition-variable queue stalls

Readers and writers wait on one condition variable and each call signals it once, so
the wake-up can go to a thread of the wrong kind, which only goes back to waiting.

`stalls_iff`: with `p` writers and `r` readers, some schedule puts every thread to
sleep in `pthread_cond_wait` unless `p = r = 1`, the case of `queue-threads.c`.  The
schedule lets all readers wait, one add wake a reader, all writers wait, and the get
of that reader wake somebody who cannot go on.
-/

namespace Os2Labs.Queue.CondVar

open Conc

/-- Threads that call one function again and again. -/
def looping : Client Role Call Reply where
  calls
    | .writer, .add _ => true
    | .reader, .get => true
    | _, _ => false
  returns role _ _ := role

/-- `p` writers and `r` readers. -/
def roles (p r : Nat) : Fin p ⊕ Fin r → Role := Sum.elim (fun _ => .writer) fun _ => .reader

/-- Every thread is asleep in `pthread_cond_wait`. -/
def Stalled {κ Tid : Type} (s : State κ Tid) : Prop := ∀ t, t ∈ s.waiters

variable {Tid : Type} [DecidableEq Tid]

/-! ## Two threads -/

/-- The call a thread is executing. -/
def Pc.call : Pc → Option Call
  | .idle => none
  | .mutexLock c | .testOperation c | .condWait c | .waiting c | .inside c _ | .condSignal c _
  | .mutexUnlock c _ => some c

/-- A sleeper whose turn it is has its wake-up still to come. -/
structure Served (kind : Tid → Role) (s : State Role Tid) : Prop where
  kinds : s.locals = kind
  calls : ∀ t c, (s.pc t).call = some c → looping.calls (kind t) c = true
  asleep : ∀ t ∈ s.waiters, ∃ c, s.pc t = .waiting c
  refused : ∀ t c, s.pc t = .condWait c → s.operation ≠ wants c
  served : ∀ t ∈ s.waiters, ∀ c, s.pc t = .waiting c → s.operation = wants c →
    ∃ u c r, s.pc u = .condSignal c r

variable {kind : Tid → Role} {s s' : State Role Tid}

omit [DecidableEq Tid] in
theorem Served.awake (served : Served kind s) {t : Tid} (here : ∀ c, s.pc t ≠ .waiting c) :
    t ∉ s.waiters := by
  intro asleep
  rcases served.asleep t asleep with ⟨c, there⟩
  exact here c there

/-- A step of `t`: what it must keep. -/
theorem Served.move (served : Served kind s) {t : Tid} {new : Pc}
    (pc : s'.pc = Function.update s.pc t new) (locals : s'.locals = s.locals)
    (calls : ∀ c, new.call = some c → looping.calls (kind t) c = true)
    (refused : ∀ c, new = .condWait c → s'.operation ≠ wants c)
    (others : ∀ u c, u ≠ t → s.pc u = .condWait c → s'.operation ≠ wants c)
    (asleep : ∀ u ∈ s'.waiters, ∃ c, s'.pc u = .waiting c)
    (waking : ∀ u ∈ s'.waiters, ∀ c, s'.pc u = .waiting c → s'.operation = wants c →
      ∃ v c r, s'.pc v = .condSignal c r) : Served kind s' := by
  refine ⟨locals.trans served.kinds, ?_, asleep, ?_, waking⟩
  · intro u c call
    rw [pc] at call
    by_cases same : u = t
    · rw [same, Function.update_self] at call
      rw [same]
      exact calls c call
    · rw [Function.update_of_ne same] at call
      exact served.calls u c call
  · intro u c there
    rw [pc] at there
    by_cases same : u = t
    · rw [same, Function.update_self] at there
      exact refused c there
    · rw [Function.update_of_ne same] at there
      exact others u c same there

/-- A step of `t`, not asleep before it, that leaves the turn and the sleepers alone. -/
theorem Served.keep (served : Served kind s) {t : Tid} {new : Pc}
    (pc : s'.pc = Function.update s.pc t new) (waiters : s'.waiters = s.waiters)
    (operation : s'.operation = s.operation) (locals : s'.locals = s.locals)
    (awake : t ∉ s.waiters) (before : ∀ c r, s.pc t ≠ .condSignal c r)
    (calls : ∀ c, new.call = some c → looping.calls (kind t) c = true)
    (refused : ∀ c, new = .condWait c → s.operation ≠ wants c) : Served kind s' := by
  have elsewhere : ∀ u, u ≠ t → s'.pc u = s.pc u := fun u ne => by
    rw [pc, Function.update_of_ne ne]
  have sleeper : ∀ u ∈ s.waiters, u ≠ t := by
    intro u asleep same
    subst same
    exact awake asleep
  apply served.move pc locals calls
  · rw [operation]
    exact refused
  · rw [operation]
    exact fun u c _ there => served.refused u c there
  · rw [waiters]
    intro u asleep
    rw [elsewhere u (sleeper u asleep)]
    exact served.asleep u asleep
  · rw [waiters, operation]
    intro u asleep c there turn
    rw [elsewhere u (sleeper u asleep)] at there
    rcases served.served u asleep c there turn with ⟨v, c', r', signalling⟩
    have ne : v ≠ t := by
      intro same
      subst same
      exact before c' r' signalling
    exact ⟨v, c', r', by rw [elsewhere v ne, signalling]⟩

/-- Going to sleep, which happens only out of turn. -/
theorem Served.sleep (served : Served kind s) {t : Tid} {c : Call} (here : s.pc t = .condWait c) :
    Served kind { s.goto t (.waiting c) with mutex := none, waiters := insert t s.waiters } := by
  refine served.move rfl rfl ?_ nofun (fun u c' _ there => served.refused u c' there) ?_ ?_
  · intro _ known
    cases known
    exact served.calls t c (by rw [here]; rfl)
  · intro u asleep
    by_cases same : u = t
    · exact ⟨c, by simp only [State.goto, same, Function.update_self]⟩
    · simp only [State.goto, Function.update_of_ne same]
      exact served.asleep u (Finset.mem_of_mem_insert_of_ne asleep same)
  · intro u asleep c' there turn
    simp only [State.goto] at there turn ⊢
    by_cases same : u = t
    · rw [same, Function.update_self] at there
      cases there
      exact (served.refused t c here turn).elim
    · rw [Function.update_of_ne same] at there
      obtain ⟨v, c₁, r₁, signalling⟩ :=
        served.served u (Finset.mem_of_mem_insert_of_ne asleep same) c' there turn
      have ne : v ≠ t := by
        intro same
        subst same
        rw [here] at signalling
        cases signalling
      exact ⟨v, c₁, r₁, by rw [Function.update_of_ne ne, signalling]⟩

/-- The thread that passes the turn is the one that signals. -/
theorem Served.pass (owned : Owned s) (served : Served kind s) {t : Tid} {c : Call} {r : Reply}
    (here : s.pc t = .inside c (.ret r)) :
    Served kind { s.goto t (.condSignal c r) with
      operation := leaves c
      log := s.log ++ [⟨t, c, r⟩] } := by
  refine served.move rfl rfl ?_ nofun ?_ ?_ ?_
  · intro _ known
    cases known
    exact served.calls t c (by rw [here]; rfl)
  · intro u c' ne there
    exact (ne (owned.exclusive (by rw [there]; rfl) (by rw [here]; rfl))).elim
  · intro u asleep
    have ne : u ≠ t := by
      intro same
      subst same
      exact served.awake (by simp [here]) asleep
    simp only [State.goto, Function.update_of_ne ne]
    exact served.asleep u asleep
  · intro _ _ _ _ _
    exact ⟨t, c, r, Function.update_self ..⟩

/-- After the signal, with two threads, nobody sleeps. -/
theorem Served.signal (served : Served kind s) {t : Tid} {c : Call} {r : Reply}
    (here : s.pc t = .condSignal c r) {waiters : Finset Tid} (nobody : waiters = ∅) :
    Served kind { s.goto t (.mutexUnlock c r) with waiters := waiters } := by
  subst nobody
  refine served.move rfl rfl ?_ nofun (fun u c' _ there => served.refused u c' there) ?_ ?_
  · intro _ known
    cases known
    exact served.calls t c (by rw [here]; rfl)
  · intro u asleep
    simp only [Finset.notMem_empty] at asleep
  · intro u asleep
    simp only [Finset.notMem_empty] at asleep

theorem Served.step (two : ∀ t u v : Tid, t = u ∨ u = v ∨ t = v) (owned : Owned s)
    (served : Served kind s) (move : Move false looping s s') : Served kind s' := by
  cases move with
  | @call t c here allowed =>
    rw [served.kinds] at allowed
    refine served.keep rfl rfl rfl rfl (served.awake ?_) ?_ ?_ nofun
    · simp [here]
    · simp [here]
    · intro _ known
      cases known
      exact allowed
  | @lock t c here free =>
    refine served.keep rfl rfl rfl rfl (served.awake ?_) ?_ ?_ nofun
    · simp [here]
    · simp [here]
    · intro _ known
      cases known
      exact served.calls t c (by rw [here]; rfl)
  | @relock t c here woken free =>
    refine served.keep rfl rfl rfl rfl woken ?_ ?_ nofun
    · simp [here]
    · intro _ known
      cases known
      exact served.calls t c (by rw [here]; rfl)
  | @enter t c here turn =>
    refine served.keep rfl rfl rfl rfl (served.awake ?_) ?_ ?_ nofun
    · simp [here]
    · simp [here]
    · intro _ known
      cases known
      exact served.calls t c (by rw [here]; rfl)
  | @refuse t c here turn =>
    refine served.keep rfl rfl rfl rfl (served.awake ?_) ?_ ?_ ?_
    · simp [here]
    · simp [here]
    · intro _ known
      cases known
      exact served.calls t c (by rw [here]; rfl)
    · intro _ known
      cases known
      exact turn
  | wait here => exact served.sleep here
  | spurious allowed asleep => cases allowed
  | @access t c o k new r m here done =>
    refine served.keep rfl rfl rfl rfl (served.awake ?_) ?_ ?_ nofun
    · simp [here]
    · simp [here]
    · intro _ known
      cases known
      exact served.calls t c (by rw [here]; rfl)
  | setOperation here => exact served.pass owned here
  | signalNobody here nobody => exact served.signal here nobody
  | @signal t u c r here asleep =>
    refine served.signal here (Finset.eq_empty_of_forall_notMem fun v still => ?_)
    have awake := served.awake (t := t) (by simp [here])
    rcases Finset.mem_erase.mp still with ⟨apart, member⟩
    rcases two t u v with same | same | same
    · exact awake (same ▸ asleep)
    · exact apart same.symm
    · exact awake (same ▸ member)
  | @unlock t c r here =>
    refine served.keep rfl rfl rfl ?_ (served.awake ?_) ?_ nofun nofun
    · exact Function.update_eq_self t s.locals
    · simp [here]
    · simp [here]

/-- One writer and one reader never sleep both. -/
theorem not_stalled {maxCount : Int} {s : State Role (Fin 1 ⊕ Fin 1)}
    (reached : Reachable (step false looping) (init maxCount (roles 1 1)) s) : ¬ Stalled s := by
  have two : ∀ t u v : Fin 1 ⊕ Fin 1, t = u ∨ u = v ∨ t = v := by decide
  have served : Served (roles 1 1) s := by
    refine reached.induction ?_ fun a b e before ih moved =>
      ih.step two (owned before) (step_move moved)
    exact ⟨rfl, nofun, nofun, nofun, nofun⟩
  intro stalled
  obtain ⟨c, writing⟩ := served.asleep _ (stalled (.inl 0))
  obtain ⟨c', reading⟩ := served.asleep _ (stalled (.inr 0))
  have writes := served.calls (.inl 0) c (by rw [writing]; rfl)
  have reads := served.calls (.inr 0) c' (by rw [reading]; rfl)
  have nobody : ∀ u c r, s.pc u ≠ .condSignal c r := by
    intro u c r there
    obtain ⟨c', here⟩ := served.asleep u (stalled u)
    rw [there] at here
    cases here
  cases c with
  | get => cases writes
  | add v =>
    cases c' with
    | add w => cases reads
    | get =>
      cases turn : s.operation with
      | write =>
        rcases served.served _ (stalled (.inl 0)) _ writing turn with ⟨u, c, r, there⟩
        exact nobody u c r there
      | read =>
        rcases served.served _ (stalled (.inr 0)) _ reading turn with ⟨u, c, r, there⟩
        exact nobody u c r there

/-! ## More threads -/

/-- What a thread calls. -/
def request : Role → Call
  | .writer => .add 0
  | .reader => .get

theorem looping_request (role : Role) : looping.calls role (request role) = true := by
  cases role <;> rfl

section Schedule

variable {cap : Nat} {kind : Tid → Role}

/-- A reachable state in which `W` are asleep and the others outside, or woken. -/
structure Rest (cap : Nat) (kind : Tid → Role) (o : Operation) (W : Finset Tid)
    (s : State Role Tid) : Prop where
  reached : Reachable (step false looping) (init cap kind) s
  mutex : s.mutex = none
  waiters : s.waiters = W
  operation : s.operation = o
  locals : s.locals = kind
  asleep : ∀ t ∈ W, s.pc t = .waiting (request (kind t))
  others : ∀ t, s.pc t = .idle ∨ s.pc t = .waiting (request (kind t))

/-- As `Rest`, but for `t`, which has the mutex and stands at `new`. -/
structure Busy (cap : Nat) (kind : Tid → Role) (o : Operation) (W : Finset Tid) (t : Tid)
    (new : Pc) (s : State Role Tid) : Prop where
  reached : Reachable (step false looping) (init cap kind) s
  mutex : s.mutex = some t
  waiters : s.waiters = W
  operation : s.operation = o
  locals : s.locals = kind
  here : s.pc t = new
  awake : t ∉ W
  asleep : ∀ u ∈ W, s.pc u = .waiting (request (kind u))
  others : ∀ u, u ≠ t → s.pc u = .idle ∨ s.pc u = .waiting (request (kind u))

variable {o : Operation} {W : Finset Tid} {t : Tid} {s : State Role Tid}

/-- A step of the thread that has the mutex. -/
theorem Busy.move {pc new : Pc} {o' : Operation} {W' : Finset Tid} {s' : State Role Tid}
    (busy : Busy cap kind o W t pc s) {e : Event Tid} (moved : step false looping s e = some s')
    (goes : s'.pc = Function.update s.pc t new) (mutex : s'.mutex = s.mutex)
    (waiters : s'.waiters = W') (fewer : W' ⊆ W) (operation : s'.operation = o')
    (locals : s'.locals = s.locals) : Busy cap kind o' W' t new s' := by
  have sleeper : ∀ u ∈ W', u ≠ t := by
    intro u asleep same
    subst same
    exact busy.awake (fewer asleep)
  refine ⟨busy.reached.tail moved, mutex.trans busy.mutex, waiters, operation,
    locals.trans busy.locals, ?_, fun asleep => busy.awake (fewer asleep), ?_, ?_⟩
  · rw [goes, Function.update_self]
  · intro u asleep
    rw [goes, Function.update_of_ne (sleeper u asleep)]
    exact busy.asleep u (fewer asleep)
  · intro u ne
    rw [goes, Function.update_of_ne ne]
    exact busy.others u ne

/-- The thread that has the mutex releases it. -/
theorem Busy.release {pc new : Pc} {W' : Finset Tid} {s' : State Role Tid}
    (busy : Busy cap kind o W t pc s) {e : Event Tid} (moved : step false looping s e = some s')
    (goes : s'.pc = Function.update s.pc t new) (mutex : s'.mutex = none)
    (waiters : s'.waiters = W') (operation : s'.operation = s.operation)
    (locals : s'.locals = s.locals) (others : ∀ u ∈ W', u ≠ t → u ∈ W)
    (asleep : t ∈ W' → new = .waiting (request (kind t)))
    (place : new = .idle ∨ new = .waiting (request (kind t))) : Rest cap kind o W' s' := by
  refine ⟨busy.reached.tail moved, mutex, waiters, operation.trans busy.operation,
    locals.trans busy.locals, ?_, ?_⟩
  · intro u member
    rw [goes]
    by_cases same : u = t
    · subst same
      rw [Function.update_self]
      exact asleep member
    · rw [Function.update_of_ne same]
      exact busy.asleep u (others u member same)
  · intro u
    rw [goes]
    by_cases same : u = t
    · subst same
      rw [Function.update_self]
      exact place
    · rw [Function.update_of_ne same]
      exact busy.others u same

/-- A thread that does not sleep takes the mutex. -/
theorem Rest.approach (rest : Rest cap kind o W s) (awake : t ∉ W) :
    ∃ s', Busy cap kind o W t (.testOperation (request (kind t))) s' := by
  have busy : ∀ {s' : State Role Tid}, Reachable (step false looping) s s' →
      s' = { s.goto t (.testOperation (request (kind t))) with mutex := some t } →
        Busy cap kind o W t (.testOperation (request (kind t))) s' := by
    intro _ reached same
    subst same
    refine ⟨rest.reached.trans reached, rfl, rest.waiters, rest.operation, rest.locals,
      Function.update_self .., awake, ?_, ?_⟩
    · intro u asleep
      have ne : u ≠ t := by
        intro same
        subst same
        exact awake asleep
      simp only [State.goto, Function.update_of_ne ne]
      exact rest.asleep u asleep
    · intro u ne
      simp only [State.goto, Function.update_of_ne ne]
      exact rest.others u
  rcases rest.others t with idle | woken
  · have called : step false looping s (.call t (request (kind t))) =
        some (s.goto t (.mutexLock (request (kind t)))) := by
      simp only [step, idle, rest.locals, looping_request, ↓reduceIte]
    have locked : step false looping (s.goto t (.mutexLock (request (kind t)))) (.lock t) =
        some { s.goto t (.testOperation (request (kind t))) with mutex := some t } := by
      simp only [step, State.goto, Function.update_self, rest.mutex, ↓reduceIte,
        Function.update_idem]
    exact ⟨_, busy (Reachable.head called (.one locked)) rfl⟩
  · have locked : step false looping s (.lock t) =
        some { s.goto t (.testOperation (request (kind t))) with mutex := some t } := by
      simp only [step, woken, rest.waiters, awake, rest.mutex, not_false_eq_true, and_self,
        ↓reduceIte]
    exact ⟨_, busy (.one locked) rfl⟩

/-- Out of turn it goes to sleep. -/
theorem Rest.refuse (rest : Rest cap kind o W s) (awake : t ∉ W)
    (turn : o ≠ wants (request (kind t))) : ∃ s', Rest cap kind o (insert t W) s' := by
  rcases rest.approach awake with ⟨s₁, testing⟩
  have tested : step false looping s₁ (.test t) =
      some (s₁.goto t (.condWait (request (kind t)))) := by
    simp only [step, testing.here, testing.operation, turn, ↓reduceIte]
  have refused := testing.move tested rfl rfl testing.waiters subset_rfl testing.operation rfl
  have slept : step false looping (s₁.goto t (.condWait (request (kind t)))) (.wait t) =
      some { (s₁.goto t (.condWait (request (kind t)))).goto t (.waiting (request (kind t))) with
        mutex := none
        waiters := insert t s₁.waiters } := by
    simp only [step, refused.here]
    rfl
  refine ⟨_, refused.release slept rfl rfl ?_ rfl rfl ?_ (fun _ => rfl) (Or.inr rfl)⟩
  · simp only [testing.waiters]
  · intro u member ne
    exact Finset.mem_of_mem_insert_of_ne member ne

/-- The work of a thread inside comes to its end. -/
theorem Busy.finish (small : (cap : Int) ≤ intMax) {c : Call} (p : Code Reply)
    (busy : Busy cap kind o W t (.inside c p) s) :
    ∃ r s', Busy cap kind o W t (.inside c (.ret r)) s' := by
  induction p generalizing s with
  | ret r => exact ⟨r, s, busy⟩
  | op a k ih =>
    have inv := reachable_sound small busy.reached
    have inside : (guarded s).crit t = some (c, (), .op a k) := by
      simp only [guarded, Function.comp_apply, busy.here, Pc.crit]
    rcases inv.enabled inside with ⟨new, r, m, done⟩
    have accessed : step false looping s (.access t new) =
        some { s.goto t (.inside c (k r)) with mem := m } := by
      simp only [step, busy.here, show sem.exec a new s.mem = some (r, m) from done,
        Option.map_some]
    exact ih r (busy.move accessed rfl rfl busy.waiters subset_rfl busy.operation rfl)

/-- It passes the turn, wakes whom the system chooses, and leaves. -/
theorem Busy.leave {c : Call} {r : Reply} (busy : Busy cap kind o W t (.inside c (.ret r)) s)
    {u : Tid} (asleep : u ∈ W) : ∃ s', Rest cap kind (leaves c) (W.erase u) s' := by
  obtain ⟨s₁, signalling⟩ : ∃ s₁, Busy cap kind (leaves c) W t (.condSignal c r) s₁ := by
    have passed : step false looping s (.setOperation t) =
        some { s.goto t (.condSignal c r) with
          operation := leaves c
          log := s.log ++ [⟨t, c, r⟩] } := by
      simp only [step, busy.here]
    exact ⟨_, busy.move passed rfl rfl busy.waiters subset_rfl rfl rfl⟩
  obtain ⟨s₂, unlocking⟩ : ∃ s₂, Busy cap kind (leaves c) (W.erase u) t (.mutexUnlock c r) s₂ := by
    have signalled : step false looping s₁ (.signal t (some u)) =
        some { s₁.goto t (.mutexUnlock c r) with waiters := s₁.waiters.erase u } := by
      simp only [step, signalling.here, signalling.waiters, asleep, ↓reduceIte]
    refine ⟨_, signalling.move signalled rfl rfl ?_ (Finset.erase_subset u W)
      signalling.operation rfl⟩
    rw [signalling.waiters]
  have unlocked : step false looping s₂ (.unlock t) =
      some { s₂.goto t .idle with
        mutex := none
        locals := Function.update s₂.locals t (looping.returns (s₂.locals t) c r) } := by
    simp only [step, unlocking.here]
  refine ⟨_, unlocking.release unlocked rfl rfl unlocking.waiters rfl ?_ ?_ ?_ (Or.inl rfl)⟩
  · exact Function.update_eq_self t s₂.locals
  · exact fun v member _ => member
  · exact fun member => (unlocking.awake member).elim

/-- In turn a thread does its work, and wakes whom the system chooses. -/
theorem Rest.serve (rest : Rest cap kind o W s) (small : (cap : Int) ≤ intMax) (awake : t ∉ W)
    (turn : o = wants (request (kind t))) {u : Tid} (asleep : u ∈ W) :
    ∃ s', Rest cap kind (leaves (request (kind t))) (W.erase u) s' := by
  rcases rest.approach awake with ⟨s₁, testing⟩
  have tested : step false looping s₁ (.test t) =
      some (s₁.goto t (.inside (request (kind t)) (code (request (kind t))))) := by
    simp only [step, testing.here, testing.operation, turn, ↓reduceIte]
  have inside := testing.move tested rfl rfl testing.waiters subset_rfl testing.operation rfl
  rcases inside.finish small with ⟨r, s₂, done⟩
  exact done.leave asleep

/-- Everyone of the wrong kind goes to sleep. -/
theorem Rest.refuseAll (rest : Rest cap kind o W s) (T : Finset Tid)
    (turn : ∀ t ∈ T, o ≠ wants (request (kind t))) : ∃ s', Rest cap kind o (T ∪ W) s' := by
  induction T using Finset.induction with
  | empty => exact ⟨s, by rwa [Finset.empty_union]⟩
  | insert t T fresh ih =>
    obtain ⟨s₁, rest₁⟩ := ih fun u member => turn u (Finset.mem_insert_of_mem member)
    rw [Finset.insert_union]
    by_cases asleep : t ∈ T ∪ W
    · rw [Finset.insert_eq_self.mpr asleep]
      exact ⟨s₁, rest₁⟩
    · exact rest₁.refuse asleep (turn t (Finset.mem_insert_self t T))

end Schedule

/-- The readers and the writers. -/
def readers (p r : Nat) : Finset (Fin p ⊕ Fin r) :=
  Finset.univ.filter fun t => roles p r t = .reader

def writers (p r : Nat) : Finset (Fin p ⊕ Fin r) :=
  Finset.univ.filter fun t => roles p r t = .writer

/-- While it is the writers' turn, all readers go to sleep, and conversely. -/
theorem Rest.readers_sleep {cap p r : Nat} {W : Finset (Fin p ⊕ Fin r)}
    {s : State Role (Fin p ⊕ Fin r)} (rest : Rest cap (roles p r) .write W s) :
    ∃ s', Rest cap (roles p r) .write (readers p r ∪ W) s' := by
  apply rest.refuseAll _
  intro t member
  rw [(Finset.mem_filter.mp member).2]
  exact nofun

theorem Rest.writers_sleep {cap p r : Nat} {W : Finset (Fin p ⊕ Fin r)}
    {s : State Role (Fin p ⊕ Fin r)} (rest : Rest cap (roles p r) .read W s) :
    ∃ s', Rest cap (roles p r) .read (writers p r ∪ W) s' := by
  apply rest.refuseAll _
  intro t member
  rw [(Finset.mem_filter.mp member).2]
  exact nofun

@[simp] theorem inr_mem_readers {p r : Nat} (a : Fin r) : Sum.inr a ∈ readers p r :=
  Finset.mem_filter.mpr ⟨Finset.mem_univ _, rfl⟩

@[simp] theorem inl_notMem_readers {p r : Nat} (w : Fin p) : Sum.inl w ∉ readers p r :=
  fun member => nomatch (Finset.mem_filter.mp member).2

@[simp] theorem inl_mem_writers {p r : Nat} (w : Fin p) : Sum.inl w ∈ writers p r :=
  Finset.mem_filter.mpr ⟨Finset.mem_univ _, rfl⟩

@[simp] theorem inr_notMem_writers {p r : Nat} (a : Fin r) : Sum.inr a ∉ writers p r :=
  fun member => nomatch (Finset.mem_filter.mp member).2

section Stall

theorem rest_init (cap p r : Nat) : Rest cap (roles p r) .write ∅ (init cap (roles p r)) :=
  ⟨.refl _, rfl, rfl, rfl, rfl, nofun, fun _ => Or.inl rfl⟩

variable {cap p r : Nat}

/-- After the first add all threads may sleep but one reader, whose turn it is. -/
theorem one_reader_awake (small : (cap : Int) ≤ intMax) (w : Fin p) (a : Fin r) :
    ∃ s, Rest cap (roles p r) .read (Finset.univ.erase (.inr a)) s := by
  rcases (rest_init cap p r).readers_sleep with ⟨s₁, rest₁⟩
  rw [Finset.union_empty] at rest₁
  obtain ⟨s₂, rest₂⟩ :=
    rest₁.serve small (t := .inl w) (inl_notMem_readers w) rfl (inr_mem_readers a)
  rcases Rest.writers_sleep rest₂ with ⟨s₃, rest₃⟩
  have all : writers p r ∪ (readers p r).erase (.inr a) = Finset.univ.erase (.inr a) := by
    ext t
    cases t with
    | inl v => simp
    | inr b => simp
  exact ⟨s₃, all ▸ rest₃⟩

/-- The get wakes another reader. -/
theorem stall_of_readers (small : (cap : Int) ≤ intMax) (w : Fin p) {a b : Fin r} (apart : a ≠ b) :
    ∃ s, Reachable (step false looping) (init cap (roles p r)) s ∧ Stalled s := by
  rcases one_reader_awake small w a with ⟨s₁, rest₁⟩
  have asleep : (.inr b : Fin p ⊕ Fin r) ∈ Finset.univ.erase (.inr a) := by
    simp [apart.symm]
  rcases rest₁.serve small (Finset.notMem_erase _ _) rfl asleep with ⟨s₂, rest₂⟩
  rcases Rest.readers_sleep rest₂ with ⟨s₃, rest₃⟩
  refine ⟨s₃, rest₃.reached, fun t => ?_⟩
  rw [rest₃.waiters]
  cases t with
  | inl v => simp
  | inr c => simp

/-- The get wakes a writer, and its add another one. -/
theorem stall_of_writers (small : (cap : Int) ≤ intMax) {v w : Fin p} (a : Fin r) (apart : v ≠ w) :
    ∃ s, Reachable (step false looping) (init cap (roles p r)) s ∧ Stalled s := by
  rcases one_reader_awake small w a with ⟨s₁, rest₁⟩
  have asleep : (.inl w : Fin p ⊕ Fin r) ∈ Finset.univ.erase (.inr a) := by simp
  rcases rest₁.serve small (Finset.notMem_erase _ _) rfl asleep with ⟨s₂, rest₂⟩
  rcases Rest.readers_sleep rest₂ with ⟨s₃, rest₃⟩
  have awake : (.inl w : Fin p ⊕ Fin r) ∉
      readers p r ∪ (Finset.univ.erase (.inr a)).erase (.inl w) := by
    simp
  have asleep' : (.inl v : Fin p ⊕ Fin r) ∈
      readers p r ∪ (Finset.univ.erase (.inr a)).erase (.inl w) := by
    simp [apart]
  rcases rest₃.serve small awake rfl asleep' with ⟨s₄, rest₄⟩
  rcases Rest.writers_sleep rest₄ with ⟨s₅, rest₅⟩
  refine ⟨s₅, rest₅.reached, fun t => ?_⟩
  rw [rest₅.waiters]
  cases t with
  | inl x => simp
  | inr c => simp

end Stall

/-- **When the queue never stalls.**  With `p ≥ 1` writers, `r ≥ 1` readers and `max_count ≥ 1`,
no reachable state has every thread asleep in `pthread_cond_wait` if and only if there are one
writer and one reader. -/
theorem never_stalls_iff {p r : Nat} {maxCount : Int} (writer : 1 ≤ p) (reader : 1 ≤ r)
    (room : 1 ≤ maxCount) (isInt : maxCount ≤ intMax) :
    (∀ s, Reachable (step false looping) (init maxCount (roles p r)) s → ¬ Stalled s) ↔
      p = 1 ∧ r = 1 := by
  obtain ⟨cap, rfl⟩ := Int.eq_ofNat_of_zero_le (show 0 ≤ maxCount by omega)
  constructor
  · intro never
    by_contra more
    rcases (show 2 ≤ r ∨ 2 ≤ p by omega) with readers | writers
    · have apart : (⟨0, by omega⟩ : Fin r) ≠ ⟨1, by omega⟩ := by simp
      obtain ⟨s, reached, stalled⟩ :=
        stall_of_readers isInt (⟨0, by omega⟩ : Fin p) apart
      exact never s reached stalled
    · have apart : (⟨0, by omega⟩ : Fin p) ≠ ⟨1, by omega⟩ := by simp
      obtain ⟨s, reached, stalled⟩ :=
        stall_of_writers isInt (⟨0, by omega⟩ : Fin r) apart
      exact never s reached stalled
  · intro known s reached
    rcases known with ⟨rfl, rfl⟩
    exact not_stalled reached

/-- One writer and two readers. -/
theorem never_stalls_iff_two_readers :
    (∀ s, Reachable (step false looping) (init 1 (roles 1 2)) s → ¬ Stalled s) ↔
      1 = 1 ∧ 2 = 1 :=
  never_stalls_iff (le_refl 1) (show 1 ≤ 2 by decide) (show (1 : Int) ≤ 1 by decide) (by decide)

/-- A thread goes to sleep out of turn. -/
def sleeps {Tid : Type} (t : Tid) : List (Event Tid) := [.lock t, .test t, .wait t]

/-- A thread whose turn it is works and wakes `u`. -/
def works {Tid : Type} (t u : Tid) (accesses : Nat) : List (Event Tid) :=
  List.flatten [[.lock t, .test t], List.replicate accesses (.access t ⟨0, ⟨0, none⟩⟩),
    [.setOperation t, .signal t (some u), .unlock t]]

/-- A reader wakes the other reader while the writer `w` sleeps. -/
def wrongReader {Tid : Type} (w r r' : Tid) : List (Event Tid) :=
  List.flatten [
    .call r .get :: sleeps r, .call r' .get :: sleeps r', .call w (.add 0) :: works w r 18,
    .call w (.add 1) :: sleeps w, works r r' 15, .call r .get :: sleeps r, sleeps r']

/-- With one writer and two readers the queue can stall: the first reader wakes the second
one, although it is the writer's turn. -/
theorem stalls_with_two_readers : ∃ s : State Role (Fin 1 ⊕ Fin 2),
    Reachable (step false looping) (init 1 (roles 1 2)) s ∧ Stalled s := by
  have reached : Reachable (step false looping) (init 1 (roles 1 2)) _ :=
    ⟨wrongReader (.inl 0) (.inr 0) (.inr 1), rfl⟩
  refine ⟨_, reached, ?_⟩
  unfold Stalled
  decide

end Os2Labs.Queue.CondVar
