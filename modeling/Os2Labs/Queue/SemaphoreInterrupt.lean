import Os2Labs.Queue.SemaphoreProgress

/-!
# Interrupted waits and the tokens of the semaphore queue

Neither operation looks at the result of `sem_wait`, so an interrupted wait goes on
without a token, and every return posts one: each interrupt adds a token, until a
semaphore is at `SEM_VALUE_MAX` (`run_tokens`).  The branches that return 0 post too,
and post the semaphore the call did not wait for.

`accounting_iff`: the semaphores add up to at most `max_count` and the calls that
return 0 leave them alone, now and as long as no further wait is interrupted, if no
wait has been interrupted so far, and for a `max_count` below `SEM_VALUE_MAX` only
then.  Once one has, letting every thread finish its call (`drains`) leaves more than
`max_count` tokens in the semaphores.
-/

namespace Os2Labs.Queue.Semaphore

open Conc

variable {κ Tid : Type}

/-- The event is a `sem_wait` that returns -1. -/
def Event.isInterrupt : Event Tid → Bool
  | .interrupt _ => true
  | _ => false

/-! ## What each call does to the semaphores -/

/-- What each thread has itself done to the semaphores since its last call began, and
what that sum was when its last call returned. -/
structure Audit (Tid : Type) where
  drift : Tid → SemT → Int
  returned : Tid → Option (Call × Reply × (SemT → Int))

def Audit.start : Audit Tid where
  drift _ _ := 0
  returned _ := none

/-- The sum for `t` after a step of `t`. -/
def Audit.own (a : Audit Tid) (s s' : State κ Tid) (t : Tid) (w : SemT) : Int :=
  a.drift t w + (s'.sem w - s.sem w)

/-- The semaphores never hold more than `max_count` tokens, and a call that returned 0 has
left them as they were, apart from what other threads did. -/
structure Accounted (maxCount : Int) (x : State κ Tid × Audit Tid) : Prop where
  bounded : (x.1.sem .spaceAvailable + x.1.sem .itemsAvailable : Nat) ≤ maxCount
  unchanged : ∀ t c r d, x.2.returned t = some (c, r, d) → r.ret = 0 → ∀ w, d w = 0

variable [DecidableEq Tid]

/-- The audit after a step. -/
def audit (s : State κ Tid) (e : Event Tid) (s' : State κ Tid) (a : Audit Tid) : Audit Tid :=
  match e, s.pc e.thread with
  | .call t _, _ => { a with drift := Function.update a.drift t fun _ => 0 }
  | .semPost t, .semPost c r =>
      { drift := Function.update a.drift t (a.own s s' t)
        returned := Function.update a.returned t (some (c, r, a.own s s' t)) }
  | e, _ => { a with drift := Function.update a.drift e.thread (a.own s s' e.thread) }

/-- Where a step is in its call, and what it does to the semaphore the call posts. -/
theorem step_posts {eintr : Bool} {cl : Client κ Call Reply} {s s' : State κ Tid} {e : Event Tid}
    (moved : step eintr cl s e = some s') :
    (∃ t c, e = .call t c ∧ s'.pc = Function.update s.pc t (.semWait c)) ∨
    (∃ t c r, e = .semPost t ∧ s.pc t = .semPost c r ∧ s'.pc = Function.update s.pc t .idle ∧
      s'.sem = semPost s.sem (posts c)) ∨
    (∃ c new, (s.pc e.thread).call = some c ∧ new.call = some c ∧
      s'.pc = Function.update s.pc e.thread new ∧ s'.sem (posts c) = s.sem (posts c) ∧
      ∀ a : Audit Tid, audit s e s' a =
        { a with drift := Function.update a.drift e.thread (a.own s s' e.thread) }) := by
  rcases step_cases moved with ⟨t, c, rfl, here, allowed, rfl⟩ | ⟨t, c, rfl, here, positive, rfl⟩ |
    ⟨t, c, rfl, here, allowed, rfl⟩ | ⟨t, c, rfl, here, free, rfl⟩ |
    ⟨t, c, h, o, k, new, r, m, rfl, here, done, rfl⟩ | ⟨t, c, h, r, rfl, here, rfl⟩ |
    ⟨t, c, r, rfl, here, rfl⟩
  · exact Or.inl ⟨t, c, rfl, rfl⟩
  · -- `sem_wait` takes from the other semaphore
    refine Or.inr (Or.inr ⟨c, .mutexLock c, by rw [Event.thread, here]; rfl, rfl, rfl, ?_,
      fun _ => rfl⟩)
    cases c <;> rfl
  · exact Or.inr (Or.inr ⟨c, .mutexLock c, by rw [Event.thread, here]; rfl, rfl, rfl, rfl,
      fun _ => rfl⟩)
  · exact Or.inr (Or.inr ⟨c, .inside c false (code c), by rw [Event.thread, here]; rfl, rfl, rfl,
      rfl, fun _ => rfl⟩)
  · exact Or.inr (Or.inr ⟨c, .inside c (counted h o) (k r), by rw [Event.thread, here]; rfl, rfl,
      rfl, rfl, fun _ => rfl⟩)
  · exact Or.inr (Or.inr ⟨c, .semPost c r, by rw [Event.thread, here]; rfl, rfl, rfl, rfl,
      fun _ => rfl⟩)
  · exact Or.inr (Or.inl ⟨t, c, r, rfl, here, rfl, rfl⟩)

/-- No semaphore is at `SEM_VALUE_MAX` when a thread is going to post. -/
def Room (s : State κ Tid) : Prop :=
  ∀ t, holding (s.pc t) = true → ∀ w, s.sem w < semValueMax

/-- A call posts its semaphore once, when it returns. -/
structure PostsOnce (x : State κ Tid × Audit Tid) : Prop where
  before : ∀ t c, (x.1.pc t).call = some c → x.2.drift t (posts c) = 0
  after : ∀ t c r d, x.2.returned t = some (c, r, d) → d (posts c) = 1

theorem PostsOnce.step {eintr : Bool} {cl : Client κ Call Reply} {x y : State κ Tid × Audit Tid}
    {e : Event Tid} (once : PostsOnce x) (room : Room x.1)
    (moved : recorded (step eintr cl) audit x e = some y) : PostsOnce y := by
  rcases x with ⟨s, a⟩
  rcases y with ⟨s', b⟩
  rcases recorded_eq_some.mp moved with ⟨stepped, rfl⟩
  rcases step_posts stepped with ⟨t, c, rfl, pc⟩ | ⟨t, c, r, rfl, here, pc, posted⟩ |
    ⟨c, new, before, after, pc, same, noted⟩
  · constructor
    · intro u c' call
      by_cases mine : u = t
      · rw [mine]
        simp only [audit, Function.update_self]
      · simp only [pc, Function.update_of_ne mine] at call
        simp only [audit, Function.update_of_ne mine]
        exact once.before u c' call
    · exact once.after
  · have zero : a.drift t (posts c) = 0 := once.before t c (by rw [here]; rfl)
    have next : audit s (.semPost t) s' a =
        { drift := Function.update a.drift t (a.own s s' t)
          returned := Function.update a.returned t (some (c, r, a.own s s' t)) } := by
      simp only [audit, Event.thread, here]
    rw [next]
    constructor
    · intro u c' call
      by_cases mine : u = t
      · simp only [pc, mine, Function.update_self] at call
        cases call
      · simp only [pc, Function.update_of_ne mine] at call ⊢
        exact once.before u c' call
    · intro u c' r' d done
      by_cases mine : u = t
      · simp only [mine, Function.update_self] at done
        cases done
        have below := room t (by rw [here]; rfl) (posts c)
        simp only [Audit.own, zero, posted, semPost_of_room below, Function.update_self]
        omega
      · simp only [Function.update_of_ne mine] at done
        exact once.after u c' r' d done
  · rw [noted]
    constructor
    · intro u c' call
      by_cases mine : u = e.thread
      · simp only [pc, mine, Function.update_self, after] at call ⊢
        cases call
        have zero : a.drift e.thread (posts c) = 0 := once.before e.thread c before
        simp only [Audit.own, zero, same]
        omega
      · simp only [pc, Function.update_of_ne mine] at call ⊢
        exact once.before u c' call
    · exact once.after

/-! ## Runs without and with interrupts -/

theorem step_of_uninterrupted {cl : Client κ Call Reply} {s s' : State κ Tid} {e : Event Tid}
    (moved : step false cl s e = some s') : step true cl s e = some s' := by
  cases e with
  | interrupt t =>
    simp only [step, Bool.false_eq_true, ↓reduceIte] at moved
    split at moved
    · cases moved
    · cases moved
  | _ => exact moved

theorem uninterrupted_step {cl : Client κ Call Reply} {s s' : State κ Tid} {e : Event Tid}
    (quiet : e.isInterrupt = false) (moved : step true cl s e = some s') :
    step false cl s e = some s' := by
  cases e with
  | interrupt t => cases quiet
  | _ => exact moved

/-- The threads' tokens and those of the semaphores are `max_count` and one for each interrupt, of
which some may be lost above `SEM_VALUE_MAX`. -/
theorem run_tokens [Fintype Tid] {cl : Client κ Call Reply} {cap : Nat} {locals : Tid → κ}
    {s : State κ Tid} {es : List (Event Tid)}
    (ran : run (step true cl) (init cap locals) es = some s) :
    s.tokens ≤ cap + es.countP Event.isInterrupt ∧
      min (cap + es.countP Event.isInterrupt) semValueMax ≤ s.tokens := by
  induction es using List.reverseRecOn generalizing s with
  | nil =>
    cases ran
    rw [State.tokens, population_zero fun _ => rfl]
    exact ⟨Nat.le_refl cap, Nat.min_le_left ..⟩
  | append_singleton es e ih =>
    rcases run_snoc.mp ran with ⟨a, before, moved⟩
    have tokens := ih before
    rw [List.countP_append, List.countP_singleton]
    cases interrupts : e.isInterrupt with
    | false =>
      simp only [Bool.false_eq_true, ↓reduceIte]
      rcases step_tokens (uninterrupted_step interrupts moved) with same | lost
      · omega
      · omega
    | true =>
      cases e with
      | interrupt t =>
        simp only [step] at moved
        split at moved
        · next c here =>
          cases moved
          have holds := population_update holding a.pc t (.mutexLock c)
          simp only [here, holding, Bool.toNat_false, Bool.toNat_true] at holds
          simp only [State.tokens] at tokens
          simp only [State.tokens, State.goto, ↓reduceIte]
          omega
        · cases moved
      | _ => cases interrupts

/-- Without an interrupt their number stays, or stays above `SEM_VALUE_MAX`. -/
theorem reachable_tokens [Fintype Tid] {cl : Client κ Call Reply} {s s' : State κ Tid} {n : Nat}
    (reached : Reachable (step false cl) s s') (below : n ≤ semValueMax) (tokens : n ≤ s.tokens) :
    n ≤ s'.tokens := by
  refine reached.invariant (P := fun a => n ≤ a.tokens) tokens ?_
  intro a b e before moved
  rcases step_tokens moved with same | lost
  · omega
  · omega

/-- Few interrupts leave room in the semaphores. -/
theorem run_room [Fintype Tid] {cl : Client κ Call Reply} {cap : Nat} {locals : Tid → κ}
    {s : State κ Tid} {es : List (Event Tid)}
    (ran : run (step true cl) (init cap locals) es = some s)
    (few : cap + es.countP Event.isInterrupt ≤ semValueMax) : Room s := by
  intro t holds w
  have tokens := (run_tokens ran).1
  unfold State.tokens at tokens
  have some_holds : 0 < population holding s.pc := population_pos holds
  cases w with
  | spaceAvailable => omega
  | itemsAvailable => omega

/-- Then every call that has returned left one token more in the semaphore it posts. -/
theorem run_postsOnce [Fintype Tid] {cl : Client κ Call Reply} {cap : Nat} {locals : Tid → κ}
    {x : State κ Tid × Audit Tid} {es : List (Event Tid)}
    (ran : run (recorded (step true cl) audit) (init cap locals, .start) es = some x)
    (few : cap + es.countP Event.isInterrupt ≤ semValueMax) : PostsOnce x := by
  induction es using List.reverseRecOn generalizing x with
  | nil =>
    cases ran
    exact ⟨fun _ _ _ => rfl, nofun⟩
  | append_singleton es e ih =>
    rcases run_snoc.mp ran with ⟨y, before, moved⟩
    rw [List.countP_append] at few
    have fewer : cap + es.countP Event.isInterrupt ≤ semValueMax := by omega
    exact (ih before fewer).step (run_room (run_of_recorded before) fewer) moved

/-! ## Letting every thread finish its call -/

section Drain

variable {cl : Client κ Call Reply} {cap : Nat} {locals : Tid → κ}

/-- The thread inside leaves the critical section. -/
theorem leaves (small : (cap : Int) ≤ intMax) {t : Tid} {c : Call} (p : Code Reply) {h : Bool}
    {s : State κ Tid} (reached : Reachable (step true cl) (init cap locals) s)
    (here : s.pc t = .inside c h p) :
    ∃ s' r, Reachable (step false cl) s s' ∧
      s'.pc = Function.update s.pc t (.semPost c r) := by
  induction p generalizing s h with
  | ret r =>
    have moved : step false cl s (.unlock t) = some { s.goto t (.semPost c r) with
        mutex := none, log := s.log ++ [⟨t, c, r⟩] } := by
      simp only [step, here]
    exact ⟨_, r, .one moved, rfl⟩
  | op o k ih =>
    rcases reachable_access small reached here with ⟨new, r, m, done⟩
    have moved : step true cl s (.access t new) =
        some { s.goto t (.inside c (counted h o) (k r)) with mem := m } := by
      simp only [step, here, done, Option.map_some]
    rcases ih r (reached.tail moved) (Function.update_self ..) with ⟨s', reply, rest, pc⟩
    refine ⟨s', reply, .head (uninterrupted_step rfl moved) rest, ?_⟩
    rw [pc]
    exact Function.update_idem ..

/-- The thread posts its semaphore. -/
theorem posts_last {s : State κ Tid} {t : Tid} {c : Call} {r : Reply}
    (here : s.pc t = .semPost c r) :
    ∃ s', Reachable (step false cl) s s' ∧ s'.pc = Function.update s.pc t .idle := by
  have moved : step false cl s (.semPost t) = some { s.goto t .idle with
      sem := semPost s.sem (posts c)
      locals := Function.update s.locals t (cl.returns (s.locals t) c r) } := by
    simp only [step, here]
  exact ⟨_, .one moved, rfl⟩

/-- A thread that holds a token finishes its call, when the mutex is free or its own. -/
theorem finishes (small : (cap : Int) ≤ intMax) {s : State κ Tid}
    (reached : Reachable (step true cl) (init cap locals) s) {t : Tid}
    (holds : holding (s.pc t) = true) (turn : (s.pc t).crit = none → s.mutex = none) :
    ∃ s', Reachable (step false cl) s s' ∧ s'.pc = Function.update s.pc t .idle := by
  -- from inside the critical section
  have from_inside : ∀ {a : State κ Tid} {c h p}, Reachable (step true cl) (init cap locals) a →
      a.pc t = .inside c h p →
      ∃ s', Reachable (step false cl) a s' ∧ s'.pc = Function.update a.pc t .idle := by
    intro a c h p before here
    rcases leaves small p before here with ⟨b, r, left, pc⟩
    have here' : b.pc t = .semPost c r := by
      rw [pc]
      exact Function.update_self ..
    rcases posts_last here' with ⟨s', posted, pc'⟩
    refine ⟨s', left.trans posted, ?_⟩
    rw [pc', pc]
    exact Function.update_idem ..
  cases here : s.pc t with
  | idle =>
    rw [here] at holds
    cases holds
  | semWait c =>
    rw [here] at holds
    cases holds
  | mutexLock c =>
    have free := turn (by rw [here]; rfl)
    have moved : step true cl s (.lock t) =
        some { s.goto t (.inside c false (code c)) with mutex := some t } := by
      simp only [step, here, free, ↓reduceIte]
    rcases from_inside (reached.tail moved) (Function.update_self ..) with ⟨s', rest, pc⟩
    refine ⟨s', .head (uninterrupted_step rfl moved) rest, ?_⟩
    rw [pc]
    exact Function.update_idem ..
  | inside c h p => exact from_inside reached here
  | semPost c r => exact posts_last here

/-- Every thread can finish its call without a further interrupt. -/
theorem drains [Fintype Tid] (small : (cap : Int) ≤ intMax) {s : State κ Tid}
    (reached : Reachable (step true cl) (init cap locals) s) :
    ∃ s', Reachable (step false cl) s s' ∧ population holding s'.pc = 0 := by
  -- the number of threads that hold a token goes down
  generalize left : population holding s.pc = n
  induction n generalizing s with
  | zero => exact ⟨s, .refl s, left⟩
  | succ n ih =>
    have next : ∃ t, holding (s.pc t) = true ∧ ((s.pc t).crit = none → s.mutex = none) := by
      cases locked : s.mutex with
      | none =>
        have some_there : 0 < population holding s.pc := by omega
        rcases exists_of_population_pos some_there with ⟨t, holds⟩
        exact ⟨t, holds, fun _ => rfl⟩
      | some owner =>
        have inside := (owned reached owner).mpr locked
        refine ⟨owner, ?_, fun out => (inside out).elim⟩
        cases here : s.pc owner with
        | inside c h p => rfl
        | _ =>
          rw [here] at inside
          exact (inside rfl).elim
    rcases next with ⟨t, holds, turn⟩
    rcases finishes small reached holds turn with ⟨a, finished, pc⟩
    have fewer := population_update holding s.pc t .idle
    rw [← pc, holds, left] at fewer
    simp only [holding, Bool.toNat_true, Bool.toNat_false] at fewer
    rcases ih (reached.trans (finished.mono fun _ _ _ => step_of_uninterrupted)) (by omega) with
      ⟨s', rest, none_left⟩
    exact ⟨s', finished.trans rest, none_left⟩

end Drain

/-! ## When the accounting holds -/

/-- Calls that succeed have nothing to leave behind. -/
theorem returned_one [Fintype Tid] {cl : Client κ Call Reply} {cap : Nat}
    (small : (cap : Int) ≤ intMax) {locals : Tid → κ} {x : State κ Tid × Audit Tid}
    (reached : Reachable (recorded (step false cl) audit) (init cap locals, .start) x) :
    ∀ t c r d, x.2.returned t = some (c, r, d) → r.ret = 1 := by
  refine reached.induction
    (motive := fun x => ∀ t c r d, x.2.returned t = some (c, r, d) → r.ret = 1) nofun ?_
  intro x y e before ih moved u c' r' d done
  rcases x with ⟨s, a⟩
  rcases y with ⟨s', b⟩
  rcases recorded_eq_some.mp moved with ⟨stepped, rfl⟩
  rcases step_posts stepped with ⟨t, c, rfl, pc⟩ | ⟨t, c, r, rfl, here, pc, posted⟩ |
    ⟨c, new, -, -, -, -, noted⟩
  · exact ih u c' r' d done
  · simp only [audit, Event.thread, here] at done
    by_cases mine : u = t
    · simp only [mine, Function.update_self] at done
      cases done
      exact (reachable_conserved small before.of_recorded).2.posting t _ _ here
    · simp only [Function.update_of_ne mine] at done
      exact ih u c' r' d done
  · rw [noted] at done
    exact ih u c' r' d done

theorem accounted_of_uninterrupted [Fintype Tid] {cl : Client κ Call Reply} {cap : Nat}
    (small : (cap : Int) ≤ intMax) {locals : Tid → κ} {x : State κ Tid × Audit Tid}
    (reached : Reachable (recorded (step false cl) audit) (init cap locals, .start) x) :
    Accounted cap x := by
  constructor
  · have tokens := (reachable_conserved small reached.of_recorded).1.tokens
    omega
  · intro t c r d done zero
    have one := returned_one small reached t c r d done
    omega

/-- A run without interrupts is one of the uninterrupted steps. -/
theorem reachable_of_quiet {cl : Client κ Call Reply} {x y : State κ Tid × Audit Tid}
    {es : List (Event Tid)} (ran : run (recorded (step true cl) audit) x es = some y)
    (quiet : ∀ e ∈ es, e.isInterrupt = false) :
    Reachable (recorded (step false cl) audit) x y := by
  induction es generalizing x with
  | nil =>
    cases ran
    exact .refl y
  | cons e es ih =>
    rcases Option.bind_eq_some_iff.mp ran with ⟨z, moved, rest⟩
    rcases x with ⟨s, a⟩
    rcases z with ⟨s', b⟩
    rcases recorded_eq_some.mp moved with ⟨stepped, noted⟩
    have moved' : recorded (step false cl) audit (s, a) e = some (s', b) :=
      recorded_eq_some.mpr ⟨uninterrupted_step (quiet e List.mem_cons_self) stepped, noted⟩
    exact .head moved' (ih rest fun e' member => quiet e' (List.mem_cons_of_mem e member))

/-- **Interrupted waits break the accounting, and only they do.**  Any run of any finite
number of threads making any calls: the semaphores hold at most `max_count` tokens and every
call that returned 0 has left them alone, in the last state of the run and in every state
reached from it without a further interrupt, if no wait of the run was interrupted, and, with
`max_count` below `SEM_VALUE_MAX`, only if.  And with too few interrupts to fill a semaphore,
every call that returned 0 has left one token more in the semaphore it posts than it found
there. -/
theorem accounting_iff [Fintype Tid] {maxCount : Int} (positive : 1 ≤ maxCount)
    (isInt : maxCount ≤ intMax) (cl : Client κ Call Reply) (locals : Tid → κ)
    (es : List (Event Tid)) (x : State κ Tid × Audit Tid)
    (ran : run (recorded (step true cl) audit) (init maxCount locals, .start) es = some x) :
    ((∀ e ∈ es, e.isInterrupt = false) →
      ∀ y, Reachable (recorded (step false cl) audit) x y → Accounted maxCount y) ∧
    (maxCount < intMax →
      ((∀ y, Reachable (recorded (step false cl) audit) x y → Accounted maxCount y) ↔
        ∀ e ∈ es, e.isInterrupt = false)) ∧
    (maxCount + es.countP Event.isInterrupt ≤ intMax →
      ∀ t c r d, x.2.returned t = some (c, r, d) → r.ret = 0 → d (posts c) = 1) := by
  rcases Int.eq_ofNat_of_zero_le (show 0 ≤ maxCount by omega) with ⟨cap, rfl⟩
  have enough : (∀ e ∈ es, e.isInterrupt = false) →
      ∀ y, Reachable (recorded (step false cl) audit) x y → Accounted cap y :=
    fun quiet y reached =>
      accounted_of_uninterrupted isInt ((reachable_of_quiet ran quiet).trans reached)
  refine ⟨enough, fun below => ⟨?_, enough⟩, fun few t c r d done _ => ?_⟩
  · intro accounted e member
    cases interrupts : e.isInterrupt with
    | false => rfl
    | true =>
      -- let everybody finish, and count the tokens
      have ran' := run_of_recorded ran
      rcases drains isInt ⟨es, ran'⟩ with ⟨s', drained, none_left⟩
      obtain ⟨a', drained'⟩ :
          ∃ a', Reachable (recorded (step false cl) audit) x (s', a') := drained.recorded
      have bounded : ((s'.sem .spaceAvailable + s'.sem .itemsAvailable : Nat) : Int) ≤ cap :=
        (accounted (s', a') drained').bounded
      have tokens := (run_tokens ran').2
      have some_interrupt : 0 < es.countP Event.isInterrupt :=
        List.countP_pos_iff.mpr ⟨e, member, interrupts⟩
      have fits : cap + 1 ≤ semValueMax := Int.ofNat_le.mp below
      have kept : cap + 1 ≤ s'.tokens := reachable_tokens drained fits (by omega)
      unfold State.tokens at kept
      omega
  · have few : cap + es.countP Event.isInterrupt ≤ semValueMax := by
      apply Int.ofNat_le.mp
      rw [Int.natCast_add]
      exact few
    exact (run_postsOnce ran few).after t c r d done

/-- One consumer, interrupted in front of the empty queue. -/
def interruptedGet : List (Event Unit) :=
  [.call () .get, .interrupt (), .lock ()] ++ List.replicate 5 (.access () ⟨0, ⟨0, none⟩⟩) ++
    [.unlock (), .semPost ()]

theorem accounting_iff_interrupted : ∃ x : State Unit Unit × Audit Unit,
    run (recorded (step true Client.any) audit) (init 1 fun _ => (), .start) interruptedGet =
        some x ∧
      ((∀ y, Reachable (recorded (step false Client.any) audit) x y → Accounted 1 y) ↔
        ∀ e ∈ interruptedGet, e.isInterrupt = false) ∧
      ∀ t c r d, x.2.returned t = some (c, r, d) → r.ret = 0 → d (posts c) = 1 := by
  have ran : run (recorded (step true Client.any) audit) (init 1 fun _ => (), .start)
      interruptedGet = some _ := rfl
  have accounting := accounting_iff (show (1 : Int) ≤ 1 by decide) (by decide) _ _ _ _ ran
  exact ⟨_, ran, accounting.2.1 (by decide), accounting.2.2 (by decide)⟩

/-- With `max_count` 1 the interrupted call returns 0, and two tokens are in the semaphores. -/
theorem interrupted_get_overcounts : ∃ x : State Unit Unit × Audit Unit,
    run (recorded (step true Client.any) audit) (init 1 fun _ => (), .start) interruptedGet =
        some x ∧
      x.1.sem .spaceAvailable = 2 ∧ x.1.sem .itemsAvailable = 0 ∧
      (x.2.returned ()).map (fun call => (call.1, call.2.1, call.2.2 .spaceAvailable)) =
        some (.get, ⟨0, none⟩, 1) ∧ ¬ Accounted 1 x := by
  refine ⟨_, rfl, rfl, rfl, rfl, ?_⟩
  intro accounted
  exact absurd accounted.bounded (by decide)

end Os2Labs.Queue.Semaphore
