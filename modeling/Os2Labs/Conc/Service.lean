import Os2Labs.Conc.Lock

/-!
# A service as its clients see it

The abstract machine of an object that is used by client programs: a call takes effect at one
step between its invocation and its return, and is then entered in the log with its reply.

`caught_up`: in every reachable state the log is one of the clients', and each client is
where it was after some beginning of the log.  So what a client does with its replies can
be read off the log, also while other calls, or its own, have yet to return.

`view` is what the service sees of a system whose program points have a phase: the steps that keep
the phase it does not see.  `Locked.service` maps the systems of `Conc.Lock` to this machine.
-/

namespace Conc

variable {κ Call Reply Tid : Type}

namespace Service

/-- Where a thread is in its call: it has yet to take effect, or to return. -/
inductive Phase (Call Reply : Type) where
  | idle
  | calling (c : Call)
  | returning (c : Call) (r : Reply)

structure State (κ Call Reply Tid : Type) where
  phase : Tid → Phase Call Reply
  locals : Tid → κ
  /-- The calls that have taken effect, in order. -/
  log : List (Done Tid Call Reply)

/-- The private state of a client once its call has returned, if that has taken effect. -/
def Phase.settle (cl : Client κ Call Reply) (k : κ) : Phase Call Reply → κ
  | .returning c r => cl.returns k c r
  | _ => k

def State.settled (cl : Client κ Call Reply) (s : State κ Call Reply Tid) (t : Tid) : κ :=
  (s.phase t).settle cl (s.locals t)

variable [DecidableEq Tid]

def State.goto (s : State κ Call Reply Tid) (t : Tid) (new : Phase Call Reply) :
    State κ Call Reply Tid :=
  { s with phase := Function.update s.phase t new }

inductive Step (cl : Client κ Call Reply) : State κ Call Reply Tid → State κ Call Reply Tid → Prop
  | call {s : State κ Call Reply Tid} {t : Tid} {c : Call} (here : s.phase t = .idle)
      (allowed : cl.calls (s.locals t) c = true) : Step cl s (s.goto t (.calling c))
  | effect {s : State κ Call Reply Tid} {t : Tid} {c : Call} (here : s.phase t = .calling c)
      (r : Reply) : Step cl s { s.goto t (.returning c r) with log := s.log ++ [⟨t, c, r⟩] }
  | back {s : State κ Call Reply Tid} {t : Tid} {c : Call} {r : Reply}
      (here : s.phase t = .returning c r) : Step cl s { s.goto t .idle with
        locals := Function.update s.locals t (cl.returns (s.locals t) c r) }

/-- The client is where it was after some beginning of the log. -/
def CaughtUp (cl : Client κ Call Reply) (k₀ : Tid → κ) (log : List (Done Tid Call Reply)) (t : Tid)
    (k : κ) : Prop :=
  ∃ seen k', seen <+: log ∧ Follows cl k₀ seen k' ∧ k' t = k

structure Inv (cl : Client κ Call Reply) (k₀ : Tid → κ) (s : State κ Call Reply Tid) : Prop where
  log : Follows cl k₀ s.log (s.settled cl)
  calling : ∀ t c, s.phase t = .calling c → cl.calls (s.locals t) c = true
  caughtUp : ∀ t, CaughtUp cl k₀ s.log t (s.locals t)

variable {cl : Client κ Call Reply} {k₀ : Tid → κ}

theorem CaughtUp.longer {log log' : List (Done Tid Call Reply)} {t : Tid} {k : κ}
    (caughtUp : CaughtUp cl k₀ log t k) (longer : log <+: log') : CaughtUp cl k₀ log' t k := by
  obtain ⟨seen, k', before, follows, same⟩ := caughtUp
  exact ⟨seen, k', before.trans longer, follows, same⟩

/-- One thread moves. -/
theorem settled_move {s s' : State κ Call Reply Tid} {t : Tid} {new : Phase Call Reply} {k : κ}
    (phase : s'.phase = Function.update s.phase t new)
    (others : ∀ u, u ≠ t → s'.locals u = s.locals u) (own : new.settle cl (s'.locals t) = k) :
    s'.settled cl = Function.update (s.settled cl) t k := by
  funext u
  unfold State.settled
  rw [phase]
  by_cases same : u = t
  · subst same
    rw [Function.update_self, Function.update_self, own]
  · rw [Function.update_of_ne same, Function.update_of_ne same, others u same]

theorem Inv.step {s s' : State κ Call Reply Tid} (inv : Inv cl k₀ s) (moved : Step cl s s') :
    Inv cl k₀ s' := by
  cases moved with
  | @call t c here allowed =>
    have kept : (s.goto t (.calling c)).settled cl = s.settled cl := by
      have own : s.settled cl t = s.locals t := by
        unfold State.settled
        rw [here, Phase.settle]
        exact nofun
      have moved : (s.goto t (.calling c)).settled cl =
          Function.update (s.settled cl) t (s.locals t) := settled_move rfl (fun _ _ => rfl) rfl
      rw [moved, ← own, Function.update_eq_self]
    refine ⟨?_, ?_, inv.caughtUp⟩
    · rw [kept]
      exact inv.log
    · intro u c' there
      simp only [State.goto] at there ⊢
      by_cases same : u = t
      · subst same
        rw [Function.update_self] at there
        cases there
        exact allowed
      · rw [Function.update_of_ne same] at there
        exact inv.calling u c' there
  | @effect t c here r =>
    have own : s.settled cl t = s.locals t := by
      unfold State.settled
      rw [here, Phase.settle]
      exact nofun
    refine ⟨?_, ?_, ?_⟩
    · have moved : State.settled cl { s.goto t (.returning c r) with
          log := s.log ++ [⟨t, c, r⟩] } =
            Function.update (s.settled cl) t (cl.returns (s.locals t) c r) :=
        settled_move rfl (fun _ _ => rfl) rfl
      have snoc := inv.log.snoc t c r (by rw [own]; exact inv.calling t c here)
      rw [own, ← moved] at snoc
      exact snoc
    · intro u c' there
      simp only [State.goto] at there ⊢
      by_cases same : u = t
      · subst same
        rw [Function.update_self] at there
        cases there
      · rw [Function.update_of_ne same] at there
        exact inv.calling u c' there
    · intro u
      exact (inv.caughtUp u).longer (List.prefix_append _ _)
  | @back t c r here =>
    have log : Follows cl k₀ s.log (State.settled cl { s.goto t .idle with
        locals := Function.update s.locals t (cl.returns (s.locals t) c r) }) := by
      have own : s.settled cl t = cl.returns (s.locals t) c r := by
        unfold State.settled
        rw [here, Phase.settle]
      have moved : State.settled cl { s.goto t .idle with
          locals := Function.update s.locals t (cl.returns (s.locals t) c r) } =
            Function.update (s.settled cl) t (cl.returns (s.locals t) c r) :=
        settled_move rfl (fun u ne => Function.update_of_ne ne _ _) (Function.update_self ..)
      rw [moved, ← own, Function.update_eq_self]
      exact inv.log
    refine ⟨log, ?_, ?_⟩
    · intro u c' there
      simp only [State.goto] at there ⊢
      by_cases same : u = t
      · subst same
        rw [Function.update_self] at there
        cases there
      · rw [Function.update_of_ne same] at there ⊢
        exact inv.calling u c' there
    · intro u
      by_cases same : u = t
      · subst same
        refine ⟨s.log, _, List.prefix_refl _, log, ?_⟩
        unfold State.settled
        simp only [State.goto, Function.update_self, Phase.settle]
      · simp only [Function.update_of_ne same]
        exact inv.caughtUp u

/-- **Clients and the log.**  In every state reached from one with everybody idle and nothing
logged, each client is where it was after some beginning of the log. -/
theorem caught_up {s₀ s : State κ Call Reply Tid} (idle : ∀ t, s₀.phase t = .idle)
    (fresh : s₀.log = []) (reached : Relation.ReflTransGen (Step cl) s₀ s) :
    Inv cl s₀.locals s := by
  have nothing : Follows cl s₀.locals s₀.log s₀.locals := by
    rw [fresh]
    exact .nil
  induction reached with
  | refl =>
    have settled : s₀.settled cl = s₀.locals := by
      funext t
      unfold State.settled
      rw [idle t, Phase.settle]
      exact nofun
    refine ⟨?_, ?_, fun t => ⟨s₀.log, s₀.locals, List.prefix_refl _, nothing, rfl⟩⟩
    · rw [settled]
      exact nothing
    · intro t c there
      rw [idle t] at there
      cases there
  | tail _ moved ih => exact ih.step moved

/-! ### Systems whose program points have a phase -/

section View

variable {P : Type} {phase : P → Phase Call Reply} {pc : Tid → P} {locals : Tid → κ}
  {log : List (Done Tid Call Reply)} {t : Tid} {new : P} {c : Call} {r : Reply}

/-- What the service sees of a system. -/
def view (phase : P → Phase Call Reply) (pc : Tid → P) (locals : Tid → κ)
    (log : List (Done Tid Call Reply)) : State κ Call Reply Tid where
  phase := phase ∘ pc
  locals := locals
  log := log

/-- A step that the service does not see. -/
theorem view_stay (same : phase new = phase (pc t)) :
    view phase (Function.update pc t new) locals log = view phase pc locals log := by
  unfold view
  rw [Function.comp_update, same]
  congr 1
  exact Function.update_eq_self t (phase ∘ pc)

theorem run_stay (same : phase new = phase (pc t)) :
    Relation.ReflTransGen (Step cl) (view phase pc locals log)
      (view phase (Function.update pc t new) locals log) := by
  rw [view_stay same]

theorem view_call (here : phase (pc t) = .idle) (calling : phase new = .calling c)
    (allowed : cl.calls (locals t) c = true) :
    Step cl (view phase pc locals log) (view phase (Function.update pc t new) locals log) := by
  have call : Step cl (view phase pc locals log)
      ((view phase pc locals log).goto t (.calling c)) := .call here allowed
  convert call using 1
  simp only [view, State.goto, Function.comp_update, calling]

theorem view_effect (here : phase (pc t) = .calling c) (returning : phase new = .returning c r) :
    Step cl (view phase pc locals log)
      (view phase (Function.update pc t new) locals (log ++ [⟨t, c, r⟩])) := by
  have effect : Step cl (view phase pc locals log)
      { (view phase pc locals log).goto t (.returning c r) with log := log ++ [⟨t, c, r⟩] } :=
    .effect here r
  convert effect using 1
  simp only [view, State.goto, Function.comp_update, returning]

theorem view_back (here : phase (pc t) = .returning c r) (idle : phase new = .idle) :
    Step cl (view phase pc locals log) (view phase (Function.update pc t new)
      (Function.update locals t (cl.returns (locals t) c r)) log) := by
  have back : Step cl (view phase pc locals log) { (view phase pc locals log).goto t .idle with
      locals := Function.update locals t (cl.returns (locals t) c r) } := .back here
  convert back using 1
  simp only [view, State.goto, Function.comp_update, idle]

end View

end Service

/-! ## An object behind a lock is a service -/

namespace Locked

variable {S : Signature} {σ χ W ξ : Type} {L : Lock Tid W ξ}

/-- A call takes effect when `unlock` does. -/
def Pc.phase : Pc L S Call Reply → Service.Phase Call Reply
  | .idle => .idle
  | .locking c _ | .inside c _ => .calling c
  | .unlocking c r p => if L.owns p then .calling c else .returning c r

def service (s : State L S σ Call Reply κ) : Service.State κ Call Reply Tid :=
  Service.view Pc.phase s.pc s.locals s.log

theorem Pc.phase_of_atUnlock {pc : Pc L S Call Reply} {c : Call} {r : Reply} {p : L.Rel}
    (unlocking : pc.atUnlock = some (c, r, p)) :
    pc.phase = if L.owns p then .calling c else .returning c r := by
  unfold Pc.atUnlock at unlocking
  split at unlocking
  · cases unlocking
    exact (if_pos L.owns_unlock).symm
  · cases unlocking
    rfl
  · cases unlocking

variable [DecidableEq Tid] {O : Object S σ χ Call Reply Unit} {cl : Client κ Call Reply}
  {s s' : State L S σ Call Reply κ}

/-- A step is one of the service, or two when `unlock` returns at once. -/
theorem step_serves {e : Event Tid Call χ ξ} (moved : step O cl s e = some s') :
    Relation.ReflTransGen (Service.Step cl) (service s) (service s') := by
  rcases step_cases moved with ⟨t, c, -, out, allowed, rfl⟩ |
    ⟨t, c, a, x, w, -, locking, done, rfl⟩ | ⟨t, c, a, x, w, a', -, locking, done, rfl⟩ |
    ⟨t, c, o, k, x, r, m, -, inside, done, rfl⟩ | ⟨t, c, r, p, x, w, p', -, unlocking, done, rfl⟩
  · exact .single (Service.view_call (by rw [out]; rfl) rfl allowed)
  · exact Service.run_stay (by rw [locking]; rfl)
  · exact Service.run_stay (by rw [locking]; rfl)
  · exact Service.run_stay (by rw [inside]; rfl)
  · have before := Pc.phase_of_atUnlock unlocking
    cases owns : L.owns p with
    | false =>
      -- the call has taken effect
      simp only [owns, Bool.false_eq_true, ↓reduceIte] at before
      have after := (L.releasing done owns).2
      cases p' with
      | none => exact .single (Service.view_back before rfl)
      | some q =>
        simp only [Option.any_some] at after
        simp only [Bool.false_and, Bool.false_eq_true, ↓reduceIte]
        refine Service.run_stay ?_
        rw [before]
        simp only [Option.elim_some, Pc.phase, after, Bool.false_eq_true, ↓reduceIte]
    | true =>
      simp only [owns, ↓reduceIte] at before
      cases p' with
      | none =>
        have effect : Service.Step cl (service s) { (service s).goto t (.returning c r) with
            log := s.log ++ [⟨t, c, r⟩] } := .effect before r
        have here : ((service s).goto t (.returning c r)).phase t = .returning c r :=
          Function.update_self ..
        have back : Service.Step cl { (service s).goto t (.returning c r) with
            log := s.log ++ [⟨t, c, r⟩] } _ := .back here
        convert (Relation.ReflTransGen.single effect).tail back using 1
        simp [service, Service.view, Service.State.goto, Function.comp_update, Pc.phase]
      | some q =>
        cases still : L.owns q with
        | true =>
          simp only [Option.any_some, still, Bool.not_true, Bool.and_false, Bool.false_eq_true,
            ↓reduceIte]
          refine Service.run_stay ?_
          rw [before]
          simp only [Option.elim_some, Pc.phase, still, ↓reduceIte]
        | false =>
          simp only [Option.any_some, still, Bool.not_false, Bool.and_true, ↓reduceIte]
          refine .single (Service.view_effect before ?_)
          simp only [Option.elim_some, Pc.phase, still, Bool.false_eq_true, ↓reduceIte]

/-- Each client is where it was after some beginning of the log. -/
theorem caught_up {s₀ : State L S σ Call Reply κ} (initial : Initial s₀)
    (reached : Reachable (step O cl) s₀ s) : Service.Inv cl s₀.locals (service s) := by
  have idle : ∀ t, (service s₀).phase t = .idle := by
    intro t
    show (s₀.pc t).phase = .idle
    rw [initial.idle t]
    rfl
  have run : Relation.ReflTransGen (Relation.ReflTransGen (Service.Step cl)) (service s₀)
      (service s) := reached.refines fun _ _ _ _ moved => Or.inr (step_serves moved)
  rw [Relation.reflTransGen_eq_self] at run
  exact Service.caught_up idle initial.fresh run

end Locked

end Conc
