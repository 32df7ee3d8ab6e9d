import Os2Labs.Conc.Lock

/-!
# Systems with the same behaviour

`Traces step see s` are the sequences of visible events of the runs from `s`, where `see`
says what an observer sees of a step.  A `Bisimulation` of two systems with the same events
relates states that answer each step of the other by a step that looks the same, so that
related states have the same traces.

For locks, `Lock.Twin` is a correspondence of the code of two locks, step by step, and
`Lock.Twin.bisimulation` says that threads that use one of them for any object cannot be told
from threads that use the other.
-/

namespace Conc

variable {σ τ ε ω : Type*}

/-- The visible events of a run, as a record. -/
def sight (see : σ → ε → σ → Option ω) (a : σ) (e : ε) (b : σ) (seen : List ω) : List ω :=
  seen ++ (see a e b).toList

/-- The sequences of visible events of the runs from a state. -/
def Traces (step : σ → ε → Option σ) (see : σ → ε → σ → Option ω) (s : σ) : Set (List ω) :=
  {seen | ∃ s', Reachable (recorded step (sight see)) (s, []) (s', seen)}

/-- Related states answer each other's steps by steps that look the same. -/
structure Bisimulation (step : σ → ε → Option σ) (see : σ → ε → σ → Option ω)
    (step' : τ → ε → Option τ) (see' : τ → ε → τ → Option ω) (R : σ → τ → Prop) : Prop where
  forth : ∀ a b e a₁, R a b → step a e = some a₁ →
    ∃ b₁, step' b e = some b₁ ∧ R a₁ b₁ ∧ see' b e b₁ = see a e a₁
  back : ∀ a b e b₁, R a b → step' b e = some b₁ →
    ∃ a₁, step a e = some a₁ ∧ R a₁ b₁ ∧ see a e a₁ = see' b e b₁

namespace Bisimulation

variable {step : σ → ε → Option σ} {see : σ → ε → σ → Option ω} {step' : τ → ε → Option τ}
  {see' : τ → ε → τ → Option ω} {R : σ → τ → Prop}

theorem symm (bisimulation : Bisimulation step see step' see' R) :
    Bisimulation step' see' step see (fun b a => R a b) where
  forth b a e b₁ related moved := bisimulation.back a b e b₁ related moved
  back b a e a₁ related moved := bisimulation.forth a b e a₁ related moved

/-- A whole run is answered by a run that looks the same. -/
theorem reachable (bisimulation : Bisimulation step see step' see' R) {a a₁ : σ} {b : τ}
    {seen : List ω} (related : R a b)
    (reached : Reachable (recorded step (sight see)) (a, []) (a₁, seen)) :
    ∃ b₁, R a₁ b₁ ∧ Reachable (recorded step' (sight see')) (b, []) (b₁, seen) := by
  refine reached.induction (motive := fun x => ∃ b₁, R x.1 b₁ ∧
    Reachable (recorded step' (sight see')) (b, []) (b₁, x.2)) ⟨b, related, .refl _⟩ ?_
  intro x y e _ ih moved
  rcases x with ⟨a₁, seen⟩
  rcases y with ⟨a₂, seen'⟩
  rcases ih with ⟨b₁, here, before⟩
  rcases recorded_eq_some.mp moved with ⟨stepped, rfl⟩
  rcases bisimulation.forth a₁ b₁ e a₂ here stepped with ⟨b₂, answer, there, looks⟩
  refine ⟨b₂, there, before.tail (e := e) (recorded_eq_some.mpr ⟨answer, ?_⟩)⟩
  rw [sight, sight, looks]

/-- **Bisimilar states have the same traces.** -/
theorem traces (bisimulation : Bisimulation step see step' see' R) {a : σ} {b : τ}
    (related : R a b) : Traces step see a = Traces step' see' b := by
  ext seen
  constructor
  · intro trace
    rcases trace with ⟨a₁, reached⟩
    rcases bisimulation.reachable related reached with ⟨b₁, -, reached'⟩
    exact ⟨b₁, reached'⟩
  · intro trace
    rcases trace with ⟨b₁, reached⟩
    rcases bisimulation.symm.reachable related reached with ⟨a₁, -, reached'⟩
    exact ⟨a₁, reached'⟩

end Bisimulation

/-- Related outcomes of two steps, in larger states. -/
theorem rel_map {α β γ δ : Type*} {P : α → β → Prop} {Q : γ → δ → Prop} {f : α → γ} {g : β → δ}
    {x : Option α} {y : Option β} (related : Option.Rel P x y)
    (larger : ∀ a b, P a b → Q (f a) (g b)) : Option.Rel Q (x.map f) (y.map g) := by
  cases related with
  | some here => exact .some (larger _ _ here)
  | none => exact .none

/-! ## Locks -/

variable {Tid W W' ξ : Type}

/-- The code of two locks corresponds: from corresponding states of the lock, each step of
the one is a step of the other to a corresponding point.  The steps of `unlock` that make the
owner give up the lock need to correspond only when the lock is held. -/
structure Lock.Twin (L : Lock Tid W ξ) (L' : Lock Tid W' ξ) where
  same : W → W' → Prop
  acq : L.Acq → L'.Acq
  rel : L.Rel → L'.Rel
  lock : acq L.lock = L'.lock
  unlock : rel L.unlock = L'.unlock
  owns : ∀ r, L'.owns (rel r) = L.owns r
  acquire : ∀ {t x w w' a}, same w w' →
    Option.Rel (fun out out' => same out.1 out'.1 ∧ out'.2 = out.2.map acq)
      (L.acquire t x w a) (L'.acquire t x w' (acq a))
  release : ∀ {t x w w' r}, same w w' → (L.owns r = true → L.word w = L.held) →
    Option.Rel (fun out out' => same out.1 out'.1 ∧ out'.2 = out.2.map rel)
      (L.release t x w r) (L'.release t x w' (rel r))

namespace Locked

/-- What an observer of a lock sees. -/
inductive Passage (Tid : Type) where
  | acquire (t : Tid)
  | release (t : Tid)
deriving DecidableEq

variable {S : Signature} {σ χ Call Reply κ : Type} {L : Lock Tid W ξ} {L' : Lock Tid W' ξ}

/-- The thread that moves. -/
def Event.thread : Event Tid Call χ ξ → Tid
  | .call t _ | .lock t _ | .access t _ | .unlock t _ => t

/-- A thread becomes the owner of the lock, or stops being it. -/
def passage (s : State L S σ Call Reply κ) (e : Event Tid Call χ ξ)
    (s' : State L S σ Call Reply κ) : Option (Passage Tid) :=
  match (s.pc e.thread).crit, (s'.pc e.thread).crit with
  | none, some _ => some (.acquire e.thread)
  | some _, none => some (.release e.thread)
  | _, _ => none

/-- The same point with the other lock. -/
def Pc.translate (T : L.Twin L') : Pc L S Call Reply → Pc L' S Call Reply
  | .idle => .idle
  | .locking c a => .locking c (T.acq a)
  | .inside c p => .inside c p
  | .unlocking c r p => .unlocking c r (T.rel p)

/-- The states of the two systems differ only in the lock. -/
structure Corresponds (T : L.Twin L') (s : State L S σ Call Reply κ)
    (s' : State L' S σ Call Reply κ) : Prop where
  lock : T.same s.lock s'.lock
  mem : s'.mem = s.mem
  pc : s'.pc = fun t => (s.pc t).translate T
  locals : s'.locals = s.locals
  log : s'.log = s.log

section Twin

variable (T : L.Twin L')

@[simp] theorem translate_crit (pc : Pc L S Call Reply) : (pc.translate T).crit = pc.crit := by
  cases pc with
  | unlocking c r p => simp only [Pc.translate, Pc.crit, T.owns]
  | _ => rfl

theorem translate_atUnlock (pc : Pc L S Call Reply) :
    (pc.translate T).atUnlock = pc.atUnlock.map fun out => (out.1, out.2.1, T.rel out.2.2) := by
  cases pc with
  | inside c p =>
    cases p with
    | ret r => simp only [Pc.translate, Pc.atUnlock, Option.map_some, T.unlock]
    | op o k => rfl
  | _ => rfl

/-- After a step of `lock`, and of `unlock`. -/
theorem translate_locking (c : Call) (p : Prog S Reply) (a : Option L.Acq) :
    (a.elim (.inside c p) (Pc.locking c) : Pc L S Call Reply).translate T =
      (a.map T.acq).elim (.inside c p) (Pc.locking c) := by
  cases a <;> rfl

theorem translate_unlocking (c : Call) (r : Reply) (p : Option L.Rel) :
    (p.elim .idle (Pc.unlocking c r) : Pc L S Call Reply).translate T =
      (p.map T.rel).elim .idle (Pc.unlocking c r) := by
  cases p <;> rfl

theorem any_owns (p : Option L.Rel) : (p.map T.rel).any L'.owns = p.any L.owns := by
  cases p with
  | none => rfl
  | some p => exact T.owns p

variable {T} [DecidableEq Tid] {O : Object S σ χ Call Reply Unit} {cl : Client κ Call Reply}
  {s : State L S σ Call Reply κ} {s' : State L' S σ Call Reply κ}

/-- A thread moves in both systems. -/
theorem Corresponds.update (corresponds : Corresponds T s s') {t : Tid} {new : Pc L S Call Reply}
    {new' : Pc L' S Call Reply} (same : new' = new.translate T) :
    Function.update s'.pc t new' = fun u => (Function.update s.pc t new u).translate T := by
  funext u
  by_cases who : u = t
  · rw [who, Function.update_self, Function.update_self, same]
  · rw [Function.update_of_ne who, Function.update_of_ne who, corresponds.pc]

/-- **One step with either lock.** -/
theorem Corresponds.step (corresponds : Corresponds T s s') (owned : Owned s)
    (e : Event Tid Call χ ξ) :
    Option.Rel (Corresponds T) (step O cl s e) (step O cl s' e) := by
  have at_pc : ∀ t, s'.pc t = (s.pc t).translate T := fun t => congrFun corresponds.pc t
  cases e with
  | call t c =>
    cases here : s.pc t with
    | idle =>
      simp only [Locked.step, at_pc t, here, Pc.translate, corresponds.locals]
      split
      · refine .some ⟨corresponds.lock, corresponds.mem, ?_, rfl, corresponds.log⟩
        exact corresponds.update (by rw [← T.lock]; rfl)
      · exact .none
    | _ =>
      simp only [Locked.step, at_pc t, here, Pc.translate]
      exact .none
  | lock t x =>
    cases here : s.pc t with
    | locking c a =>
      simp only [Locked.step, at_pc t, here, Pc.translate]
      apply rel_map (T.acquire corresponds.lock)
      intro out out' answer
      rcases answer with ⟨same, goes⟩
      refine ⟨same, corresponds.mem, corresponds.update ?_, corresponds.locals, corresponds.log⟩
      rw [goes]
      exact (translate_locking T c (O.body c) out.2).symm
    | _ =>
      simp only [Locked.step, at_pc t, here, Pc.translate]
      exact .none
  | access t x =>
    cases here : s.pc t with
    | inside c p =>
      cases p with
      | ret r =>
        simp only [Locked.step, at_pc t, here, Pc.translate]
        exact .none
      | op o k =>
        simp only [Locked.step, at_pc t, here, Pc.translate, corresponds.mem]
        cases O.sem.exec o x s.mem with
        | none => exact .none
        | some out =>
          refine .some ⟨corresponds.lock, rfl, ?_, corresponds.locals, corresponds.log⟩
          exact corresponds.update rfl
    | _ =>
      simp only [Locked.step, at_pc t, here, Pc.translate]
      exact .none
  | unlock t x =>
    cases here : (s.pc t).atUnlock with
    | none =>
      simp only [Locked.step, at_pc t, translate_atUnlock, here, Option.map_none]
      exact .none
    | some out =>
      obtain ⟨c, r, p⟩ := out
      simp only [Locked.step, at_pc t, translate_atUnlock, here, Option.map_some]
      -- a thread that gives up the lock has it
      have holds : L.owns p = true → L.word s.lock = L.held := by
        intro owns
        apply owned.held (t := t)
        rw [Pc.Owner, Pc.crit_of_atUnlock here, if_pos owns]
        exact Option.some_ne_none _
      apply rel_map (T.release corresponds.lock holds)
      intro out out' answer
      rcases answer with ⟨same, goes⟩
      refine ⟨same, corresponds.mem, corresponds.update ?_, ?_, ?_⟩
      · rw [goes]
        exact (translate_unlocking T c r out.2).symm
      · simp only [goes, Option.isNone_map, corresponds.locals]
      · simp only [goes, any_owns, T.owns, corresponds.log]

omit [DecidableEq Tid] in
/-- Both systems look the same. -/
theorem Corresponds.passage {s₁ : State L S σ Call Reply κ} {s₁' : State L' S σ Call Reply κ}
    (before : Corresponds T s s') (after : Corresponds T s₁ s₁') (e : Event Tid Call χ ξ) :
    passage s' e s₁' = passage s e s₁ := by
  simp only [Locked.passage, before.pc, after.pc, translate_crit]

/-- **Threads cannot tell corresponding locks apart.** -/
theorem Corresponds.bisimulation {s₀ : State L S σ Call Reply κ} (initial : Initial s₀) :
    Bisimulation (Locked.step O cl) Locked.passage (Locked.step O cl) Locked.passage
      fun s s' => Reachable (Locked.step O cl) s₀ s ∧ Corresponds T s s' where
  forth s s' e s₁ := by
    intro here moved
    rcases here with ⟨reached, corresponds⟩
    have answer : Option.Rel (Corresponds T) (Locked.step O cl s e) (Locked.step O cl s' e) :=
      corresponds.step (owned initial reached) e
    rw [moved] at answer
    cases out' : Locked.step O cl s' e with
    | none =>
      rw [out'] at answer
      cases answer
    | some s₁' =>
      rw [out'] at answer
      rcases answer with ⟨after⟩
      exact ⟨s₁', rfl, ⟨reached.tail moved, after⟩, corresponds.passage after e⟩
  back s s' e s₁' := by
    intro here moved
    rcases here with ⟨reached, corresponds⟩
    have answer : Option.Rel (Corresponds T) (Locked.step O cl s e) (Locked.step O cl s' e) :=
      corresponds.step (owned initial reached) e
    rw [moved] at answer
    cases out : Locked.step O cl s e with
    | none =>
      rw [out] at answer
      cases answer
    | some s₁ =>
      rw [out] at answer
      rcases answer with ⟨after⟩
      exact ⟨s₁, rfl, ⟨reached.tail out, after⟩, (corresponds.passage after e).symm⟩

end Twin

end Locked

end Conc
