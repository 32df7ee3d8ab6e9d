import Os2Labs.Conc.Guarded

/-!
# Notes on a guarded object

`Guarded.Inv` relates the memory of a guarded object to the log of its calls.  Some
facts are about what happened on the way, such as who allocated and who freed.
They are stated with a ghost: notes taken at every access, which the system does not
see and so cannot depend on.

`Act` is a step of the guarded machine with the access that it performs, and `taken`
records the accesses of a concrete system.  When every call run alone keeps a
relation between the memory, the notes and the log (`Keeps`), `noted` says that it
holds in every recorded run whenever nobody is inside.
-/

namespace Conc

/-- An access that was performed, and its answer. -/
structure Answered (S : Signature) where
  op : S.Op
  res : S.Res op

namespace Guarded

variable {S : Signature} {σ χ Call Reply η γ τ ε Tid : Type}

/-- A step of the guarded machine or none, and the access it performs. -/
inductive Act [DecidableEq Tid] (O : Object S σ χ Call Reply η) : Option (Answered S) →
    State S σ Call Reply η Tid → State S σ Call Reply η Tid → Prop
  | stay (s : State S σ Call Reply η Tid) : Act O none s s
  | enter {s : State S σ Call Reply η Tid} (t : Tid) (c : Call) : s.Vacant →
    Act O none s { s with crit := Function.update s.crit t (some (c, O.start, O.body c)) }
  | access {s : State S σ Call Reply η Tid} {t : Tid} {c : Call} {h : η} {o : S.Op}
      {k : S.Res o → Prog S Reply} {x : χ} {r : S.Res o} {m : σ} :
    s.crit t = some (c, h, .op o k) → O.sem.exec o x s.mem = some (r, m) →
    Act O (some ⟨o, r⟩) s { s with mem := m
                                   crit := Function.update s.crit t (some (c, O.watch h o, k r)) }
  | leave {s : State S σ Call Reply η Tid} {t : Tid} {c : Call} {h : η} {r : Reply} :
    s.crit t = some (c, h, .ret r) →
    Act O none s { s with crit := Function.update s.crit t none
                          log := s.log ++ [⟨t, c, r⟩] }

theorem Act.step [DecidableEq Tid] {O : Object S σ χ Call Reply η} {a : Option (Answered S)}
    {s s' : State S σ Call Reply η Tid} (act : Act O a s s') : s' = s ∨ Step O s s' := by
  cases act with
  | stay => exact Or.inl rfl
  | enter t c vacant => exact Or.inr (.enter t c vacant)
  | access inside done => exact Or.inr (.access inside done)
  | leave inside => exact Or.inr (.leave inside)

/-- What is noted of an access, after the calls of a log. -/
abbrev Notes (S : Signature) (Call Reply γ Tid : Type) :=
  List (Done Tid Call Reply) → γ → (o : S.Op) → S.Res o → γ

/-- The notes after a step. -/
def Notes.after (note : Notes S Call Reply γ Tid) (log : List (Done Tid Call Reply)) :
    Option (Answered S) → γ → γ
  | none, g => g
  | some a, g => note log g a.op a.res

/-- The recorder of the accesses that the events of a concrete system perform. -/
def taken (note : Notes S Call Reply γ Tid) (performed : τ → ε → Option (Answered S))
    (log : τ → List (Done Tid Call Reply)) (s : τ) (e : ε) (_ : τ) (g : γ) : γ :=
  note.after (log s) (performed s e) g

section Noted

variable {O : Object S σ χ Call Reply η} {note : Notes S Call Reply γ Tid}
  {R : σ → γ → List (Done Tid Call Reply) → Prop}

variable (O note R) in
/-- Every call run alone keeps the relation between the memory, the notes and the log. -/
def Keeps : Prop :=
  ∀ m g log t c, R m g log → (O.body c).wp (O.sem.annotate (note log)) (fun _ => True)
    (fun r x => R x.1 x.2 (log ++ [⟨t, c, r⟩])) (m, g)

variable (O note R) in
/-- What holds of every state of a recorded run. -/
structure Noted (s : State S σ Call Reply η Tid) (g : γ) : Prop where
  exclusive : ∀ t u, s.crit t ≠ none → s.crit u ≠ none → t = u
  idle : s.Vacant → R s.mem g s.log
  busy : ∀ t c h p, s.crit t = some (c, h, p) →
    p.wp (O.sem.annotate (note s.log)) (fun _ => True)
      (fun r x => R x.1 x.2 (s.log ++ [⟨t, c, r⟩])) (s.mem, g)

variable [DecidableEq Tid]

theorem Noted.act (keeps : Keeps O note R) {a : Option (Answered S)}
    {s s' : State S σ Call Reply η Tid} {g : γ} (noted : Noted O note R s g)
    (act : Act O a s s') : Noted O note R s' (note.after s.log a g) := by
  cases act with
  | stay => exact noted
  | enter t c vacant =>
    have others : ∀ u, u ≠ t → s.crit u = none := fun u _ => vacant u
    refine ⟨exclusive_update others, fun empty => (vacant_update empty).elim, ?_⟩
    intro u c' h p inside
    rcases eq_of_update others inside with ⟨rfl, same⟩
    cases same
    exact keeps s.mem g s.log u c (noted.idle vacant)
  | @access _ t c h o k x r m inside moved =>
    have others : ∀ u, u ≠ t → s.crit u = none := fun u ne =>
      others_outside noted.exclusive inside ne
    refine ⟨exclusive_update others, fun empty => (vacant_update empty).elim, ?_⟩
    intro u c' h' p inside'
    rcases eq_of_update others inside' with ⟨rfl, same⟩
    cases same
    exact (Prog.wp_annotate_op.mp (noted.busy _ _ _ _ inside)).2.2.2 x r m moved
  | @leave _ t c h r inside =>
    have others : ∀ u, u ≠ t → s.crit u = none := fun u ne =>
      others_outside noted.exclusive inside ne
    refine ⟨exclusive_update others, fun _ => (noted.busy _ _ _ _ inside).2, ?_⟩
    intro u c' h' p inside'
    cases (eq_of_update others inside').2

/-- **Notes along a concrete run.**  When every step of a system is an act of the guarded
object, with the access that its event performs, the relation between the memory, the
notes and the log holds in every recorded run. -/
theorem noted (keeps : Keeps O note R) {step : τ → ε → Option τ}
    {performed : τ → ε → Option (Answered S)} {f : τ → State S σ Call Reply η Tid} {s₀ s : τ}
    {g₀ g : γ}
    (reached : Reachable (recorded step (taken note performed fun s => (f s).log)) (s₀, g₀) (s, g))
    (acts : ∀ a b e, Reachable step s₀ a → step a e = some b →
      Act O (performed a e) (f a) (f b))
    (vacant : (f s₀).Vacant) (init : R (f s₀).mem g₀ (f s₀).log) : Noted O note R (f s) g := by
  apply reached.induction (motive := fun x => Noted O note R (f x.1) x.2)
  · refine ⟨fun t _ inside _ => (inside (vacant t)).elim, fun _ => init, ?_⟩
    intro t c h p inside
    rw [vacant t] at inside
    cases inside
  · intro a b e before known moved
    rcases recorded_eq_some.mp moved with ⟨stepped, entered⟩
    rw [entered]
    exact known.act keeps (acts a.1 b.1 e before.of_recorded stepped)

end Noted

end Guarded

end Conc
