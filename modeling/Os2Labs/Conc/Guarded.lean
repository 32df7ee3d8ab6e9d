import Mathlib.Logic.Relation
import Os2Labs.Conc.History
import Os2Labs.Conc.Program
import Os2Labs.Conc.Runs

/-!
# Objects guarded by mutual exclusion

An `Object` is a shared memory with one program for each call.  `Guarded.Step`
is the abstract machine in which a thread enters the object only when no other
is inside, performs the accesses of its call one by one, and leaves with the
reply, which is appended to a log.

`Guarded.sound`: when every call run alone takes `R m log` to `R m' (log ++
[its own entry])`, then in every reachable state at most one thread is inside,
`R` holds whenever none is, the log is one that `R` allows, and the thread inside
is somewhere in a run alone of its call.  A lock is verified against this machine by
mapping its states to `Guarded.State` (`Reachable.refines`).
-/

namespace Conc

/-- A shared object: a program for each call, over accesses to its memory, and
a monitor of the accesses of one call. -/
structure Object (S : Signature) (σ χ Call Reply η : Type) where
  sem : Semantics S σ χ
  body : Call → Prog S Reply
  watch : η → S.Op → η
  start : η

namespace Guarded

variable {S : Signature} {σ χ Call Reply η β Tid : Type}

/-- The memory, the thread inside with the rest of its call, and the log of the
calls that have left, in order. -/
structure State (S : Signature) (σ Call Reply η Tid : Type) where
  mem : σ
  crit : Tid → Option (Call × η × Prog S Reply)
  log : List (Done Tid Call Reply)

/-- Nobody is inside. -/
def State.Vacant (s : State S σ Call Reply η Tid) : Prop := ∀ t, s.crit t = none

inductive Step [DecidableEq Tid] (O : Object S σ χ Call Reply η) :
    State S σ Call Reply η Tid → State S σ Call Reply η Tid → Prop
  | enter {s : State S σ Call Reply η Tid} (t : Tid) (c : Call) : s.Vacant →
    Step O s { s with crit := Function.update s.crit t (some (c, O.start, O.body c)) }
  | access {s : State S σ Call Reply η Tid} {t : Tid} {c : Call} {h : η} {o : S.Op}
      {k : S.Res o → Prog S Reply} {x : χ} {r : S.Res o} {m : σ} :
    s.crit t = some (c, h, .op o k) → O.sem.exec o x s.mem = some (r, m) →
    Step O s { s with mem := m
                      crit := Function.update s.crit t (some (c, O.watch h o, k r)) }
  | leave {s : State S σ Call Reply η Tid} {t : Tid} {c : Call} {h : η} {r : Reply} :
    s.crit t = some (c, h, .ret r) →
    Step O s { s with crit := Function.update s.crit t none
                      log := s.log ++ [⟨t, c, r⟩] }

variable (O : Object S σ χ Call Reply η) (R : σ → List (Done Tid Call Reply) → Prop)
  (J : List (Done Tid Call Reply) → Call → σ × η → Prop)

/-- The sequential specification of the object: every call run alone keeps `R`
and logs its own reply, with `J` along the way. -/
def Spec : Prop :=
  ∀ m log t c, R m log → (O.body c).wp (O.sem.watch O.watch) (J log c)
    (fun r x => R x.1 (log ++ [⟨t, c, r⟩])) (m, O.start)

/-- What holds of every reachable state. -/
structure Inv (s : State S σ Call Reply η Tid) : Prop where
  exclusive : ∀ t u, s.crit t ≠ none → s.crit u ≠ none → t = u
  idle : s.Vacant → R s.mem s.log
  past : ∃ m, R m s.log
  busy : ∀ t c h p, s.crit t = some (c, h, p) →
    p.wp (O.sem.watch O.watch) (J s.log c) (fun r x => R x.1 (s.log ++ [⟨t, c, r⟩])) (s.mem, h)

variable {O R J}

/-- With one thread inside, everyone else is outside. -/
theorem others_outside {crit : Tid → Option β}
    (only : ∀ t u, crit t ≠ none → crit u ≠ none → t = u) {t u : Tid} {b : β}
    (inside : crit t = some b) (ne : u ≠ t) : crit u = none := by
  by_contra other
  exact ne (only u t other (by rw [inside]; exact Option.some_ne_none b))

theorem Inv.others {s : State S σ Call Reply η Tid} (inv : Inv O R J s) {t u : Tid}
    {b : Call × η × Prog S Reply} (inside : s.crit t = some b) (ne : u ≠ t) :
    s.crit u = none :=
  others_outside inv.exclusive inside ne

/-- The thread inside never faults. -/
theorem Inv.defined {s : State S σ Call Reply η Tid} (inv : Inv O R J s) {t : Tid} {c : Call}
    {h : η} {o : S.Op} {k : S.Res o → Prog S Reply} (inside : s.crit t = some (c, h, .op o k)) :
    ¬ O.sem.Faults o s.mem :=
  (Prog.wp_watch_op.mp (inv.busy t c h _ inside)).2.1

/-- The thread inside never gets stuck. -/
theorem Inv.enabled {s : State S σ Call Reply η Tid} (inv : Inv O R J s) {t : Tid} {c : Call}
    {h : η} {o : S.Op} {k : S.Res o → Prog S Reply} (inside : s.crit t = some (c, h, .op o k)) :
    ∃ x r m, O.sem.exec o x s.mem = some (r, m) :=
  (Prog.wp_watch_op.mp (inv.busy t c h _ inside)).2.2.1

variable [DecidableEq Tid]

/-- When everyone but `t` is outside, the thread inside is `t`. -/
theorem eq_of_update {crit : Tid → Option β} {t u : Tid} {b : Option β} {x : β}
    (others : ∀ v, v ≠ t → crit v = none) (inside : Function.update crit t b u = some x) :
    u = t ∧ b = some x := by
  by_cases same : u = t
  · subst same
    rw [Function.update_self] at inside
    exact ⟨rfl, inside⟩
  · rw [Function.update_of_ne same, others u same] at inside
    cases inside

theorem exclusive_update {crit : Tid → Option β} {t : Tid} {b : Option β}
    (others : ∀ v, v ≠ t → crit v = none) (u v : Tid)
    (left : Function.update crit t b u ≠ none) (right : Function.update crit t b v ≠ none) :
    u = v := by
  rcases Option.ne_none_iff_exists'.mp left with ⟨x, here⟩
  rcases Option.ne_none_iff_exists'.mp right with ⟨y, there⟩
  rw [(eq_of_update others here).1, (eq_of_update others there).1]

theorem vacant_update {crit : Tid → Option β} {t : Tid} {b : β}
    (empty : ∀ v, Function.update crit t (some b) v = none) : False := by
  have full := empty t
  rw [Function.update_self] at full
  cases full

theorem Inv.step (spec : Spec O R J) {s s' : State S σ Call Reply η Tid} (inv : Inv O R J s)
    (moved : Step O s s') : Inv O R J s' := by
  cases moved with
  | enter t c vacant =>
    have others : ∀ u, u ≠ t → s.crit u = none := fun u _ => vacant u
    refine ⟨exclusive_update others, fun empty => (vacant_update empty).elim, inv.past, ?_⟩
    intro u c' h p inside
    rcases eq_of_update others inside with ⟨rfl, same⟩
    cases same
    exact spec s.mem s.log u c (inv.idle vacant)
  | @access t c h o k x r m inside moved =>
    have others : ∀ u, u ≠ t → s.crit u = none := fun u ne => inv.others inside ne
    refine ⟨exclusive_update others, fun empty => (vacant_update empty).elim, inv.past, ?_⟩
    intro u c' h' p inside'
    rcases eq_of_update others inside' with ⟨rfl, same⟩
    cases same
    exact (Prog.wp_watch_op.mp (inv.busy _ _ _ _ inside)).2.2.2 x r m moved
  | @leave t c h r inside =>
    have others : ∀ u, u ≠ t → s.crit u = none := fun u ne => inv.others inside ne
    have kept := (inv.busy _ _ _ _ inside).2
    refine ⟨exclusive_update others, fun _ => kept, ⟨_, kept⟩, ?_⟩
    intro u c' h' p inside'
    cases (eq_of_update others inside').2

/-- **Mutual exclusion makes the calls atomic.**  From a vacant state with `R`,
every reachable state has at most one thread inside, `R` whenever nobody is, and
the thread inside runs its call alone. -/
theorem sound (spec : Spec O R J) {s₀ s : State S σ Call Reply η Tid} (vacant : s₀.Vacant)
    (init : R s₀.mem s₀.log) (reached : Relation.ReflTransGen (Step O) s₀ s) : Inv O R J s := by
  induction reached with
  | refl =>
    refine ⟨fun t _ ht _ => (ht (vacant t)).elim, fun _ => init, ⟨_, init⟩,
      fun t c h p inside => ?_⟩
    simp only [vacant t, reduceCtorEq] at inside
  | tail _ moved ih => exact ih.step spec moved

end Guarded

end Conc
