import Mathlib.Logic.Relation
import Mathlib.Data.List.Induction
import Mathlib.Tactic.Common

/-!
# Runs of a partial step function

A concurrent system is a partial step function `step : σ → ε → Option σ`: the
event names the thread that moves and whatever the environment decides for it
(an address, a woken sleeper), and `none` says that the event is not enabled.
This module is about the runs of such a function.

* `run` executes a schedule; `Reachable` is what some schedule reaches.
* `Reachable.invariant`: what holds initially and is kept by every step holds
  of every reachable state.
* `restrict` keeps only the steps that meet a condition, so that the runs of
  `restrict C step` are the runs of `step` whose steps all meet `C`.
* `recorded` lets a run write a record on the side; the record is no part of the
  system, so runs are the same with and without it.
* `Reachable.refines`: a state abstraction under which each step is a step or
  a stutter of an abstract system carries reachable states to reachable states.
-/

namespace Conc

variable {σ ε τ : Type*}

/-- Execute a schedule, event by event. -/
def run (step : σ → ε → Option σ) : σ → List ε → Option σ
  | s, [] => some s
  | s, e :: es => (step s e).bind fun s' => run step s' es

/-- The states that some schedule reaches. -/
def Reachable (step : σ → ε → Option σ) (s₀ s : σ) : Prop :=
  ∃ es, run step s₀ es = some s

section Run

variable {step : σ → ε → Option σ}

@[simp] theorem run_nil (s : σ) : run step s [] = some s := rfl

@[simp] theorem run_cons (s : σ) (e : ε) (es : List ε) :
    run step s (e :: es) = (step s e).bind fun s' => run step s' es := rfl

theorem run_append (s : σ) (es fs : List ε) :
    run step s (es ++ fs) = (run step s es).bind fun s' => run step s' fs := by
  induction es generalizing s with
  | nil => rfl
  | cons e es ih =>
    rw [List.cons_append, run_cons, run_cons, Option.bind_assoc]
    congr 1
    funext s'
    exact ih s'

/-- The last event of a schedule is one step from where the others lead. -/
theorem run_snoc {s s' : σ} {es : List ε} {e : ε} :
    run step s (es ++ [e]) = some s' ↔ ∃ a, run step s es = some a ∧ step a e = some s' := by
  rw [run_append, Option.bind_eq_some_iff]
  constructor
  · intro known
    rcases known with ⟨a, reached, last⟩
    rw [run_cons, Option.bind_eq_some_iff] at last
    obtain ⟨b, moved, stop⟩ := last
    cases stop
    exact ⟨a, reached, moved⟩
  · intro known
    rcases known with ⟨a, reached, moved⟩
    exact ⟨a, reached, by simp [moved]⟩

/-- The beginning of a run. -/
theorem run_prefix {s s' : σ} {es fs : List ε} (shorter : fs <+: es)
    (ran : run step s es = some s') : ∃ a, run step s fs = some a := by
  obtain ⟨gs, rfl⟩ := shorter
  rw [run_append, Option.bind_eq_some_iff] at ran
  obtain ⟨a, reached, -⟩ := ran
  exact ⟨a, reached⟩

theorem Reachable.refl (s : σ) : Reachable step s s := ⟨[], rfl⟩

theorem Reachable.trans {a b c : σ} (left : Reachable step a b) (right : Reachable step b c) :
    Reachable step a c := by
  obtain ⟨es, run₁⟩ := left
  obtain ⟨fs, run₂⟩ := right
  exact ⟨es ++ fs, by rw [run_append, run₁]; exact run₂⟩

theorem Reachable.one {a b : σ} {e : ε} (moved : step a e = some b) : Reachable step a b :=
  ⟨[e], by simp [moved]⟩

theorem Reachable.tail {a b c : σ} {e : ε} (reached : Reachable step a b)
    (moved : step b e = some c) : Reachable step a c :=
  reached.trans (.one moved)

theorem Reachable.head {a b c : σ} {e : ε} (moved : step a e = some b)
    (rest : Reachable step b c) : Reachable step a c :=
  (Reachable.one moved).trans rest

/-- **Induction along a run**, by its last step. -/
theorem Reachable.induction {s₀ : σ} {motive : σ → Prop} (init : motive s₀)
    (keep : ∀ a b e, Reachable step s₀ a → motive a → step a e = some b → motive b)
    {s : σ} (reached : Reachable step s₀ s) : motive s := by
  obtain ⟨es, ran⟩ := reached
  induction es using List.reverseRecOn generalizing s with
  | nil =>
    cases ran
    exact init
  | append_singleton es e ih =>
    rcases run_snoc.mp ran with ⟨a, before, moved⟩
    exact keep a s e ⟨es, before⟩ (ih before) moved

/-- **The invariant rule.** -/
theorem Reachable.invariant {s₀ : σ} {P : σ → Prop} (init : P s₀)
    (keep : ∀ a b e, P a → step a e = some b → P b)
    {s : σ} (reached : Reachable step s₀ s) : P s :=
  reached.induction init fun a b e _ => keep a b e

end Run

/-! ## Runs whose steps all meet a condition -/

/-- The steps of `step` whose state before and event meet `C`. -/
def restrict (C : σ → ε → Prop) [∀ s e, Decidable (C s e)] (step : σ → ε → Option σ)
    (s : σ) (e : ε) : Option σ :=
  if C s e then step s e else none

section Restrict

variable {step : σ → ε → Option σ} {C : σ → ε → Prop} [∀ s e, Decidable (C s e)]

theorem restrict_eq_some {s s' : σ} {e : ε} :
    restrict C step s e = some s' ↔ C s e ∧ step s e = some s' := by
  unfold restrict
  split
  · next holds => exact ⟨fun moved => ⟨holds, moved⟩, fun both => both.2⟩
  · next fails => exact ⟨nofun, fun both => (fails both.1).elim⟩

/-- A run whose steps all meet the condition. -/
theorem run_restrict {s₀ s : σ} {es : List ε} (ran : run step s₀ es = some s)
    (meets : ∀ fs e a, fs ++ [e] <+: es → run step s₀ fs = some a → C a e) :
    run (restrict C step) s₀ es = some s := by
  induction es using List.reverseRecOn generalizing s with
  | nil => exact ran
  | append_singleton es e ih =>
    rcases run_snoc.mp ran with ⟨a, before, moved⟩
    refine run_snoc.mpr ⟨a, ih before fun fs e' a' shorter => ?_, restrict_eq_some.mpr ⟨?_, moved⟩⟩
    · exact meets fs e' a' (shorter.trans (List.prefix_append es [e]))
    · exact meets es e a (List.prefix_refl _) before

/-- A run of the restricted steps is a run. -/
theorem Reachable.of_restrict {s₀ s : σ} (reached : Reachable (restrict C step) s₀ s) :
    Reachable step s₀ s :=
  reached.invariant (.refl s₀) fun _ _ _ before moved =>
    before.tail (restrict_eq_some.mp moved).2

end Restrict

/-! ## Records kept on the side -/

/-- The steps of `step`, each noted in a record: the state before, the event, the state after. -/
def recorded {γ : Type*} (step : σ → ε → Option σ) (note : σ → ε → σ → γ → γ) (x : σ × γ) (e : ε) :
    Option (σ × γ) :=
  (step x.1 e).map fun s' => (s', note x.1 e s' x.2)

section Recorded

variable {γ : Type*} {step step' : σ → ε → Option σ} {note : σ → ε → σ → γ → γ}

theorem recorded_eq_some {s s' : σ} {g g' : γ} {e : ε} :
    recorded step note (s, g) e = some (s', g') ↔ step s e = some s' ∧ g' = note s e s' g := by
  unfold recorded
  rw [Option.map_eq_some_iff]
  constructor
  · intro moved
    rcases moved with ⟨a, moved, same⟩
    cases same
    exact ⟨moved, rfl⟩
  · intro both
    rcases both with ⟨moved, rfl⟩
    exact ⟨s', moved, rfl⟩

/-- A recorded run is a run. -/
theorem run_of_recorded {x y : σ × γ} {es : List ε}
    (ran : run (recorded step note) x es = some y) : run step x.1 es = some y.1 := by
  induction es generalizing x with
  | nil =>
    cases ran
    rfl
  | cons e es ih =>
    rcases Option.bind_eq_some_iff.mp ran with ⟨z, moved, rest⟩
    rw [run_cons, (recorded_eq_some.mp moved).1]
    exact ih rest

theorem Reachable.of_recorded {x y : σ × γ} (reached : Reachable (recorded step note) x y) :
    Reachable step x.1 y.1 := by
  rcases reached with ⟨es, ran⟩
  exact ⟨es, run_of_recorded ran⟩

/-- Every run can be recorded. -/
theorem Reachable.recorded {s : σ} {x : σ × γ} (reached : Reachable step x.1 s) :
    ∃ g, Reachable (recorded step note) x (s, g) := by
  refine reached.induction (motive := fun s => ∃ g, Reachable (Conc.recorded step note) x (s, g))
    ⟨x.2, .refl x⟩ ?_
  intro a b e _ before moved
  rcases before with ⟨g, before⟩
  exact ⟨note a e b g, before.tail (recorded_eq_some.mpr ⟨moved, rfl⟩)⟩

/-- Runs of a system whose steps another one has too. -/
theorem Reachable.mono {a b : σ} (weaker : ∀ s e s', step s e = some s' → step' s e = some s')
    (reached : Reachable step a b) : Reachable step' a b :=
  reached.invariant (.refl a) fun _ _ _ before moved => before.tail (weaker _ _ _ moved)

end Recorded

/-! ## Abstractions -/

/-- When every step of the concrete system is a step of the abstract one or
leaves the abstract state alone, abstractions of reachable states are reachable. -/
theorem Reachable.refines {step : σ → ε → Option σ} {stepA : τ → τ → Prop} {f : σ → τ} {s₀ : σ}
    (simulates : ∀ a b e, Reachable step s₀ a → step a e = some b →
      f b = f a ∨ stepA (f a) (f b))
    {s : σ} (reached : Reachable step s₀ s) : Relation.ReflTransGen stepA (f s₀) (f s) := by
  apply reached.induction (motive := fun s => Relation.ReflTransGen stepA (f s₀) (f s)) .refl
  intro a b e before abstracted moved
  rcases simulates a b e before moved with same | movedA
  · rw [same]
    exact abstracted
  · exact abstracted.tail movedA

end Conc
