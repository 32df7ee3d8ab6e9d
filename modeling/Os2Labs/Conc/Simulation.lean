import Os2Labs.Conc.Bisimulation

/-!
# Weak simulation

A step that an observer does not see may be answered by no step at all, and one that is seen
by several steps of which only one is seen.  `Shows step see s seen s'` says that some run from
`s` to `s'` shows exactly `seen`, and `Simulates` that every step of one system is answered by
such a run of the other, as long as what is seen stays in `P`.

`Simulates.traces`: the traces of the one in `P` are traces of the other.
-/

namespace Conc

variable {σ τ ε ε' ω : Type*}

/-- Some run leads from the one state to the other and shows just that. -/
def Shows (step : σ → ε → Option σ) (see : σ → ε → σ → Option ω) (s : σ) (seen : List ω)
    (s' : σ) : Prop :=
  Reachable (recorded step (sight see)) (s, []) (s', seen)

section Shows

variable {step : σ → ε → Option σ} {see : σ → ε → σ → Option ω} {a b c : σ} {u v seen : List ω}

theorem Shows.refl (a : σ) : Shows step see a [] a := Reachable.refl (a, [])

/-- What has been seen before makes no difference. -/
theorem Shows.shift (shows_v : Shows step see b v c) :
    Reachable (recorded step (sight see)) (b, u) (c, u ++ v) := by
  have reached : Reachable (recorded step (sight see)) (b, []) (c, v) := shows_v
  apply reached.induction
    (motive := fun x => Reachable (recorded step (sight see)) (b, u) (x.1, u ++ x.2))
  · rw [List.append_nil]
    exact .refl _
  · intro x y e _ ih moved
    obtain ⟨s, seen⟩ := x
    obtain ⟨s', seen'⟩ := y
    obtain ⟨stepped, rfl⟩ := recorded_eq_some.mp moved
    refine ih.tail (e := e) (recorded_eq_some.mpr ⟨stepped, ?_⟩)
    rw [sight, sight, List.append_assoc]

theorem Shows.trans (left : Shows step see a u b) (right : Shows step see b v c) :
    Shows step see a (u ++ v) c :=
  Reachable.trans left right.shift

theorem Shows.one {e : ε} (moved : step a e = some b) :
    Shows step see a (see a e b).toList b :=
  Reachable.one (e := e) (recorded_eq_some.mpr ⟨moved, rfl⟩)

/-- **Induction along what is shown**, by the last step. -/
theorem Shows.induction {motive : σ → List ω → Prop} (init : motive a [])
    (keep : ∀ b seen e c, Shows step see a seen b → motive b seen → step b e = some c →
      motive c (seen ++ (see b e c).toList))
    (shows_seen : Shows step see a seen b) : motive b seen := by
  have reached : Reachable (recorded step (sight see)) (a, []) (b, seen) := shows_seen
  apply reached.induction (motive := fun x => motive x.1 x.2) init
  intro x y e before ih moved
  obtain ⟨s, seen⟩ := x
  obtain ⟨s', seen'⟩ := y
  obtain ⟨stepped, rfl⟩ := recorded_eq_some.mp moved
  exact keep s seen e s' before ih stepped

end Shows

/-- Each step of the one system is answered by a run of the other that shows the same, as long as
what has been seen is in `P`.  The relation may look at what has been seen. -/
structure Simulates (step : σ → ε → Option σ) (see : σ → ε → σ → Option ω)
    (step' : τ → ε' → Option τ) (see' : τ → ε' → τ → Option ω) (P : List ω → Prop)
    (R : σ → List ω → τ → Prop) : Prop where
  answer : ∀ a seen b e a₁, R a seen b → step a e = some a₁ →
    P (seen ++ (see a e a₁).toList) →
    ∃ b₁, Shows step' see' b (see a e a₁).toList b₁ ∧ R a₁ (seen ++ (see a e a₁).toList) b₁

section Simulates

variable {step : σ → ε → Option σ} {see : σ → ε → σ → Option ω} {step' : τ → ε' → Option τ}
  {see' : τ → ε' → τ → Option ω} {P : List ω → Prop} {R : σ → List ω → τ → Prop}

/-- **Simulation gives inclusion of traces.** -/
theorem Simulates.traces (simulates : Simulates step see step' see' P R)
    (prefixes : ∀ u v, P (u ++ v) → P u) {a : σ} {b : τ} (start : R a [] b) {seen : List ω}
    (trace : seen ∈ Traces step see a) (within : P seen) : seen ∈ Traces step' see' b := by
  obtain ⟨a', shown⟩ := trace
  have answered : P seen → ∃ b', Shows step' see' b seen b' ∧ R a' seen b' := by
    refine Shows.induction
      (motive := fun a' seen => P seen → ∃ b', Shows step' see' b seen b' ∧ R a' seen b')
      (fun _ => ⟨b, .refl b, start⟩) ?_ shown
    intro a₁ seen₁ e a₂ _ ih moved within
    obtain ⟨b₁, before, here⟩ := ih (prefixes _ _ within)
    obtain ⟨b₂, after, there⟩ := simulates.answer a₁ seen₁ b₁ e a₂ here moved within
    exact ⟨b₂, before.trans after, there⟩
  obtain ⟨b', shown', -⟩ := answered within
  exact ⟨b', shown'⟩

end Simulates

end Conc
