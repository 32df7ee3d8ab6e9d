import Mathlib.Logic.Relation
import Mathlib.Logic.Function.Basic
import Mathlib.Tactic.Common

/-!
# Handing a value over

One producer makes one value, any number of takers copy it, and the producer leaves.  A
producer that waits leaves only when somebody has copied the value.  What the takers can
rely on is `taken_value`; what a waiting producer can rely on is `left_taken`.
-/

namespace Conc.Handover

/-- What has been made, what each taker has copied, and whether the producer has left. -/
@[ext]
structure State (V J : Type*) where
  value : Option V
  taken : J → Option V
  left : Bool

variable {V J : Type*}

/-- Nothing made, nothing taken. -/
def State.start : State V J where
  value := none
  taken _ := none
  left := false

variable [DecidableEq J]

/-- One step; `waits` says that the producer waits for a taker. -/
inductive Step (waits : Prop) : State V J → State V J → Prop
  | produce {s : State V J} (v : V) (empty : s.value = none) :
      Step waits s { s with value := some v }
  | take {s : State V J} (j : J) {v : V} (made : s.value = some v) :
      Step waits s { s with taken := Function.update s.taken j (some v) }
  | leave {s : State V J} (seen : waits → ∃ j v, s.taken j = some v) :
      Step waits s { s with left := true }

variable {waits : Prop} {s s' : State V J}

/-- What holds along a run. -/
structure Sound (waits : Prop) (s : State V J) : Prop where
  taken : ∀ j v, s.taken j = some v → s.value = some v
  left : s.left = true → waits → ∃ j v, s.taken j = some v

omit [DecidableEq J] in
theorem Sound.start : Sound waits (State.start : State V J) where
  taken j v known := by cases known
  left known := by cases known

theorem Sound.step (sound : Sound waits s) (moved : Step waits s s') : Sound waits s' where
  taken j v known := by
    cases moved with
    | produce w empty =>
      have := sound.taken j v known
      simp [empty] at this
    | @take i w made =>
      dsimp only at known ⊢
      by_cases same : j = i
      · subst same
        rw [Function.update_self] at known
        cases known
        exact made
      · rw [Function.update_of_ne same] at known
        exact sound.taken j v known
    | leave seen => exact sound.taken j v known
  left ended waiting := by
    cases moved with
    | produce w empty => exact sound.left ended waiting
    | take j made => exact ⟨j, _, Function.update_self j _ _⟩
    | leave seen => exact seen waiting

theorem Sound.run (run : Relation.ReflTransGen (Step waits) State.start s) : Sound waits s := by
  induction run with
  | refl => exact Sound.start
  | tail _ moved sound => exact sound.step moved

/-- **Nobody has anything but the value**, and nobody has it before it is made. -/
theorem taken_value (run : Relation.ReflTransGen (Step waits) State.start s) {j : J} {v : V}
    (taken : s.taken j = some v) : s.value = some v :=
  (Sound.run run).taken j v taken

/-- **A waiting producer has left only after somebody has the value.** -/
theorem left_taken (run : Relation.ReflTransGen (Step waits) State.start s)
    (ended : s.left = true) (waiting : waits) : ∃ j, s.taken j = s.value ∧ s.value ≠ none := by
  rcases (Sound.run run).left ended waiting with ⟨j, v, taken⟩
  have made := taken_value run taken
  exact ⟨j, by rw [taken, made], by simp [made]⟩

end Conc.Handover
