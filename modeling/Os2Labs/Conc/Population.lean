import Mathlib.Algebra.BigOperators.Group.Finset.Basic
import Mathlib.Data.Fintype.Card

/-!
# Counting threads by where they are

`population P pc` is the number of threads whose place satisfies `P`.  When one
thread moves, `population_update` says how the number changes.
-/

namespace Conc

variable {Tid π : Type} [Fintype Tid] {P Q : π → Bool} {pc : Tid → π} {t : Tid}

/-- The number of threads at a place that satisfies `P`. -/
def population (P : π → Bool) (pc : Tid → π) : Nat :=
  (Finset.univ.filter fun t => P (pc t) = true).card

/-- Nobody is at such a place. -/
theorem population_zero (nobody : ∀ t, P (pc t) = false) : population P pc = 0 := by
  unfold population
  simp only [nobody, Bool.false_eq_true, Finset.filter_false, Finset.card_empty]

theorem population_pos (here : P (pc t) = true) : 0 < population P pc := by
  unfold population
  exact Finset.card_pos.mpr ⟨t, by simpa using here⟩

theorem exists_of_population_pos (some_there : 0 < population P pc) : ∃ t, P (pc t) = true := by
  unfold population at some_there
  rcases Finset.card_pos.mp some_there with ⟨t, member⟩
  exact ⟨t, (Finset.mem_filter.mp member).2⟩

/-- Two kinds of places that exclude each other and make up a third. -/
theorem population_add [DecidableEq Tid] {R : π → Bool} (either : ∀ p, R p = (P p || Q p))
    (apart : ∀ p, P p = true → Q p = false) :
    population R pc = population P pc + population Q pc := by
  unfold population
  rw [← Finset.card_union_of_disjoint]
  · congr 1
    ext t
    simp [either]
  · rw [Finset.disjoint_filter]
    intro t _ left right
    rw [apart _ left] at right
    cases right

/-- A smaller kind of places, without that of `t`. -/
theorem population_lt (fewer : ∀ p, P p = true → Q p = true) (out : P (pc t) = false)
    (here : Q (pc t) = true) : population P pc < population Q pc := by
  unfold population
  refine Finset.card_lt_card (Finset.ssubset_iff_of_subset ?_ |>.mpr ⟨t, ?_, ?_⟩)
  · intro u member
    simp only [Finset.mem_filter, Finset.mem_univ, true_and] at member ⊢
    exact fewer _ member
  · simpa using here
  · simp [out]

/-- One thread moves. -/
theorem population_update [DecidableEq Tid] (P : π → Bool) (pc : Tid → π) (t : Tid) (new : π) :
    population P (Function.update pc t new) + (P (pc t)).toNat =
      population P pc + (P new).toNat := by
  unfold population
  have split : ∀ f : Tid → π, (Finset.univ.filter fun u => P (f u) = true).card =
      ((Finset.univ.erase t).filter fun u => P (f u) = true).card + (P (f t)).toNat := by
    intro f
    rw [← Finset.insert_erase (Finset.mem_univ t), Finset.filter_insert]
    cases here : P (f t) with
    | false => simp
    | true => simp
  have others : (Finset.univ.erase t).filter (fun u => P (Function.update pc t new u) = true) =
      (Finset.univ.erase t).filter fun u => P (pc u) = true := by
    apply Finset.filter_congr
    intro u member
    rw [Function.update_of_ne (Finset.ne_of_mem_erase member)]
  rw [split pc, split (Function.update pc t new), others, Function.update_self]
  omega

/-- A sum over the threads when one of them moves. -/
theorem sum_move [DecidableEq Tid] {f g : Tid → Nat} (others : ∀ u, u ≠ t → g u = f u) :
    ∑ u, g u + f t = ∑ u, f u + g t := by
  have rest : ∑ u ∈ Finset.univ.erase t, g u = ∑ u ∈ Finset.univ.erase t, f u :=
    Finset.sum_congr rfl fun u member => others u (Finset.ne_of_mem_erase member)
  rw [← Finset.add_sum_erase _ g (Finset.mem_univ t),
    ← Finset.add_sum_erase _ f (Finset.mem_univ t), rest]
  omega

end Conc
