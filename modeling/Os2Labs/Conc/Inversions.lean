import Mathlib.Data.List.Nodup
import Mathlib.Order.Lattice
import Os2Labs.Conc.Exchange

/-!
# Inversions

An exchange of two different neighbours changes the number of inversions of a list by one, so that
after some exchanges the order shows whether their number was even
(`Exchanges.inversions`).
-/

namespace Conc

section Map

variable {α β : Type*} {n : Nat} {l l' : List α}

theorem Exchanges.map (f : α → β) (exchanges : Exchanges n l l') :
    Exchanges n (l.map f) (l'.map f) := by
  induction exchanges with
  | refl l => exact .refl _
  | snoc before ih =>
    simp only [List.map_append, List.map_cons] at ih ⊢
    exact ih.snoc

end Map

variable {α : Type*} [LinearOrder α]

/-- How many pairs of elements stand in the wrong order. -/
def inversions : List α → Nat
  | [] => 0
  | a :: l => l.countP (fun b => decide (b < a)) + inversions l

variable {n : Nat} {l l' pre post : List α} {b c : α}

theorem inversions_sorted (sorted : l.Pairwise (· ≤ ·)) : inversions l = 0 := by
  induction l with
  | nil => rfl
  | cons a l ih =>
    obtain ⟨least, sorted⟩ := List.pairwise_cons.mp sorted
    have none_less : l.countP (fun b => decide (b < a)) = 0 := by
      rw [List.countP_eq_zero]
      intro b member less
      exact absurd (of_decide_eq_true less) (not_lt.mpr (least b member))
    rw [inversions, none_less, ih sorted]

/-- Two neighbours change places. -/
theorem inversions_exchange (ne : b ≠ c) : inversions (pre ++ c :: b :: post) % 2 =
    (inversions (pre ++ b :: c :: post) + 1) % 2 := by
  induction pre with
  | nil =>
    simp only [List.nil_append, inversions, List.countP_cons, decide_eq_true_eq]
    rcases lt_or_gt_of_ne ne with less | less
    · rw [if_pos less, if_neg (not_lt.mpr (le_of_lt less))]
      omega
    · rw [if_pos less, if_neg (not_lt.mpr (le_of_lt less))]
      omega
  | cons a pre ih =>
    have same : (pre ++ c :: b :: post).countP (fun x => decide (x < a)) =
        (pre ++ b :: c :: post).countP (fun x => decide (x < a)) :=
      List.Perm.countP_eq _ ((List.Perm.swap b c post).append_left pre)
    simp only [List.cons_append, inversions]
    rw [same]
    omega

/-- **The order shows the parity of the exchanges.** -/
theorem Exchanges.inversions (exchanges : Exchanges n l l') (distinct : l.Nodup) :
    inversions l' % 2 = (inversions l + n) % 2 := by
  induction exchanges with
  | refl l => rfl
  | @snoc n l pre post a b c before ih =>
    have ne : b ≠ c := by
      have after := (List.nodup_append.mp (before.perm.nodup_iff.mpr distinct)).2.1
      simp only [List.nodup_cons, List.mem_cons, not_or] at after
      exact after.2.1.1
    have moved : Conc.inversions ((pre ++ [a]) ++ c :: b :: post) % 2 =
        (Conc.inversions ((pre ++ [a]) ++ b :: c :: post) + 1) % 2 := inversions_exchange ne
    simp only [List.append_assoc, List.singleton_append] at moved
    have before := ih distinct
    omega

end Conc
