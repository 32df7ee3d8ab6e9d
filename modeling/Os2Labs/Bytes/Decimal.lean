import Mathlib.Algebra.Ring.Nat
import Mathlib.Data.List.Basic
import Os2Labs.Bytes.CString

/-!
# Decimal numbers

What `%d` prints, as bytes.  `value_decimal` reads the number back, so no two numbers print
alike, and `length_decimal_le` says how many digits there are.
-/

namespace Bytes

/-- The decimal digits of a number. -/
def decimal (n : Nat) : List UInt8 := ascii n.repr

/-- What `sprintf` prints for `%d`. -/
def formatInt : Int → List UInt8
  | .ofNat n => decimal n
  | .negSucc n => 45 :: decimal (n + 1)

/-- The number that some decimal digits stand for. -/
def value (digits : List UInt8) : Nat :=
  digits.foldl (fun before c => 10 * before + (c.toNat - 48)) 0

theorem decimal_eq (n : Nat) :
    decimal n = (Nat.toDigits 10 n).map fun c => c.toNat.toUInt8 := by
  unfold decimal ascii
  rw [Nat.toList_repr]

/-- A digit as a byte. -/
theorem toNat_digit {n : Nat} {c : Char} (member : c ∈ Nat.toDigits 10 n) :
    c.toNat.toUInt8.toNat = c.toNat ∧ 48 ≤ c.toNat := by
  have digit := Nat.isDigit_of_mem_toDigits (by decide) (by decide) member
  simp only [Char.isDigit, Bool.and_eq_true, decide_eq_true_eq] at digit
  have least : 48 ≤ c.toNat := digit.1
  have greatest : c.toNat ≤ 57 := digit.2
  refine ⟨?_, least⟩
  rw [Nat.toUInt8_eq, UInt8.toNat_ofNat']
  exact Nat.mod_eq_of_lt (by omega)

/-- **The digits of a number stand for it.** -/
theorem value_decimal (n : Nat) : value (decimal n) = n := by
  unfold value
  rw [decimal_eq, List.foldl_map]
  have digits := Nat.ofDigitChars_ten_toDigits (n := n)
  rw [Nat.ofDigitChars_eq_foldl] at digits
  refine Eq.trans (List.foldl_ext _ _ _ ?_) digits
  intro before c member
  rw [(toNat_digit member).1]
  rfl

example : decimal 907 = [57, 48, 55] := by decide

/-- No two numbers print alike. -/
theorem decimal_injective : Function.Injective decimal :=
  Function.LeftInverse.injective value_decimal

theorem length_decimal_le {n k : Nat} (positive : 0 < k) :
    (decimal n).length ≤ k ↔ n < 10 ^ k := by
  rw [decimal_eq, List.length_map]
  exact Nat.length_toDigits_le_iff (by decide) positive

/-- A number prints as a string. -/
theorem noNul_decimal (n : Nat) : 0 ∉ decimal n := by
  rw [decimal_eq]
  intro nul
  rcases List.mem_map.mp nul with ⟨c, member, zero⟩
  rcases toNat_digit member with ⟨same, least⟩
  rw [zero, UInt8.toNat_zero] at same
  omega

end Bytes
