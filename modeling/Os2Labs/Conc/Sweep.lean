import Os2Labs.Conc.Exchange

/-!
# Sweeping over a list

A cursor goes over a list that it rearranges on its way.  At the element `a` it either passes on to
the element behind, or it exchanges the two elements behind `a` and then passes on.
`Swept may l n pre rest`: starting with `l` it has left `pre` behind, has `rest` before it, and
has made `n` exchanges; it passes without an exchange only where `may` allows.

Every turn leaves one more element behind, so a sweep over `l` has as many turns as `l` has
elements.  A sweep that exchanges wherever three elements are left carries the second element to
the end (`Swept.carried`).
-/

namespace Conc

variable {α : Type*}

inductive Swept (may : List α → Prop) (l : List α) : Nat → List α → List α → Prop
  | start : Swept may l 0 [] l
  | pass {n : Nat} {pre rest : List α} {a : α} (before : Swept may l n pre (a :: rest))
      (allowed : may (a :: rest)) : Swept may l n (pre ++ [a]) rest
  | swap {n : Nat} {pre rest : List α} {a b c : α}
      (before : Swept may l n pre (a :: b :: c :: rest)) :
      Swept may l (n + 1) (pre ++ [a]) (c :: b :: rest)

section

variable {may : List α → Prop} {l pre rest : List α} {n : Nat}

/-- The order is the initial one after the exchanges. -/
theorem Swept.exchanges (swept : Swept may l n pre rest) : Exchanges n l (pre ++ rest) := by
  induction swept with
  | start => exact .refl l
  | pass before allowed ih =>
    rw [List.append_assoc]
    exact ih
  | swap before ih =>
    rw [List.append_assoc]
    exact ih.snoc

theorem Swept.length (swept : Swept may l n pre rest) : pre.length + rest.length = l.length := by
  rw [← swept.exchanges.perm.length_eq, List.length_append]

/-- A sweep without exchanges leaves the list alone. -/
theorem Swept.unchanged (swept : Swept may l n pre rest) (none_made : n = 0) :
    pre ++ rest = l := by
  have exchanges := swept.exchanges
  rw [none_made] at exchanges
  cases exchanges
  rfl

/-- Where the second element of the list is while it is carried to the end. -/
theorem Swept.carried {a b : α} {cs : List α} (must : ∀ r, may r → r.length ≤ 2)
    (swept : Swept may (a :: b :: cs) n pre rest) :
    (∃ x after, a :: cs = pre ++ x :: after ∧ rest = x :: b :: after ∧ n = pre.length) ∨
      pre = a :: cs ∧ rest = [b] ∧ n = cs.length ∨
      pre = a :: (cs ++ [b]) ∧ rest = [] ∧ n = cs.length := by
  induction swept with
  | start => exact Or.inl ⟨a, cs, rfl, rfl, rfl⟩
  | @pass n pre rest y before allowed ih =>
    have short := must _ allowed
    rcases ih with ⟨x, after, split, same, count⟩ | ⟨rfl, same, count⟩ | ⟨-, same, -⟩
    · cases same
      have last : after = [] := by
        apply List.eq_nil_of_length_eq_zero
        simp only [List.length_cons] at short
        omega
      subst last
      refine Or.inr (Or.inl ⟨split.symm, rfl, ?_⟩)
      have lengths := congrArg List.length split
      simp only [List.length_cons, List.length_append, List.length_nil] at lengths
      omega
    · cases same
      exact Or.inr (Or.inr ⟨rfl, rfl, count⟩)
    · cases same
  | @swap n pre rest y z w before ih =>
    rcases ih with ⟨x, after, split, same, count⟩ | ⟨-, same, -⟩ | ⟨-, same, -⟩
    · cases same
      refine Or.inl ⟨w, rest, ?_, rfl, ?_⟩
      · rw [split, List.append_assoc]
        rfl
      · rw [count, List.length_append]
        rfl
    · cases same
    · cases same

end

/-! ## Neighbours -/

/-- The pairs of neighbours of a list, in order. -/
def adjacent (l : List α) : List (α × α) := l.zip l.tail

theorem length_adjacent (l : List α) : (adjacent l).length = l.length - 1 := by
  rw [adjacent, List.length_zip, List.length_tail]
  exact Nat.min_eq_right (Nat.sub_le _ _)

/-- The pair behind the first elements. -/
theorem take_adjacent (pre post : List α) (a b : α) :
    (adjacent (pre ++ a :: b :: post)).take (pre.length + 1) =
      (adjacent (pre ++ a :: b :: post)).take pre.length ++ [(a, b)] := by
  have there : (adjacent (pre ++ a :: b :: post))[pre.length]? = some (a, b) := by
    unfold adjacent
    rw [List.getElem?_zip_eq_some, List.getElem?_tail]
    simp
  rw [List.take_add_one, there]
  rfl

end Conc
