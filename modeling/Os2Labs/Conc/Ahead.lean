import Os2Labs.Conc.Exchange

/-!
# How much of a chain is ahead

`ahead l p` is the number of elements of `l` from the one `p` points to on.  Going one element
forward in a chain takes one off (`Linked.ahead_next`), and an exchange of two neighbours adds one
for the element that comes to stand first (`ahead_exchange`).
-/

namespace Conc

variable {α : Type*} [DecidableEq α]

/-- How many elements of the list there are from a pointer on. -/
def ahead (l : List α) (p : Option α) : Nat := p.elim 0 fun a => l.length - l.idxOf a

variable {l pre post : List α} {p : Option α} {a b c : α}

@[simp] theorem ahead_none : ahead l none = 0 := rfl

theorem ahead_le : ahead l p ≤ l.length := by
  cases p with
  | none => exact Nat.zero_le _
  | some a => exact Nat.sub_le _ _

theorem ahead_pos (member : a ∈ l) : 0 < ahead l (some a) :=
  Nat.sub_pos_of_lt (List.idxOf_lt_length_of_mem member)

theorem ahead_append (absent : a ∉ pre) : ahead (pre ++ a :: post) (some a) = post.length + 1 := by
  show (pre ++ a :: post).length - (pre ++ a :: post).idxOf a = _
  rw [List.idxOf_append_of_notMem absent, List.idxOf_cons_self, List.length_append,
    List.length_cons]
  omega

/-- The next element of a chain. -/
theorem Linked.ahead_next {next : α → Option α} (h : Linked next p l) (member : a ∈ l) :
    ahead l (next a) + 1 = ahead l (some a) := by
  have distinct := h.nodup
  rcases List.append_of_mem member with ⟨pre, post, rfl⟩
  have rest := Seg.next_of_append h
  rw [List.nodup_append] at distinct
  obtain ⟨-, after, apart⟩ := distinct
  have out : a ∉ pre := fun inside => apart a inside a List.mem_cons_self rfl
  rw [ahead_append out]
  cases post with
  | nil =>
    rw [seg_nil.mp rest]
    rfl
  | cons b post =>
    have out' : b ∉ pre ++ [a] := by
      rw [List.mem_append, List.mem_singleton, not_or]
      constructor
      · exact fun inside => apart b inside b (by simp) rfl
      · intro same
        subst same
        exact (List.nodup_cons.mp after).1 List.mem_cons_self
    have split : pre ++ a :: b :: post = (pre ++ [a]) ++ b :: post := by simp
    rw [rest.1, split, ahead_append out', List.length_cons]

/-- **Two neighbours change places.** -/
theorem ahead_exchange (distinct : (pre ++ a :: b :: c :: post).Nodup) :
    ahead (pre ++ a :: b :: c :: post) (some a) = post.length + 3 ∧
      ahead (pre ++ a :: c :: b :: post) (some c) = post.length + 2 ∧
      ahead (pre ++ a :: b :: c :: post) (some c) = post.length + 1 ∧
      ahead (pre ++ a :: c :: b :: post) (some b) = post.length + 1 ∧
      ahead (pre ++ a :: b :: c :: post) (some b) = post.length + 2 ∧
      ∀ p, p ≠ some b → p ≠ some c →
        ahead (pre ++ a :: c :: b :: post) p = ahead (pre ++ a :: b :: c :: post) p := by
  rw [List.nodup_append] at distinct
  obtain ⟨-, after, apart⟩ := distinct
  have a_out : a ∉ pre := fun inside => apart a inside a (by simp) rfl
  have b_out : b ∉ pre := fun inside => apart b inside b (by simp) rfl
  have c_out : c ∉ pre := fun inside => apart c inside c (by simp) rfl
  simp only [List.nodup_cons, List.mem_cons, not_or] at after
  obtain ⟨⟨a_b, a_c, -⟩, ⟨b_c, -⟩, -⟩ := after
  have c_b : c ≠ b := fun same => b_c same.symm
  refine ⟨?_, ?_, ?_, ?_, ?_, fun p not_b not_c => ?_⟩
  · exact ahead_append a_out
  · rw [show pre ++ a :: c :: b :: post = (pre ++ [a]) ++ c :: b :: post by simp]
    exact ahead_append (by simp [c_out, Ne.symm a_c])
  · rw [show pre ++ a :: b :: c :: post = (pre ++ [a, b]) ++ c :: post by simp]
    exact ahead_append (by simp [c_out, Ne.symm a_c, c_b])
  · rw [show pre ++ a :: c :: b :: post = (pre ++ [a, c]) ++ b :: post by simp]
    exact ahead_append (by simp [b_out, Ne.symm a_b, b_c])
  · rw [show pre ++ a :: b :: c :: post = (pre ++ [a]) ++ b :: c :: post by simp]
    exact ahead_append (by simp [b_out, Ne.symm a_b])
  · cases p with
    | none => rfl
    | some x =>
      have x_b : b ≠ x := fun same => not_b (congrArg some same.symm)
      have x_c : c ≠ x := fun same => not_c (congrArg some same.symm)
      simp only [ahead, Option.elim_some, List.length_append, List.length_cons]
      by_cases inside : x ∈ pre
      · rw [List.idxOf_append_of_mem inside, List.idxOf_append_of_mem inside]
      · rw [List.idxOf_append_of_notMem inside, List.idxOf_append_of_notMem inside]
        by_cases first : a = x
        · rw [first, List.idxOf_cons_self, List.idxOf_cons_self]
        · rw [List.idxOf_cons_ne _ first, List.idxOf_cons_ne _ x_c, List.idxOf_cons_ne _ x_b,
            List.idxOf_cons_ne _ first, List.idxOf_cons_ne _ x_b, List.idxOf_cons_ne _ x_c]

end Conc
