import Os2Labs.Conc.Chain

/-!
# Exchanging neighbours

`Exchanges n l l'`: the list `l'` is `l` after `n` exchanges of two neighbours, none of
which involves the first element.  `Linked.exchange` is what three pointer writes do to a
chain to perform one exchange.
-/

namespace Conc

variable {α : Type*}

inductive Exchanges : Nat → List α → List α → Prop
  | refl (l : List α) : Exchanges 0 l l
  /-- The neighbours `b` and `c`, which stand behind some other element. -/
  | snoc {n : Nat} {l pre post : List α} {a b c : α}
      (before : Exchanges n l (pre ++ a :: b :: c :: post)) :
      Exchanges (n + 1) l (pre ++ a :: c :: b :: post)

variable {n : Nat} {l l' : List α}

theorem Exchanges.perm (exchanges : Exchanges n l l') : l'.Perm l := by
  induction exchanges with
  | refl => exact List.Perm.refl _
  | snoc before ih =>
    refine List.Perm.trans ?_ ih
    exact (List.Perm.append_left _ ((List.Perm.swap _ _ _).cons _))

/-- The first element stays. -/
theorem Exchanges.head (exchanges : Exchanges n l l') : l'.head? = l.head? := by
  induction exchanges with
  | refl => rfl
  | @snoc n l pre post a b c before ih =>
    rw [← ih]
    cases pre <;> rfl

section Chain

variable {next next' : α → Option α} {p : Option α} {a b c : α} {pre post : List α}

/-- The neighbours of a node of a chain. -/
theorem Linked.split (h : Linked next p l) (member : a ∈ l) (ab : next a = some b)
    (bc : next b = some c) : ∃ pre post, l = pre ++ a :: b :: c :: post := by
  rcases List.append_of_mem member with ⟨pre, rest, rfl⟩
  have after := Seg.next_of_append h
  rw [ab] at after
  cases rest with
  | nil => cases after
  | cons b' rest =>
    obtain ⟨same, after⟩ := after
    cases same
    rw [bc] at after
    cases rest with
    | nil => cases after
    | cons c' rest =>
      obtain ⟨same, -⟩ := after
      cases same
      exact ⟨pre, rest, rfl⟩

/-- The chain after `b` and `c` have changed places behind `a`. -/
theorem Linked.exchange (h : Linked next p (pre ++ a :: b :: c :: post))
    (others : ∀ x, x ≠ a → x ≠ b → x ≠ c → next' x = next x) (at_a : next' a = some c)
    (at_c : next' c = some b) (at_b : next' b = next c) :
    Linked next' p (pre ++ a :: c :: b :: post) := by
  have distinct := h.nodup
  rcases seg_append.mp h with ⟨r, before, start, -, -, rest⟩
  rw [List.nodup_append] at distinct
  obtain ⟨-, after, apart⟩ := distinct
  simp only [List.nodup_cons, List.mem_cons, not_or] at after
  refine seg_append.mpr ⟨r, before.congr fun x member => ?_, start, at_a, at_c, ?_⟩
  · exact others x (apart x member a (by simp)) (apart x member b (by simp))
      (apart x member c (by simp))
  · rw [at_b]
    refine Seg.congr (fun x member => others x ?_ ?_ ?_) rest
    · intro same
      subst same
      exact after.1.2.2 member
    · intro same
      subst same
      exact after.2.1.2 member
    · intro same
      subst same
      exact after.2.2.1 member

end Chain

end Conc
