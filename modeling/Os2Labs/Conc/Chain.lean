import Mathlib.Tactic.Common
import Mathlib.Data.List.Nodup

/-!
# Chains of pointers

Nodes of type `α` hold a pointer `next : α → Option α`; `none` is the null
pointer.  `Seg next p l q` says that following `next` from the pointer `p`
visits the nodes of `l` in order and arrives at the pointer `q`, and `Linked` is
the case of a chain that ends in null.
-/

namespace Conc

variable {α : Type*}

/-- Following `next` from `p` visits exactly `l` and arrives at `q`. -/
def Seg (next : α → Option α) : Option α → List α → Option α → Prop
  | p, [], q => p = q
  | p, a :: l, q => p = some a ∧ Seg next (next a) l q

/-- A null-terminated chain. -/
abbrev Linked (next : α → Option α) (p : Option α) (l : List α) : Prop := Seg next p l none

section

variable {next next' : α → Option α} {p q r : Option α} {a b : α} {l l₁ l₂ : List α}

@[simp] theorem seg_nil : Seg next p [] q ↔ p = q := Iff.rfl

@[simp] theorem seg_cons : Seg next p (a :: l) q ↔ p = some a ∧ Seg next (next a) l q := Iff.rfl

theorem seg_append :
    Seg next p (l₁ ++ l₂) q ↔ ∃ r, Seg next p l₁ r ∧ Seg next r l₂ q := by
  induction l₁ generalizing p with
  | nil => simp only [List.nil_append, seg_nil, exists_eq_left']
  | cons a l₁ ih =>
    simp only [List.cons_append, seg_cons, ih]
    exact ⟨fun ⟨head, r, left, right⟩ => ⟨r, ⟨head, left⟩, right⟩,
      fun ⟨r, ⟨head, left⟩, right⟩ => ⟨head, r, left, right⟩⟩

/-- A chain only reads the pointers of its own nodes. -/
theorem Seg.congr (agree : ∀ a ∈ l, next' a = next a) (h : Seg next p l q) :
    Seg next' p l q := by
  induction l generalizing p with
  | nil => exact h
  | cons a l ih =>
    refine ⟨h.1, ?_⟩
    rw [agree a List.mem_cons_self]
    exact ih (fun b member => agree b (List.mem_cons_of_mem a member)) h.2

/-- A chain starts at its first node. -/
theorem Linked.head? (h : Linked next p l) : l.head? = p := by
  cases l with
  | nil => exact h.symm
  | cons a l => exact h.1.symm

/-- A chain starts at one of its nodes, and goes on to one. -/
theorem Linked.start_mem (h : Linked next p l) : p.toList ⊆ l := by
  cases l with
  | nil =>
    rw [seg_nil.mp h]
    exact List.nil_subset _
  | cons a l =>
    rw [h.1]
    simp

theorem Linked.next_mem (h : Linked next p l) (member : a ∈ l) : (next a).toList ⊆ l := by
  rcases List.append_of_mem member with ⟨before, after, rfl⟩
  rcases seg_append.mp h with ⟨r, -, rest⟩
  apply List.Subset.trans (start_mem rest.2)
  exact List.subset_append_of_subset_right _ (List.subset_cons_self a after)

/-- The pointer a chain starts from and its length determine its nodes. -/
theorem Linked.unique (left : Linked next p l₁) (right : Linked next p l₂) : l₁ = l₂ := by
  induction l₁ generalizing p l₂ with
  | nil =>
    cases l₂ with
    | nil => rfl
    | cons b l₂ =>
      have none_eq : (none : Option α) = some b := left.symm.trans right.1
      cases none_eq
  | cons a l₁ ih =>
    cases l₂ with
    | nil =>
      have none_eq : (none : Option α) = some a := right.symm.trans left.1
      cases none_eq
    | cons b l₂ =>
      have same : some a = some b := left.1.symm.trans right.1
      cases same
      rw [ih left.2 right.2]

/-- No node of a chain points back to its start. -/
theorem Linked.next_ne_start (h : Linked next p l) (member : a ∈ l) : next a ≠ p := by
  intro same
  subst same
  rcases List.append_of_mem member with ⟨before, after, split⟩
  rw [split] at h
  rcases seg_append.mp h with ⟨r, -, rest⟩
  have lengths := congrArg List.length (Linked.unique h rest.2)
  simp only [List.length_append, List.length_cons] at lengths
  omega

/-- A chain that ends visits no node twice. -/
theorem Linked.nodup (h : Linked next p l) : l.Nodup := by
  induction l generalizing p with
  | nil => exact List.nodup_nil
  | cons a l ih =>
    refine List.nodup_cons.mpr ⟨fun member => ?_, ih h.2⟩
    -- a second visit to `a` would start the same chain again
    rcases List.append_of_mem member with ⟨before, after, rfl⟩
    rcases seg_append.mp h.2 with ⟨r, -, again⟩
    have same : a :: after = a :: (before ++ a :: after) :=
      Linked.unique (p := some a) ⟨rfl, again.2⟩ ⟨rfl, h.2⟩
    have lengths := congrArg List.length same
    simp only [List.length_cons, List.length_append] at lengths
    omega

/-- The node visited next is the one `next` names. -/
theorem Seg.next_of_append (h : Seg next p (l₁ ++ a :: l₂) q) :
    Seg next (next a) l₂ q := by
  rcases seg_append.mp h with ⟨r, -, rest⟩
  exact rest.2

/-- A node that is linked to the last one. -/
theorem Linked.snoc (h : Linked next p (l ++ [b])) (others : ∀ x, x ≠ b → next' x = next x)
    (link : next' b = some a) (last : next' a = none) : Linked next' p (l ++ [b] ++ [a]) := by
  have distinct := h.nodup
  rcases seg_append.mp h with ⟨r, before, at_b, -⟩
  rw [List.append_assoc]
  refine seg_append.mpr ⟨r, before.congr fun x member => ?_, at_b, link, last⟩
  apply others x
  intro same
  subst same
  exact (List.nodup_append.mp distinct).2.2 x member x (List.mem_singleton.mpr rfl) rfl

/-- From a node of a chain one gets to its end. -/
theorem Linked.of_mem (h : Linked next p l) (member : a ∈ l) :
    ∃ l', Linked next (some a) l' ∧ l'.length ≤ l.length := by
  rcases List.append_of_mem member with ⟨before, after, rfl⟩
  refine ⟨a :: after, ⟨rfl, Seg.next_of_append h⟩, ?_⟩
  simp

/-- No node of a chain points to itself. -/
theorem Linked.next_ne_self (h : Linked next p l) (member : a ∈ l) : next a ≠ some a := by
  intro loops
  rcases Linked.of_mem h member with ⟨l', from_a, -⟩
  refine Linked.next_ne_start from_a ?_ loops
  cases l' with
  | nil => cases from_a
  | cons b rest =>
    cases from_a.1
    exact List.mem_cons_self

/-- Two nodes of a chain with the same successor are the same. -/
theorem Linked.next_inj (h : Linked next p l) (left : a ∈ l) (right : b ∈ l)
    (same : next a = next b) : a = b := by
  rcases List.append_of_mem left with ⟨before, after, rfl⟩
  rcases List.append_of_mem right with ⟨before', after', split⟩
  have rest := Seg.next_of_append h
  rw [split] at h
  have rest' := Seg.next_of_append h
  rw [← same] at rest'
  cases Linked.unique rest rest'
  have heads := List.append_inj_right' split rfl
  exact (List.cons.inj heads).1

/-- When `next` is `next'` except that it leaves out single nodes of `D`, the chain of `next`
is the one of `next'` without them. -/
theorem Linked.skip {D : α → Prop} [DecidablePred D] (h : Linked next' p l)
    (start : ∀ a, p = some a → ¬ D a)
    (skips : ∀ a ∈ l, ¬ D a →
      (next a = next' a ∧ ∀ b, next' a = some b → ¬ D b) ∨
        ∃ c, next' a = some c ∧ D c ∧ next a = next' c ∧ ∀ b, next' c = some b → ¬ D b) :
    Linked next p (l.filter fun a => ¬ D a) := by
  induction len : l.length using Nat.strongRecOn generalizing p l with
  | ind n ih =>
    cases l with
    | nil => exact h
    | cons a l =>
      obtain ⟨rfl, rest⟩ := h
      have out := start a rfl
      have later : ∀ x ∈ l, ¬ D x → _ := fun x member => skips x (List.mem_cons_of_mem a member)
      rw [List.filter_cons_of_pos (by simpa using out)]
      refine ⟨rfl, ?_⟩
      rcases skips a List.mem_cons_self out with ⟨same, goes⟩ | ⟨c, to_c, inside, same, goes⟩
      · rw [same]
        have shorter : l.length < n := by
          simp only [List.length_cons] at len
          omega
        exact ih l.length shorter rest goes later rfl
      · cases l with
        | nil =>
          rw [seg_nil.mp rest] at to_c
          cases to_c
        | cons c' l =>
          obtain ⟨to_c', rest⟩ := rest
          cases to_c'.symm.trans to_c
          rw [List.filter_cons_of_neg (by simpa using inside), same]
          have shorter : l.length < n := by
            simp only [List.length_cons] at len
            omega
          refine ih l.length shorter rest goes (fun x member => ?_) rfl
          exact later x (List.mem_cons_of_mem c member)

end

end Conc
