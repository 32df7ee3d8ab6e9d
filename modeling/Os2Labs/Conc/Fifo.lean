import Os2Labs.Conc.History

/-!
# Bounded FIFO queues

The abstract queue of capacity `cap`: `add` appends unless `cap` elements are
waiting, `get` takes the oldest.  A reply carries the flag returned and the
value handed out, if any.

`Fifo.conservation`: along a legal history, what was inserted is what was
delivered followed by what still waits; so values come out in the order they
went in.
-/

namespace Conc.Fifo

variable {α Tid : Type}

inductive Call (α : Type) where
  | add (v : α)
  | get
deriving DecidableEq

/-- The flag returned, and the value stored for the caller, if any. -/
structure Reply (α : Type) where
  ret : Int
  stored : Option α
deriving DecidableEq

def Call.isAdd : Call α → Bool
  | .add _ => true
  | .get => false

/-- One call on the queue holding `l`. -/
def step (cap : Nat) : List α → Call α → Reply α × List α
  | l, .add v => if l.length = cap then (⟨0, none⟩, l) else (⟨1, none⟩, l ++ [v])
  | [], .get => (⟨0, none⟩, [])
  | v :: l, .get => (⟨1, some v⟩, l)

variable {cap : Nat} {l l' : List α} {v : α} {log : List (Done Tid (Call α) (Reply α))}

theorem step_add_full (full : l.length = cap) : step cap l (.add v) = (⟨0, none⟩, l) :=
  if_pos full

theorem step_add_room (room : l.length ≠ cap) : step cap l (.add v) = (⟨1, none⟩, l ++ [v]) :=
  if_neg room

@[simp] theorem step_get_nil : step cap ([] : List α) .get = (⟨0, none⟩, []) := rfl

@[simp] theorem step_get_cons : step cap (v :: l) .get = (⟨1, some v⟩, l) := rfl

/-- A call is refused, inserts, or delivers. -/
theorem step_cases (cap : Nat) (l : List α) (c : Call α) :
    step cap l c = (⟨0, none⟩, l) ∨
    (∃ v, c = .add v ∧ step cap l c = (⟨1, none⟩, l ++ [v])) ∨
    (∃ v l', c = .get ∧ l = v :: l' ∧ step cap l c = (⟨1, some v⟩, l')) := by
  cases c with
  | add v =>
    by_cases full : l.length = cap
    · exact Or.inl (step_add_full full)
    · exact Or.inr (Or.inl ⟨v, rfl, step_add_room full⟩)
  | get =>
    cases l with
    | nil => exact Or.inl rfl
    | cons v l => exact Or.inr (Or.inr ⟨v, l, rfl, rfl, rfl⟩)

/-- The values of the adds that succeeded, in order. -/
def inserted (log : List (Done Tid (Call α) (Reply α))) : List α :=
  log.filterMap fun d => match d.call with
    | .add v => if d.reply.ret = 1 then some v else none
    | .get => none

/-- The values handed out, in order. -/
def delivered (log : List (Done Tid (Call α) (Reply α))) : List α :=
  log.filterMap fun d => d.reply.stored

section Snoc

variable (log : List (Done Tid (Call α) (Reply α))) (t : Tid) (c : Call α)

@[simp] theorem inserted_refused (x : Option α) :
    inserted (log ++ [⟨t, c, ⟨0, x⟩⟩]) = inserted log := by
  unfold inserted
  rw [List.filterMap_append]
  cases c <;> simp

@[simp] theorem inserted_added (v : α) (x : Option α) :
    inserted (log ++ [⟨t, .add v, ⟨1, x⟩⟩]) = inserted log ++ [v] := by
  unfold inserted
  rw [List.filterMap_append]
  simp

@[simp] theorem inserted_get (r : Reply α) :
    inserted (log ++ [⟨t, .get, r⟩]) = inserted log := by
  unfold inserted
  rw [List.filterMap_append]
  simp

@[simp] theorem delivered_nothing (i : Int) :
    delivered (log ++ [⟨t, c, ⟨i, none⟩⟩]) = delivered log := by
  unfold delivered
  rw [List.filterMap_append]
  simp

@[simp] theorem delivered_value (i : Int) (v : α) :
    delivered (log ++ [⟨t, c, ⟨i, some v⟩⟩]) = delivered log ++ [v] := by
  unfold delivered
  rw [List.filterMap_append]
  simp

end Snoc

/-- What one call inserts and delivers. -/
theorem step_conserves (c : Call α) (t : Tid) :
    l ++ inserted [⟨t, c, (step cap l c).1⟩] =
      delivered [⟨t, c, (step cap l c).1⟩] ++ (step cap l c).2 := by
  cases c with
  | add v =>
    by_cases full : l.length = cap
    · simp [step_add_full full, inserted, delivered]
    · simp [step_add_room full, inserted, delivered]
  | get =>
    cases l with
    | nil => rfl
    | cons v l => simp [inserted, delivered]

/-- **Nothing is lost, duplicated or reordered.** -/
theorem conservation (legal : Legal (step cap) l log l') :
    l ++ inserted log = delivered log ++ l' := by
  induction log generalizing l with
  | nil =>
    cases legal
    simp [inserted, delivered]
  | cons d log ih =>
    obtain ⟨t, c, r⟩ := d
    obtain ⟨reply, rest⟩ := legal
    dsimp only at reply rest
    subst reply
    have head : l ++ inserted [⟨t, c, (step cap l c).1⟩] =
        delivered [⟨t, c, (step cap l c).1⟩] ++ (step cap l c).2 := step_conserves c t
    calc l ++ inserted (⟨t, c, (step cap l c).1⟩ :: log)
        = l ++ inserted [⟨t, c, (step cap l c).1⟩] ++ inserted log := by
          simp only [inserted, List.append_assoc, ← List.filterMap_append, List.singleton_append]
      _ = delivered [⟨t, c, (step cap l c).1⟩] ++ ((step cap l c).2 ++ inserted log) := by
          rw [head, List.append_assoc]
      _ = delivered (⟨t, c, (step cap l c).1⟩ :: log) ++ l' := by
          rw [ih rest]
          simp only [delivered, ← List.append_assoc, ← List.filterMap_append, List.singleton_append]

end Conc.Fifo
