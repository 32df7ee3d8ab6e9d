import Mathlib.Tactic.Common

/-!
# Sequential histories

A sequential object is a function `step : A → Call → Reply × A` on abstract
states.  `Legal step a log a'` says that the completed calls of `log`, made one
after the other from `a`, return exactly what the log records and leave `a'`.
-/

namespace Conc

/-- A completed call: who made it and what it returned. -/
structure Done (Tid Call Reply : Type) where
  thread : Tid
  call : Call
  reply : Reply
deriving DecidableEq

variable {A Tid Call Reply : Type}

/-- The replies of `log` are those of the object started in `a`, which ends in `a'`. -/
def Legal (step : A → Call → Reply × A) : A → List (Done Tid Call Reply) → A → Prop
  | a, [], a' => a = a'
  | a, d :: log, a' => (step a d.call).1 = d.reply ∧ Legal step (step a d.call).2 log a'

variable {step : A → Call → Reply × A} {a a' : A} {d : Done Tid Call Reply}
  {log log' : List (Done Tid Call Reply)}

@[simp] theorem legal_nil : Legal step a ([] : List (Done Tid Call Reply)) a' ↔ a = a' := Iff.rfl

@[simp] theorem legal_cons : Legal step a (d :: log) a' ↔
    (step a d.call).1 = d.reply ∧ Legal step (step a d.call).2 log a' := Iff.rfl

theorem legal_append : Legal step a (log ++ log') a' ↔
    ∃ b, Legal step a log b ∧ Legal step b log' a' := by
  induction log generalizing a with
  | nil => simp only [List.nil_append, legal_nil, exists_eq_left']
  | cons d log ih =>
    simp only [List.cons_append, legal_cons, ih]
    exact ⟨fun ⟨first, b, left, right⟩ => ⟨b, ⟨first, left⟩, right⟩,
      fun ⟨b, ⟨first, left⟩, right⟩ => ⟨first, b, left, right⟩⟩

theorem Legal.snoc (legal : Legal step a log a') (reply : (step a' d.call).1 = d.reply) :
    Legal step a (log ++ [d]) (step a' d.call).2 :=
  legal_append.mpr ⟨a', legal, reply, rfl⟩

/-- A legal history has one final state. -/
theorem Legal.unique {b : A} (left : Legal step a log a') (right : Legal step a log b) :
    a' = b := by
  induction log generalizing a with
  | nil => exact left.symm.trans right
  | cons d log ih => exact ih left.2 right.2

end Conc
