import Mathlib.Tactic.Common

/-!
# Programs of atomic accesses

A straight-line or branching piece of code is a tree of atomic accesses
(`Prog`): a node performs one access and continues with its answer, a leaf
returns.  A `Semantics` says what each access does to a memory, under a choice
of the environment, and when it is undefined behaviour (`Faults`).

* `Prog.wp M J Q p m`: run alone from `m`, the program `p` never faults, never
  gets stuck, meets `J` all along and `Q` when it returns.  Programs are finite
  trees, so this is total correctness.
* `Prog.wp_bind`, `Prog.wp_ite`, `Prog.wp_mono` are the rules of sequencing,
  branching and consequence.
* `Prog.loop` is a loop cut off after so many turns, and `Prog.wp_loop` its
  variant rule: it is not cut off when the variant is smaller than that.
* `Points` names the points of a program, so that what holds where it stands can be said by
  cases on them.
* `Semantics.annotate` notes every access and its answer on the side, for
  statements about what a program has done so far; `Prog.wp_annotate_map`
  forgets or translates the notes.  `Semantics.watch` is the case of a monitor that
  does not look at the answers.
-/

namespace Conc

/-- The atomic operations of some code, and the type of the answer to each. -/
structure Signature where
  Op : Type
  Res : Op → Type

/-- Code as a tree of atomic accesses. -/
inductive Prog (S : Signature) (α : Type) : Type where
  | ret (a : α) : Prog S α
  | op (o : S.Op) (k : S.Res o → Prog S α) : Prog S α

namespace Prog

variable {S : Signature} {α β γ : Type}

/-- Sequencing. -/
def bind : Prog S α → (α → Prog S β) → Prog S β
  | .ret a, f => f a
  | .op o k, f => .op o fun r => (k r).bind f

instance : Monad (Prog S) where
  pure := .ret
  bind := Prog.bind

/-- The program of one access. -/
def access (o : S.Op) : Prog S (S.Res o) := .op o .ret

/-- At most `n` turns of a loop.  Its body says whether to go round again or what to
return; a loop that has not returned by then is `none`. -/
def loop (body : β → Prog S (β ⊕ α)) : Nat → β → Prog S (Option α)
  | 0, _ => .ret none
  | n + 1, b => (body b).bind fun next =>
      match next with
      | .inl b => loop body n b
      | .inr a => .ret (some a)

@[simp] theorem pure_eq (a : α) : (pure a : Prog S α) = .ret a := rfl

@[simp] theorem ret_bind (a : α) (f : α → Prog S β) : (Prog.ret a >>= f) = f a := rfl

@[simp] theorem op_bind (o : S.Op) (k : S.Res o → Prog S α) (f : α → Prog S β) :
    (Prog.op o k >>= f) = .op o fun r => k r >>= f := rfl

instance : LawfulMonad (Prog S) :=
  LawfulMonad.mk' _
    (fun p => by
      induction p with
      | ret a => rfl
      | op o k ih => exact congrArg (Prog.op o) (funext ih))
    (fun _ _ => rfl)
    (fun p f g => by
      induction p with
      | ret a => rfl
      | op o k ih => exact congrArg (Prog.op o) (funext ih))

end Prog

/-- What the accesses do to a memory of type `σ`.  The choice is whatever the
environment may decide; `exec` is `none` where the access is not possible under
that choice, and `Faults` marks undefined behaviour. -/
structure Semantics (S : Signature) (σ χ : Type) where
  exec : (o : S.Op) → χ → σ → Option (S.Res o × σ)
  Faults : S.Op → σ → Prop

namespace Prog

variable {S : Signature} {σ χ η θ α β : Type}

/-- `p` run alone from the memory: no fault and no stuck access, `J` at every
point, `Q` at the end. -/
def wp (M : Semantics S σ χ) (J : σ → Prop) (Q : α → σ → Prop) : Prog S α → σ → Prop
  | .ret a, m => J m ∧ Q a m
  | .op o k, m => J m ∧ ¬ M.Faults o m ∧ (∃ c r m', M.exec o c m = some (r, m')) ∧
      ∀ c r m', M.exec o c m = some (r, m') → (k r).wp M J Q m'

section Rules

variable {M : Semantics S σ χ} {J J' : σ → Prop}

theorem wp_ret {Q : α → σ → Prop} {a : α} {m : σ} :
    (ret a).wp M J Q m ↔ J m ∧ Q a m := Iff.rfl

theorem wp_op {Q : α → σ → Prop} {o : S.Op} {k : S.Res o → Prog S α} {m : σ} :
    (op o k).wp M J Q m ↔ J m ∧ ¬ M.Faults o m ∧ (∃ c r m', M.exec o c m = some (r, m')) ∧
      ∀ c r m', M.exec o c m = some (r, m') → (k r).wp M J Q m' := Iff.rfl

/-- The assertion carried along holds where the program stands. -/
theorem wp_always {Q : α → σ → Prop} {p : Prog S α} {m : σ} (h : p.wp M J Q m) : J m := by
  cases p with
  | ret a => exact h.1
  | op o k => exact h.1

/-- The rule of branching. -/
theorem wp_ite {Q : α → σ → Prop} {c : Prop} [Decidable c] {p q : Prog S α} {m : σ} :
    (if c then p else q).wp M J Q m ↔ (c → p.wp M J Q m) ∧ (¬ c → q.wp M J Q m) := by
  by_cases holds : c
  · simp only [holds, ↓reduceIte, true_imp_iff, not_true_eq_false, false_imp_iff, and_true]
  · simp only [holds, ↓reduceIte, false_imp_iff, not_false_eq_true, true_imp_iff, true_and]

/-- The rule of sequencing. -/
theorem wp_bind {R : α → σ → Prop} {Q : β → σ → Prop} {p : Prog S α} {f : α → Prog S β} {m : σ}
    (first : p.wp M J R m) (rest : ∀ a m, J m → R a m → (f a).wp M J Q m) :
    (p >>= f).wp M J Q m := by
  induction p generalizing m with
  | ret a => exact rest a m first.1 first.2
  | op o k ih =>
    obtain ⟨stays, defined, enabled, later⟩ := first
    exact ⟨stays, defined, enabled, fun c r m' moved => ih r (later c r m' moved)⟩

/-- The rule of consequence. -/
theorem wp_mono {Q Q' : α → σ → Prop} (weaker : ∀ m, J m → J' m)
    (implies : ∀ a m, Q a m → Q' a m) {p : Prog S α} {m : σ} (h : p.wp M J Q m) :
    p.wp M J' Q' m := by
  induction p generalizing m with
  | ret a => exact ⟨weaker m h.1, implies a m h.2⟩
  | op o k ih =>
    obtain ⟨stays, defined, enabled, rest⟩ := h
    exact ⟨weaker m stays, defined, enabled, fun c r m' moved => ih r (rest c r m' moved)⟩

end Rules

section Loop

variable {M : Semantics S σ χ} {J : σ → Prop}

/-- **The variant rule.**  When every turn from `I (v + 1)` either returns or goes round
again in `I v`, and the turn from `I 0` returns, the loop returns before turn `v + 1`
is over. -/
theorem wp_loop {Q : α → σ → Prop} {body : β → Prog S (β ⊕ α)} (I : Nat → β → σ → Prop)
    (along : ∀ v b m, I v b m → J m)
    (turn : ∀ v b m, I v b m → (body b).wp M J (fun next m' =>
      (∀ b', next = .inl b' → ∃ w, v = w + 1 ∧ I w b' m') ∧ ∀ a, next = .inr a → Q a m') m)
    {v : Nat} {b : β} {m : σ} (start : I v b m) (n : Nat) :
    (loop body n b).wp M J
      (fun done m' => (v < n → done ≠ none) ∧ ∀ a, done = some a → Q a m') m := by
  induction n generalizing v b m with
  | zero => exact ⟨along v b m start, nofun, nofun⟩
  | succ n ih =>
    apply wp_bind (turn v b m start)
    intro next m' stays here
    cases next with
    | inl b' =>
      rcases here.1 b' rfl with ⟨w, rfl, again⟩
      refine wp_mono (fun _ => id) ?_ (ih again)
      intro done m'' later
      exact ⟨fun short => later.1 (Nat.lt_of_succ_lt_succ short), later.2⟩
    | inr a =>
      refine ⟨stays, fun _ => Option.some_ne_none a, ?_⟩
      intro a' same
      cases same
      exact here.2 a rfl

end Loop

end Prog

/-! ## Points of a program -/

/-- What a program does at a point: it returns, or it makes an access and goes on to a point
that depends on the answer. -/
inductive Head (S : Signature) (α π : Type) : Type where
  | ret (a : α) : Head S α π
  | op (o : S.Op) (k : S.Res o → π) : Head S α π

def Head.prog {S : Signature} {α π : Type} (code : π → Prog S α) : Head S α π → Prog S α
  | .ret a => .ret a
  | .op o k => .op o fun r => code (k r)

/-- The access made there. -/
def Head.access {S : Signature} {α π : Type} : Head S α π → Option S.Op
  | .ret _ => none
  | .op o _ => some o

/-- The points `π` of a program, with the code that is left to execute there. -/
structure Points (S : Signature) (α π : Type) where
  code : π → Prog S α
  head : π → Head S α π
  unfolds : ∀ p, code p = (head p).prog code

namespace Points

variable {S : Signature} {α π : Type} (P : Points S α π) {p : π}

theorem of_ret {a : α} (here : P.code p = .ret a) : P.head p = .ret a := by
  rw [P.unfolds] at here
  cases head : P.head p with
  | ret b =>
    rw [head] at here
    cases here
    rfl
  | op o k =>
    rw [head] at here
    cases here

theorem of_op {o : S.Op} {k : S.Res o → Prog S α} (here : P.code p = .op o k) :
    ∃ k', P.head p = .op o k' ∧ k = fun r => P.code (k' r) := by
  rw [P.unfolds] at here
  cases head : P.head p with
  | ret b =>
    rw [head] at here
    cases here
  | op o' k' =>
    rw [head] at here
    cases here
    exact ⟨k', rfl, rfl⟩

end Points

/-! ## Monitors -/

/-- The semantics that also notes every access and its answer. -/
def Semantics.annotate {S : Signature} {σ χ η : Type} (M : Semantics S σ χ)
    (note : η → (o : S.Op) → S.Res o → η) : Semantics S (σ × η) χ where
  exec o c m := (M.exec o c m.1).map fun out => (out.1, out.2, note m.2 o out.1)
  Faults o m := M.Faults o m.1

/-- The semantics that also runs a monitor over the accesses performed. -/
def Semantics.watch {S : Signature} {σ χ η : Type} (M : Semantics S σ χ) (w : η → S.Op → η) :
    Semantics S (σ × η) χ where
  exec o c m := (M.exec o c m.1).map fun out => (out.1, out.2, w m.2 o)
  Faults o m := M.Faults o m.1

namespace Prog

variable {S : Signature} {σ χ η θ α : Type} {M : Semantics S σ χ}

theorem annotate_exec {note : η → (o : S.Op) → S.Res o → η} {o : S.Op} {c : χ} {m m' : σ}
    {h h' : η} {r : S.Res o} :
    (M.annotate note).exec o c (m, h) = some (r, (m', h')) ↔
      M.exec o c m = some (r, m') ∧ h' = note h o r := by
  simp only [Semantics.annotate, Option.map_eq_some_iff, Prod.mk.injEq, Prod.exists]
  constructor
  · intro moved
    rcases moved with ⟨r₁, m₁, moved, rfl, rfl, rfl⟩
    exact ⟨moved, rfl⟩
  · intro both
    rcases both with ⟨moved, rfl⟩
    exact ⟨r, m', moved, rfl, rfl, rfl⟩

/-- One access of an annotated program. -/
theorem wp_annotate_op {note : η → (o : S.Op) → S.Res o → η} {J : σ × η → Prop}
    {Q : α → σ × η → Prop} {o : S.Op} {k : S.Res o → Prog S α} {m : σ} {h : η} :
    (op o k).wp (M.annotate note) J Q (m, h) ↔ J (m, h) ∧ ¬ M.Faults o m ∧
      (∃ c r m', M.exec o c m = some (r, m')) ∧
      ∀ c r m', M.exec o c m = some (r, m') →
        (k r).wp (M.annotate note) J Q (m', note h o r) := by
  rw [wp_op]
  constructor
  · intro known
    rcases known with ⟨stays, defined, ⟨c, r, ⟨m', h'⟩, moved⟩, rest⟩
    exact ⟨stays, defined, ⟨c, r, m', (annotate_exec.mp moved).1⟩,
      fun c r m' moved => rest c r (m', note h o r) (annotate_exec.mpr ⟨moved, rfl⟩)⟩
  · intro known
    rcases known with ⟨stays, defined, ⟨c, r, m', moved⟩, rest⟩
    refine ⟨stays, defined, ⟨c, r, (m', note h o r), annotate_exec.mpr ⟨moved, rfl⟩⟩, ?_⟩
    intro c r known noted
    rcases known with ⟨m', h'⟩
    rcases annotate_exec.mp noted with ⟨moved, rfl⟩
    exact rest c r m' moved

/-- What is proved with some notes holds with any coarser ones. -/
theorem wp_annotate_map {note : η → (o : S.Op) → S.Res o → η}
    {coarse : θ → (o : S.Op) → S.Res o → θ} {f : η → θ}
    (coarser : ∀ h o r, f (note h o r) = coarse (f h) o r) {J : σ × η → Prop}
    {J' : σ × θ → Prop} {Q : α → σ × η → Prop} {Q' : α → σ × θ → Prop}
    (weaker : ∀ m h, J (m, h) → J' (m, f h)) (implies : ∀ a m h, Q a (m, h) → Q' a (m, f h))
    {p : Prog S α} {m : σ} {h : η} (proved : p.wp (M.annotate note) J Q (m, h)) :
    p.wp (M.annotate coarse) J' Q' (m, f h) := by
  induction p generalizing m h with
  | ret a => exact ⟨weaker m h proved.1, implies a m h proved.2⟩
  | op o k ih =>
    rcases wp_annotate_op.mp proved with ⟨stays, defined, enabled, rest⟩
    refine wp_annotate_op.mpr ⟨weaker m h stays, defined, enabled, fun c r m' moved => ?_⟩
    rw [← coarser]
    exact ih r (rest c r m' moved)

/-- A monitor notes the accesses and not the answers. -/
theorem watch_eq (w : η → S.Op → η) : M.watch w = M.annotate fun h o _ => w h o := rfl

/-- One access of a watched program. -/
theorem wp_watch_op {w : η → S.Op → η} {J : σ × η → Prop} {Q : α → σ × η → Prop} {o : S.Op}
    {k : S.Res o → Prog S α} {m : σ} {h : η} :
    (op o k).wp (M.watch w) J Q (m, h) ↔ J (m, h) ∧ ¬ M.Faults o m ∧
      (∃ c r m', M.exec o c m = some (r, m')) ∧
      ∀ c r m', M.exec o c m = some (r, m') → (k r).wp (M.watch w) J Q (m', w h o) := by
  simp only [watch_eq]
  exact wp_annotate_op

end Prog

end Conc
