import Os2Labs.Conc.Program
import Mathlib.Logic.Function.Basic

/-!
# Disjoint shares of a store

Threads that work on disjoint shares of one store do what each of them would do alone on its
share.

* `Store` is a partial map from keys to values, and `Exactly m entries` says what is in one.
* `Framed M`: an access that is no fault on a part does the same in the whole, and leaves the
  rest of the whole alone.
* `Shared store share`: the agents hold disjoint shares that make up the store.  An agent can
  replace its share (`focus`) or hand a part of it to an agent that has nothing (`hand`).
* `Outline`: what each point of a program has for its share.  `Outline.act` is the rule for one
  access of one of the agents.
-/

namespace Conc

variable {K : Type} {V : K → Type}

/-- What there is under each key, `none` where there is nothing. -/
abbrev Store (V : K → Type) : Type := (k : K) → Option (V k)

namespace Store

def empty : Store V := fun _ => none

/-- Nothing is in both. -/
def Apart (m n : Store V) : Prop := ∀ k, m k = none ∨ n k = none

/-- What is in one of them. -/
def join (m n : Store V) : Store V := fun k => (m k).or (n k)

variable {m n : Store V} {k : K} {v : V k}

theorem join_empty (m : Store V) : join m empty = m := by
  funext k
  exact Option.or_none

theorem empty_join (m : Store V) : join empty m = m := by
  funext k
  exact Option.none_or

theorem Apart.symm (apart : Apart m n) : Apart n m := fun k => (apart k).symm

theorem apart_empty (m : Store V) : Apart m empty := fun _ => Or.inr rfl

theorem empty_apart (m : Store V) : Apart empty m := fun _ => Or.inl rfl

theorem Apart.right_none (apart : Apart m n) (here : m k = some v) : n k = none := by
  rcases apart k with nothing | nothing
  · rw [here] at nothing
    cases nothing
  · exact nothing

theorem join_of_left (here : m k = some v) : join m n k = some v := by
  unfold join
  rw [here, Option.some_or]

theorem join_of_left_none (nothing : m k = none) : join m n k = n k := by
  unfold join
  rw [nothing, Option.none_or]

theorem join_eq_none : join m n k = none ↔ m k = none ∧ n k = none := Option.or_eq_none_iff

variable [DecidableEq K]

/-- A change under a key that the rest has not. -/
theorem update_join (nothing : n k = none) (w : Option (V k)) :
    Function.update (join m n) k w = join (Function.update m k w) n := by
  funext k'
  by_cases same : k' = k
  · subst same
    rw [Function.update_self, join, Function.update_self, nothing, Option.or_none]
  · rw [Function.update_of_ne same, join, join, Function.update_of_ne same]

theorem Apart.update (apart : Apart m n) (nothing : n k = none) (w : Option (V k)) :
    Apart (Function.update m k w) n := by
  intro k'
  by_cases same : k' = k
  · subst same
    exact Or.inr nothing
  · rw [Function.update_of_ne same]
    exact apart k'

/-! ## The entries of a store -/

/-- The store has these entries and no others. -/
def Exactly : Store V → List ((k : K) × V k) → Prop
  | m, [] => m = empty
  | m, ⟨k, v⟩ :: entries => m k = some v ∧ Exactly (Function.update m k none) entries

theorem Exactly.get {entries : List ((k : K) × V k)} (exactly : Exactly m entries)
    (member : ⟨k, v⟩ ∈ entries) : m k = some v := by
  induction entries generalizing m with
  | nil => cases member
  | cons e entries ih =>
    obtain ⟨k', v'⟩ := e
    obtain ⟨here, rest⟩ := exactly
    rcases List.mem_cons.mp member with same | member
    · cases same
      exact here
    · have found := ih rest member
      by_cases same : k = k'
      · subst same
        rw [Function.update_self] at found
        cases found
      · rwa [Function.update_of_ne same] at found

/-- Only these keys are there. -/
theorem Exactly.member {entries : List ((k : K) × V k)} (exactly : Exactly m entries)
    (here : m k = some v) : ⟨k, v⟩ ∈ entries := by
  induction entries generalizing m with
  | nil =>
    have nothing : m = empty := exactly
    rw [nothing] at here
    cases here
  | cons e entries ih =>
    obtain ⟨k', v'⟩ := e
    obtain ⟨there, rest⟩ := exactly
    by_cases same : k = k'
    · subst same
      rw [here] at there
      cases there
      exact List.mem_cons_self
    · refine List.mem_cons_of_mem _ (ih rest ?_)
      rwa [Function.update_of_ne same]

theorem Exactly.iff_mem {entries : List ((k : K) × V k)} (exactly : Exactly m entries) :
    m k = some v ↔ ⟨k, v⟩ ∈ entries := ⟨exactly.member, exactly.get⟩

theorem Exactly.swap {e f : (k : K) × V k} {entries : List ((k : K) × V k)}
    (exactly : Exactly m (e :: f :: entries)) : Exactly m (f :: e :: entries) := by
  obtain ⟨a, v⟩ := e
  obtain ⟨b, w⟩ := f
  obtain ⟨here, there, rest⟩ := exactly
  have differ : b ≠ a := by
    intro same
    subst same
    rw [Function.update_self] at there
    cases there
  rw [Function.update_of_ne differ] at there
  refine ⟨there, ?_, ?_⟩
  · rwa [Function.update_of_ne differ.symm]
  · rwa [Function.update_comm differ]

theorem Exactly.perm {entries entries' : List ((k : K) × V k)} (same : entries.Perm entries')
    (exactly : Exactly m entries) : Exactly m entries' := by
  induction same generalizing m with
  | nil => exact exactly
  | cons e _ ih => exact ⟨exactly.1, ih exactly.2⟩
  | swap e f entries => exact exactly.swap
  | trans _ _ first second => exact second (first exactly)

section Change

variable (front : List ((k : K) × V k)) {back : List ((k : K) × V k)}

/-- One of the values is replaced. -/
theorem Exactly.put (exactly : Exactly m (front ++ ⟨k, v⟩ :: back)) (w : V k) :
    Exactly (Function.update m k (some w)) (front ++ ⟨k, w⟩ :: back) := by
  have first := exactly.perm List.perm_middle
  refine Exactly.perm List.perm_middle.symm ⟨Function.update_self .., ?_⟩
  rw [Function.update_idem]
  exact first.2

theorem Exactly.drop (exactly : Exactly m (front ++ ⟨k, v⟩ :: back)) :
    Exactly (Function.update m k none) (front ++ back) :=
  (exactly.perm List.perm_middle).2

theorem Exactly.new (exactly : Exactly m (front ++ back)) (nothing : m k = none) (w : V k) :
    Exactly (Function.update m k (some w)) (front ++ ⟨k, w⟩ :: back) := by
  refine Exactly.perm List.perm_middle.symm ⟨Function.update_self .., ?_⟩
  rw [Function.update_idem, ← nothing, Function.update_eq_self]
  exact exactly

/-- What is in a store can be divided. -/
theorem Exactly.split (exactly : Exactly m (front ++ back)) :
    ∃ m₁ m₂, m = join m₁ m₂ ∧ Apart m₁ m₂ ∧ Exactly m₁ front ∧ Exactly m₂ back := by
  induction front generalizing m with
  | nil => exact ⟨empty, m, (empty_join m).symm, empty_apart m, rfl, exactly⟩
  | cons e front ih =>
    obtain ⟨k, v⟩ := e
    obtain ⟨here, rest⟩ := exactly
    obtain ⟨m₁, m₂, whole, apart, first, second⟩ := ih rest
    have nothing : m₁ k = none ∧ m₂ k = none := by
      rw [← join_eq_none, ← whole, Function.update_self]
    refine ⟨Function.update m₁ k (some v), m₂, ?_, apart.update nothing.2 _,
      ⟨Function.update_self .., ?_⟩, second⟩
    · rw [← update_join nothing.2, ← whole, Function.update_idem, ← here, Function.update_eq_self]
    · rw [Function.update_idem, ← nothing.1, Function.update_eq_self]
      exact first

end Change

end Store

open Store

/-! ## Accesses to a part of a store -/

/-- What an access does to a part of the store does not depend on the rest, and leaves it alone. -/
structure Framed {S : Signature} {χ : Type} (M : Semantics S (Store V) χ) : Prop where
  safe : ∀ o m n, ¬ M.Faults o m → ¬ M.Faults o (join m n)
  acts : ∀ o c m n r w, Apart m n → ¬ M.Faults o m → M.exec o c (join m n) = some (r, w) →
    ∃ m', M.exec o c m = some (r, m') ∧ Apart m' n ∧ w = join m' n

/-! ## Shares -/

/-- The agents hold disjoint shares that make up the store. -/
structure Shared {ι : Type} (store : Store V) (share : ι → Store V) : Prop where
  whole : ∀ k v, store k = some v ↔ ∃ i, share i k = some v
  apart : ∀ i j, i ≠ j → Apart (share i) (share j)

section Shared

variable {ι : Type} {store : Store V} {share : ι → Store V} {i j : ι} {k : K} {v w : V k}

/-- What an agent holds is in the store. -/
theorem Shared.get (shared : Shared store share) (here : share i k = some v) : store k = some v :=
  (shared.whole k v).mpr ⟨i, here⟩

/-- Two agents do not hold the same key. -/
theorem Shared.unique (shared : Shared store share) (here : share i k = some v)
    (there : share j k = some w) : i = j := by
  by_contra differ
  rw [(shared.apart i j differ).right_none here] at there
  cases there

variable [DecidableEq ι]

/-- An agent by itself: the rest of the store stays as it is when its share is replaced by one
that is apart from the rest. -/
theorem Shared.focus (shared : Shared store share) (i : ι) :
    ∃ rest, Apart (share i) rest ∧ store = join (share i) rest ∧
      ∀ m, Apart m rest → Shared (join m rest) (Function.update share i m) := by
  let rest : Store V := fun k => if share i k = none then store k else none
  have others : ∀ k v, rest k = some v ↔ ∃ j, j ≠ i ∧ share j k = some v := by
    intro k v
    by_cases nothing : share i k = none
    · have same : rest k = store k := if_pos nothing
      rw [same, shared.whole]
      constructor
      · rintro ⟨j, there⟩
        refine ⟨j, fun same => ?_, there⟩
        rw [same, nothing] at there
        cases there
      · rintro ⟨j, -, there⟩
        exact ⟨j, there⟩
    · have gone : rest k = none := if_neg nothing
      obtain ⟨v', here⟩ := Option.ne_none_iff_exists'.mp nothing
      rw [gone]
      refine ⟨nofun, ?_⟩
      rintro ⟨j, differ, there⟩
      exact (differ (shared.unique there here)).elim
  refine ⟨rest, fun k => ?_, ?_, ?_⟩
  · by_cases nothing : share i k = none
    · exact Or.inl nothing
    · exact Or.inr (if_neg nothing)
  · funext k
    cases here : share i k with
    | none =>
      rw [join_of_left_none here]
      exact (if_pos here).symm
    | some v =>
      rw [join_of_left here]
      exact shared.get here
  · intro m apart
    constructor
    · intro k v
      constructor
      · intro known
        cases here : m k with
        | some v' =>
          rw [join_of_left here] at known
          cases known
          exact ⟨i, by rwa [Function.update_self]⟩
        | none =>
          rw [join_of_left_none here] at known
          obtain ⟨j, differ, there⟩ := (others k v).mp known
          exact ⟨j, by rwa [Function.update_of_ne differ]⟩
      · rintro ⟨j, there⟩
        by_cases same : j = i
        · subst same
          rw [Function.update_self] at there
          exact join_of_left there
        · rw [Function.update_of_ne same] at there
          have known := (others k v).mpr ⟨j, same, there⟩
          rw [join_of_left_none (apart.symm.right_none known)]
          exact known
    · intro a b differ
      have against : ∀ j, j ≠ i → Apart m (share j) := by
        intro j other k
        cases there : share j k with
        | none => exact Or.inr rfl
        | some v =>
          have known := (others k v).mpr ⟨j, other, there⟩
          exact Or.inl (apart.symm.right_none known)
      by_cases left : a = i
      · subst left
        rw [Function.update_self, Function.update_of_ne differ.symm]
        exact against b differ.symm
      · by_cases right : b = i
        · subst right
          rw [Function.update_self, Function.update_of_ne left]
          exact (against a left).symm
        · rw [Function.update_of_ne left, Function.update_of_ne right]
          exact shared.apart a b differ

/-- An agent hands a part of its share to one that has nothing. -/
theorem Shared.hand (shared : Shared store share) (differ : i ≠ j) {m n : Store V}
    (parts : share i = join m n) (apart : Apart m n) (nothing : share j = empty) :
    Shared store (Function.update (Function.update share i m) j n) := by
  have at_i : Function.update (Function.update share i m) j n i = m := by
    rw [Function.update_of_ne differ, Function.update_self]
  have at_j : Function.update (Function.update share i m) j n j = n := Function.update_self ..
  have at_other : ∀ a, a ≠ i → a ≠ j →
      Function.update (Function.update share i m) j n a = share a := by
    intro a other other'
    rw [Function.update_of_ne other', Function.update_of_ne other]
  have within : ∀ k v, share i k = some v ↔ m k = some v ∨ n k = some v := by
    intro k v
    rw [parts]
    cases here : m k with
    | none =>
      rw [join_of_left_none here]
      exact ⟨Or.inr, fun known => known.resolve_left nofun⟩
    | some v' =>
      rw [join_of_left here, apart.right_none here]
      exact ⟨Or.inl, fun known => known.resolve_right nofun⟩
  have small : ∀ a, a ≠ i → Apart m (share a) ∧ Apart n (share a) := by
    intro a other
    constructor
    · intro k
      cases here : m k with
      | none => exact Or.inl rfl
      | some v =>
        exact Or.inr ((shared.apart i a other.symm).right_none ((within k v).mpr (Or.inl here)))
    · intro k
      cases here : n k with
      | none => exact Or.inl rfl
      | some v =>
        exact Or.inr ((shared.apart i a other.symm).right_none ((within k v).mpr (Or.inr here)))
  constructor
  · intro k v
    rw [shared.whole]
    constructor
    · rintro ⟨a, here⟩
      by_cases left : a = i
      · subst left
        rcases (within k v).mp here with kept | handed
        · exact ⟨a, by rwa [at_i]⟩
        · exact ⟨j, by rwa [at_j]⟩
      · by_cases right : a = j
        · subst right
          rw [nothing] at here
          cases here
        · exact ⟨a, by rwa [at_other a left right]⟩
    · rintro ⟨a, here⟩
      by_cases left : a = i
      · subst left
        rw [at_i] at here
        exact ⟨a, (within k v).mpr (Or.inl here)⟩
      · by_cases right : a = j
        · subst right
          rw [at_j] at here
          exact ⟨i, (within k v).mpr (Or.inr here)⟩
        · rw [at_other a left right] at here
          exact ⟨a, here⟩
  · intro a b other
    by_cases left : a = i
    · subst left
      rw [at_i]
      by_cases right : b = j
      · subst right
        rwa [at_j]
      · rw [at_other b other.symm right]
        exact (small b other.symm).1
    · by_cases left' : a = j
      · subst left'
        rw [at_j]
        by_cases right : b = i
        · subst right
          rw [at_i]
          exact apart.symm
        · rw [at_other b right other.symm]
          exact (small b right).2
      · rw [at_other a left left']
        by_cases right : b = i
        · subst right
          rw [at_i]
          exact (small a left).1.symm
        · by_cases right' : b = j
          · subst right'
            rw [at_j]
            exact (small a left).2.symm
          · rw [at_other b right right']
            exact shared.apart a b other

end Shared

/-! ## Programs that keep to their share -/

/-- What a program has for its share at each point: its accesses are no fault there, and as far
as the choices of the environment are allowed they lead to what the next point needs. -/
structure Outline {S : Signature} {χ α π : Type} (M : Semantics S (Store V) χ)
    (head : π → Head S α π) (allowed : π → χ → Prop) (proper : π → Store V → Prop) : Prop where
  safe : ∀ p m o k, proper p m → head p = .op o k → ¬ M.Faults o m
  keeps : ∀ p m o k c r m', proper p m → head p = .op o k → allowed p c →
    M.exec o c m = some (r, m') → proper (k r) m'

section Outline

variable {S : Signature} {χ α π ι : Type} [DecidableEq ι] {M : Semantics S (Store V) χ}
  {head : π → Head S α π} {allowed : π → χ → Prop} {proper : π → Store V → Prop}
  {store : Store V} {share : ι → Store V} {i : ι} {p : π} {o : S.Op} {k : S.Res o → π}

/-- **One access of one agent.**  It does to the share of the agent what it would do alone. -/
theorem Outline.act (outline : Outline M head allowed proper) (framed : Framed M)
    (shared : Shared store share) (here : proper p (share i)) (at_o : head p = .op o k) {c : χ}
    (may : allowed p c) {r : S.Res o} {store' : Store V}
    (moved : M.exec o c store = some (r, store')) :
    ∃ m', proper (k r) m' ∧ Shared store' (Function.update share i m') := by
  obtain ⟨rest, apart, whole, replace⟩ := shared.focus i
  rw [whole] at moved
  have safe := outline.safe p (share i) o k here at_o
  obtain ⟨m', alone, apart', rfl⟩ := framed.acts o c (share i) rest r store' apart safe moved
  exact ⟨m', outline.keeps p (share i) o k c r m' here at_o may alone, replace m' apart'⟩

end Outline

end Conc
