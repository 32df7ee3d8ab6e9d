import Os2Labs.Conc.Simulation

/-!
# Threads that call a lock as they please

`LockCalls.step L cl` is the system of threads that call `lock` and `unlock` in any order their
programs say, also `unlock` without having locked.  An observer sees a call of `lock` when it
gets the lock and a call of `unlock` when it returns (`sign`).

* `Lock.Follows L L' R may`: from related states of the two locks, what a step of the code of
  `L` achieves, a thread can achieve alone with the code of `L'`; `may` limits the threads whose
  `unlock` has to be answered.  `Follows.traces` is inclusion of the traces.
* `Lock.abstract` is the lock that only the thread that holds it can unlock, and
  `OnlyHeld` are the sequences in which threads unlock only what they hold.
-/

namespace Conc

variable {Tid W W' ξ ξ' κ : Type}

inductive LockCall where
  | lock | unlock
deriving DecidableEq

/-- A thread that runs alone in `lock`, from the point `a` on, gets the lock. -/
inductive Lock.Gets (L : Lock Tid W ξ) (t : Tid) : W → L.Acq → W → Prop
  | done {w w' : W} {a : L.Acq} {x : ξ} (got : L.acquire t x w a = some (w', none)) :
    Gets L t w a w'
  | more {w w₁ w' : W} {a a₁ : L.Acq} {x : ξ} (tried : L.acquire t x w a = some (w₁, some a₁))
      (rest : Gets L t w₁ a₁ w') : Gets L t w a w'

/-- What the code of `L` achieves from a state of the lock, the code of `L'` achieves from a
related one. -/
structure Lock.Follows (L : Lock Tid W ξ) (L' : Lock Tid W' ξ') (R : W → W' → Prop)
    (may : Tid → W' → Prop) : Prop where
  spins : ∀ {t x w v a w' a'}, R w v → L.acquire t x w a = some (w', some a') → R w' v
  gets : ∀ {t x w v a w'}, R w v → L.acquire t x w a = some (w', none) →
    ∀ b, ∃ v', L'.Gets t v b v' ∧ R w' v'
  atOnce : ∀ {t x w r w' r'}, L.release t x w r = some (w', r') → r' = none
  unlocks : ∀ {t x w v r w'}, R w v → L.release t x w r = some (w', none) → may t v →
    ∀ q, ∃ y v', L'.release t y v q = some (v', none) ∧ R w' v'

namespace LockCalls

/-- Where a thread is. -/
inductive Pc (L : Lock Tid W ξ) where
  | outside
  | locking (a : L.Acq)
  | unlocking (r : L.Rel)

variable {L : Lock Tid W ξ} {L' : Lock Tid W' ξ'}

/-- The start of a call. -/
def Pc.enter : LockCall → Pc L
  | .lock => .locking L.lock
  | .unlock => .unlocking L.unlock

/-- The call in progress. -/
def Pc.call : Pc L → Option LockCall
  | .outside => none
  | .locking _ => some .lock
  | .unlocking _ => some .unlock

theorem Pc.of_outside {pc : Pc L} (call : pc.call = none) : pc = .outside := by
  cases pc with
  | outside => rfl
  | locking | unlocking => cases call

theorem Pc.of_lock {pc : Pc L} (call : pc.call = some .lock) : ∃ a, pc = .locking a := by
  cases pc with
  | locking a => exact ⟨a, rfl⟩
  | outside | unlocking => cases call

theorem Pc.of_unlock {pc : Pc L} (call : pc.call = some .unlock) : ∃ r, pc = .unlocking r := by
  cases pc with
  | unlocking r => exact ⟨r, rfl⟩
  | outside | locking => cases call

structure State (L : Lock Tid W ξ) (κ : Type) where
  lock : W
  pc : Tid → Pc L
  locals : Tid → κ

inductive Event (Tid ξ : Type) where
  | call (t : Tid) (c : LockCall)
  | move (t : Tid) (x : ξ)

/-- What an observer sees. -/
inductive Sign (Tid : Type) where
  | acquire (t : Tid)
  | unlock (t : Tid)
deriving DecidableEq

variable [DecidableEq Tid]

/-- Thread `t` goes on in a call that has left the lock in the state `w`. -/
def State.goto (s : State L κ) (t : Tid) (w : W) (new : Pc L) : State L κ :=
  { s with lock := w, pc := Function.update s.pc t new }

/-- A call of thread `t` returns. -/
def State.return (s : State L κ) (cl : Client κ LockCall Unit) (t : Tid) (c : LockCall) (w : W) :
    State L κ where
  lock := w
  pc := Function.update s.pc t .outside
  locals := Function.update s.locals t (cl.returns (s.locals t) c ())

/-- One step of one thread. -/
def step (cl : Client κ LockCall Unit) (s : State L κ) : Event Tid ξ → Option (State L κ)
  | .call t c =>
      match s.pc t with
      | .outside => if cl.calls (s.locals t) c then some (s.goto t s.lock (.enter c)) else none
      | _ => none
  | .move t x =>
      match s.pc t with
      | .outside => none
      | .locking a =>
          (L.acquire t x s.lock a).map fun out =>
            out.2.elim (s.return cl t .lock out.1) fun a' => s.goto t out.1 (.locking a')
      | .unlocking r =>
          (L.release t x s.lock r).map fun out =>
            out.2.elim (s.return cl t .unlock out.1) fun r' => s.goto t out.1 (.unlocking r')

/-- A call of `lock` or of `unlock` returns. -/
def sign (s : State L κ) (e : Event Tid ξ) (s' : State L κ) : Option (Sign Tid) :=
  match e with
  | .call .. => none
  | .move t _ =>
      match s.pc t, s'.pc t with
      | .locking _, .outside => some (.acquire t)
      | .unlocking _, .outside => some (.unlock t)
      | _, _ => none

/-- Before the first call. -/
def init (L : Lock Tid W ξ) (w : W) (locals : Tid → κ) : State L κ where
  lock := w
  pc _ := .outside
  locals := locals

/-! ## Steps -/

/-- The steps by what they do and what is seen of them. -/
inductive Move (cl : Client κ LockCall Unit) (s : State L κ) :
    Option (Sign Tid) → State L κ → Prop
  | call {t : Tid} {c : LockCall} (out : s.pc t = .outside)
      (allowed : cl.calls (s.locals t) c = true) : Move cl s none (s.goto t s.lock (.enter c))
  | spin {t : Tid} {a a' : L.Acq} {x : ξ} {w : W} (here : s.pc t = .locking a)
      (tried : L.acquire t x s.lock a = some (w, some a')) :
    Move cl s none (s.goto t w (.locking a'))
  | acquire {t : Tid} {a : L.Acq} {x : ξ} {w : W} (here : s.pc t = .locking a)
      (got : L.acquire t x s.lock a = some (w, none)) :
    Move cl s (some (.acquire t)) (s.return cl t .lock w)
  | linger {t : Tid} {r r' : L.Rel} {x : ξ} {w : W} (here : s.pc t = .unlocking r)
      (done : L.release t x s.lock r = some (w, some r')) :
    Move cl s none (s.goto t w (.unlocking r'))
  | unlock {t : Tid} {r : L.Rel} {x : ξ} {w : W} (here : s.pc t = .unlocking r)
      (done : L.release t x s.lock r = some (w, none)) :
    Move cl s (some (.unlock t)) (s.return cl t .unlock w)

variable {cl : Client κ LockCall Unit} {s s₁ : State L κ}

@[simp] theorem goto_pc_self (t : Tid) (w : W) (new : Pc L) : (s.goto t w new).pc t = new :=
  Function.update_self ..

@[simp] theorem return_pc_self (t : Tid) (c : LockCall) (w : W) :
    (s.return cl t c w).pc t = .outside :=
  Function.update_self ..

theorem step_move {e : Event Tid ξ} (moved : step cl s e = some s₁) :
    Move cl s (sign s e s₁) s₁ := by
  cases e with
  | call t c =>
    simp only [step] at moved
    split at moved
    · next out =>
      split at moved
      · next allowed =>
        cases moved
        exact .call out allowed
      · cases moved
    · cases moved
  | move t x =>
    simp only [step] at moved
    split at moved
    · cases moved
    · next a here =>
      obtain ⟨⟨w, a'⟩, done, rfl⟩ := Option.map_eq_some_iff.mp moved
      cases a' with
      | none =>
        simp only [sign, Option.elim_none, here, return_pc_self]
        exact .acquire here done
      | some a' =>
        simp only [sign, Option.elim_some, here, goto_pc_self]
        exact .spin here done
    · next r here =>
      obtain ⟨⟨w, r'⟩, done, rfl⟩ := Option.map_eq_some_iff.mp moved
      cases r' with
      | none =>
        simp only [sign, Option.elim_none, here, return_pc_self]
        exact .unlock here done
      | some r' =>
        simp only [sign, Option.elim_some, here, goto_pc_self]
        exact .linger here done

/-- Every such step can be made. -/
theorem Move.shows {seen : Option (Sign Tid)} (move : Move cl s seen s₁) :
    Shows (step cl) sign s seen.toList s₁ := by
  have made : ∃ e, step cl s e = some s₁ ∧ sign s e s₁ = seen := by
    cases move with
    | @call t c out allowed =>
      refine ⟨.call t c, ?_, rfl⟩
      simp only [step, out, allowed, ↓reduceIte]
    | @spin t a a' x w here tried =>
      refine ⟨.move t x, ?_, ?_⟩
      · simp only [step, here, tried, Option.map_some, Option.elim_some]
      · simp only [sign, here, goto_pc_self]
    | @acquire t a x w here got =>
      refine ⟨.move t x, ?_, ?_⟩
      · simp only [step, here, got, Option.map_some, Option.elim_none]
      · simp only [sign, here, return_pc_self]
    | @linger t r r' x w here done =>
      refine ⟨.move t x, ?_, ?_⟩
      · simp only [step, here, done, Option.map_some, Option.elim_some]
      · simp only [sign, here, goto_pc_self]
    | @unlock t r x w here done =>
      refine ⟨.move t x, ?_, ?_⟩
      · simp only [step, here, done, Option.map_some, Option.elim_none]
      · simp only [sign, here, return_pc_self]
  obtain ⟨e, moved, looks⟩ := made
  rw [← looks]
  exact Shows.one moved

/-- A thread that gets the lock alone. -/
theorem Gets.shows {t : Tid} {w w' : W} {a : L.Acq} (gets : L.Gets t w a w') (s : State L κ)
    (lock : s.lock = w) (here : s.pc t = .locking a) :
    Shows (step cl) sign s [.acquire t] (s.return cl t .lock w') := by
  induction gets generalizing s with
  | done got =>
    subst lock
    exact (Move.acquire here got).shows
  | @more w w₁ w' a a₁ x tried rest ih =>
    subst lock
    have first : Shows (step cl) sign s [] (s.goto t w₁ (.locking a₁)) :=
      (Move.spin here tried).shows
    have same : (s.goto t w₁ (.locking a₁)).return cl t .lock w' = s.return cl t .lock w' := by
      simp only [State.return, State.goto, Function.update_idem]
    rw [← same]
    exact first.trans (ih _ rfl (goto_pc_self ..))

/-! ## Two locks -/

/-- The threads are in the same calls. -/
structure Corresponds (R : W → W' → Prop) (s : State L κ) (s' : State L' κ) : Prop where
  lock : R s.lock s'.lock
  calls : ∀ t, (s'.pc t).call = (s.pc t).call
  locals : s'.locals = s.locals

variable {R : W → W' → Prop} {may : Tid → W' → Prop} {s' : State L' κ}

theorem Corresponds.goto (corresponds : Corresponds R s s') {t : Tid} {w : W} {v : W'} {new : Pc L}
    {new' : Pc L'} (lock : R w v) (same : new'.call = new.call) :
    Corresponds R (s.goto t w new) (s'.goto t v new') := by
  refine ⟨lock, fun u => ?_, corresponds.locals⟩
  simp only [State.goto, Function.update_apply]
  split
  · exact same
  · exact corresponds.calls u

theorem Corresponds.return (corresponds : Corresponds R s s') {t : Tid} {w : W} {v : W'}
    (c : LockCall) (lock : R w v) : Corresponds R (s.return cl t c w) (s'.return cl t c v) := by
  refine ⟨lock, fun u => ?_, ?_⟩
  · simp only [State.return, Function.update_apply]
    split
    · rfl
    · exact corresponds.calls u
  · simp only [State.return, corresponds.locals]

/-- The other lock stays where it is. -/
theorem Corresponds.stay (corresponds : Corresponds R s s') {t : Tid} {w : W} {new : Pc L}
    (lock : R w s'.lock) (same : new.call = (s.pc t).call) :
    Corresponds R (s.goto t w new) s' := by
  refine ⟨lock, fun u => ?_, corresponds.locals⟩
  simp only [State.goto, Function.update_apply]
  split
  · next who => rw [who, same, corresponds.calls t]
  · exact corresponds.calls u

/-- **One step with the one lock**, answered with the other. -/
theorem Corresponds.answer (follows : L.Follows L' R may) (corresponds : Corresponds R s s')
    {seen : Option (Sign Tid)} (move : Move cl s seen s₁)
    (permitted : ∀ t, seen = some (.unlock t) → may t s'.lock) :
    ∃ s₁', Shows (step cl) sign s' seen.toList s₁' ∧ Corresponds R s₁ s₁' := by
  have same : ∀ {t pc}, s.pc t = pc → (s'.pc t).call = pc.call := by
    intro t pc here
    rw [corresponds.calls, here]
  cases move with
  | @call t c out allowed =>
    refine ⟨s'.goto t s'.lock (.enter c), ?_, corresponds.goto corresponds.lock ?_⟩
    · apply Move.shows (.call (Pc.of_outside (same out)) ?_)
      rw [corresponds.locals]
      exact allowed
    · cases c <;> rfl
  | @spin t a a' x w here tried =>
    refine ⟨s', .refl s', corresponds.stay (follows.spins corresponds.lock tried) ?_⟩
    rw [here]
    rfl
  | @acquire t a x w here got =>
    obtain ⟨b, there⟩ := Pc.of_lock (same here)
    obtain ⟨v, alone, related⟩ := follows.gets corresponds.lock got b
    exact ⟨_, Gets.shows alone s' rfl there, corresponds.return .lock related⟩
  | @linger t r r' x w here done => cases follows.atOnce done
  | @unlock t r x w here done =>
    obtain ⟨q, there⟩ := Pc.of_unlock (same here)
    obtain ⟨y, v, done', related⟩ := follows.unlocks corresponds.lock done (permitted t rfl) q
    exact ⟨_, (Move.unlock there done').shows, corresponds.return .unlock related⟩

/-- Locks of which the one follows the other, whoever unlocks. -/
theorem Follows.traces (follows : L.Follows L' R fun _ _ => True) {w : W} {v : W'} (start : R w v)
    (locals : Tid → κ) :
    Traces (step cl) sign (init L w locals) ⊆ Traces (step cl) sign (init L' v locals) := by
  have simulates : Simulates (step cl) sign (step cl) sign (fun _ => True)
      fun (s : State L κ) _ (s' : State L' κ) => Corresponds R s s' := by
    refine ⟨?_⟩
    intro s seen s' e s₁ corresponds moved _
    exact corresponds.answer follows (step_move moved) fun _ _ => trivial
  intro seen trace
  exact simulates.traces (fun _ _ _ => trivial) ⟨start, fun _ => rfl, rfl⟩ trace trivial

/-! ## Threads that unlock only what they hold -/

/-- Whether thread `t` holds the lock after one more event. -/
def mark (t : Tid) (holds : Bool) (x : Sign Tid) : Bool :=
  if x = .acquire t then true else if x = .unlock t then false else holds

/-- Thread `t` has got the lock and not unlocked it since. -/
def holding (t : Tid) (seen : List (Sign Tid)) : Bool := seen.foldl (mark t) false

/-- Threads unlock only what they hold. -/
def OnlyHeld (seen : List (Sign Tid)) : Prop :=
  ∀ pre t post, seen = pre ++ .unlock t :: post → holding t pre = true

@[simp] theorem holding_snoc (t : Tid) (seen : List (Sign Tid)) (x : Sign Tid) :
    holding t (seen ++ [x]) = mark t (holding t seen) x := by
  simp [holding]

theorem onlyHeld_nil : OnlyHeld ([] : List (Sign Tid)) := by
  intro pre t post split
  cases pre <;> cases split

theorem OnlyHeld.of_append {u v : List (Sign Tid)} (only : OnlyHeld (u ++ v)) : OnlyHeld u := by
  intro pre t post split
  apply only pre t (post ++ v)
  rw [split, List.append_assoc, List.cons_append]

/-- One more event keeps to it. -/
theorem OnlyHeld.snoc {seen : List (Sign Tid)} (only : OnlyHeld seen) {x : Sign Tid}
    (held : ∀ t, x = .unlock t → holding t seen = true) : OnlyHeld (seen ++ [x]) := by
  intro pre t post split
  rcases List.eq_nil_or_concat post with rfl | ⟨post', y, rfl⟩
  · obtain ⟨rfl, last⟩ := List.append_inj' split rfl
    exact held t (List.cons.inj last).1
  · rw [List.concat_eq_append, ← List.cons_append, ← List.append_assoc] at split
    exact only pre t post' (List.append_inj' split rfl).1

/-- A program that unlocks only what it holds, which it knows from its own calls. -/
structure Disciplined (cl : Client κ LockCall Unit) (holds : κ → Bool) : Prop where
  unlocks : ∀ k, cl.calls k .unlock = true → holds k = true
  locked : ∀ k, holds (cl.returns k .lock ()) = true
  unlocked : ∀ k, holds (cl.returns k .unlock ()) = false

/-- What a thread knows of the lock: whether it holds it, and that it does when it unlocks. -/
def Believes (holds : κ → Bool) (seen : List (Sign Tid)) (s : State L κ) (t : Tid) : Prop :=
  holds (s.locals t) = holding t seen ∧ ((s.pc t).call = some .unlock → holding t seen = true)

/-- The events of one thread are nothing to another. -/
theorem mark_other {t u : Tid} (other : u ≠ t) (holds : Bool) :
    mark u holds (.acquire t) = holds ∧ mark u holds (.unlock t) = holds := by
  simp [mark, Ne.symm other]

theorem Believes.goto {holds : κ → Bool} {seen : List (Sign Tid)} {t u : Tid} {w : W} {new : Pc L}
    (believes : Believes holds seen s u)
    (moved : u = t → new.call = some .unlock → holding t seen = true) :
    Believes holds seen (s.goto t w new) u := by
  refine ⟨believes.1, ?_⟩
  simp only [State.goto, Function.update_apply]
  split
  · next who =>
    subst who
    exact moved rfl
  · exact believes.2

theorem Believes.return {holds : κ → Bool} {seen : List (Sign Tid)} {t u : Tid} {c : LockCall}
    {w : W} {x : Sign Tid} (believes : Believes holds seen s u)
    (moved : u = t → holds (cl.returns (s.locals t) c ()) = mark t (holding t seen) x)
    (other : u ≠ t → mark u (holding u seen) x = holding u seen) :
    Believes holds (seen ++ [x]) (s.return cl t c w) u := by
  unfold Believes
  rw [holding_snoc]
  simp only [State.return, Function.update_apply]
  split
  · next who =>
    subst who
    exact ⟨moved rfl, nofun⟩
  · next who =>
    rw [other who]
    exact believes

/-- What a disciplined program believes is so, and it unlocks only what it holds. -/
theorem Disciplined.step {holds : κ → Bool} (disciplined : Disciplined cl holds)
    {seen : List (Sign Tid)} (only : OnlyHeld seen) (believes : ∀ t, Believes holds seen s t)
    {x : Option (Sign Tid)} (move : Move cl s x s₁) :
    OnlyHeld (seen ++ x.toList) ∧ ∀ t, Believes holds (seen ++ x.toList) s₁ t := by
  cases move with
  | @call t c out allowed =>
    rw [Option.toList_none, List.append_nil]
    refine ⟨only, fun u => (believes u).goto fun _ unlocking => ?_⟩
    cases c with
    | lock => cases unlocking
    | unlock =>
      rw [← (believes t).1]
      exact disciplined.unlocks _ allowed
  | @spin t a a' x w here tried =>
    rw [Option.toList_none, List.append_nil]
    exact ⟨only, fun u => (believes u).goto nofun⟩
  | @acquire t a x w here got =>
    refine ⟨only.snoc nofun, fun u => (believes u).return ?_ fun other => (mark_other other _).1⟩
    intro _
    rw [disciplined.locked]
    simp [mark]
  | @linger t r r' x w here done =>
    rw [Option.toList_none, List.append_nil]
    refine ⟨only, fun u => (believes u).goto fun _ _ => (believes t).2 ?_⟩
    rw [here]
    rfl
  | @unlock t r x w here done =>
    refine ⟨only.snoc ?_, fun u => (believes u).return ?_ fun other => (mark_other other _).2⟩
    · intro u same
      cases same
      apply (believes t).2
      rw [here]
      rfl
    · intro _
      rw [disciplined.unlocked]
      simp [mark]

theorem Disciplined.onlyHeld {holds : κ → Bool} (disciplined : Disciplined cl holds) {w : W}
    {locals : Tid → κ} (start : ∀ t, holds (locals t) = false) {seen : List (Sign Tid)}
    (trace : seen ∈ Traces (LockCalls.step cl) sign (init L w locals)) : OnlyHeld seen := by
  obtain ⟨s, shown⟩ := trace
  have known : OnlyHeld seen ∧ ∀ t, Believes holds seen s t := by
    refine Shows.induction (motive := fun s seen => OnlyHeld seen ∧ ∀ t, Believes holds seen s t)
      ⟨onlyHeld_nil, fun t => ⟨start t, fun unlocking => by cases unlocking⟩⟩ ?_ shown
    · intro s seen e s₁ _ ih moved
      exact disciplined.step ih.1 ih.2 (step_move moved)
  exact known.1

/-! ## The abstract lock -/

end LockCalls

/-- The lock is had by a thread, or by none. -/
def Lock.abstract (Tid : Type) [DecidableEq Tid] : Lock Tid (Option Tid) Unit where
  Acq := Unit
  Rel := Unit
  lock := ()
  unlock := ()
  acquire t _ holder _ := if holder = none then some (some t, none) else none
  release t _ holder _ := if holder = some t then some (none, none) else none
  owns _ := true
  word holder := if holder = none then 0 else 1
  free := 0
  held := 1
  owns_unlock := rfl
  acquired := by
    intro t _ holder _ holder' moved
    split at moved
    · next free =>
      cases moved
      exact ⟨if_pos free, rfl⟩
    · cases moved
  acquiring := by
    intro t _ holder _ holder' _ moved
    split at moved <;> cases moved
  released := by
    intro t _ holder _ holder' _ moved _ _
    split at moved
    · cases moved
      rfl
    · cases moved
  releasing := nofun
  distinct := Int.zero_ne_one

namespace LockCalls

variable [DecidableEq Tid] {cl : Client κ LockCall Unit} {L : Lock Tid W ξ}

/-- Its holder is the thread that has got it and not unlocked it since. -/
def Holder (seen : List (Sign Tid)) (holder : Option Tid) : Prop :=
  ∀ t, holding t seen = true ↔ holder = some t

theorem Holder.acquire {seen : List (Sign Tid)} (known : Holder seen none) (t : Tid) :
    Holder (seen ++ [.acquire t]) (some t) := by
  intro u
  rw [holding_snoc]
  by_cases who : u = t
  · subst who
    simp [mark]
  · rw [(mark_other who _).1, known u]
    simp [Ne.symm who]

theorem Holder.unlock {seen : List (Sign Tid)} {t : Tid} (known : Holder seen (some t)) :
    Holder (seen ++ [.unlock t]) none := by
  intro u
  rw [holding_snoc]
  by_cases who : u = t
  · subst who
    simp [mark]
  · rw [(mark_other who _).2, known u]
    simp [Ne.symm who]

/-- One step with the abstract lock. -/
theorem Holder.move {s s₁ : State (Lock.abstract Tid) κ} {seen : List (Sign Tid)}
    (known : Holder seen s.lock) {x : Option (Sign Tid)} (move : Move cl s x s₁) :
    Holder (seen ++ x.toList) s₁.lock ∧ ∀ t, x = some (.unlock t) → holding t seen = true := by
  cases move with
  | call out allowed =>
    rw [Option.toList_none, List.append_nil]
    exact ⟨known, nofun⟩
  | @spin t a a' x w here tried =>
    simp only [Lock.abstract] at tried
    split at tried <;> cases tried
  | @acquire t a x w here got =>
    simp only [Lock.abstract] at got
    split at got
    · next free =>
      cases got
      rw [free] at known
      exact ⟨known.acquire t, nofun⟩
    · cases got
  | @linger t r r' x w here done =>
    simp only [Lock.abstract] at done
    split at done <;> cases done
  | @unlock t r x w here done =>
    simp only [Lock.abstract] at done
    split at done
    · next mine =>
      cases done
      rw [mine] at known
      refine ⟨known.unlock, ?_⟩
      intro u same
      cases same
      exact (known t).mpr rfl
    · cases done

theorem Holder.shows {s s₁ : State (Lock.abstract Tid) κ} {seen more : List (Sign Tid)}
    (known : Holder seen s.lock) (shown : Shows (step cl) sign s more s₁) :
    Holder (seen ++ more) s₁.lock := by
  refine Shows.induction (motive := fun s more => Holder (seen ++ more) s.lock) ?_ ?_ shown
  · rw [List.append_nil]
    exact known
  · intro s more e s₁ _ ih moved
    rw [← List.append_assoc]
    exact (ih.move (step_move moved)).1

theorem holder_nil : Holder ([] : List (Sign Tid)) none := fun t => by simp [holding]

/-- With the abstract lock, threads unlock only what they hold. -/
theorem abstract_onlyHeld {locals : Tid → κ} {seen : List (Sign Tid)}
    (trace : seen ∈ Traces (step cl) sign (init (Lock.abstract Tid) none locals)) :
    OnlyHeld seen := by
  obtain ⟨s, shown⟩ := trace
  have known : OnlyHeld seen ∧ Holder seen s.lock := by
    refine Shows.induction (motive := fun s seen => OnlyHeld seen ∧ Holder seen s.lock)
      ⟨onlyHeld_nil, holder_nil⟩ ?_ shown
    intro s seen e s₁ _ ih moved
    obtain ⟨only, known⟩ := ih
    obtain ⟨after, held⟩ := known.move (step_move moved)
    refine ⟨?_, after⟩
    cases here : sign s e s₁ with
    | none =>
      rw [Option.toList_none, List.append_nil]
      exact only
    | some x =>
      rw [here] at held
      refine only.snoc fun t unlocks => held t ?_
      rw [unlocks]
  exact known.1

variable {R : W → Option Tid → Prop}

/-- A lock that follows the abstract one as long as the holder unlocks. -/
theorem Follows.traces_abstract
    (follows : L.Follows (Lock.abstract Tid) R fun t holder => holder = some t) {w : W}
    (start : R w none) (locals : Tid → κ) {seen : List (Sign Tid)}
    (trace : seen ∈ Traces (step cl) sign (init L w locals)) (only : OnlyHeld seen) :
    seen ∈ Traces (step cl) sign (init (Lock.abstract Tid) none locals) := by
  have simulates : Simulates (step cl) sign (step cl) sign OnlyHeld
      fun (s : State L κ) seen (s' : State (Lock.abstract Tid) κ) =>
        Corresponds R s s' ∧ Holder seen s'.lock := by
    refine ⟨?_⟩
    intro s seen s' e s₁ here moved within
    obtain ⟨corresponds, known⟩ := here
    have permitted : ∀ t, sign s e s₁ = some (.unlock t) → s'.lock = some t := by
      intro t unlocks
      rw [unlocks] at within
      exact (known t).mp (within seen t [] rfl)
    obtain ⟨s₁', shown, after⟩ := corresponds.answer follows (step_move moved) permitted
    exact ⟨s₁', shown, after, Holder.shows known shown⟩
  exact simulates.traces (fun u v => OnlyHeld.of_append) ⟨⟨start, fun _ => rfl, rfl⟩, holder_nil⟩
    trace only

end LockCalls

end Conc
