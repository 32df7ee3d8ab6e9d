import Os2Labs.Conc.Client
import Os2Labs.Conc.Ghost

/-!
# Locks, and an object behind a lock

A `Lock` is the code of a `lock` and an `unlock` over a shared lock word: each has
a first program point, and performs one atomic step at a time until it returns.
The laws say that the word is what decides: `lock` returns only by turning a
free word into a held one, the owner's `unlock` turns it back at one of its
steps, and no other step changes it.

`Locked.step` is the system of threads that call an object whose operations all
run between `lock` and `unlock`.  `Locked.owned` is its mutual exclusion,
`Locked.sound` says that it refines the guarded object, and `Locked.faithful`
that its log is one of the clients'.
-/

namespace Conc

/-- `atomic_compare_exchange_strong`: whether it succeeded, and the word after it. -/
def compareExchange (word expected desired : Int) : Bool × Int :=
  if word = expected then (true, desired) else (false, word)

/-- A lock over a shared state `W`, of which `word` is what decides. -/
structure Lock (Tid W χ : Type) where
  /-- The program points of `lock` and of `unlock`. -/
  Acq : Type
  Rel : Type
  lock : Acq
  unlock : Rel
  /-- One step of `lock`, which returns with `none`, under a choice of the environment. -/
  acquire : Tid → χ → W → Acq → Option (W × Option Acq)
  release : Tid → χ → W → Rel → Option (W × Option Rel)
  /-- Whether a thread at this point of `unlock` still owns the lock. -/
  owns : Rel → Bool
  word : W → Int
  free : Int
  held : Int
  owns_unlock : owns unlock = true
  acquired : ∀ {t x w a w'}, acquire t x w a = some (w', none) → word w = free ∧ word w' = held
  acquiring : ∀ {t x w a w' a'}, acquire t x w a = some (w', some a') → word w' = word w
  released : ∀ {t x w r w' r'}, release t x w r = some (w', r') → owns r = true → word w = held →
    word w' = if r'.any owns then held else free
  releasing : ∀ {t x w r w' r'}, release t x w r = some (w', r') → owns r = false →
    word w' = word w ∧ r'.any owns = false
  distinct : free ≠ held

namespace Locked

variable {S : Signature} {σ χ Call Reply κ Tid W ξ : Type}

/-- Where a thread is. -/
inductive Pc (L : Lock Tid W ξ) (S : Signature) (Call Reply : Type) where
  | idle
  | locking (c : Call) (a : L.Acq)
  | inside (c : Call) (p : Prog S Reply)
  | unlocking (c : Call) (r : Reply) (p : L.Rel)

variable {L : Lock Tid W ξ}

/-- The call, its reply and the point of `unlock` of a thread that has its reply. -/
def Pc.atUnlock : Pc L S Call Reply → Option (Call × Reply × L.Rel)
  | .inside c (.ret r) => some (c, r, L.unlock)
  | .unlocking c r p => some (c, r, p)
  | _ => none

/-- What a thread between the return of `lock` and the effect of `unlock` has left to do. -/
def Pc.crit : Pc L S Call Reply → Option (Call × Unit × Prog S Reply)
  | .inside c p => some (c, (), p)
  | .unlocking c r p => if L.owns p then some (c, (), .ret r) else none
  | _ => none

/-- The thread is between the return of `lock` and the effect of `unlock`. -/
def Pc.Owner (pc : Pc L S Call Reply) : Prop := pc.crit ≠ none

structure State (L : Lock Tid W ξ) (S : Signature) (σ Call Reply κ : Type) where
  lock : W
  mem : σ
  pc : Tid → Pc L S Call Reply
  locals : Tid → κ
  /-- The calls whose critical section is over, in order. -/
  log : List (Done Tid Call Reply)

inductive Event (Tid Call χ ξ : Type) where
  | call (t : Tid) (c : Call)
  | lock (t : Tid) (x : ξ)
  | access (t : Tid) (x : χ)
  | unlock (t : Tid) (x : ξ)

/-- The next access of some thread is undefined behaviour or a failing assert. -/
def Faulty (O : Object S σ χ Call Reply Unit) (s : State L S σ Call Reply κ) : Prop :=
  ∃ t c o k, s.pc t = .inside c (.op o k) ∧ O.sem.Faults o s.mem

/-- The state of the object behind the lock. -/
def guarded (s : State L S σ Call Reply κ) : Guarded.State S σ Call Reply Unit Tid where
  mem := s.mem
  crit := Pc.crit ∘ s.pc
  log := s.log

/-- The thread inside never faults. -/
theorem not_faulty {O : Object S σ χ Call Reply Unit}
    {R : σ → List (Done Tid Call Reply) → Prop}
    {J : List (Done Tid Call Reply) → Call → σ × Unit → Prop} {s : State L S σ Call Reply κ}
    (inv : Guarded.Inv O R J (guarded s)) : ¬ Faulty O s := by
  intro known
  rcases known with ⟨t, c, o, k, inside, fault⟩
  have here : (guarded s).crit t = some (c, (), .op o k) := by
    simp only [guarded, Function.comp_apply, inside, Pc.crit]
  exact inv.defined here fault

/-- The lock word says whether a thread owns the lock, and at most one does. -/
def Owned (s : State L S σ Call Reply κ) : Prop :=
  (L.word s.lock = L.free ∧ (guarded s).Vacant) ∨
    (L.word s.lock = L.held ∧ ∃ t, (s.pc t).Owner ∧ ∀ u, (s.pc u).Owner → u = t)

theorem Owned.vacant {s : State L S σ Call Reply κ} (owned : Owned s)
    (free : L.word s.lock = L.free) : (guarded s).Vacant := by
  rcases owned with ⟨-, vacant⟩ | ⟨held, -⟩
  · exact vacant
  · exact (L.distinct (free.symm.trans held)).elim

theorem Owned.held {s : State L S σ Call Reply κ} (owned : Owned s) {t : Tid}
    (owner : (s.pc t).Owner) : L.word s.lock = L.held := by
  rcases owned with ⟨-, vacant⟩ | ⟨held, -⟩
  · exact (owner (vacant t)).elim
  · exact held

theorem Owned.exclusive {s : State L S σ Call Reply κ} (owned : Owned s) {t u : Tid}
    (left : (s.pc t).Owner) (right : (s.pc u).Owner) : t = u := by
  rcases owned with ⟨-, vacant⟩ | ⟨-, v, -, only⟩
  · exact (left (vacant t)).elim
  · exact (only t left).trans (only u right).symm

/-- At `unlock`, a thread that owns the lock has only its reply left. -/
theorem Pc.crit_of_atUnlock {pc : Pc L S Call Reply} {c : Call} {r : Reply} {p : L.Rel}
    (unlocking : pc.atUnlock = some (c, r, p)) :
    pc.crit = if L.owns p then some (c, (), .ret r) else none := by
  unfold Pc.atUnlock at unlocking
  split at unlocking
  · cases unlocking
    exact (if_pos L.owns_unlock).symm
  · cases unlocking
    rfl
  · cases unlocking

theorem Pc.crit_unlocking (c : Call) (r : Reply) (p : Option L.Rel) :
    (p.elim .idle (Pc.unlocking (S := S) c r)).crit =
      if p.any L.owns then some (c, (), .ret r) else none := by
  cases p <;> rfl

/-- The call whose critical section is still to be completed. -/
def Pc.calling : Pc L S Call Reply → Option Call
  | .idle => none
  | .locking c _ => some c
  | .inside c _ => some c
  | .unlocking c _ p => if L.owns p then some c else none

/-- The private state of a thread, once it has returned from a call whose critical
section is over. -/
def Pc.settle (cl : Client κ Call Reply) (k : κ) : Pc L S Call Reply → κ
  | .unlocking c r p => if L.owns p then k else cl.returns k c r
  | _ => k

theorem Pc.settle_of_atUnlock (cl : Client κ Call Reply) {pc : Pc L S Call Reply} {c : Call}
    {r : Reply} {p : L.Rel} (unlocking : pc.atUnlock = some (c, r, p)) (k : κ) :
    pc.settle cl k = (if L.owns p then k else cl.returns k c r) ∧
      pc.calling = if L.owns p then some c else none := by
  unfold Pc.atUnlock at unlocking
  split at unlocking
  · cases unlocking
    simp only [Pc.settle, Pc.calling, L.owns_unlock, ↓reduceIte, and_self]
  · cases unlocking
    exact ⟨rfl, rfl⟩
  · cases unlocking

theorem Pc.settle_unlocking (cl : Client κ Call Reply) (c : Call) (r : Reply) (p : Option L.Rel)
    (k : κ) :
    (p.elim .idle (Pc.unlocking (S := S) c r)).settle cl
        (if p.isNone then cl.returns k c r else k) =
          (if p.any L.owns then k else cl.returns k c r) ∧
      (p.elim .idle (Pc.unlocking (S := S) c r)).calling =
        if p.any L.owns then some c else none := by
  cases p <;> exact ⟨rfl, rfl⟩

/-- The initial state: the lock is free and every thread outside. -/
structure Initial (s : State L S σ Call Reply κ) : Prop where
  free : L.word s.lock = L.free
  idle : ∀ t, s.pc t = .idle
  fresh : s.log = []

theorem Initial.vacant {s : State L S σ Call Reply κ} (initial : Initial s) :
    (guarded s).Vacant := by
  intro t
  simp only [guarded, Function.comp_apply, initial.idle t, Pc.crit]

/-! ## Steps -/

variable [DecidableEq Tid]

/-- One step of one thread. -/
def step (O : Object S σ χ Call Reply Unit) (cl : Client κ Call Reply)
    (s : State L S σ Call Reply κ) : Event Tid Call χ ξ → Option (State L S σ Call Reply κ)
  | .call t c =>
      match s.pc t with
      | .idle =>
          if cl.calls (s.locals t) c then
            some { s with pc := Function.update s.pc t (.locking c L.lock) }
          else none
      | _ => none
  | .lock t x =>
      match s.pc t with
      | .locking c a =>
          (L.acquire t x s.lock a).map fun out =>
            { s with
              lock := out.1
              pc := Function.update s.pc t
                (out.2.elim (.inside c (O.body c)) (Pc.locking c)) }
      | _ => none
  | .access t x =>
      match s.pc t with
      | .inside c (.op o k) =>
          (O.sem.exec o x s.mem).map fun out =>
            { s with mem := out.2, pc := Function.update s.pc t (.inside c (k out.1)) }
      | _ => none
  | .unlock t x =>
      match (s.pc t).atUnlock with
      | some (c, r, p) =>
          (L.release t x s.lock p).map fun out =>
            { s with
              lock := out.1
              pc := Function.update s.pc t (out.2.elim .idle (Pc.unlocking c r))
              locals := if out.2.isNone then
                Function.update s.locals t (cl.returns (s.locals t) c r) else s.locals
              log := if L.owns p && !out.2.any L.owns then s.log ++ [⟨t, c, r⟩] else s.log }
      | none => none

/-- The access that an event performs. -/
def performed (O : Object S σ χ Call Reply Unit) (s : State L S σ Call Reply κ) :
    Event Tid Call χ ξ → Option (Answered S)
  | .access t x =>
      match s.pc t with
      | .inside _ (.op o _) => (O.sem.exec o x s.mem).map fun out => ⟨o, out.1⟩
      | _ => none
  | _ => none

variable {O : Object S σ χ Call Reply Unit} {cl : Client κ Call Reply}

/-- Everything a step can do. -/
theorem step_cases {s s' : State L S σ Call Reply κ} {e : Event Tid Call χ ξ}
    (moved : step O cl s e = some s') :
    (∃ t c, e = .call t c ∧ s.pc t = .idle ∧ cl.calls (s.locals t) c = true ∧
      s' = { s with pc := Function.update s.pc t (.locking c L.lock) }) ∨
    (∃ t c a x w, e = .lock t x ∧ s.pc t = .locking c a ∧
      L.acquire t x s.lock a = some (w, none) ∧
      s' = { s with lock := w, pc := Function.update s.pc t (.inside c (O.body c)) }) ∨
    (∃ t c a x w a', e = .lock t x ∧ s.pc t = .locking c a ∧
      L.acquire t x s.lock a = some (w, some a') ∧
      s' = { s with lock := w, pc := Function.update s.pc t (.locking c a') }) ∨
    (∃ t c o k x r m, e = .access t x ∧ s.pc t = .inside c (.op o k) ∧
      O.sem.exec o x s.mem = some (r, m) ∧
      s' = { s with mem := m, pc := Function.update s.pc t (.inside c (k r)) }) ∨
    (∃ t c r p x w p', e = .unlock t x ∧ (s.pc t).atUnlock = some (c, r, p) ∧
      L.release t x s.lock p = some (w, p') ∧
      s' = { s with
        lock := w
        pc := Function.update s.pc t (p'.elim .idle (Pc.unlocking c r))
        locals := if p'.isNone then
          Function.update s.locals t (cl.returns (s.locals t) c r) else s.locals
        log := if L.owns p && !p'.any L.owns then s.log ++ [⟨t, c, r⟩] else s.log }) := by
  cases e with
  | call t c =>
    simp only [step] at moved
    split at moved
    · next out =>
      split at moved
      · next allowed =>
        cases moved
        exact Or.inl ⟨t, c, rfl, out, allowed, rfl⟩
      · cases moved
    · cases moved
  | lock t x =>
    simp only [step] at moved
    split at moved
    · next c a locking =>
      rcases Option.map_eq_some_iff.mp moved with ⟨⟨w, a'⟩, done, rfl⟩
      cases a' with
      | none => exact Or.inr (Or.inl ⟨t, c, a, x, w, rfl, locking, done, rfl⟩)
      | some a' => exact Or.inr (Or.inr (Or.inl ⟨t, c, a, x, w, a', rfl, locking, done, rfl⟩))
    · cases moved
  | access t x =>
    simp only [step] at moved
    split at moved
    · next c o k inside =>
      rcases Option.map_eq_some_iff.mp moved with ⟨⟨r, m⟩, done, rfl⟩
      exact Or.inr (Or.inr (Or.inr (Or.inl ⟨t, c, o, k, x, r, m, rfl, inside, done, rfl⟩)))
    · cases moved
  | unlock t x =>
    simp only [step] at moved
    split at moved
    · next c r p unlocking =>
      rcases Option.map_eq_some_iff.mp moved with ⟨⟨w, p'⟩, done, rfl⟩
      exact Or.inr (Or.inr (Or.inr (Or.inr ⟨t, c, r, p, x, w, p', rfl, unlocking, done, rfl⟩)))
    · cases moved

/-! ## Mutual exclusion -/

/-- A step inside `lock` or `unlock` that leaves the ownership alone. -/
theorem crit_update {pc : Tid → Pc L S Call Reply} {t : Tid} {new : Pc L S Call Reply}
    (same : new.crit = (pc t).crit) : Pc.crit ∘ Function.update pc t new = Pc.crit ∘ pc := by
  rw [Function.comp_update, same]
  exact Function.update_eq_self t (Pc.crit ∘ pc)

/-- What a step does to the lock word and the object behind it. -/
theorem step_effect {s s' : State L S σ Call Reply κ} {e : Event Tid Call χ ξ} (owned : Owned s)
    (moved : step O cl s e = some s') :
    (L.word s'.lock = L.word s.lock ∧ guarded s' = guarded s ∧ performed O s e = none) ∨
    (∃ t b, L.word s.lock = L.free ∧ L.word s'.lock = L.held ∧
      (guarded s').crit = Function.update (guarded s).crit t (some b) ∧
      Guarded.Act O (performed O s e) (guarded s) (guarded s')) ∨
    (∃ t b, (s.pc t).Owner ∧ L.word s'.lock = L.word s.lock ∧
      (guarded s').crit = Function.update (guarded s).crit t (some b) ∧
      Guarded.Act O (performed O s e) (guarded s) (guarded s')) ∨
    (∃ t, (s.pc t).Owner ∧ L.word s'.lock = L.free ∧
      (guarded s').crit = Function.update (guarded s).crit t none ∧
      Guarded.Act O (performed O s e) (guarded s) (guarded s')) := by
  rcases step_cases moved with ⟨t, c, rfl, out, -, rfl⟩ | ⟨t, c, a, x, w, rfl, locking, done, rfl⟩ |
    ⟨t, c, a, x, w, a', rfl, locking, done, rfl⟩ |
    ⟨t, c, o, k, x, r, m, rfl, inside, done, rfl⟩ |
    ⟨t, c, r, p, x, w, p', rfl, unlocking, done, rfl⟩
  · refine Or.inl ⟨rfl, ?_, rfl⟩
    simp only [guarded, crit_update (show Pc.crit (.locking c L.lock) = (s.pc t).crit by
      rw [out]; rfl)]
  · rcases L.acquired done with ⟨free, held⟩
    have update : Pc.crit ∘ Function.update s.pc t (.inside c (O.body c)) =
        Function.update (Pc.crit ∘ s.pc) t (some (c, O.start, O.body c)) := Function.comp_update ..
    refine Or.inr (Or.inl ⟨t, _, free, held, update, ?_⟩)
    simp only [guarded, update]
    exact Guarded.Act.enter t c (owned.vacant free)
  · refine Or.inl ⟨L.acquiring done, ?_, rfl⟩
    simp only [guarded, crit_update (show Pc.crit (.locking c a') = (s.pc t).crit by
      rw [locking]; rfl)]
  · have here : (s.pc t).crit = some (c, (), .op o k) := by rw [inside]; rfl
    have update : Pc.crit ∘ Function.update s.pc t (.inside c (k r)) =
        Function.update (Pc.crit ∘ s.pc) t (some (c, O.watch () o, k r)) := Function.comp_update ..
    refine Or.inr (Or.inr (Or.inl ⟨t, _, ?_, rfl, update, ?_⟩))
    · rw [Pc.Owner, here]
      exact Option.some_ne_none _
    · simp only [guarded, update, performed, inside, done, Option.map_some]
      exact Guarded.Act.access here done
  · have here := Pc.crit_of_atUnlock unlocking
    have next := Pc.crit_unlocking (S := S) c r p'
    cases owns : L.owns p with
    | false =>
      rcases L.releasing done owns with ⟨same, after⟩
      simp only [owns, Bool.false_eq_true, ↓reduceIte] at here
      simp only [after, Bool.false_eq_true, ↓reduceIte] at next
      refine Or.inl ⟨same, ?_, rfl⟩
      simp only [guarded, crit_update (next.trans here.symm), Bool.false_and, Bool.false_eq_true,
        ↓reduceIte]
    | true =>
      simp only [owns, ↓reduceIte] at here
      have owner : (s.pc t).Owner := by
        rw [Pc.Owner, here]
        exact Option.some_ne_none _
      have word := L.released done owns (owned.held owner)
      cases still : p'.any L.owns with
      | true =>
        simp only [still, ↓reduceIte] at next word
        refine Or.inl ⟨word.trans (owned.held owner).symm, ?_, rfl⟩
        simp only [guarded, crit_update (next.trans here.symm), Bool.not_true, Bool.and_false,
          Bool.false_eq_true, ↓reduceIte]
      | false =>
        simp only [still, Bool.false_eq_true, ↓reduceIte] at next word
        have update : Pc.crit ∘ Function.update s.pc t (p'.elim .idle (Pc.unlocking c r)) =
            Function.update (Pc.crit ∘ s.pc) t none := by rw [Function.comp_update, next]
        refine Or.inr (Or.inr (Or.inr ⟨t, owner, word, update, ?_⟩))
        simp only [guarded, update, Bool.not_false, Bool.and_true, ↓reduceIte]
        exact Guarded.Act.leave here

theorem Owned.step {s s' : State L S σ Call Reply κ} {e : Event Tid Call χ ξ} (owned : Owned s)
    (moved : step O cl s e = some s') : Owned s' := by
  have entered : ∀ {t : Tid} {b : Call × Unit × Prog S Reply},
      (∀ u, (s.pc u).Owner → u = t) →
      (guarded s').crit = Function.update (guarded s).crit t (some b) →
      ∃ v, (s'.pc v).Owner ∧ ∀ u, (s'.pc u).Owner → u = v := by
    intro t b only crit
    refine ⟨t, ?_, fun u owner => ?_⟩
    · have here := congrFun crit t
      rw [Function.update_self] at here
      exact ne_of_eq_of_ne here (Option.some_ne_none b)
    · by_contra ne
      have there := congrFun crit u
      rw [Function.update_of_ne ne] at there
      exact ne (only u (ne_of_eq_of_ne there.symm owner))
  rcases step_effect owned moved with ⟨word, same, -⟩ | ⟨t, b, free, held, crit, -⟩ |
    ⟨t, b, owner, word, crit, -⟩ | ⟨t, owner, free, crit, -⟩
  · have crit : Pc.crit ∘ s'.pc = Pc.crit ∘ s.pc := congrArg Guarded.State.crit same
    have here : ∀ u, (s'.pc u).Owner ↔ (s.pc u).Owner := by
      intro u
      rw [Pc.Owner, Pc.Owner, show (s'.pc u).crit = (s.pc u).crit from congrFun crit u]
    simpa only [Owned, word, same, here] using owned
  · exact Or.inr ⟨held, entered (fun u owner => (owner (owned.vacant free u)).elim) crit⟩
  · exact Or.inr ⟨word.trans (owned.held owner),
      entered (fun u other => owned.exclusive other owner) crit⟩
  · refine Or.inl ⟨free, fun u => ?_⟩
    rw [crit]
    by_cases same : u = t
    · rw [same, Function.update_self]
    · rw [Function.update_of_ne same]
      by_contra other
      exact same (owned.exclusive other owner)

/-- **Mutual exclusion**, and that the lock word tells whether the lock is owned. -/
theorem owned {s₀ s : State L S σ Call Reply κ} (initial : Initial s₀)
    (reached : Reachable (step O cl) s₀ s) : Owned s :=
  reached.invariant (P := Owned) (Or.inl ⟨initial.free, initial.vacant⟩)
    fun _ _ _ before moved => before.step moved

/-- A step is an act of the guarded object. -/
theorem step_acts {s s' : State L S σ Call Reply κ} {e : Event Tid Call χ ξ} (owned : Owned s)
    (moved : step O cl s e = some s') :
    Guarded.Act O (performed O s e) (guarded s) (guarded s') := by
  rcases step_effect owned moved with ⟨-, same, quiet⟩ | ⟨t, b, -, -, -, act⟩ |
    ⟨t, b, -, -, -, act⟩ | ⟨t, -, -, -, act⟩
  · rw [same, quiet]
    exact Guarded.Act.stay (guarded s)
  · exact act
  · exact act
  · exact act

/-- **The threads see the object one call at a time.** -/
theorem sound {R : σ → List (Done Tid Call Reply) → Prop}
    {J : List (Done Tid Call Reply) → Call → σ × Unit → Prop} (spec : Guarded.Spec O R J)
    {s₀ s : State L S σ Call Reply κ} (initial : Initial s₀) (holds : R s₀.mem [])
    (reached : Reachable (step O cl) s₀ s) : Guarded.Inv O R J (guarded s) := by
  have start : R (guarded s₀).mem (guarded s₀).log := by
    rw [show (guarded s₀).log = [] from initial.fresh]
    exact holds
  exact Guarded.sound spec initial.vacant start
    (reached.refines fun _ _ _ before moved => (step_acts (owned initial before) moved).step)

/-- What is noted of the accesses agrees with the memory and the log. -/
theorem noted {γ : Type} {note : Guarded.Notes S Call Reply γ Tid}
    {R : σ → γ → List (Done Tid Call Reply) → Prop} (keeps : Guarded.Keeps O note R)
    {s₀ s : State L S σ Call Reply κ} {g₀ g : γ} (initial : Initial s₀) (holds : R s₀.mem g₀ [])
    (reached : Reachable (recorded (step O cl) (Guarded.taken note (performed O) State.log))
      (s₀, g₀) (s, g)) : Guarded.Noted O note R (guarded s) g := by
  have start : R (guarded s₀).mem g₀ (guarded s₀).log := by
    rw [show (guarded s₀).log = [] from initial.fresh]
    exact holds
  exact Guarded.noted keeps reached
    (fun _ _ _ before moved => step_acts (owned initial before) moved) initial.vacant start

/-! ## Clients -/

/-- The log is one of the clients', and so are the calls in progress. -/
structure Faithful (cl : Client κ Call Reply) (k₀ : Tid → κ) (s : State L S σ Call Reply κ) :
    Prop where
  log : Follows cl k₀ s.log fun t => (s.pc t).settle cl (s.locals t)
  calling : ∀ t c, (s.pc t).calling = some c → cl.calls (s.locals t) c = true

/-- A step of `t` that ends no critical section. -/
theorem Faithful.stutter {k₀ : Tid → κ} {s s' : State L S σ Call Reply κ}
    (before : Faithful cl k₀ s) (t : Tid) (log : s'.log = s.log)
    (settled : (s'.pc t).settle cl (s'.locals t) = (s.pc t).settle cl (s.locals t))
    (calling : ∀ c, (s'.pc t).calling = some c → cl.calls (s'.locals t) c = true)
    (pc : ∀ u, u ≠ t → s'.pc u = s.pc u) (locals : ∀ u, u ≠ t → s'.locals u = s.locals u) :
    Faithful cl k₀ s' := by
  constructor
  · have same : (fun u => (s'.pc u).settle cl (s'.locals u)) =
        fun u => (s.pc u).settle cl (s.locals u) := by
      funext u
      by_cases here : u = t
      · rw [here, settled]
      · rw [pc u here, locals u here]
    rw [log, same]
    exact before.log
  · intro u c calls
    by_cases here : u = t
    · subst here
      exact calling c calls
    · rw [pc u here] at calls
      rw [locals u here]
      exact before.calling u c calls

/-- A step of `t` before `unlock`. -/
theorem Faithful.advance {k₀ : Tid → κ} {s : State L S σ Call Reply κ}
    (before : Faithful cl k₀ s) {t : Tid} {new : Pc L S Call Reply} {lock : W} {mem : σ}
    (settled : new.settle cl (s.locals t) = (s.pc t).settle cl (s.locals t))
    (calling : ∀ c, new.calling = some c → cl.calls (s.locals t) c = true) :
    Faithful cl k₀ { s with lock := lock, mem := mem, pc := Function.update s.pc t new } := by
  refine before.stutter t rfl ?_ ?_ (fun u ne => Function.update_of_ne ne _ _) fun _ _ => rfl
  · simp only [Function.update_self, settled]
  · simpa only [Function.update_self] using calling

theorem Faithful.step {k₀ : Tid → κ} {s s' : State L S σ Call Reply κ}
    {e : Event Tid Call χ ξ} (before : Faithful cl k₀ s) (moved : step O cl s e = some s') :
    Faithful cl k₀ s' := by
  rcases step_cases moved with ⟨t, c, -, out, allowed, rfl⟩ |
    ⟨t, c, a, x, w, -, locking, done, rfl⟩ | ⟨t, c, a, x, w, a', -, locking, done, rfl⟩ |
    ⟨t, c, o, k, x, r, m, -, inside, done, rfl⟩ | ⟨t, c, r, p, x, w, p', -, unlocking, done, rfl⟩
  · apply before.advance (by rw [out]; rfl)
    intro _ known
    cases known
    exact allowed
  · apply before.advance (by rw [locking]; rfl)
    intro _ known
    cases known
    exact before.calling t c (by rw [locking]; rfl)
  · apply before.advance (by rw [locking]; rfl)
    intro _ known
    cases known
    exact before.calling t c (by rw [locking]; rfl)
  · apply before.advance (by rw [inside]; rfl)
    intro _ known
    cases known
    exact before.calling t c (by rw [inside]; rfl)
  · obtain ⟨settled, calling⟩ := Pc.settle_of_atUnlock cl unlocking (s.locals t)
    obtain ⟨settled', calling'⟩ := Pc.settle_unlocking (S := S) cl c r p' (s.locals t)
    have others : ∀ u, u ≠ t → (if p'.isNone then Function.update s.locals t
        (cl.returns (s.locals t) c r) else s.locals) u = s.locals u := by
      intro u ne
      split
      · exact Function.update_of_ne ne _ _
      · rfl
    have own : (if p'.isNone then Function.update s.locals t
        (cl.returns (s.locals t) c r) else s.locals) t =
          if p'.isNone then cl.returns (s.locals t) c r else s.locals t := by
      split
      · exact Function.update_self ..
      · rfl
    by_cases leaving : L.owns p = true ∧ p'.any L.owns = false
    · obtain ⟨owns, after⟩ := leaving
      simp only [owns, ↓reduceIte] at settled calling
      simp only [after, Bool.false_eq_true, ↓reduceIte] at settled' calling'
      have allowed := before.calling t c calling
      constructor
      · simp only [owns, after, Bool.not_false, Bool.and_true, ↓reduceIte]
        have snoc := before.log.snoc t c r (by rw [settled]; exact allowed)
        rw [settled] at snoc
        convert snoc using 1
        funext u
        by_cases here : u = t
        · subst here
          rw [Function.update_self, Function.update_self, own, settled']
        · rw [Function.update_of_ne here, Function.update_of_ne here, others u here]
      · intro u c' calls
        by_cases here : u = t
        · subst here
          simp only [Function.update_self, calling', reduceCtorEq] at calls
        · simp only [Function.update_of_ne here] at calls
          simp only [others u here]
          exact before.calling u c' calls
    · have kept : (L.owns p && !p'.any L.owns) = false := by
        cases owns : L.owns p with
        | false => rfl
        | true =>
          cases after : p'.any L.owns with
          | false => exact (leaving ⟨owns, after⟩).elim
          | true => rfl
      have stays : p'.any L.owns = L.owns p := by
        cases owns : L.owns p with
        | false => exact (L.releasing done owns).2
        | true => simpa only [owns, Bool.true_and, Bool.not_eq_false'] using kept
      refine before.stutter t ?_ ?_ ?_ (fun u ne => Function.update_of_ne ne _ _) others
      · simp only [kept, Bool.false_eq_true, ↓reduceIte]
      · simp only [Function.update_self, own, settled', settled, stays]
      · intro c' calls
        simp only [Function.update_self, calling', stays] at calls
        have same := before.calling t c' (by rw [calling, calls])
        have running : p'.isNone = false := by
          cases p' with
          | none =>
            rw [← stays] at calls
            cases calls
          | some q => rfl
        simp only [running, Bool.false_eq_true, ↓reduceIte]
        exact same

/-- **The log is a log of the clients**, whose private states are those of the
threads that are not in a call. -/
theorem faithful {s₀ s : State L S σ Call Reply κ} (initial : Initial s₀)
    (reached : Reachable (step O cl) s₀ s) : Faithful cl s₀.locals s := by
  refine reached.invariant (P := Faithful cl s₀.locals) ?_ fun _ _ _ before moved =>
    before.step moved
  constructor
  · simp only [initial.fresh, initial.idle, Pc.settle]
    exact Follows.nil
  · intro t c calls
    rw [initial.idle t] at calls
    cases calls

end Locked

end Conc
