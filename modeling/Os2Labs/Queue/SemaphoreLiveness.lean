import Mathlib.Data.Prod.Lex
import Mathlib.Order.WellFounded
import Os2Labs.Conc.Inevitable
import Os2Labs.Queue.CondVarLiveness
import Os2Labs.Queue.SemaphoreProgress

/-!
# The semaphore queue delivers

Producers and consumers that always make a further call, with waits that are not interrupted.
Freedom from deadlock leaves open that the same threads move for ever and nothing gets
through.  `delivers`: whatever is scheduled, fair or not, any number of values is delivered.

Until the next value is delivered, every producer that goes round takes a token for a free
place, and only a consumer that has yet to post can give one back; `measure_lt` makes
this a measure.  Such clients are mapped to those that loop over one function.
-/

namespace Os2Labs.Queue.Semaphore

open Conc
open CondVar (looping)

/-- A thread and its role. -/
def weight : Role → Pc → Nat
  | .writer, .idle => 1
  | .writer, .semWait _ => 0
  | .writer, .mutexLock _ => 4
  | .writer, .inside .. => 3
  | .writer, .semPost .. => 2
  | .reader, .idle => 3
  | .reader, .semWait _ => 2
  | .reader, .mutexLock _ => 1
  | .reader, .inside .. => 0
  | .reader, .semPost .. => 9

/-- The accesses left of the critical section. -/
noncomputable def left : Pc → Nat
  | .inside _ _ p => p.depth
  | _ => 0

section Looping

variable {Tid : Type} [Fintype Tid] {kind : Tid → Role} {s s' : State Role Tid}

/-- The free places and the way of every thread, then the accesses. -/
noncomputable def measure (kind : Tid → Role) (s : State Role Tid) : Nat ×ₗ Nat :=
  toLex (5 * s.sem .spaceAvailable + ∑ t, weight (kind t) (s.pc t), ∑ t, left (s.pc t))

variable [DecidableEq Tid] {t : Tid} {new : Pc}

/-- A step that takes a thread further. -/
theorem measure_lt_of_weight (pc : s'.pc = Function.update s.pc t new)
    (less : 5 * s'.sem .spaceAvailable + weight (kind t) new <
      5 * s.sem .spaceAvailable + weight (kind t) (s.pc t)) : measure kind s' < measure kind s := by
  have moved := sum_move (f := fun u => weight (kind u) (s.pc u))
    (g := fun u => weight (kind u) (s'.pc u)) (t := t) fun u ne => by
      simp only [pc, Function.update_of_ne ne]
  simp only [pc, Function.update_self] at moved
  refine Prod.Lex.toLex_lt_toLex.mpr (Or.inl ?_)
  simp only [pc]
  omega

/-- An access. -/
theorem measure_lt_of_left (pc : s'.pc = Function.update s.pc t new)
    (sem : s'.sem = s.sem) (same : weight (kind t) new = weight (kind t) (s.pc t))
    (less : left new < left (s.pc t)) : measure kind s' < measure kind s := by
  have weight_move := sum_move (f := fun u => weight (kind u) (s.pc u))
    (g := fun u => weight (kind u) (s'.pc u)) (t := t) fun u ne => by
      simp only [pc, Function.update_of_ne ne]
  have left_move := sum_move (f := fun u => left (s.pc u)) (g := fun u => left (s'.pc u))
    (t := t) fun u ne => by simp only [pc, Function.update_of_ne ne]
  simp only [pc, Function.update_self] at weight_move left_move
  refine Prod.Lex.toLex_lt_toLex.mpr (Or.inr ⟨?_, ?_⟩)
  · simp only [pc, sem]
    omega
  · simp only [pc]
    omega

/-- A get that leaves its critical section has delivered a value. -/
theorem delivered_of_get {cap : Nat} (small : (cap : Int) ≤ intMax)
    (reached : Reachable (step false looping) (init cap kind) s) {h : Bool} {r : Reply}
    (here : s.pc t = .inside .get h (.ret r)) :
    ∃ v, Fifo.delivered (s.log ++ [⟨t, .get, r⟩]) = Fifo.delivered s.log ++ [v] := by
  have inv := reachable_sound small reached
  have one := ((reachable_conserved small reached).1.succeeds inv here).2
  have inside : (guarded s).crit t = some (.get, h, .ret r) := by
    simp only [guarded, Function.comp_apply, here, Pc.crit]
  obtain ⟨-, items, after⟩ := inv.busy t .get h _ inside
  obtain ⟨before, -, reply, -⟩ := legal_append.mp after.legal
  dsimp only at reply
  cases before with
  | nil =>
    rw [← reply] at one
    cases one
  | cons v rest =>
    rw [← reply]
    exact ⟨v, Fifo.delivered_value s.log t .get 1 v⟩

omit [Fintype Tid] in
/-- What a thread inside has left to do is bounded. -/
theorem reachable_bounded {cap : Nat} (reached : Reachable (step false looping) (init cap kind) s)
    {c : Call} {h : Bool} {p : Code Reply} (here : s.pc t = .inside c h p) : p.Bounded := by
  have run : Relation.ReflTransGen (Guarded.Step countedObject) (guarded (init cap kind))
      (guarded s) :=
    reached.refines fun _ _ _ before moved => (step_acts (owned before) moved).step
  apply Guarded.bounded code_bounded (fun _ => rfl) run t c h
  simp only [guarded, Function.comp_apply, here, Pc.crit]

/-- Every step delivers a value or decreases the measure. -/
theorem measure_lt {cap : Nat} (small : (cap : Int) ≤ intMax)
    (reached : Reachable (step false looping) (init cap kind) s) {e : Event Tid}
    (moved : step false looping s e = some s') :
    (Fifo.delivered s.log).length < (Fifo.delivered s'.log).length ∨
      measure kind s' < measure kind s := by
  have kinds := reachable_kinds reached
  have apart : SemT.spaceAvailable ≠ SemT.itemsAvailable := by decide
  rcases step_cases moved with ⟨t, c, -, here, allowed, rfl⟩ | ⟨t, c, -, here, positive, rfl⟩ |
    ⟨t, c, -, here, never, rfl⟩ | ⟨t, c, -, here, free, rfl⟩ |
    ⟨t, c, h, o, k, new, r, m, -, here, done, rfl⟩ | ⟨t, c, h, r, -, here, rfl⟩ |
    ⟨t, c, r, -, here, rfl⟩
  · right
    apply measure_lt_of_weight (s := s) (t := t) rfl
    rw [here]
    cases kind t with
    | reader | writer =>
      simp only [State.goto, weight]
      omega
  · right
    have mine := kinds.calls t c (by rw [here]; rfl)
    apply measure_lt_of_weight (s := s) (t := t) rfl
    rw [here]
    cases c with
    | add v =>
      -- the producer takes a free place
      cases role : kind t with
      | reader =>
        rw [role] at mine
        cases mine
      | writer =>
        simp only [waitsFor, weight, Function.update_self] at positive ⊢
        omega
    | get =>
      cases role : kind t with
      | writer =>
        rw [role] at mine
        cases mine
      | reader =>
        simp only [waitsFor, weight, Function.update_of_ne apart]
        omega
  · cases never
  · right
    apply measure_lt_of_weight (s := s) (t := t) rfl
    rw [here]
    cases kind t with
    | reader | writer =>
      simp only [State.goto, weight]
      omega
  · right
    refine measure_lt_of_left (s := s) (t := t) rfl rfl (by rw [here]; cases kind t <;> rfl) ?_
    rw [here]
    exact (reachable_bounded reached here).depth_lt r
  · cases c with
    | add v =>
      right
      have mine := kinds.calls t (.add v) (by rw [here]; rfl)
      apply measure_lt_of_weight (s := s) (t := t) rfl
      rw [here]
      cases role : kind t with
      | reader =>
        rw [role] at mine
        cases mine
      | writer =>
        simp only [State.goto, weight]
        omega
    | get =>
      left
      obtain ⟨v, more⟩ := delivered_of_get small reached here
      simp only [more, List.length_append, List.length_singleton, Nat.lt_succ_self]
  · right
    have mine := kinds.calls t c (by rw [here]; rfl)
    apply measure_lt_of_weight (s := s) (t := t) rfl
    rw [here]
    cases c with
    | add v =>
      cases role : kind t with
      | reader =>
        rw [role] at mine
        cases mine
      | writer =>
        simp only [posts, weight, semPost_of_ne apart]
        omega
    | get =>
      -- the consumer gives a free place back
      cases role : kind t with
      | writer =>
        rw [role] at mine
        cases mine
      | reader =>
        have one_more := semPost_le s.sem .spaceAvailable
        simp only [posts, weight]
        omega

end Looping

/-! ## Any such clients -/

section Dedicated

variable {κ Tid : Type} [DecidableEq Tid] {cl : Client κ Call Reply} {role : κ → Role}
  {s s' : State κ Tid}

/-- The system as the roles see it. -/
def State.cast (role : κ → Role) (s : State κ Tid) : State Role Tid where
  sem := s.sem
  mutex := s.mutex
  mem := s.mem
  pc := s.pc
  locals := role ∘ s.locals
  log := s.log

theorem step_cast (dedicated : Dedicated cl role) {e : Event Tid}
    (moved : step false cl s e = some s') :
    step false looping (s.cast role) e = some (s'.cast role) := by
  rcases step_cases moved with ⟨t, c, rfl, here, allowed, rfl⟩ | ⟨t, c, rfl, here, positive, rfl⟩ |
    ⟨t, c, rfl, here, never, rfl⟩ | ⟨t, c, rfl, here, free, rfl⟩ |
    ⟨t, c, h, o, k, new, r, m, rfl, here, done, rfl⟩ | ⟨t, c, h, r, rfl, here, rfl⟩ |
    ⟨t, c, r, rfl, here, rfl⟩
  · have known := dedicated.calls _ _ allowed
    simp only [step, State.cast, here, Function.comp_apply, known, ↓reduceIte, State.goto]
  · simp only [step, State.cast, here, positive, ↓reduceIte, State.goto]
  · cases never
  · simp only [step, State.cast, here, free, ↓reduceIte, State.goto]
  · have there : (s.cast role).pc t = .inside c h (.op o k) := here
    have performs : Queue.sem.exec o new (s.cast role).mem = some (r, m) := done
    simp only [step, there, performs, Option.map_some]
    rfl
  · simp only [step, State.cast, here, State.goto]
  · have same : role ∘ Function.update s.locals t (cl.returns (s.locals t) c r) =
        Function.update (role ∘ s.locals) t (role (s.locals t)) := by
      rw [Function.comp_update, dedicated.keeps]
    have there : (s.cast role).pc t = .semPost c r := here
    simp only [step, there]
    simp only [State.cast, State.goto, same]
    rfl

theorem reachable_cast (dedicated : Dedicated cl role) {maxCount : Int} {locals : Tid → κ}
    (reached : Reachable (step false cl) (init maxCount locals) s) :
    Reachable (step false looping) (init maxCount (role ∘ locals)) (s.cast role) := by
  refine reached.invariant
    (P := fun s => Reachable (step false looping) (init maxCount (role ∘ locals)) (s.cast role))
    (.refl _) ?_
  intro a b e before moved
  exact before.tail (step_cast dedicated moved)

/-- The log only grows. -/
theorem step_log {eintr : Bool} {e : Event Tid} (moved : step eintr cl s e = some s') :
    s.log <+: s'.log := by
  rcases step_cases moved with ⟨t, c, -, here, -, rfl⟩ | ⟨t, c, -, here, -, rfl⟩ |
    ⟨t, c, -, here, -, rfl⟩ | ⟨t, c, -, here, -, rfl⟩ |
    ⟨t, c, h, o, k, new, r, m, -, here, -, rfl⟩ | ⟨t, c, h, r, -, here, rfl⟩ |
    ⟨t, c, r, -, here, rfl⟩
  all_goals first
    | exact List.prefix_append _ _
    | exact List.prefix_refl _

/-- **The semaphore queue delivers.**  At least one producer and one consumer, and a capacity of at
least one: from every reachable state, whatever is scheduled, after finitely many steps `n`
values have been delivered. -/
theorem delivers [Fintype Tid] {maxCount : Int} (room : 1 ≤ maxCount) (isInt : maxCount ≤ intMax)
    (dedicated : Dedicated cl role) {locals : Tid → κ} {producer consumer : Tid}
    (produces : role (locals producer) = .writer) (consumes : role (locals consumer) = .reader)
    (reached : Reachable (step false cl) (init maxCount locals) s) (n : Nat) :
    Inevitable (step false cl) (fun s' => n ≤ (Fifo.delivered s'.log).length) s := by
  obtain ⟨cap, rfl⟩ := Int.eq_ofNat_of_zero_le (show 0 ≤ maxCount by omega)
  have produces : (role ∘ locals) producer = .writer := produces
  have consumes : (role ∘ locals) consumer = .reader := consumes
  have keeps : ∀ s e s', Reachable (step false cl) (init cap locals) s →
      step false cl s e = some s' → Reachable (step false cl) (init cap locals) s' :=
    fun s e s' before moved => before.tail moved
  induction n with
  | zero => exact .now (Nat.zero_le _)
  | succ n ih =>
    refine ih.trans keeps ?_ reached
    intro s reached already
    refine inevitable_of_measure (I := fun s => Reachable (step false cl) (init cap locals) s ∧
        n ≤ (Fifo.delivered s.log).length)
      wellFounded_lt (fun s => measure (role ∘ locals) (s.cast role)) ?_ ?_ ?_ ⟨reached, already⟩
    · intro s known _
      have cast := reachable_cast dedicated known.1
      obtain ⟨t, goes⟩ := not_all_blocked (by omega) isInt produces consumes cast
      obtain ⟨e, s', -, moved⟩ :=
        movable_of_not_blocked isInt known.1 (dedicated.again (s.locals t)) goes
      exact ⟨e, s', moved⟩
    · intro s e s' known moved
      obtain ⟨more, grown⟩ := step_log moved
      refine ⟨known.1.tail moved, ?_⟩
      rw [← grown, Fifo.delivered, List.filterMap_append, List.length_append]
      exact Nat.le_add_right_of_le known.2
    · intro s e s' known _ moved
      have reached := reachable_cast dedicated known.1
      rcases measure_lt isInt reached (step_cast dedicated moved) with more | less
      · exact Or.inl (Nat.lt_of_le_of_lt known.2 more)
      · exact Or.inr less

end Dedicated

/-! ## The program -/

instance : Fintype Role := ⟨{.reader, .writer}, fun r => by cases r <;> decide⟩

/-- The program of the repository, with room for two. -/
theorem delivers_readerWriter :
    Inevitable (step false readerWriter) (fun s => 100 ≤ (Fifo.delivered s.log).length)
      (init 2 startLocals) := by
  have produces : roleOf (startLocals .writer) = .writer := rfl
  have consumes : roleOf (startLocals .reader) = .reader := rfl
  exact delivers (by decide) (by decide) dedicated_readerWriter produces consumes (.refl _) 100

end Os2Labs.Queue.Semaphore
