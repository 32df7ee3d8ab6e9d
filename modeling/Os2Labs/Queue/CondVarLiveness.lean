import Mathlib.Data.Prod.Lex
import Mathlib.Order.WellFounded
import Os2Labs.Conc.Inevitable
import Os2Labs.Conc.Population
import Os2Labs.Queue.CondVarStall

/-!
# The condition-variable queue delivers or stalls

Without spurious wake-ups every wake-up is paid for by a completed call, so the threads cannot
keep each other busy: whatever is scheduled, values are delivered until all threads sleep
(`delivers_or_stalls`).  With one writer and one reader, as in `queue-threads.c`, they never
do, and any number of values is delivered (`two_deliver`).

The measure is lexicographic: the turn of the writers, the way of every thread to its sleep or
into the critical section, and what is left of that.
-/

namespace Os2Labs.Queue

open Conc

/-- Clients that keep to one function, and always call it again. -/
structure Dedicated {κ : Type} (cl : Client κ Call Reply) (role : κ → Role) : Prop where
  calls : ∀ k c, cl.calls k c = true → CondVar.looping.calls (role k) c = true
  again : ∀ k, ∃ c, cl.calls k c = true
  keeps : ∀ k c r, role (cl.returns k c r) = role k

def roleOf : Local → Role
  | .reader .. => .reader
  | .writer _ => .writer

/-- The reader and the writer of `queue-threads.c` are such clients. -/
theorem dedicated_readerWriter : Dedicated readerWriter roleOf where
  calls k c allowed := by
    cases k with
    | reader =>
      cases c with
      | add v => cases allowed
      | get => rfl
    | writer =>
      cases c with
      | add v => rfl
      | get => cases allowed
  again k := by
    cases k with
    | reader => exact ⟨.get, rfl⟩
    | writer i => exact ⟨.add i, decide_eq_true rfl⟩
  keeps k c r := by
    cases k with
    | reader | writer =>
      simp only [readerWriter]
      split <;> rfl

namespace CondVar

/-! ## The measure -/

def turn : Operation → Nat
  | .write => 1
  | .read => 0

/-- The way of a thread to its sleep, or into the critical section.  A signal pays for the
wake-up of another thread. -/
def way (asleep : Bool) : Pc → Nat
  | .condSignal .. => 20
  | .mutexUnlock .. => 8
  | .idle => 7
  | .mutexLock _ => 6
  | .waiting _ => if asleep then 1 else 6
  | .testOperation _ => 5
  | .condWait _ => 4
  | .inside .. => 0

/-- The accesses left of the critical section. -/
noncomputable def left : Pc → Nat
  | .inside _ p => p.depth
  | _ => 0

variable {κ Tid : Type} [DecidableEq Tid] {cl : Client κ Call Reply} {s s' : State κ Tid} {t : Tid}
  {new : Pc}

/-- A call in its turn that sets the operation has succeeded. -/
theorem delivered_of_get {spurious : Bool} {cap : Nat} (room : 1 ≤ cap)
    (small : (cap : Int) ≤ intMax) {locals : Tid → κ}
    (reached : Reachable (step spurious cl) (init cap locals) s) {r : Reply}
    (here : s.pc t = .inside .get (.ret r)) :
    ∃ v, Fifo.delivered (s.log ++ [⟨t, .get, r⟩]) = Fifo.delivered s.log ++ [v] := by
  have inv := reachable_sound small reached
  have one := ((reachable_turns room small reached).reply room inv here).1
  have inside : (guarded s).crit t = some (.get, (), .ret r) := by
    simp only [guarded, Function.comp_apply, here, Pc.crit]
  obtain ⟨-, items, after⟩ := inv.busy t .get () _ inside
  obtain ⟨before, -, reply, -⟩ := legal_append.mp after.legal
  dsimp only at reply
  cases before with
  | nil =>
    rw [← reply] at one
    cases one
  | cons v rest =>
    rw [← reply]
    exact ⟨v, Fifo.delivered_value s.log t .get 1 v⟩

/-- What a thread inside has left to do is bounded. -/
theorem reachable_bounded {spurious : Bool} {cap : Nat} {locals : Tid → κ}
    (reached : Reachable (step spurious cl) (init cap locals) s) {c : Call} {p : Code Reply}
    (here : s.pc t = .inside c p) : p.Bounded := by
  have run : Relation.ReflTransGen (Guarded.Step object) (guarded (init cap locals)) (guarded s) :=
    reached.refines fun _ _ _ before moved => (step_acts (owned before) moved).step
  apply Guarded.bounded code_bounded (fun _ => rfl) run t c ()
  simp only [guarded, Function.comp_apply, here, Pc.crit]

/-- Only threads in `pthread_cond_wait` sleep. -/
theorem reachable_asleep {spurious : Bool} {maxCount : Int} {locals : Tid → κ}
    (reached : Reachable (step spurious cl) (init maxCount locals) s) :
    ∀ t ∈ s.waiters, ∃ c, s.pc t = .waiting c := by
  refine reached.invariant (P := fun s => ∀ t ∈ s.waiters, ∃ c, s.pc t = .waiting c) nofun ?_
  intro s s' e asleep moved
  have keep : ∀ (t : Tid) (new : Pc), (∀ c, s.pc t ≠ .waiting c) → ∀ u ∈ s.waiters,
      ∃ c, (s.goto t new).pc u = .waiting c := by
    intro t new out u member
    have ne : u ≠ t := by
      intro same
      subst same
      obtain ⟨c, there⟩ := asleep u member
      exact out c there
    simp only [State.goto, Function.update_of_ne ne]
    exact asleep u member
  cases step_move moved with
  | call here allowed => exact keep _ _ (by simp [here])
  | lock here free => exact keep _ _ (by simp [here])
  | @relock t c here woken free =>
    intro u member
    have ne : u ≠ t := by
      intro same
      subst same
      exact woken member
    simp only [State.goto, Function.update_of_ne ne]
    exact asleep u member
  | enter here turn => exact keep _ _ (by simp [here])
  | refuse here turn => exact keep _ _ (by simp [here])
  | @wait t c here =>
    intro u member
    rcases Finset.mem_insert.mp member with rfl | member
    · exact ⟨c, Function.update_self ..⟩
    · exact keep t (.waiting c) (by simp [here]) u member
  | spurious allowed there => exact fun u member => asleep u (Finset.mem_of_mem_erase member)
  | access here done => exact keep _ _ (by simp [here])
  | setOperation here => exact keep _ _ (by simp [here])
  | signalNobody here nobody => exact keep _ _ (by simp [here])
  | signal here there =>
    exact fun u member => keep _ _ (by simp [here]) u (Finset.mem_of_mem_erase member)
  | unlock here => exact keep _ _ (by simp [here])

noncomputable def measure [Fintype Tid] (s : State κ Tid) : Nat ×ₗ Nat ×ₗ Nat :=
  toLex (turn s.operation, toLex (∑ t, way (decide (t ∈ s.waiters)) (s.pc t), ∑ t, left (s.pc t)))

section Measure

variable [Fintype Tid]

/-- A step that takes a thread further. -/
theorem measure_lt_of_way (pc : s'.pc = Function.update s.pc t new)
    (operation : s'.operation = s.operation)
    (others : ∀ u, u ≠ t → (u ∈ s'.waiters ↔ u ∈ s.waiters))
    (less : way (decide (t ∈ s'.waiters)) new < way (decide (t ∈ s.waiters)) (s.pc t)) :
    measure s' < measure s := by
  have moved := sum_move (f := fun u => way (decide (u ∈ s.waiters)) (s.pc u))
    (g := fun u => way (decide (u ∈ s'.waiters)) (s'.pc u)) (t := t) <| by
      intro u ne
      simp only [pc, Function.update_of_ne ne, others u ne]
  simp only [pc, Function.update_self] at moved
  refine Prod.Lex.toLex_lt_toLex.mpr (Or.inr ⟨?_, Prod.Lex.toLex_lt_toLex.mpr (Or.inl ?_)⟩)
  · rw [operation]
  · simp only [pc]
    omega

/-- An access. -/
theorem measure_lt_of_left (pc : s'.pc = Function.update s.pc t new)
    (operation : s'.operation = s.operation) (waiters : s'.waiters = s.waiters)
    (same : ∀ asleep, way asleep new = way asleep (s.pc t)) (less : left new < left (s.pc t)) :
    measure s' < measure s := by
  have way_move := sum_move (f := fun u => way (decide (u ∈ s.waiters)) (s.pc u))
    (g := fun u => way (decide (u ∈ s'.waiters)) (s'.pc u)) (t := t) <| by
      intro u ne
      simp only [pc, Function.update_of_ne ne, waiters]
  have left_move := sum_move (f := fun u => left (s.pc u)) (g := fun u => left (s'.pc u))
    (t := t) fun u ne => by simp only [pc, Function.update_of_ne ne]
  simp only [pc, waiters, Function.update_self, same] at way_move left_move
  refine Prod.Lex.toLex_lt_toLex.mpr (Or.inr ⟨?_, Prod.Lex.toLex_lt_toLex.mpr (Or.inr ⟨?_, ?_⟩)⟩)
  · rw [operation]
  · simp only [pc, waiters]
    omega
  · simp only [pc]
    omega

/-- A signal that wakes `u`. -/
theorem measure_lt_of_signal {c : Call} {r : Reply} {u : Tid} (here : s.pc t = .condSignal c r)
    (awake : t ∉ s.waiters) (asleep : u ∈ s.waiters) :
    measure { s.goto t (.mutexUnlock c r) with waiters := s.waiters.erase u } < measure s := by
  have ne : u ≠ t := by
    intro same
    subst same
    exact awake asleep
  -- first the signal, then the wake-up
  have signal := sum_move (f := fun v => way (decide (v ∈ s.waiters)) (s.pc v))
    (g := fun v => way (decide (v ∈ s.waiters)) ((s.goto t (.mutexUnlock c r)).pc v)) (t := t) <| by
      intro v apart
      simp only [State.goto, Function.update_of_ne apart]
  have wake := sum_move
    (f := fun v => way (decide (v ∈ s.waiters)) ((s.goto t (.mutexUnlock c r)).pc v))
    (g := fun v => way (decide (v ∈ s.waiters.erase u)) ((s.goto t (.mutexUnlock c r)).pc v))
    (t := u) <| by
      intro v apart
      simp only [Finset.mem_erase, ne_eq, apart, not_false_eq_true, true_and]
  have paid : way (decide (u ∈ s.waiters.erase u)) ((s.goto t (.mutexUnlock c r)).pc u) ≤
      5 + way (decide (u ∈ s.waiters)) ((s.goto t (.mutexUnlock c r)).pc u) := by
    simp only [Finset.notMem_erase, asleep, decide_false, decide_true]
    cases (s.goto t (.mutexUnlock c r)).pc u <;> simp [way]
  have before : way (decide (t ∈ s.waiters)) (s.pc t) = 20 := by
    rw [here]
    rfl
  have after : way (decide (t ∈ s.waiters)) ((s.goto t (.mutexUnlock c r)).pc t) = 8 := by
    simp only [State.goto, Function.update_self]
    rfl
  have less : ∑ v, way (decide (v ∈ s.waiters.erase u)) ((s.goto t (.mutexUnlock c r)).pc v) <
      ∑ v, way (decide (v ∈ s.waiters)) (s.pc v) := by omega
  exact Prod.Lex.toLex_lt_toLex.mpr (Or.inr ⟨rfl, Prod.Lex.toLex_lt_toLex.mpr (Or.inl less)⟩)

/-- The writers' turn is over. -/
theorem measure_lt_of_turn {r : Reply} {v : CInt} {log : List (Entry Tid)}
    (writes : s.operation = .write) :
    measure { s.goto t (.condSignal (.add v) r) with operation := .read, log := log } <
      measure s := by
  refine Prod.Lex.toLex_lt_toLex.mpr (Or.inl ?_)
  rw [writes]
  exact Nat.one_pos

/-- Every step delivers a value or decreases the measure. -/
theorem measure_lt {cap : Nat} (room : 1 ≤ cap) (small : (cap : Int) ≤ intMax) {locals : Tid → κ}
    (reached : Reachable (step false cl) (init cap locals) s) {e : Event Tid}
    (moved : step false cl s e = some s') :
    (Fifo.delivered s.log).length < (Fifo.delivered s'.log).length ∨ measure s' < measure s := by
  have asleep := reachable_asleep reached
  have awake : ∀ t, (∀ c, s.pc t ≠ .waiting c) → t ∉ s.waiters := by
    intro t out member
    obtain ⟨c, there⟩ := asleep t member
    exact out c there
  cases step_move moved with
  | @call t c here allowed =>
    right
    refine measure_lt_of_way (t := t) rfl rfl (fun _ _ => Iff.rfl) ?_
    rw [here]
    exact Nat.lt_succ_self 6
  | @lock t c here free =>
    right
    refine measure_lt_of_way (t := t) rfl rfl (fun _ _ => Iff.rfl) ?_
    rw [here]
    exact Nat.lt_succ_self 5
  | @relock t c here woken free =>
    right
    refine measure_lt_of_way (t := t) rfl rfl (fun _ _ => Iff.rfl) ?_
    rw [here, decide_eq_false woken]
    exact Nat.lt_succ_self 5
  | @enter t c here turn =>
    right
    refine measure_lt_of_way (t := t) rfl rfl (fun _ _ => Iff.rfl) ?_
    rw [here]
    exact Nat.succ_pos 4
  | @refuse t c here turn =>
    right
    refine measure_lt_of_way (t := t) rfl rfl (fun _ _ => Iff.rfl) ?_
    rw [here]
    exact Nat.lt_succ_self 4
  | @wait t c here =>
    right
    refine measure_lt_of_way (t := t) rfl rfl ?_ ?_
    · intro u ne
      simp only [Finset.mem_insert, ne, false_or]
    · rw [here]
      simp [way]
  | spurious allowed there => cases allowed
  | @access t c o k new r m here done =>
    right
    refine measure_lt_of_left (t := t) rfl rfl rfl (fun _ => by rw [here]; rfl) ?_
    rw [here]
    exact (reachable_bounded reached here).depth_lt r
  | @setOperation t c r here =>
    have turn := (reachable_turns room small reached).inside t c _ here
    cases c with
    | add v => exact Or.inr (measure_lt_of_turn turn)
    | get =>
      left
      obtain ⟨v, more⟩ := delivered_of_get room small reached here
      simp only [more, List.length_append, List.length_singleton, Nat.lt_succ_self]
  | @signalNobody t c r here nobody =>
    right
    refine measure_lt_of_way (t := t) rfl rfl (fun _ _ => Iff.rfl) ?_
    rw [here]
    simp [way]
  | signal here there => exact Or.inr (measure_lt_of_signal here (awake _ (by simp [here])) there)
  | @unlock t c r here =>
    right
    refine measure_lt_of_way (t := t) rfl rfl (fun _ _ => Iff.rfl) ?_
    rw [here]
    exact Nat.lt_succ_self 7

end Measure

/-! ## Somebody can move -/

/-- A thread that has the mutex can move. -/
theorem locked_moves {cap : Nat} (small : (cap : Int) ≤ intMax) {locals : Tid → κ}
    (reached : Reachable (step false cl) (init cap locals) s) (locked : (s.pc t).locked = true) :
    ∃ e s', step false cl s e = some s' := by
  cases here : s.pc t with
  | testOperation c =>
    refine ⟨.test t, ?_⟩
    simp only [step, here]
    split
    · exact ⟨_, rfl⟩
    · exact ⟨_, rfl⟩
  | condWait c =>
    refine ⟨.wait t, ?_⟩
    simp only [step, here]
    exact ⟨_, rfl⟩
  | inside c p =>
    cases p with
    | ret r =>
      refine ⟨.setOperation t, ?_⟩
      simp only [step, here]
      exact ⟨_, rfl⟩
    | op o k =>
      have inside : (guarded s).crit t = some (c, (), .op o k) := by
        simp only [guarded, Function.comp_apply, here, Pc.crit]
      obtain ⟨new, r, m, done⟩ := (reachable_sound small reached).enabled inside
      have performs : sem.exec o new s.mem = some (r, m) := done
      refine ⟨.access t new, ?_⟩
      simp only [step, here, performs, Option.map_some]
      exact ⟨_, rfl⟩
  | condSignal c r =>
    by_cases nobody : s.waiters = ∅
    · refine ⟨.signal t none, ?_⟩
      simp only [step, here, nobody, ↓reduceIte]
      exact ⟨_, rfl⟩
    · obtain ⟨u, asleep⟩ := Finset.nonempty_iff_ne_empty.mpr nobody
      refine ⟨.signal t (some u), ?_⟩
      simp only [step, here, asleep, ↓reduceIte]
      exact ⟨_, rfl⟩
  | mutexUnlock c r =>
    refine ⟨.unlock t, ?_⟩
    simp only [step, here]
    exact ⟨_, rfl⟩
  | idle | mutexLock | waiting =>
    rw [here] at locked
    cases locked

/-- With the mutex free, a thread that is awake can move. -/
theorem awake_moves (again : ∃ c, cl.calls (s.locals t) c = true) (free : s.mutex = none)
    (awake : t ∉ s.waiters) (unlocked : (s.pc t).locked = false) :
    ∃ e s', step false cl s e = some s' := by
  cases here : s.pc t with
  | idle =>
    obtain ⟨c, allowed⟩ := again
    refine ⟨.call t c, ?_⟩
    simp only [step, here, allowed, ↓reduceIte]
    exact ⟨_, rfl⟩
  | mutexLock c =>
    refine ⟨.lock t, ?_⟩
    simp only [step, here, free, ↓reduceIte]
    exact ⟨_, rfl⟩
  | waiting c =>
    refine ⟨.lock t, ?_⟩
    simp only [step, here, awake, free, not_false_eq_true, and_self, ↓reduceIte]
    exact ⟨_, rfl⟩
  | testOperation | condWait | inside | condSignal | mutexUnlock =>
    rw [here] at unlocked
    cases unlocked

/-- Unless all threads sleep, some thread can move. -/
theorem moves_or_stalled (again : ∀ k, ∃ c, cl.calls k c = true) {cap : Nat}
    (small : (cap : Int) ≤ intMax) {locals : Tid → κ}
    (reached : Reachable (step false cl) (init cap locals) s) (goes : ¬ Stalled s) :
    ∃ e s', step false cl s e = some s' := by
  cases holder : s.mutex with
  | some u => exact locked_moves small reached ((owned reached u).mpr holder)
  | none =>
    obtain ⟨t, awake⟩ := not_forall.mp goes
    cases locked : (s.pc t).locked with
    | true => exact locked_moves small reached locked
    | false => exact awake_moves (again _) holder awake locked

/-- The log only grows. -/
theorem step_log {spurious : Bool} {e : Event Tid} (moved : step spurious cl s e = some s') :
    s.log <+: s'.log := by
  cases step_move moved with
  | setOperation here => exact List.prefix_append _ _
  | _ => exact List.prefix_refl _

/-- **The condition-variable queue delivers or stalls.**  Clients that always make a further call
and a capacity of at least one: from every reachable state, whatever is scheduled, after
finitely many steps without spurious wake-ups `n` values have been delivered, or all threads
sleep. -/
theorem delivers_or_stalls [Fintype Tid] {maxCount : Int} (room : 1 ≤ maxCount)
    (isInt : maxCount ≤ intMax) (again : ∀ k, ∃ c, cl.calls k c = true) {locals : Tid → κ}
    (reached : Reachable (step false cl) (init maxCount locals) s) (n : Nat) :
    Inevitable (step false cl)
      (fun s' => n ≤ (Fifo.delivered s'.log).length ∨ Stalled s') s := by
  obtain ⟨cap, rfl⟩ := Int.eq_ofNat_of_zero_le (show 0 ≤ maxCount by omega)
  have space : 1 ≤ cap := by omega
  have keeps : ∀ s e s', Reachable (step false cl) (init cap locals) s →
      step false cl s e = some s' → Reachable (step false cl) (init cap locals) s' :=
    fun s e s' before moved => before.tail moved
  induction n with
  | zero => exact .now (Or.inl (Nat.zero_le _))
  | succ n ih =>
    refine ih.trans keeps ?_ reached
    intro s reached already
    rcases already with already | stalled
    · refine inevitable_of_measure (I := fun s => Reachable (step false cl) (init cap locals) s ∧
        n ≤ (Fifo.delivered s.log).length) wellFounded_lt measure ?_ ?_ ?_ ⟨reached, already⟩
      · intro s known ongoing
        exact moves_or_stalled again isInt known.1 fun stalled => ongoing (Or.inr stalled)
      · intro s e s' known moved
        obtain ⟨more, grown⟩ := step_log moved
        refine ⟨known.1.tail moved, ?_⟩
        rw [← grown, Fifo.delivered, List.filterMap_append, List.length_append]
        exact Nat.le_add_right_of_le known.2
      · intro s e s' known _ moved
        rcases measure_lt space isInt known.1 moved with more | less
        · exact Or.inl (Or.inl (Nat.lt_of_le_of_lt known.2 more))
        · exact Or.inr less
    · exact .now (Or.inr stalled)

/-! ## One writer and one reader -/

variable {role : κ → Role}

/-- The system as the roles see it. -/
def State.cast (role : κ → Role) (s : State κ Tid) : State Role Tid where
  mutex := s.mutex
  waiters := s.waiters
  operation := s.operation
  mem := s.mem
  pc := s.pc
  locals := role ∘ s.locals
  log := s.log

/-- Every move is a step. -/
theorem move_step {spurious : Bool} (move : Move spurious cl s s') :
    ∃ e, step spurious cl s e = some s' := by
  cases move with
  | @call t c here allowed => exact ⟨.call t c, by simp only [step, here, allowed, ↓reduceIte]⟩
  | @lock t c here free => exact ⟨.lock t, by simp only [step, here, free, ↓reduceIte]⟩
  | @relock t c here woken free =>
    refine ⟨.lock t, ?_⟩
    simp only [step, here, woken, free, not_false_eq_true, and_self, ↓reduceIte]
  | @enter t c here turn => exact ⟨.test t, by simp only [step, here, turn, ↓reduceIte]⟩
  | @refuse t c here turn => exact ⟨.test t, by simp only [step, here, turn, ↓reduceIte]⟩
  | @wait t c here => exact ⟨.wait t, by simp only [step, here]⟩
  | @spurious t allowed asleep =>
    exact ⟨.spurious t, by simp only [step, allowed, asleep, and_self, ↓reduceIte]⟩
  | @access t c o k new r m here done =>
    exact ⟨.access t new, by simp only [step, here, done, Option.map_some]⟩
  | @setOperation t c r here => exact ⟨.setOperation t, by simp only [step, here]⟩
  | @signalNobody t c r here nobody =>
    exact ⟨.signal t none, by simp only [step, here, nobody, ↓reduceIte]⟩
  | @signal t u c r here asleep =>
    exact ⟨.signal t (some u), by simp only [step, here, asleep, ↓reduceIte]⟩
  | @unlock t c r here => exact ⟨.unlock t, by simp only [step, here]⟩

theorem move_cast (dedicated : Dedicated cl role) (move : Move false cl s s') :
    Move false looping (s.cast role) (s'.cast role) := by
  cases move with
  | call here allowed => exact .call here (dedicated.calls _ _ allowed)
  | lock here free => exact .lock here free
  | relock here woken free => exact .relock here woken free
  | enter here turn => exact .enter here turn
  | refuse here turn => exact .refuse here turn
  | wait here => exact .wait here
  | spurious allowed asleep => cases allowed
  | access here done => exact .access here done
  | setOperation here => exact .setOperation here
  | signalNobody here nobody => exact .signalNobody here nobody
  | signal here asleep => exact .signal here asleep
  | @unlock t c r here =>
    have same : role ∘ Function.update s.locals t (cl.returns (s.locals t) c r) =
        Function.update (role ∘ s.locals) t (role (s.locals t)) := by
      rw [Function.comp_update, dedicated.keeps]
    simp only [State.cast, State.goto, same]
    exact .unlock (s := s.cast role) here

theorem reachable_cast (dedicated : Dedicated cl role) {maxCount : Int} {locals : Tid → κ}
    (reached : Reachable (step false cl) (init maxCount locals) s) :
    Reachable (step false looping) (init maxCount (role ∘ locals)) (s.cast role) := by
  refine reached.invariant
    (P := fun s => Reachable (step false looping) (init maxCount (role ∘ locals)) (s.cast role))
    (.refl _) ?_
  intro a b e before moved
  obtain ⟨e', there⟩ := move_step (move_cast dedicated (step_move moved))
  exact before.tail there

/-- **One writer and one reader.**  From every reachable state, whatever is scheduled, after
finitely many steps without spurious wake-ups `n` values have been delivered. -/
theorem two_deliver {maxCount : Int} (room : 1 ≤ maxCount) (isInt : maxCount ≤ intMax)
    (dedicated : Dedicated cl role) {locals : Fin 1 ⊕ Fin 1 → κ} (kinds : role ∘ locals = roles 1 1)
    {s : State κ (Fin 1 ⊕ Fin 1)} (reached : Reachable (step false cl) (init maxCount locals) s)
    (n : Nat) :
    Inevitable (step false cl) (fun s' => n ≤ (Fifo.delivered s'.log).length) s := by
  refine (delivers_or_stalls room isInt dedicated.again reached n).mono
    (I := Reachable (step false cl) (init maxCount locals)) ?_ ?_ reached
  · intro s e s' before moved
    exact before.tail moved
  · intro s reached either
    have cast := reachable_cast dedicated reached
    rw [kinds] at cast
    exact either.resolve_right (not_stalled cast)

/-- The program of the repository, with room for two. -/
theorem two_deliver_readerWriter :
    Inevitable (step false readerWriter) (fun s => 100 ≤ (Fifo.delivered s.log).length)
      (init 2 (Sum.elim (fun _ : Fin 1 => Local.writer 0) fun _ : Fin 1 => .reader 0 [] 0)) := by
  have kinds : roleOf ∘ Sum.elim (fun _ : Fin 1 => Local.writer 0)
      (fun _ : Fin 1 => .reader 0 [] 0) = roles 1 1 := by
    funext t
    cases t <;> rfl
  exact two_deliver (by decide) (by decide) dedicated_readerWriter kinds (.refl _) 100

end CondVar

end Os2Labs.Queue
