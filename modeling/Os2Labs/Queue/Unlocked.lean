import Os2Labs.Conc.Client
import Os2Labs.Queue.Object

/-!
# The queue of `lab2/1`

The operations of `lab2/1/queue.c` take no lock: a thread that calls one performs
its accesses one by one, interleaved with whatever the other threads do.

Used by one thread, as in `queue-example.c`, the queue is a bounded FIFO
(`bounded_fifo`): no access faults although `queue_get` leaves `last` pointing to
the node it freed.
-/

namespace Os2Labs.Queue.Unlocked

open Conc

variable {κ Tid : Type}

structure State (κ Tid : Type) where
  mem : Mem
  /-- The call in progress and the rest of its code. -/
  pc : Tid → Option (Call × Code Reply)
  locals : Tid → κ
  log : List (Entry Tid)

inductive Event (Tid : Type) where
  | call (t : Tid) (c : Call)
  | access (t : Tid) (new : Fresh)
  | ret (t : Tid)

variable [DecidableEq Tid]

/-- One step of one thread. -/
def step (cl : Client κ Call Reply) (s : State κ Tid) : Event Tid → Option (State κ Tid)
  | .call t c =>
      match s.pc t with
      | none =>
          if cl.calls (s.locals t) c then
            some { s with pc := Function.update s.pc t (some (c, code c)) }
          else none
      | some _ => none
  | .access t new =>
      match s.pc t with
      | some (c, .op o k) =>
          (sem.exec o new s.mem).map fun out =>
            { s with mem := out.2, pc := Function.update s.pc t (some (c, k out.1)) }
      | _ => none
  | .ret t =>
      match s.pc t with
      | some (c, .ret r) =>
          some { s with
            pc := Function.update s.pc t none
            locals := Function.update s.locals t (cl.returns (s.locals t) c r)
            log := s.log ++ [⟨t, c, r⟩] }
      | _ => none

/-- After `queue_init(max_count)`. -/
def init (maxCount : Int) (locals : Tid → κ) : State κ Tid where
  mem := queueInit maxCount
  pc _ := none
  locals := locals
  log := []

/-- The next access of some thread is undefined behaviour or a failing assert. -/
def Faulty (s : State κ Tid) : Prop :=
  ∃ t c o k, s.pc t = some (c, .op o k) ∧ o.Faults s.mem

/-- The access that an event performs. -/
def performed (s : State κ Tid) : Event Tid → Option (Answered sig)
  | .access t new =>
      match s.pc t with
      | some (_, .op o _) => (sem.exec o new s.mem).map fun out => ⟨o, out.1⟩
      | _ => none
  | _ => none

/-- Everything a step can do. -/
theorem step_cases {cl : Client κ Call Reply} {s s' : State κ Tid} {e : Event Tid}
    (moved : step cl s e = some s') :
    (∃ t c, e = .call t c ∧ s.pc t = none ∧ cl.calls (s.locals t) c = true ∧
      s' = { s with pc := Function.update s.pc t (some (c, code c)) }) ∨
    (∃ t c o k new r m, e = .access t new ∧ s.pc t = some (c, .op o k) ∧
      sem.exec o new s.mem = some (r, m) ∧
      s' = { s with mem := m, pc := Function.update s.pc t (some (c, k r)) }) ∨
    (∃ t c r, e = .ret t ∧ s.pc t = some (c, .ret r) ∧
      s' = { s with
        pc := Function.update s.pc t none
        locals := Function.update s.locals t (cl.returns (s.locals t) c r)
        log := s.log ++ [⟨t, c, r⟩] }) := by
  cases e with
  | call t c =>
    simp only [step] at moved
    split at moved
    · next out =>
      split at moved
      · next allowed =>
        cases moved
        exact Or.inl ⟨t, c, rfl, out, allowed, rfl⟩
      · cases moved
    · cases moved
  | access t new =>
    simp only [step] at moved
    split at moved
    · next c o k inside =>
      rcases Option.map_eq_some_iff.mp moved with ⟨⟨r, m⟩, done, rfl⟩
      exact Or.inr (Or.inl ⟨t, c, o, k, new, r, m, rfl, inside, done, rfl⟩)
    · cases moved
  | ret t =>
    simp only [step] at moved
    split at moved
    · next c r inside =>
      cases moved
      exact Or.inr (Or.inr ⟨t, c, r, rfl, inside, rfl⟩)
    · cases moved

/-! ## One thread -/

/-- A call in progress is inside the object. -/
def inside : Option (Call × Code Reply) → Option (Call × Unit × Code Reply)
  | none => none
  | some (c, p) => some (c, (), p)

/-- The state of the queue as a guarded object. -/
def guarded (s : State κ Tid) : Guarded.State sig Mem Call Reply Unit Tid where
  mem := s.mem
  crit := inside ∘ s.pc
  log := s.log

/-- A single thread guards the queue by itself. -/
theorem step_acts [Subsingleton Tid] {cl : Client κ Call Reply} {s s' : State κ Tid}
    {e : Event Tid} (moved : step cl s e = some s') :
    Guarded.Act object (performed s e) (guarded s) (guarded s') := by
  rcases step_cases moved with ⟨t, c, rfl, out, -, rfl⟩ |
    ⟨t, c, o, k, new, r, m, rfl, running, done, rfl⟩ | ⟨t, c, r, rfl, running, rfl⟩
  · simp only [guarded, Function.comp_update]
    apply Guarded.Act.enter t c
    intro u
    simp only [Function.comp_apply, Subsingleton.elim u t, out, inside]
  · simp only [guarded, Function.comp_update, performed, running, done, Option.map_some]
    exact Guarded.Act.access (h := ()) (by simp only [Function.comp_apply, running, inside]) done
  · simp only [guarded, Function.comp_update]
    exact Guarded.Act.leave (h := ()) (by simp only [Function.comp_apply, running, inside])

/-- What holds of the queue whenever one thread uses it. -/
theorem reachable_sound [Subsingleton Tid] {cap : Nat} (small : (cap : Int) ≤ intMax)
    {cl : Client κ Call Reply} {locals : Tid → κ} {s : State κ Tid}
    (reached : Reachable (step cl) (init cap locals) s) :
    Guarded.Inv object (Logged cap) (fun _ _ _ => True) (guarded s) :=
  Guarded.sound (object_spec cap) (fun _ => rfl) (logged_queueInit small)
    (reached.refines fun _ _ _ _ moved => (step_acts moved).step)

omit [DecidableEq Tid] in
/-- The access a call is about to make is defined. -/
theorem not_faulty {R : Mem → List (Entry Tid) → Prop}
    {J : List (Entry Tid) → Call → Mem × Unit → Prop} {s : State κ Tid}
    (inv : Guarded.Inv object R J (guarded s)) : ¬ Faulty s := by
  intro faulty
  rcases faulty with ⟨t, c, o, k, running, fault⟩
  refine inv.defined (t := t) (c := c) (h := ()) (o := o) (k := k) ?_ fault
  simp only [guarded, Function.comp_apply, running, inside]

/-- A call of one thread runs to its end. -/
theorem finishes {cap : Nat} (small : (cap : Int) ≤ intMax) {c : Call} {p : Code Reply}
    {s : State Unit Unit} (reached : Reachable (step Client.any) (init cap fun _ => ()) s)
    (running : s.pc () = some (c, p)) :
    ∃ s' r, Reachable (step Client.any) (init cap fun _ => ()) s' ∧
      s'.pc () = some (c, .ret r) ∧ s'.log = s.log := by
  induction p generalizing s with
  | ret r => exact ⟨s, r, reached, running, rfl⟩
  | op o k ih =>
    have here : (guarded s).crit () = some (c, (), .op o k) := by
      simp only [guarded, Function.comp_apply, running, inside]
    rcases (reachable_sound small reached).enabled here with ⟨new, r, m, done⟩
    have moved : step Client.any s (.access () new) =
        some { s with mem := m, pc := Function.update s.pc () (some (c, k r)) } := by
      simp only [step, running, show sem.exec o new s.mem = some (r, m) from done, Option.map_some]
    rcases ih r (reached.tail moved) (Function.update_self () (some (c, k r)) s.pc) with
      ⟨s', r', reached', returning, log⟩
    exact ⟨s', r', reached', returning, log⟩

/-- One thread can make any sequence of calls. -/
theorem exists_calls {cap : Nat} (small : (cap : Int) ≤ intMax) (calls : List Call) :
    ∃ s : State Unit Unit, Reachable (step Client.any) (init cap fun _ => ()) s ∧
      s.pc () = none ∧ s.log.map Done.call = calls := by
  induction calls using List.reverseRecOn with
  | nil => exact ⟨_, .refl _, rfl, rfl⟩
  | append_singleton calls c ih =>
    rcases ih with ⟨s, reached, out, made⟩
    have called : step Client.any s (.call () c) =
        some { s with pc := Function.update s.pc () (some (c, code c)) } := by
      simp only [step, out, Client.any, ↓reduceIte]
    rcases finishes small (reached.tail called)
      (Function.update_self () (some (c, code c)) s.pc) with ⟨s', r, reached', running, log⟩
    have returned : step Client.any s' (.ret ()) = some { s' with
        pc := Function.update s'.pc () none
        locals := Function.update s'.locals () ()
        log := s'.log ++ [⟨(), c, r⟩] } := by
      simp only [step, running, Client.any]
    refine ⟨_, reached'.tail returned, Function.update_self () none s'.pc, ?_⟩
    simp only [log, List.map_append, made, List.map_cons, List.map_nil]

/-- **The queue of `lab2/1` is a bounded FIFO.**  Whatever calls one thread makes
after `queue_init(max_count)`, in every state reached the completed calls have
the replies of a FIFO of capacity `max_count`; the call in progress does not fault
and can go on; and between calls, an empty queue that was ever added to has its
`last` pointing to a node that is not allocated. -/
theorem bounded_fifo {maxCount : Int} (nonneg : 0 ≤ maxCount) (isInt : maxCount ≤ intMax)
    {s : State Unit Unit}
    (reached : Reachable (step Client.any) (init maxCount fun _ => ()) s) :
    ¬ Faulty s ∧
      (∀ c o k, s.pc () = some (c, .op o k) → ∃ new, (step Client.any s (.access () new)).isSome) ∧
      ∃ items, Legal (Fifo.step maxCount.toNat) [] s.log items ∧
        (s.pc () = none → items = [] → Fifo.inserted s.log ≠ [] →
          ∃ a, s.mem.q.last = some a ∧ s.mem.heap a = none) := by
  rcases Int.eq_ofNat_of_zero_le nonneg with ⟨cap, rfl⟩
  have inv := reachable_sound isInt reached
  refine ⟨?_, ?_, ?_⟩
  · exact not_faulty inv
  · intro c o k running
    obtain ⟨new, r, m, done⟩ := inv.enabled (t := ()) (c := c) (h := ()) (o := o) (k := k) (by
      simp only [guarded, Function.comp_apply, running, inside])
    exact ⟨new, by simp only [step, running, show sem.exec o new s.mem = some (r, m) from done,
      Option.map_some, Option.isSome_some]⟩
  · obtain ⟨m, items, past⟩ := inv.past
    refine ⟨items, past.legal, fun idle empty used => ?_⟩
    obtain ⟨items', holds⟩ := inv.idle fun t => by
      simp only [guarded, Function.comp_apply, idle, inside]
    obtain rfl : items' = items := holds.legal.unique past.legal
    subst empty
    exact holds.dangling used

/-- The schedule of one call made to completion by the only thread. -/
def alone (c : Call) (accesses : Nat) : List (Event Unit) :=
  .call () c :: List.replicate accesses (.access () ⟨0, ⟨0, none⟩⟩) ++ [.ret ()]

/-- An add, a failing add and a get on a queue of capacity 1, which is then empty
with a dangling `last`. -/
theorem bounded_fifo_drained : ∃ s : State Unit Unit,
    s.log.map (fun d => d.reply) = [⟨1, none⟩, ⟨0, none⟩, ⟨1, some 7⟩] ∧ ¬ Faulty s ∧
      ∃ items, Legal (Fifo.step 1) [] s.log items ∧
        (s.pc () = none → items = [] → Fifo.inserted s.log ≠ [] →
          ∃ a, s.mem.q.last = some a ∧ s.mem.heap a = none) := by
  have reached : Reachable (step Client.any) (init 1 fun _ => ()) _ :=
    ⟨alone (.add 7) 18 ++ alone (.add 8) 7 ++ alone .get 15, rfl⟩
  have sound := bounded_fifo (show (0 : Int) ≤ 1 by decide) (by decide) reached
  exact ⟨_, by decide, sound.1, sound.2.2⟩

end Os2Labs.Queue.Unlocked
