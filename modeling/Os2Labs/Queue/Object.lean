import Os2Labs.Conc.Ghost
import Os2Labs.Conc.Inevitable
import Os2Labs.Queue.Spec

/-!
# The queue as a guarded object

`Logged cap m log`: the memory `m` is the queue of capacity `cap` after the calls
of `log`, whose replies are those of the abstract FIFO, and the statistics
counters count the calls of `log`.  `object_spec` says that both operations
keep it, which is all a lock has to know about them.
-/

namespace Os2Labs.Queue

open Conc

variable {Tid : Type}

/-- A completed call of one of the threads `Tid`. -/
abbrev Entry (Tid : Type) := Done Tid Call Reply

/-- The call returned 1. -/
def succeeded (d : Entry Tid) : Bool := d.reply.ret = 1

/-- The statistics counters are those of the calls in the log. -/
structure Tally (q : QueueT) (log : List (Entry Tid)) : Prop where
  addAttempts : q.addAttempts = log.countP fun d => d.call.isAdd
  getAttempts : q.getAttempts = log.countP fun d => !d.call.isAdd
  addCount : q.addCount = log.countP fun d => d.call.isAdd && succeeded d
  getCount : q.getCount = log.countP fun d => !d.call.isAdd && succeeded d

/-- The memory is the queue after the calls of the log, with the elements `items`. -/
structure Holds (cap : Nat) (m : Mem) (log : List (Entry Tid)) (items : List CInt) : Prop where
  rep : ∃ nodes, Rep cap m nodes items
  legal : Legal (Fifo.step cap) [] log items
  tally : Tally m.q log

/-- The memory is the queue after the calls of the log. -/
def Logged (cap : Nat) (m : Mem) (log : List (Entry Tid)) : Prop := ∃ items, Holds cap m log items

/-- A reply of the FIFO is 0 or 1. -/
theorem step_ret (cap : Nat) (items : List CInt) (c : Call) :
    (Fifo.step cap items c).1.ret = 0 ∨ (Fifo.step cap items c).1.ret = 1 := by
  rcases Fifo.step_cases cap items c with refused | ⟨v, -, added⟩ | ⟨v, l, -, -, got⟩
  · rw [refused]
    exact Or.inl rfl
  · rw [added]
    exact Or.inr rfl
  · rw [got]
    exact Or.inr rfl

/-- The adds that returned 1 are those that inserted. -/
theorem length_inserted (log : List (Entry Tid)) :
    (Fifo.inserted log).length = log.countP fun d => d.call.isAdd && succeeded d := by
  induction log with
  | nil => rfl
  | cons d log ih =>
    obtain ⟨t, c, r⟩ := d
    cases c with
    | add v =>
      by_cases one : r.ret = 1
      · simpa [Fifo.inserted, List.countP_cons, Fifo.Call.isAdd, succeeded, one] using ih
      · simpa [Fifo.inserted, List.countP_cons, Fifo.Call.isAdd, succeeded, one] using ih
    | get => simpa [Fifo.inserted, List.countP_cons, Fifo.Call.isAdd] using ih

/-- One more call. -/
theorem Tally.snoc {q q' : QueueT} {log : List (Entry Tid)} {t : Tid} {c : Call} {r : Reply}
    (tally : Tally q log) (after : Tallied c r q q') (flag : r.ret = 0 ∨ r.ret = 1) :
    Tally q' (log ++ [⟨t, c, r⟩]) := by
  have ret : r.ret = ((if r.ret = 1 then 1 else 0 : Nat) : Int) := by
    rcases flag with zero | one
    · simp [zero]
    · simp [one]
  constructor
  · rw [after.addAttempts, tally.addAttempts, List.countP_append]
    cases c <;> simp [Fifo.Call.isAdd]
  · rw [after.getAttempts, tally.getAttempts, List.countP_append]
    cases c <;> simp [Fifo.Call.isAdd]
  · rw [after.addCount, tally.addCount, List.countP_append]
    cases c with
    | add v => simpa [Fifo.Call.isAdd, succeeded] using ret
    | get => simp [Fifo.Call.isAdd]
  · rw [after.getCount, tally.getCount, List.countP_append]
    cases c with
    | add v => simp [Fifo.Call.isAdd]
    | get => simpa [Fifo.Call.isAdd, succeeded] using ret

/-- One more call on the queue. -/
theorem Holds.after {cap : Nat} {m : Mem} {log : List (Entry Tid)} {items : List CInt}
    (holds : Holds cap m log items) {t : Tid} {c : Call} {r : Reply} {x : Mem × Bool}
    (done : After cap m.q items c r x) : Logged cap x.1 (log ++ [⟨t, c, r⟩]) := by
  obtain ⟨rfl, rep, tallied⟩ := done
  exact ⟨_, rep, holds.legal.snoc rfl, holds.tally.snoc tallied (step_ret cap items c)⟩

/-- An empty queue that was ever added to has a dangling `last`. -/
theorem Holds.dangling {cap : Nat} {m : Mem} {log : List (Entry Tid)} (holds : Holds cap m log [])
    (used : Fifo.inserted log ≠ []) : ∃ a, m.q.last = some a ∧ m.heap a = none := by
  obtain ⟨nodes, rep⟩ := holds.rep
  have added : 0 < m.q.addCount := by
    rw [holds.tally.addCount, ← length_inserted]
    have pos := List.length_pos_iff.mpr used
    omega
  obtain ⟨a, last⟩ := Option.ne_none_iff_exists'.mp (rep.lastSet added)
  have none_nodes : nodes = [] := List.eq_nil_of_length_eq_zero rep.length_eq
  refine ⟨a, last, ?_⟩
  by_contra live
  have member := (rep.live a).mp live
  rw [none_nodes] at member
  cases member

/-- The gets that returned 1 are those that delivered. -/
theorem length_delivered {cap : Nat} {l l' : List CInt} {log : List (Entry Tid)}
    (legal : Legal (Fifo.step cap) l log l') :
    (Fifo.delivered log).length = log.countP fun d => !d.call.isAdd && succeeded d := by
  induction log generalizing l with
  | nil => rfl
  | cons d log ih =>
    obtain ⟨t, c, r⟩ := d
    obtain ⟨reply, rest⟩ := legal
    dsimp only at reply rest
    subst reply
    have later := ih rest
    cases c with
    | add v =>
      by_cases full : l.length = cap
      · simpa [Fifo.delivered, Fifo.Call.isAdd, Fifo.step_add_full full] using later
      · simpa [Fifo.delivered, Fifo.Call.isAdd, Fifo.step_add_room full] using later
    | get =>
      cases l with
      | nil => simpa [Fifo.delivered, Fifo.Call.isAdd, succeeded] using later
      | cons v l => simpa [Fifo.delivered, Fifo.Call.isAdd, succeeded] using later

/-- The count, the chain and the statistics agree with each other and with the
calls of the log. -/
structure Exact (maxCount : Int) (m : Mem) (log : List (Entry Tid)) : Prop where
  chain : ∃ nodes, Linked m.next m.q.first nodes ∧ (∀ a, m.heap a ≠ none ↔ a ∈ nodes) ∧
    m.q.count = nodes.length
  balance : m.q.count = m.q.addCount - m.q.getCount
  range : 0 ≤ m.q.count ∧ m.q.count ≤ maxCount
  tally : Tally m.q log

theorem Holds.exact {cap : Nat} {m : Mem} {log : List (Entry Tid)} {items : List CInt}
    (holds : Holds cap m log items) : Exact cap m log := by
  obtain ⟨nodes, rep⟩ := holds.rep
  have count := rep.count
  have bound := rep.bound
  refine ⟨⟨nodes, rep.chain, rep.live, ?_⟩, ?_, ?_, holds.tally⟩
  · rw [count, rep.length_eq]
  · have conserved := congrArg List.length (Fifo.conservation holds.legal)
    rw [List.nil_append, List.length_append, length_inserted,
      length_delivered holds.legal] at conserved
    have added := holds.tally.addCount
    have got := holds.tally.getCount
    omega
  · omega

/-- The queue `queue_init` leaves is the one after no calls. -/
theorem logged_queueInit {cap : Nat} (small : (cap : Int) ≤ intMax) :
    Logged cap (queueInit cap) ([] : List (Entry Tid)) :=
  ⟨[], ⟨[], rep_queueInit small⟩, rfl, rfl, rfl, rfl, rfl⟩

/-- The queue and its operations. -/
def object : Object sig Mem Fresh Call Reply Unit where
  sem := sem
  body := code
  watch _ _ := ()
  start := ()

/-- The queue and its operations, watched for the write of the count. -/
def countedObject : Object sig Mem Fresh Call Reply Bool where
  sem := sem
  body := code
  watch := counted
  start := false

theorem object_spec (cap : Nat) :
    Guarded.Spec object (Logged cap : Mem → List (Entry Tid) → Prop) fun _ _ _ => True := by
  intro m log t c logged
  obtain ⟨items, holds⟩ := logged
  obtain ⟨nodes, rep⟩ := holds.rep
  exact Prog.wp_mono (fun _ _ => trivial) (fun r x done => holds.after done) (code_wp rep c)

/-- What a successful call adds to the count. -/
def growth : Call → Int
  | .add _ => 1
  | .get => -1

/-- Along a call the count is that of the log until it is written, and changed by the growth of
the call from then on. -/
def CountedAlong (cap : Nat) (log : List (Entry Tid)) (c : Call) (x : Mem × Bool) : Prop :=
  ∃ items, Legal (Fifo.step cap) [] log items ∧ CountAlong items.length (growth c) x

theorem countedObject_spec (cap : Nat) :
    Guarded.Spec countedObject (Logged cap : Mem → List (Entry Tid) → Prop) (CountedAlong cap) := by
  intro m log t c logged
  obtain ⟨items, holds⟩ := logged
  obtain ⟨nodes, rep⟩ := holds.rep
  have along : ∀ x, CountAlong items.length (growth c) x → CountedAlong cap log c x :=
    fun x here => ⟨items, holds.legal, here⟩
  cases c with
  | add v => exact Prog.wp_mono along (fun r x done => holds.after done) (queueAdd_wp rep v)
  | get => exact Prog.wp_mono along (fun r x done => holds.after done) (queueGet_wp rep)

/-! ## The operations end -/

theorem access_within (o : Access) {α : Type} {k : o.Res → Code α} {n : Nat}
    (rest : ∀ r, (k r).Within n) : (access o >>= k).Within (n + 1) := rest

theorem addInt_within (f : IntField) (d : Int) {α : Type} {k : Unit → Code α} {n : Nat}
    (rest : (k ()).Within n) : (addInt f d >>= k).Within (n + 2) := fun _ _ => rest

theorem link_within (new : Ptr) : (link new).Within 6 := by
  refine access_within (.loadPtr .first) fun first => ?_
  split
  · exact access_within (.storePtr .last new) fun _ _ => trivial
  · refine access_within (.loadPtr .last) fun last => ?_
    refine access_within (.storeNext last new) fun _ => ?_
    refine access_within (.loadPtr .last) fun last => ?_
    exact access_within (.loadNext last) fun _ _ => trivial

theorem queueAdd_within (v : CInt) : (queueAdd v).Within 22 := by
  refine addInt_within .addAttempts 1 ?_
  refine access_within (.loadInt .count) fun count => ?_
  refine access_within (.loadInt .maxCount) fun maxCount => ?_
  refine access_within (.assert (count ≤ maxCount)) fun _ => ?_
  refine access_within (.loadInt .count) fun count => ?_
  refine access_within (.loadInt .maxCount) fun maxCount => ?_
  split
  · trivial
  · refine access_within .malloc fun new => ?_
    refine access_within (.assert new.isSome) fun _ => ?_
    refine access_within (.storeVal new v) fun _ => ?_
    refine access_within (.storeNext new none) fun _ => ?_
    refine Prog.Within.bind (m := 5) (link_within new) fun _ => ?_
    exact addInt_within .count 1 (n := 3) (addInt_within .addCount 1 (n := 1) trivial)

theorem queueGet_within : queueGet.Within 18 := by
  refine addInt_within .getAttempts 1 ?_
  refine access_within (.loadInt .count) fun count => ?_
  refine access_within (.assert (0 ≤ count)) fun _ => ?_
  refine access_within (.loadInt .count) fun count => ?_
  split
  · trivial
  · refine access_within (.loadPtr .first) fun tmp => ?_
    refine access_within (.loadVal tmp) fun val => ?_
    refine access_within (.loadPtr .first) fun first => ?_
    refine access_within (.loadNext first) fun next => ?_
    refine access_within (.storePtr .first next) fun _ => ?_
    refine access_within (.free tmp) fun _ => ?_
    exact addInt_within .count (-1) (n := 5) (addInt_within .getCount 1 (n := 3) trivial)

/-- Both operations end after a bounded number of accesses. -/
theorem code_bounded (c : Call) : (code c).Bounded := by
  cases c with
  | add v => exact ⟨22, queueAdd_within v⟩
  | get => exact ⟨18, queueGet_within⟩

end Os2Labs.Queue
