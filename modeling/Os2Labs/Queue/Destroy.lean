import Os2Labs.Queue.Bookkeeping
import Os2Labs.Queue.CondVar
import Os2Labs.Queue.FutexMutex
import Os2Labs.Queue.Semaphore
import Os2Labs.Queue.Spinlock
import Os2Labs.Queue.Unlocked

/-!
# `queue_destroy`

The loop of `queue_destroy` frees whatever chain is left.  `lab2/1/queue.c` walks it with
`q->first` itself, the four variants behind a lock with a pointer of their own.  The
monitoring thread, the lock and the `queue_t` itself, which `queue_destroy` also
disposes of, are not part of the memory of this model; and `q` is what `queue_init` returned,
so not `NULL`.

`freed_exactly_once`: over a whole run and the `queue_destroy` after it, every node
is freed exactly once.  The ledger is that of the run (`recorded`), and `queue_destroy` goes
on with it.
-/

namespace Os2Labs.Queue

open Conc

/-! ## The code -/

/-- The loop of `queue_destroy` in `lab2/1/queue.c`. -/
def Unlocked.freeFirst (_ : Unit) : Code (Unit ⊕ Unit) := do
  let first ← loadPtr .first
  if first = none then
    return .inr ()
  else
    let temp ← loadPtr .first
    let first ← loadPtr .first
    let next ← loadNext first
    storePtr .first next
    free temp
    return .inl ()

/-- `queue_destroy` of `lab2/1/queue.c`; `none` when the loop is not over after so many turns. -/
def Unlocked.queueDestroy (turns : Nat) : Code (Option Unit) :=
  Prog.loop Unlocked.freeFirst turns ()

/-- The loop of `queue_destroy` in the variants behind a lock. -/
def freeCurrent (current : Ptr) : Code (Ptr ⊕ Unit) :=
  if current = none then
    return .inr ()
  else do
    let temp := current
    let current ← loadNext current
    free temp
    return .inl current

/-- `queue_destroy` of the variants behind a lock. -/
def queueDestroy (turns : Nat) : Code (Option Unit) := do
  let current ← loadPtr .first
  match ← Prog.loop freeCurrent turns current with
  | none => return none
  | some () =>
    storeInt .count 0
    storePtr .first none
    storePtr .last none
    return some ()

/-! ## The loop -/

section Loop

variable {closed opened : List Allocation} {v : Nat} {p : Ptr} {x : Mem × Ledger}

/-- After some turns of the loop: `v` nodes are left, in a chain from `p`, and the others of
`opened` have been freed. -/
def Remaining (closed opened : List Allocation) (v : Nat) (p : Ptr) (x : Mem × Ledger) : Prop :=
  ∃ gone rest, opened = gone ++ rest ∧ rest.length = v ∧
    Linked x.1.next p (rest.map Allocation.addr) ∧
    (∀ a, x.1.heap a ≠ none ↔ a ∈ rest.map Allocation.addr) ∧
    x.2 = ⟨closed ++ gone.map (Allocation.free .destroy) ++ rest, 0⟩

/-- After the loop: nothing is left, and `opened` has been freed. -/
structure Emptied (closed opened : List Allocation) (x : Mem × Ledger) : Prop where
  heap : ∀ a, x.1.heap a = none
  ledger : x.2 = ⟨closed ++ opened.map (Allocation.free .destroy), 0⟩

/-- One turn: nothing is left, or the first node is live and may be freed. -/
theorem Remaining.turn (remaining : Remaining closed opened v p x) :
    (p = none ∧ Emptied closed opened x) ∨
    ∃ a n w, p = some a ∧ x.1.heap a = some n ∧ v = w + 1 ∧
      ∀ m', m'.heap = Function.update x.1.heap a none →
        Remaining closed opened w n.next (m', x.2.free .destroy (some a)) := by
  rcases remaining with ⟨gone, rest, rfl, rfl, chain, live, ledger⟩
  cases rest with
  | nil =>
    refine Or.inl ⟨chain, ?_, ?_⟩
    · intro a
      by_contra used
      cases (live a).mp used
    · rw [ledger, List.append_nil, List.append_nil]
  | cons e rest =>
    rcases chain with ⟨start, chain⟩
    have whole : Linked x.1.next p (e.addr :: rest.map Allocation.addr) := ⟨start, chain⟩
    have distinct := whole.nodup
    have fresh := (List.nodup_cons.mp distinct).1
    rcases Option.ne_none_iff_exists'.mp ((live e.addr).mpr List.mem_cons_self) with ⟨n, at_e⟩
    refine Or.inr ⟨e.addr, n, rest.length, start, at_e, rfl, ?_⟩
    intro m' heap
    refine ⟨gone ++ [e], rest, by rw [List.append_assoc]; rfl, rfl, ?_, ?_, ?_⟩
    · have here : x.1.next e.addr = n.next := by
        unfold Mem.next
        rw [at_e]
        rfl
      rw [here] at chain
      refine Seg.congr ?_ chain
      intro b member
      have apart : b ≠ e.addr := fun same => fresh (same ▸ member)
      unfold Mem.next
      rw [heap, Function.update_of_ne apart]
    · intro b
      rw [heap]
      by_cases same : b = e.addr
      · rw [same, Function.update_self]
        exact ⟨fun absurd => (absurd rfl).elim, fun member => (fresh member).elim⟩
      · rw [Function.update_of_ne same, live b, List.map_cons, List.mem_cons]
        exact ⟨fun member => member.resolve_left same, Or.inr⟩
    · rw [ledger, Ledger.free_head (by rw [List.map_cons]; exact distinct), List.map_append]
      simp only [List.map_cons, List.map_nil, List.append_assoc, List.cons_append, List.nil_append]

/-- What `queue_destroy` is to leave when there are `v` nodes. -/
def Outcome (closed opened : List Allocation) (v turns : Nat) (done : Option Unit)
    (x : Mem × Ledger) : Prop :=
  (v < turns → done ≠ none) ∧ (done ≠ none → Emptied closed opened x)

theorem Unlocked.queueDestroy_wp (remaining : Remaining closed opened v x.1.q.first x)
    (turns : Nat) :
    (Unlocked.queueDestroy turns).wp (sem.annotate (Ledger.note .destroy)) (fun _ => True)
      (Outcome closed opened v turns) x := by
  refine Prog.wp_mono (fun _ _ => trivial) ?_
    (Prog.wp_loop (Q := fun _ => Emptied closed opened)
      (fun v _ x => Remaining closed opened v x.1.q.first x) (fun _ _ _ _ => trivial) ?_
      remaining turns)
  · intro done x' after
    refine ⟨after.1, fun ended => ?_⟩
    rcases Option.ne_none_iff_exists'.mp ended with ⟨u, same⟩
    exact after.2 u same
  · intro w _ y left
    rcases y with ⟨m, g⟩
    unfold Unlocked.freeFirst
    rw [wp_loadPtr]
    refine ⟨trivial, ?_⟩
    rw [Prog.wp_ite]
    rcases left.turn with ⟨none_left, emptied⟩ | ⟨a, n, w', start, at_a, rfl, later⟩
    · refine ⟨fun _ => ?_, fun more => (more none_left).elim⟩
      exact ⟨trivial, fun _ same => (by cases same), fun _ _ => emptied⟩
    · have first : m.q.ptr .first = some a := start
      have live : m.node (some a) = some n := at_a
      refine ⟨fun absurd => ?_, fun _ => ?_⟩
      · rw [first] at absurd
        cases absurd
      · simp only [wp_loadPtr, first]
        rw [wp_loadNext live, wp_storePtr, wp_free (n := n) (by exact at_a)]
        simp only [QueueT.setPtr, Mem.setNode, Ledger.note, Prog.pure_eq, Prog.wp_ret, true_and]
        exact ⟨fun _ _ => ⟨w', rfl, later _ rfl⟩, fun _ same => by cases same⟩

theorem queueDestroy_wp (remaining : Remaining closed opened v x.1.q.first x) (turns : Nat) :
    (queueDestroy turns).wp (sem.annotate (Ledger.note .destroy)) (fun _ => True)
      (Outcome closed opened v turns) x := by
  rcases x with ⟨m, g⟩
  unfold queueDestroy
  rw [wp_loadPtr]
  refine ⟨trivial, ?_⟩
  refine Prog.wp_bind (Prog.wp_loop (Q := fun _ => Emptied closed opened)
    (fun v p x => Remaining closed opened v p x) (fun _ _ _ _ => trivial) ?_ remaining turns) ?_
  · intro w p y left
    rcases y with ⟨m, g⟩
    unfold freeCurrent
    rw [Prog.wp_ite]
    rcases left.turn with ⟨rfl, emptied⟩ | ⟨a, n, w', rfl, at_a, rfl, later⟩
    · refine ⟨fun _ => ?_, fun more => (more rfl).elim⟩
      exact ⟨trivial, fun _ same => (by cases same), fun _ _ => emptied⟩
    · refine ⟨fun absurd => (by cases absurd), fun _ => ?_⟩
      have live : m.node (some a) = some n := at_a
      rw [wp_loadNext live, wp_free live]
      simp only [Mem.setNode, Ledger.note, Prog.pure_eq, Prog.wp_ret, true_and]
      refine ⟨?_, fun _ same => by cases same⟩
      intro b same
      cases same
      exact ⟨w', rfl, later _ rfl⟩
  · intro done y _ after
    rcases y with ⟨m', g'⟩
    cases done with
    | none =>
      refine ⟨trivial, ?_, fun absurd => (absurd rfl).elim⟩
      exact fun enough => (after.1 enough rfl).elim
    | some u =>
      have emptied := after.2 u rfl
      simp only [wp_storeCount (z := 0) (by decide), wp_storePtr, Ledger.note, Prog.pure_eq,
        Prog.wp_ret, true_and]
      refine ⟨fun _ => Option.some_ne_none _, fun _ => ?_⟩
      exact ⟨emptied.heap, emptied.ledger⟩

end Loop

/-! ## A run and its `queue_destroy` -/

/-- The node was allocated by a `queue_add` that succeeded and freed once: by the `queue_get`
that delivered the element, or, when none did, by `queue_destroy`. -/
def FreedOnce {Tid : Type} (log : List (Entry Tid)) (n : Allocation) : Prop :=
  Returned log n ∨ ∃ i k v, n.born = .call i ∧ Adds log i k v ∧ n.freed = [.destroy] ∧
    (Fifo.delivered log).length ≤ k

/-- `queue_destroy`, run alone after the calls of `log`, never faults: what it frees and what it
reads the `next` of is live.  Given more turns than there are elements it comes to an end,
and then no node is live, and every node ever allocated, one for each `queue_add` that
succeeded, was freed once. -/
def Released {Tid : Type} (log : List (Entry Tid)) (destroy : Nat → Code (Option Unit)) (m : Mem)
    (g : Ledger) : Prop :=
  ∀ turns, (destroy turns).wp (sem.annotate (Ledger.note .destroy)) (fun _ => True)
    (fun done x => (m.q.count < turns → done ≠ none) ∧
      (done ≠ none → (∀ a, x.1.heap a = none) ∧ x.2.strays = 0 ∧
        x.2.nodes.length = (Fifo.inserted log).length ∧ ∀ n ∈ x.2.nodes, FreedOnce log n)) (m, g)

section Release

variable {Tid : Type} {cap : Nat} {m : Mem} {g : Ledger} {log : List (Entry Tid)}
  {nodes : List Addr} {items : List CInt} {closed opened : List Allocation}

/-- Between calls, what is left to free are the nodes in the queue. -/
theorem remaining (rep : Rep cap m nodes items) (books : Books log nodes items g closed opened) :
    Remaining closed opened items.length m.q.first (m, g) := by
  refine ⟨[], opened, rfl, ?_, ?_, ?_, ?_⟩
  · rw [← rep.length_eq, ← books.chained, List.length_map]
  · rw [books.chained]
    exact rep.chain
  · intro a
    rw [books.chained]
    exact rep.live a
  · rw [books.ledger, List.map_nil, List.append_nil]

/-- The nodes left are freed by `queue_destroy` alone. -/
theorem Books.freed (books : Books log nodes items g closed opened)
    (lengths : nodes.length = items.length) {n : Allocation}
    (member : n ∈ closed ++ opened.map (Allocation.free .destroy)) : FreedOnce log n := by
  rcases List.mem_append.mp member with returned | left
  · exact Or.inl (books.returned n returned)
  · rcases List.mem_map.mp left with ⟨e, inside, rfl⟩
    rcases List.getElem?_of_mem inside with ⟨k, here⟩
    have bound : k < items.length := by
      have short := (List.getElem?_eq_some_iff.mp here).1
      rw [← lengths, ← books.chained, List.length_map]
      exact short
    rcases books.waiting k e items[k] here (List.getElem?_eq_getElem bound) with
      ⟨live, i, born, adds⟩
    refine Or.inr ⟨i, _, _, born, adds, ?_, Nat.le_add_right _ k⟩
    unfold Allocation.free
    rw [live]
    rfl

/-- A `queue_destroy` that frees what is left, run between calls. -/
theorem Booked.released (booked : Booked cap m g log) {destroy : Nat → Code (Option Unit)}
    (frees : ∀ closed opened v, Remaining closed opened v m.q.first (m, g) → ∀ turns,
      (destroy turns).wp (sem.annotate (Ledger.note .destroy)) (fun _ => True)
        (Outcome closed opened v turns) (m, g)) :
    Released log destroy m g := by
  rcases booked with ⟨nodes, items, closed, opened, rep, legal, books⟩
  intro turns
  refine Prog.wp_mono (fun _ => id) ?_
    (frees closed opened items.length (remaining rep books) turns)
  intro done x outcome
  refine ⟨fun enough => outcome.1 ?_, fun ended => ?_⟩
  · rw [rep.count] at enough
    exact Int.ofNat_lt.mp enough
  · rcases outcome.2 ended with ⟨heap, ledger⟩
    refine ⟨heap, by rw [ledger], ?_, ?_⟩
    · have conserved := congrArg List.length (Fifo.conservation legal)
      rw [List.nil_append, List.length_append] at conserved
      rw [ledger, List.length_append, List.length_map, conserved, books.length,
        ← rep.length_eq, ← books.chained, List.length_map]
    · intro n member
      rw [ledger] at member
      exact books.freed rep.length_eq member

end Release

/-- In every recorded run of a system of threads that use a queue, no access faults, and
whenever no call is between its first and last access to the queue, `destroy` releases it. -/
def FreesOnce {τ ε η Tid : Type} (step : τ → ε → Option τ) (start : τ)
    (performed : τ → ε → Option (Answered sig))
    (guarded : τ → Guarded.State sig Mem Call Reply η Tid) (Faulty : τ → Prop)
    (destroy : Nat → Code (Option Unit)) : Prop :=
  ∀ s g, Reachable (recorded step (Guarded.taken enter performed fun s => (guarded s).log))
      (start, .empty) (s, g) →
    ¬ Faulty s ∧ ((guarded s).Vacant → Released (guarded s).log destroy (guarded s).mem g)

section Variants

variable {Tid : Type} [DecidableEq Tid] {cap : Nat}

/-- The one-threaded queue. -/
theorem Unlocked.freesOnce (small : (cap : Int) ≤ intMax) :
    FreesOnce (Unlocked.step Client.any) (Unlocked.init cap fun _ : Unit => ())
      Unlocked.performed Unlocked.guarded Unlocked.Faulty Unlocked.queueDestroy := by
  intro s g reached
  have noted := Guarded.noted (f := Unlocked.guarded) (object_keeps cap) reached
    (fun _ _ _ _ moved => Unlocked.step_acts moved) (fun _ => rfl) (booked_queueInit small)
  refine ⟨Unlocked.not_faulty (Unlocked.reachable_sound small reached.of_recorded), ?_⟩
  intro vacant
  exact (noted.idle vacant).released fun _ _ _ remaining => Unlocked.queueDestroy_wp remaining

/-- The queue behind a lock. -/
theorem lock_freesOnce {W ξ : Type} {L : Lock Tid W ξ}
    {s₀ : Locked.State L sig Mem Call Reply Unit} (initial : Locked.Initial s₀)
    (small : (cap : Int) ≤ intMax) (empty : s₀.mem = queueInit cap) :
    FreesOnce (Locked.step object Client.any) s₀ (Locked.performed object) Locked.guarded
      (Locked.Faulty object) queueDestroy := by
  intro s g reached
  have noted := Locked.noted (object_keeps cap) initial
    (by rw [empty]; exact booked_queueInit small) reached
  have inv := Locked.sound (object_spec cap) initial
    (by rw [empty]; exact logged_queueInit small) reached.of_recorded
  refine ⟨Locked.not_faulty inv, ?_⟩
  intro vacant
  exact (noted.idle vacant).released fun _ _ _ remaining => queueDestroy_wp remaining

/-- The queue behind the condition variable. -/
theorem CondVar.freesOnce (small : (cap : Int) ≤ intMax) (spurious : Bool) :
    FreesOnce (CondVar.step spurious Client.any) (CondVar.init cap fun _ : Tid => ())
      CondVar.performed CondVar.guarded CondVar.Faulty queueDestroy := by
  intro s g reached
  have noted := Guarded.noted (f := CondVar.guarded) (object_keeps cap) reached
    (fun _ _ _ before moved => CondVar.step_acts (CondVar.owned before) moved) (fun _ => rfl)
    (booked_queueInit small)
  refine ⟨CondVar.not_faulty (CondVar.reachable_sound small reached.of_recorded), ?_⟩
  intro vacant
  exact (noted.idle vacant).released fun _ _ _ remaining => queueDestroy_wp remaining

/-- The queue behind the semaphores. -/
theorem Semaphore.freesOnce (small : (cap : Int) ≤ intMax) (eintr : Bool) :
    FreesOnce (Semaphore.step eintr Client.any) (Semaphore.init cap fun _ : Tid => ())
      Semaphore.performed Semaphore.guarded Semaphore.Faulty queueDestroy := by
  intro s g reached
  have noted := Guarded.noted (f := Semaphore.guarded) (countedObject_keeps cap) reached
    (fun _ _ _ before moved => Semaphore.step_acts (Semaphore.owned before) moved) (fun _ => rfl)
    (booked_queueInit small)
  refine ⟨Semaphore.not_faulty (Semaphore.reachable_sound small reached.of_recorded), ?_⟩
  intro vacant
  exact (noted.idle vacant).released fun _ _ _ remaining => queueDestroy_wp remaining

end Variants

/-- **Every node is freed exactly once.**  In `lab2/1`, whatever sequence of calls is made, and
every sequence can be made to its end, and in the four variants behind a lock, whatever calls
any threads make: no access faults, and a `queue_destroy` run alone while no thread is inside
frees exactly the nodes that no `queue_get` has freed. -/
theorem freed_exactly_once {maxCount : Int} (nonneg : 0 ≤ maxCount) (isInt : maxCount ≤ intMax)
    (Tid : Type) [DecidableEq Tid] :
    (∀ calls : List Call, ∃ s g, Reachable (recorded (Unlocked.step Client.any)
        (Guarded.taken enter Unlocked.performed fun s => (Unlocked.guarded s).log))
        (Unlocked.init maxCount fun _ : Unit => (), .empty) (s, g) ∧
      (Unlocked.guarded s).Vacant ∧ s.log.map Done.call = calls) ∧
    FreesOnce (Unlocked.step Client.any) (Unlocked.init maxCount fun _ : Unit => ())
      Unlocked.performed Unlocked.guarded Unlocked.Faulty Unlocked.queueDestroy ∧
    FreesOnce FutexMutex.step (FutexMutex.init (queueInit maxCount) fun _ : Tid => ())
      (Locked.performed object) Locked.guarded (Locked.Faulty object) queueDestroy ∧
    FreesOnce (Spinlock.step Client.any) (Spinlock.init maxCount fun _ : Tid => ())
      (Locked.performed object) Locked.guarded (Locked.Faulty object) queueDestroy ∧
    (∀ spurious, FreesOnce (CondVar.step spurious Client.any)
      (CondVar.init maxCount fun _ : Tid => ())
      CondVar.performed CondVar.guarded CondVar.Faulty queueDestroy) ∧
    ∀ eintr, FreesOnce (Semaphore.step eintr Client.any)
      (Semaphore.init maxCount fun _ : Tid => ())
      Semaphore.performed Semaphore.guarded Semaphore.Faulty queueDestroy := by
  rcases Int.eq_ofNat_of_zero_le nonneg with ⟨cap, rfl⟩
  refine ⟨?_, Unlocked.freesOnce isInt, lock_freesOnce (FutexMutex.initial _ _) isInt rfl,
    lock_freesOnce (Spinlock.initial _ _) isInt rfl, CondVar.freesOnce isInt,
    Semaphore.freesOnce isInt⟩
  intro calls
  rcases Unlocked.exists_calls isInt calls with ⟨s, reached, out, made⟩
  rcases reached.recorded (x := (_, Ledger.empty)) with ⟨g, recorded⟩
  refine ⟨s, g, recorded, ?_, made⟩
  intro t
  simp only [Unlocked.guarded, Function.comp_apply, out, Unlocked.inside]

/-- An add, a get and another add that is given the address of the node freed; the node of
the second add is left to `queue_destroy`. -/
theorem freed_exactly_once_reused : ∃ (s : Unlocked.State Unit Unit) (g : Ledger),
    g.nodes = [⟨0, .call 0, [.call 1]⟩, ⟨0, .call 2, []⟩] ∧ ¬ Unlocked.Faulty s ∧
      Released s.log Unlocked.queueDestroy s.mem g := by
  have reached : Reachable (recorded (Unlocked.step Client.any)
      (Guarded.taken enter Unlocked.performed fun s => (Unlocked.guarded s).log))
      (Unlocked.init 1 fun _ : Unit => (), .empty) (_, _) :=
    ⟨Unlocked.alone (.add 7) 18 ++ Unlocked.alone .get 15 ++ Unlocked.alone (.add 8) 18, rfl⟩
  have both := (freed_exactly_once (show (0 : Int) ≤ 1 by decide) (by decide) Unit).2.1 _ _ reached
  exact ⟨_, _, by decide, both.1, both.2 fun _ => rfl⟩

end Os2Labs.Queue
