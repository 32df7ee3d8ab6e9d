import Os2Labs.Queue.Object

/-!
# Who allocates and who frees

The queue with its ledger.  `Books` relates the ledger to the log of the calls: every node
freed so far was freed once, by the `queue_get` that delivered the element for
which a `queue_add` had allocated it, and every other node was never freed and is in
the queue, waiting.  `object_keeps` and `countedObject_keeps` say that both operations keep it.
-/

namespace Os2Labs.Queue

open Conc

variable {Tid : Type} {cap : Nat}

/-- Call `i` is the `queue_add` that inserted `v` as element number `k`. -/
def Adds (log : List (Entry Tid)) (i k : Nat) (v : CInt) : Prop :=
  (∃ t, log[i]? = some ⟨t, .add v, ⟨1, none⟩⟩) ∧ (Fifo.inserted (log.take i)).length = k

/-- Call `j` is the `queue_get` that delivered `v` as element number `k`. -/
def Gets (log : List (Entry Tid)) (j k : Nat) (v : CInt) : Prop :=
  (∃ t, log[j]? = some ⟨t, .get, ⟨1, some v⟩⟩) ∧ (Fifo.delivered (log.take j)).length = k

section Calls

variable {log : List (Entry Tid)} {i k : Nat} {v : CInt} {d e : Entry Tid}

/-- A later call changes neither the calls before it nor what came before those. -/
theorem lookup_snoc (here : log[i]? = some e) :
    (log ++ [d])[i]? = some e ∧ (log ++ [d]).take i = log.take i := by
  have bound : i < log.length := (List.getElem?_eq_some_iff.mp here).1
  rw [List.getElem?_append_left bound, List.take_append_of_le_length (Nat.le_of_lt bound)]
  exact ⟨here, rfl⟩

theorem Adds.snoc (adds : Adds log i k v) : Adds (log ++ [d]) i k v := by
  rcases adds with ⟨⟨t, here⟩, number⟩
  rcases lookup_snoc (d := d) here with ⟨there, before⟩
  exact ⟨⟨t, there⟩, by rw [before, number]⟩

theorem Gets.snoc (gets : Gets log i k v) : Gets (log ++ [d]) i k v := by
  rcases gets with ⟨⟨t, here⟩, number⟩
  rcases lookup_snoc (d := d) here with ⟨there, before⟩
  exact ⟨⟨t, there⟩, by rw [before, number]⟩

theorem Adds.last (log : List (Entry Tid)) (t : Tid) (v : CInt) :
    Adds (log ++ [⟨t, .add v, ⟨1, none⟩⟩]) log.length (Fifo.inserted log).length v := by
  refine ⟨⟨t, ?_⟩, ?_⟩
  · rw [List.getElem?_append_right (Nat.le_refl _), Nat.sub_self]
    rfl
  · rw [List.take_left]

theorem Gets.last (log : List (Entry Tid)) (t : Tid) (v : CInt) :
    Gets (log ++ [⟨t, .get, ⟨1, some v⟩⟩]) log.length (Fifo.delivered log).length v := by
  refine ⟨⟨t, ?_⟩, ?_⟩
  · rw [List.getElem?_append_right (Nat.le_refl _), Nat.sub_self]
    rfl
  · rw [List.take_left]

end Calls

/-! ## The ledger and the log -/

/-- The node was freed once, by the `queue_get` that delivered its element. -/
def Returned (log : List (Entry Tid)) (n : Allocation) : Prop :=
  ∃ i j k v, n.born = .call i ∧ Adds log i k v ∧ n.freed = [.call j] ∧ Gets log j k v

/-- The node holds `v`, which is element number `k`, and was never freed. -/
def Waiting (log : List (Entry Tid)) (k : Nat) (v : CInt) (n : Allocation) : Prop :=
  n.freed = [] ∧ ∃ i, n.born = .call i ∧ Adds log i k v

/-- The nodes of the ledger, oldest first, are those already freed, and those in the queue. -/
structure Books (log : List (Entry Tid)) (nodes : List Addr) (items : List CInt) (g : Ledger)
    (closed opened : List Allocation) : Prop where
  ledger : g = ⟨closed ++ opened, 0⟩
  chained : opened.map Allocation.addr = nodes
  length : closed.length = (Fifo.delivered log).length
  returned : ∀ n ∈ closed, Returned log n
  waiting : ∀ k n v, opened[k]? = some n → items[k]? = some v →
    Waiting log ((Fifo.delivered log).length + k) v n

section Books

variable {log : List (Entry Tid)} {nodes : List Addr} {items : List CInt} {g : Ledger}
  {closed opened : List Allocation} {t : Tid}

theorem Returned.snoc {n : Allocation} {d : Entry Tid} (returned : Returned log n) :
    Returned (log ++ [d]) n := by
  rcases returned with ⟨i, j, k, v, born, adds, freed, gets⟩
  exact ⟨i, j, k, v, born, adds.snoc, freed, gets.snoc⟩

theorem Waiting.snoc {k : Nat} {v : CInt} {n : Allocation} {d : Entry Tid}
    (waiting : Waiting log k v n) : Waiting (log ++ [d]) k v n := by
  rcases waiting with ⟨live, i, born, adds⟩
  exact ⟨live, i, born, adds.snoc⟩

theorem Books.refused (books : Books log nodes items g closed opened) (c : Call) :
    Books (log ++ [⟨t, c, ⟨0, none⟩⟩]) nodes items g closed opened := by
  constructor
  · exact books.ledger
  · exact books.chained
  · rw [Fifo.delivered_nothing]
    exact books.length
  · intro n member
    exact (books.returned n member).snoc
  · intro k n v here there
    rw [Fifo.delivered_nothing]
    exact (books.waiting k n v here there).snoc

/-- A node for the element added last. -/
theorem Books.added (books : Books log nodes items g closed opened) (v : CInt) (a : Addr)
    (lengths : nodes.length = items.length)
    (number : (Fifo.inserted log).length = (Fifo.delivered log).length + items.length) :
    Books (log ++ [⟨t, .add v, ⟨1, none⟩⟩]) (nodes ++ [a]) (items ++ [v])
      (g.alloc (.call log.length) a) closed (opened ++ [⟨a, .call log.length, []⟩]) := by
  have size : opened.length = items.length := by
    rw [← lengths, ← books.chained, List.length_map]
  constructor
  · rw [books.ledger]
    unfold Ledger.alloc
    rw [List.append_assoc]
  · rw [List.map_append, books.chained]
    rfl
  · rw [Fifo.delivered_nothing]
    exact books.length
  · intro n member
    exact (books.returned n member).snoc
  · intro k n w here there
    rw [Fifo.delivered_nothing]
    rcases Nat.lt_trichotomy k items.length with before | rfl | beyond
    · rw [List.getElem?_append_left (by omega)] at here there
      exact (books.waiting k n w here there).snoc
    · rw [List.getElem?_append_right (by omega), size, Nat.sub_self] at here
      rw [List.getElem?_append_right (by omega), Nat.sub_self] at there
      cases here
      cases there
      refine ⟨rfl, log.length, rfl, ?_⟩
      rw [← number]
      exact Adds.last log t v
    · rw [List.getElem?_eq_none (by simp; omega)] at there
      cases there

/-- The oldest node is freed with the element delivered. -/
theorem Books.got {v : CInt} {a : Addr}
    (books : Books log (a :: nodes) (v :: items) g closed opened) (distinct : (a :: nodes).Nodup) :
    ∃ closed' opened', Books (log ++ [⟨t, .get, ⟨1, some v⟩⟩]) nodes items
      (g.free (.call log.length) (some a)) closed' opened' := by
  have chained := books.chained
  cases opened with
  | nil => cases chained
  | cons n rest =>
    rw [List.map_cons, List.cons.injEq] at chained
    rcases chained with ⟨rfl, rfl⟩
    rcases books.waiting 0 n v rfl rfl with ⟨live, i, born, adds⟩
    refine ⟨closed ++ [n.free (.call log.length)], rest, ?_, rfl, ?_, ?_, ?_⟩
    · rw [books.ledger, Ledger.free_head (by rw [List.map_cons]; exact distinct),
        List.append_assoc]
      rfl
    · rw [Fifo.delivered_value, List.length_append, List.length_append, books.length]
      rfl
    · intro x member
      rcases List.mem_append.mp member with old | new
      · exact (books.returned x old).snoc
      · rw [List.mem_singleton] at new
        subst new
        refine ⟨i, log.length, (Fifo.delivered log).length, v, born, adds.snoc, ?_,
          Gets.last log t v⟩
        unfold Allocation.free
        rw [live]
        rfl
    · intro k x w here there
      have later := books.waiting (k + 1) x w here there
      rw [Fifo.delivered_value, List.length_append, List.length_singleton, Nat.add_assoc,
        Nat.add_comm 1 k]
      exact later.snoc

end Books

/-! ## The operations keep the books -/

/-- The memory, the ledger and the log agree. -/
def Booked (cap : Nat) (m : Mem) (g : Ledger) (log : List (Entry Tid)) : Prop :=
  ∃ nodes items closed opened, Rep cap m nodes items ∧ Legal (Fifo.step cap) [] log items ∧
    Books log nodes items g closed opened

/-- An access is entered under the number of the call that makes it. -/
def enter (log : List (Entry Tid)) (g : Ledger) (o : Access) (r : o.Res) : Ledger :=
  g.note (.call log.length) o r

theorem booked_queueInit (small : (cap : Int) ≤ intMax) :
    Booked cap (queueInit cap) .empty ([] : List (Entry Tid)) :=
  ⟨[], [], [], [], rep_queueInit small, rfl, rfl, rfl, rfl, nofun, nofun⟩

/-- What a call does to the ledger is what the log says. -/
theorem Booked.after {m m' : Mem} {g g' : Ledger} {log : List (Entry Tid)}
    {nodes nodes' : List Addr} {items : List CInt} {closed opened : List Allocation} {t : Tid}
    {c : Call} {r : Reply}
    (rep : Rep cap m nodes items) (legal : Legal (Fifo.step cap) [] log items)
    (books : Books log nodes items g closed opened) (reply : r = (Fifo.step cap items c).1)
    (rep' : Rep cap m' nodes' (Fifo.step cap items c).2)
    (handled : Handled (.call log.length) nodes g c r nodes' g') :
    Booked cap m' g' (log ++ [⟨t, c, r⟩]) := by
  have legal' : Legal (Fifo.step cap) [] (log ++ [⟨t, c, r⟩]) (Fifo.step cap items c).2 :=
    legal.snoc (d := ⟨t, c, r⟩) reply.symm
  rcases Fifo.step_cases cap items c with refused | ⟨v, rfl, added⟩ | ⟨v, items', rfl, rfl, got⟩
  · rw [refused] at reply rep' legal'
    cases handled with
    | refused => exact ⟨nodes, items, closed, opened, rep', legal', books.refused c⟩
    | added => cases reply
    | got => cases reply
  · rw [added] at reply rep' legal'
    cases handled with
    | refused => cases reply
    | added v a =>
      have conserved := congrArg List.length (Fifo.conservation legal)
      rw [List.nil_append, List.length_append] at conserved
      exact ⟨_, _, closed, _, rep', legal', books.added v a rep.length_eq conserved⟩
  · rw [got] at reply rep' legal'
    cases handled with
    | refused => cases reply
    | got w a l front =>
      cases reply
      subst front
      rcases books.got rep.nodup with ⟨closed', opened', books'⟩
      exact ⟨nodes', items', closed', opened', rep', legal', books'⟩

theorem code_keeps {m : Mem} {g : Ledger} {log : List (Entry Tid)} (t : Tid) (c : Call)
    (booked : Booked cap m g log) :
    (code c).wp (sem.annotate (enter log)) (fun _ => True)
      (fun r x => Booked cap x.1 x.2 (log ++ [⟨t, c, r⟩])) (m, g) := by
  rcases booked with ⟨nodes, items, closed, opened, rep, legal, books⟩
  refine Prog.wp_mono (fun _ _ => trivial) ?_ (code_noted rep (.call log.length) g c)
  intro r x done
  rcases done with ⟨reply, nodes', rep', handled⟩
  exact Booked.after rep legal books reply rep' handled

theorem object_keeps (cap : Nat) :
    Guarded.Keeps object enter (Booked cap : Mem → Ledger → List (Entry Tid) → Prop) :=
  fun _ _ _ t c booked => code_keeps t c booked

theorem countedObject_keeps (cap : Nat) :
    Guarded.Keeps countedObject enter (Booked cap : Mem → Ledger → List (Entry Tid) → Prop) :=
  fun _ _ _ t c booked => code_keeps t c booked

end Os2Labs.Queue
