import Mathlib.Data.Fintype.EquivFin
import Os2Labs.Conc.Chain
import Os2Labs.Queue.Ledger
import Os2Labs.Queue.Operations

/-!
# The operations run alone

`Rep` is the representation invariant: the chain from `first` holds exactly the
live nodes, `last` is its last node when there is one, and otherwise may point
anywhere, in particular to the node freed last.  `queueAdd_tracked` and
`queueGet_tracked` are the specifications of the two operations run alone, with what
they do to the count on the way and what they enter in the ledger; `queueAdd_wp`,
`queueGet_wp`, `code_wp` and `code_noted` each leave out what they are not about.
-/

namespace Os2Labs.Queue

open Conc

/-! ## The representation invariant -/

/-- `Rep cap m nodes items`: the queue of capacity `cap` in `m` holds `items`, in
the nodes `nodes`.  These are all the live nodes.  Nothing is said of `last`
when the queue is empty, except that it is set once an element was added. -/
structure Rep (cap : Nat) (m : Mem) (nodes : List Addr) (items : List CInt) : Prop where
  chain : Linked m.next m.q.first nodes
  vals : nodes.map m.val = items.map some
  live : ∀ a, m.heap a ≠ none ↔ a ∈ nodes
  last : ∀ a, nodes.getLast? = some a → m.q.last = some a
  lastSet : 0 < m.q.addCount → m.q.last ≠ none
  count : m.q.count = items.length
  maxCount : m.q.maxCount = cap
  bound : items.length ≤ cap
  small : (cap : Int) ≤ intMax

/-- The statistics after one call with reply `r`. -/
structure Tallied (c : Call) (r : Reply) (q q' : QueueT) : Prop where
  addAttempts : q'.addAttempts = q.addAttempts + if c.isAdd then 1 else 0
  getAttempts : q'.getAttempts = q.getAttempts + if c.isAdd then 0 else 1
  addCount : q'.addCount = q.addCount + if c.isAdd then r.ret else 0
  getCount : q'.getCount = q.getCount + if c.isAdd then 0 else r.ret

variable {cap : Nat} {m m' : Mem} {nodes : List Addr} {items : List CInt}

theorem Rep.length_eq (rep : Rep cap m nodes items) : nodes.length = items.length := by
  have lengths := congrArg List.length rep.vals
  simpa only [List.length_map] using lengths

theorem Rep.nodup (rep : Rep cap m nodes items) : nodes.Nodup := rep.chain.nodup

/-- Some address is not in use: the live nodes are finitely many. -/
theorem Rep.exists_unused (rep : Rep cap m nodes items) : ∃ a, m.heap a = none := by
  rcases Infinite.exists_notMem_finset nodes.toFinset with ⟨a, fresh⟩
  rw [List.mem_toFinset, ← rep.live, not_not] at fresh
  exact ⟨a, fresh⟩

/-- The queue `queue_init` builds is empty. -/
theorem rep_queueInit (small : (cap : Int) ≤ intMax) : Rep cap (queueInit cap) [] [] where
  chain := rfl
  vals := rfl
  live a := by simp [queueInit]
  last a := nofun
  lastSet := nofun
  count := rfl
  maxCount := rfl
  bound := Nat.zero_le cap
  small := small

/-- Appending the fresh node `a` to an empty queue. -/
theorem Rep.push_nil (rep : Rep cap m [] []) {a : Addr} {v : CInt} (room : 0 < cap)
    (first : m'.q.first = some a) (last : m'.q.last = some a) (count : m'.q.count = 1)
    (maxCount : m'.q.maxCount = m.q.maxCount)
    (heap : m'.heap = Function.update m.heap a (some ⟨v, none⟩)) : Rep cap m' [a] [v] where
  chain := ⟨first, by simp [Mem.next, heap]⟩
  vals := by simp [Mem.val, heap]
  live b := by
    have dead : m.heap b = none := by
      by_contra live
      cases (rep.live b).mp live
    by_cases same : b = a
    · simp [heap, same]
    · simp [heap, same, dead]
  last b end_ := by
    cases end_
    exact last
  lastSet _ := by simp [last]
  count := count
  maxCount := maxCount.trans rep.maxCount
  bound := room
  small := rep.small

/-- Appending the fresh node `a` after the last node `z`. -/
theorem Rep.push_snoc {l : List Addr} {z a : Addr} {n : QNodeT} {v : CInt}
    (rep : Rep cap m (l ++ [z]) items) (at_z : m.heap z = some n) (unused : m.heap a = none)
    (room : items.length < cap) (first : m'.q.first = m.q.first) (last : m'.q.last = some a)
    (count : m'.q.count = m.q.count + 1) (maxCount : m'.q.maxCount = m.q.maxCount)
    (heap : m'.heap = Function.update (Function.update m.heap a (some ⟨v, none⟩)) z
      (some { n with next := some a })) : Rep cap m' (l ++ [z] ++ [a]) (items ++ [v]) := by
  have distinct := rep.nodup
  have fresh : ∀ b ∈ l ++ [z], b ≠ a := by
    intro b member same
    exact (rep.live b).mpr member (same ▸ unused)
  have z_ne : z ≠ a := fresh z (by simp)
  have l_ne : ∀ b ∈ l, b ≠ z ∧ b ≠ a := by
    intro b member
    have apart := (List.nodup_append.mp distinct).2.2
    exact ⟨apart b member z (by simp), fresh b (by simp [member])⟩
  have next_l : ∀ b ∈ l, m'.next b = m.next b := by
    intro b member
    rcases l_ne b member with ⟨ne_z, ne_a⟩
    simp [Mem.next, heap, ne_z, ne_a]
  refine ⟨?_, ?_, ?_, ?_, ?_, ?_, ?_, ?_, rep.small⟩
  · rw [List.append_assoc]
    rcases seg_append.mp rep.chain with ⟨r, before, here⟩
    rw [first]
    refine seg_append.mpr ⟨r, before.congr next_l, here.1, ?_⟩
    simp [Mem.next, heap, z_ne.symm]
  · have vals_l : ∀ b ∈ l ++ [z], m'.val b = m.val b := by
      intro b member
      by_cases same : b = z
      · simp [Mem.val, heap, same, at_z]
      · simp [Mem.val, heap, same, fresh b member]
    have last_val : m'.val a = some v := by simp [Mem.val, heap, z_ne.symm]
    rw [List.map_append, List.map_congr_left vals_l, rep.vals]
    simp [last_val]
  · intro b
    by_cases same_z : b = z
    · simp [heap, same_z]
    · by_cases same_a : b = a
      · simp [heap, same_a, z_ne.symm]
      · have known := rep.live b
        simp only [List.mem_append, List.mem_singleton, same_z, or_false] at known
        simp [heap, same_z, same_a, known]
  · intro b end_
    rw [List.getLast?_concat] at end_
    cases end_
    exact last
  · simp [last]
  · rw [count, rep.count]
    simp
  · exact maxCount.trans rep.maxCount
  · simp only [List.length_append, List.length_singleton]
    omega

/-- Unlinking and freeing the first node. -/
theorem Rep.pop {a : Addr} {l : List Addr} {v : CInt} {n : QNodeT}
    (rep : Rep cap m (a :: l) (v :: items)) (at_a : m.heap a = some n)
    (first : m'.q.first = n.next) (last : m'.q.last = m.q.last)
    (count : m'.q.count = m.q.count - 1) (maxCount : m'.q.maxCount = m.q.maxCount)
    (addCount : m'.q.addCount = m.q.addCount)
    (heap : m'.heap = Function.update m.heap a none) : Rep cap m' l items := by
  have distinct := List.nodup_cons.mp rep.nodup
  have ne : ∀ b ∈ l, b ≠ a := fun b member same => distinct.1 (same ▸ member)
  have next_l : ∀ b ∈ l, m'.next b = m.next b := by
    intro b member
    simp [Mem.next, heap, ne b member]
  refine ⟨?_, ?_, ?_, ?_, ?_, ?_, ?_, ?_, rep.small⟩
  · have rest := rep.chain.2
    have here : m.next a = n.next := by simp [Mem.next, at_a]
    rw [here, ← first] at rest
    exact Seg.congr next_l rest
  · have vals := rep.vals
    simp only [List.map_cons, List.cons.injEq] at vals
    rw [← vals.2]
    apply List.map_congr_left
    intro b member
    simp [Mem.val, heap, ne b member]
  · intro b
    by_cases same : b = a
    · simp [heap, same, distinct.1]
    · have known := rep.live b
      simp only [List.mem_cons, same, false_or] at known
      simp [heap, same, known]
  · intro b end_
    rw [last]
    apply rep.last b
    rw [List.getLast?_cons, end_]
    rfl
  · rw [addCount, last]
    exact rep.lastSet
  · rw [count, rep.count]
    simp
  · exact maxCount.trans rep.maxCount
  · have bound := rep.bound
    simp only [List.length_cons] at bound
    omega

/-! ## The specifications -/

/-- Watches whether the count has been written. -/
def counted : Bool → Access → Bool
  | _, .storeInt .count _ => true
  | b, _ => b

/-- Along the code the count is `n` until it is written, and `n + d` from then on. -/
def CountAlong (n d : Int) (x : Mem × Bool) : Prop :=
  x.1.q.count = n + if x.2 then d else 0

/-- What a call leaves behind, from the queue `q` holding `items`. -/
def After (cap : Nat) (q : QueueT) (items : List CInt) (c : Call) (r : Reply) (x : Mem × Bool) :
    Prop :=
  r = (Fifo.step cap items c).1 ∧ (∃ nodes, Rep cap x.1 nodes (Fifo.step cap items c).2) ∧
    Tallied c r q x.1.q

/-- The notes along a call of `who`: whether the count has been written, and the ledger. -/
def tracked (who : Site) (x : Bool × Ledger) (o : Access) (r : o.Res) : Bool × Ledger :=
  (counted x.1 o, x.2.note who o r)

def TrackedAlong (n d : Int) (x : Mem × Bool × Ledger) : Prop := CountAlong n d (x.1, x.2.1)

/-- What a call of `who` does to the nodes and enters in the ledger. -/
inductive Handled (who : Site) (nodes : List Addr) (g : Ledger) :
    Call → Reply → List Addr → Ledger → Prop
  | refused (c : Call) : Handled who nodes g c ⟨0, none⟩ nodes g
  | added (v : CInt) (a : Addr) :
    Handled who nodes g (.add v) ⟨1, none⟩ (nodes ++ [a]) (g.alloc who a)
  | got (v : CInt) (a : Addr) (l : List Addr) (front : nodes = a :: l) :
    Handled who nodes g .get ⟨1, some v⟩ l (g.free who (some a))

/-- What a call of `who` leaves behind, from the queue `q` holding `items` in `nodes`. -/
structure Leaves (cap : Nat) (q : QueueT) (nodes : List Addr) (items : List CInt) (who : Site)
    (g : Ledger) (c : Call) (r : Reply) (x : Mem × Bool × Ledger) : Prop where
  reply : r = (Fifo.step cap items c).1
  handled : ∃ nodes', Rep cap x.1 nodes' (Fifo.step cap items c).2 ∧
    Handled who nodes g c r nodes' x.2.2
  tallied : Tallied c r q x.1.q

theorem Leaves.after {q : QueueT} {who : Site} {g : Ledger} {c : Call} {r : Reply}
    {x : Mem × Bool × Ledger} (leaves : Leaves cap q nodes items who g c r x) :
    After cap q items c r (x.1, x.2.1) := by
  rcases leaves.handled with ⟨nodes', rep, -⟩
  exact ⟨leaves.reply, ⟨nodes', rep⟩, leaves.tallied⟩

section Link

variable {who : Site} {g : Ledger} {n d : Int} {Q : Reply → Mem × Bool × Ledger → Prop} {a : Addr}
  {k : Unit → Code Reply}

/-- Linking into an empty queue. -/
theorem link_wp_nil (empty : m.q.first = none) (count : m.q.count = n)
    (rest : (k ()).wp (sem.annotate (tracked who)) (TrackedAlong n d) Q
      ({ m with q := { m.q with first := some a, last := some a } }, (false, g))) :
    (link (some a) >>= k).wp (sem.annotate (tracked who)) (TrackedAlong n d) Q (m, (false, g)) := by
  have along : ∀ q : QueueT, q.count = n → TrackedAlong n d ({ m with q := q }, (false, g)) := by
    intro q count
    simp only [TrackedAlong, CountAlong, count, Bool.false_eq_true, ↓reduceIte, Int.add_zero]
  simp only [link, bind_assoc, wp_loadPtr, QueueT.ptr, empty, ↓reduceIte, wp_storePtr,
    QueueT.setPtr, tracked, Ledger.note, counted]
  exact ⟨along _ count, along _ count, along _ count, rest⟩

/-- Linking after the last node `z`. -/
theorem link_wp_snoc {z : Addr} (nz : QNodeT) (nonempty : m.q.first ≠ none)
    (last : m.q.last = some z) (at_z : m.heap z = some nz) (count : m.q.count = n)
    (rest : (k ()).wp (sem.annotate (tracked who)) (TrackedAlong n d) Q
      ({ q := { m.q with last := some a }
         heap := Function.update m.heap z (some { nz with next := some a }) }, (false, g))) :
    (link (some a) >>= k).wp (sem.annotate (tracked who)) (TrackedAlong n d) Q (m, (false, g)) := by
  have along : ∀ heap, TrackedAlong n d ({ m with heap := heap }, (false, g)) := by
    intro heap
    simp only [TrackedAlong, CountAlong, count, Bool.false_eq_true, ↓reduceIte, Int.add_zero]
  simp only [link, bind_assoc, wp_loadPtr, QueueT.ptr, nonempty, ↓reduceIte, last, tracked,
    Ledger.note, counted]
  rw [wp_storeNext (n := nz) (by simp [Mem.node, at_z])]
  simp only [Mem.setNode, wp_loadPtr, QueueT.ptr, last, tracked, Ledger.note, counted]
  rw [wp_loadNext (n := { nz with next := some a }) (by simp [Mem.node])]
  simp only [wp_storePtr, QueueT.setPtr, tracked, Ledger.note, counted]
  exact ⟨along _, along _, along _, along _, along _, along _, rest⟩

end Link

theorem queueAdd_tracked (rep : Rep cap m nodes items) (who : Site) (g : Ledger) (v : CInt) :
    (queueAdd v).wp (sem.annotate (tracked who)) (TrackedAlong items.length 1)
      (Leaves cap m.q nodes items who g (.add v)) (m, (false, g)) := by
  have count : m.q.count = items.length := rep.count
  have maxCount : m.q.maxCount = cap := rep.maxCount
  have bound := rep.bound
  have small := rep.small
  unfold queueAdd
  simp only [addInt, bind_assoc, wp_loadInt, ne_eq, reduceCtorEq, not_false_eq_true, wp_storeInt]
  rw [wp_assert (by simp [QueueT.int, QueueT.setInt, count, maxCount, bound])]
  simp only [wp_loadInt, Prog.wp_ite, wp_malloc, Prog.pure_eq, Prog.wp_ret]
  simp only [TrackedAlong, CountAlong, tracked, Ledger.note, counted, QueueT.int, QueueT.setInt,
    count, maxCount, Bool.false_eq_true, ↓reduceIte, Int.add_zero, true_and, Int.natCast_inj]
  refine ⟨fun full => ?_, fun room => ⟨rep.exists_unused, fun new unused => ?_⟩⟩
  · -- the early return
    have step := Fifo.step_add_full (v := v) full
    exact
      { reply := by rw [step]
        handled := ⟨nodes, by rw [step]; exact { rep with count := rfl, maxCount := rfl },
          .refused _⟩
        tallied := by constructor <;> simp [Fifo.Call.isAdd] }
  · rw [wp_assert (show (some new.addr).isSome = true from rfl),
      wp_storeVal (n := new.contents) (by simp [Mem.node, Mem.setNode]),
      wp_storeNext (n := { new.contents with val := v }) (by simp [Mem.node, Mem.setNode])]
    simp only [Mem.setNode, Function.update_idem, tracked, Ledger.note, counted, TrackedAlong,
      CountAlong, Bool.false_eq_true, ↓reduceIte, Int.add_zero, true_and]
    have step := Fifo.step_add_room (v := v) room
    have fits : intMin ≤ (items.length : Int) + 1 ∧ (items.length : Int) + 1 ≤ intMax := by
      have lower : intMin ≤ 0 := by decide
      omega
    rcases nodes.eq_nil_or_concat with rfl | ⟨l, z, rfl⟩
    · have noItems : items = [] := List.eq_nil_of_length_eq_zero rep.length_eq.symm
      subst noItems
      refine link_wp_nil rep.chain rfl ?_
      simp only [wp_loadInt, wp_storeCount, QueueT.int, fits, and_self, QueueT.setInt, tracked,
        Ledger.note, counted, ne_eq, reduceCtorEq, not_false_eq_true, wp_storeInt, Prog.wp_ret,
        TrackedAlong, CountAlong, Bool.false_eq_true, ↓reduceIte, Int.add_zero, true_and]
      have room' : 0 < cap := Nat.pos_of_ne_zero fun zero => room zero.symm
      exact
        { reply := by rw [step]
          handled := ⟨[new.addr],
            by rw [step]; exact rep.push_nil room' rfl rfl rfl maxCount.symm rfl,
            .added v new.addr⟩
          tallied := by constructor <;> simp [Fifo.Call.isAdd] }
    · simp only [List.concat_eq_append] at rep
      obtain ⟨nz, at_z⟩ := Option.ne_none_iff_exists'.mp ((rep.live z).mpr (by simp))
      have apart : z ≠ new.addr := by
        intro same
        subst same
        rw [unused] at at_z
        cases at_z
      refine link_wp_snoc nz ?_ (rep.last z (by simp)) (by simp [apart, at_z]) rfl ?_
      · intro empty
        have nowhere : l ++ [z] = [] := Linked.unique rep.chain empty
        simp at nowhere
      simp only [wp_loadInt, wp_storeCount, QueueT.int, fits, and_self, QueueT.setInt, tracked,
        Ledger.note, counted, ne_eq, reduceCtorEq, not_false_eq_true, wp_storeInt, Prog.wp_ret,
        TrackedAlong, CountAlong, Bool.false_eq_true, ↓reduceIte, Int.add_zero, true_and]
      have room' : items.length < cap := by omega
      exact
        { reply := by rw [step]
          handled := ⟨l ++ [z] ++ [new.addr], by
              rw [step]
              exact rep.push_snoc at_z unused room' rfl rfl (by rw [count]) maxCount.symm rfl,
            by simpa only [List.concat_eq_append] using .added v new.addr⟩
          tallied := by constructor <;> simp [Fifo.Call.isAdd] }

theorem queueAdd_wp (rep : Rep cap m nodes items) (v : CInt) :
    (queueAdd v).wp (sem.watch counted) (CountAlong items.length 1)
      (After cap m.q items (.add v)) (m, false) := by
  rw [Prog.watch_eq]
  exact Prog.wp_annotate_map (f := Prod.fst) (fun _ _ _ => rfl) (fun _ _ along => along)
    (fun _ _ _ leaves => leaves.after) (queueAdd_tracked rep .destroy .empty v)

theorem queueGet_tracked (rep : Rep cap m nodes items) (who : Site) (g : Ledger) :
    queueGet.wp (sem.annotate (tracked who)) (TrackedAlong items.length (-1))
      (Leaves cap m.q nodes items who g .get) (m, (false, g)) := by
  have count : m.q.count = items.length := rep.count
  have bound := rep.bound
  have small := rep.small
  unfold queueGet
  simp only [addInt, bind_assoc, wp_loadInt, ne_eq, reduceCtorEq, not_false_eq_true, wp_storeInt]
  rw [wp_assert (by simp [QueueT.int, QueueT.setInt, count])]
  simp only [wp_loadInt, Prog.wp_ite, Prog.pure_eq, Prog.wp_ret, wp_loadPtr]
  simp only [TrackedAlong, CountAlong, tracked, Ledger.note, counted, QueueT.int, QueueT.setInt,
    count, Bool.false_eq_true, ↓reduceIte, Int.add_zero, true_and, QueueT.ptr]
  refine ⟨fun empty => ?_, fun some_items => ?_⟩
  · -- the early return
    obtain rfl : items = [] := List.eq_nil_of_length_eq_zero (by omega)
    exact
      { reply := rfl
        handled := ⟨nodes, { rep with count := rfl }, .refused _⟩
        tallied := by constructor <;> simp [Fifo.Call.isAdd] }
  · obtain ⟨v, items, rfl⟩ := List.exists_cons_of_ne_nil (l := items)
      (fun none_ => some_items (by simp [none_]))
    obtain ⟨a, l, rfl⟩ := List.exists_cons_of_ne_nil (l := nodes) (by
      intro none_
      have lengths := rep.length_eq
      simp [none_] at lengths)
    obtain ⟨n, at_a⟩ := Option.ne_none_iff_exists'.mp ((rep.live a).mpr (by simp))
    have first : m.q.first = some a := rep.chain.1
    have vals := rep.vals
    simp only [List.map_cons, Mem.val, at_a, Option.map_some, List.cons.injEq,
      Option.some.injEq] at vals
    have fits : intMin ≤ ((v :: items).length : Int) + -1 ∧
        ((v :: items).length : Int) + -1 ≤ intMax := by
      have lower : intMin ≤ 0 := by decide
      simp only [List.length_cons] at bound ⊢
      omega
    simp only [first]
    rw [wp_loadVal (n := n) (by simp [Mem.node, at_a]), wp_loadPtr]
    simp only [QueueT.ptr]
    rw [wp_loadNext (n := n) (by simp [Mem.node, at_a]), wp_storePtr,
      wp_free (n := n) (by simp [Mem.node, at_a])]
    simp only [Mem.setNode, QueueT.setPtr, wp_loadInt, wp_storeCount, QueueT.int, fits, and_self,
      QueueT.setInt, tracked, Ledger.note, counted, ne_eq, reduceCtorEq, not_false_eq_true,
      wp_storeInt, Prog.wp_ret, TrackedAlong, CountAlong, Bool.false_eq_true, ↓reduceIte,
      Int.add_zero, true_and]
    rw [vals.1]
    exact
      { reply := rfl
        handled := ⟨l, rep.pop at_a rfl rfl (by rw [count]; rfl) rfl rfl rfl, .got v a l rfl⟩
        tallied := by constructor <;> simp [Fifo.Call.isAdd] }

theorem queueGet_wp (rep : Rep cap m nodes items) :
    queueGet.wp (sem.watch counted) (CountAlong items.length (-1))
      (After cap m.q items .get) (m, false) := by
  rw [Prog.watch_eq]
  exact Prog.wp_annotate_map (f := Prod.fst) (fun _ _ _ => rfl) (fun _ _ along => along)
    (fun _ _ _ leaves => leaves.after) (queueGet_tracked rep .destroy .empty)

/-- The specification of both operations, without what holds along the way. -/
theorem code_tracked (rep : Rep cap m nodes items) (who : Site) (g : Ledger) (c : Call) :
    (code c).wp (sem.annotate (tracked who)) (fun _ => True)
      (Leaves cap m.q nodes items who g c) (m, (false, g)) := by
  cases c with
  | add v =>
    exact Prog.wp_mono (fun _ _ => trivial) (fun _ _ => id) (queueAdd_tracked rep who g v)
  | get => exact Prog.wp_mono (fun _ _ => trivial) (fun _ _ => id) (queueGet_tracked rep who g)

/-- The specification of both operations, without the notes. -/
theorem code_wp (rep : Rep cap m nodes items) (c : Call) :
    (code c).wp (sem.watch fun _ _ => ()) (fun _ => True)
      (fun r x => After cap m.q items c r (x.1, false)) (m, ()) := by
  rw [Prog.watch_eq]
  refine Prog.wp_annotate_map (f := fun _ => ()) (fun _ _ _ => rfl) (fun _ _ _ => trivial) ?_
    (code_tracked rep .destroy .empty c)
  intro _ _ _ leaves
  exact leaves.after

/-- The specification of both operations, with the ledger. -/
theorem code_noted (rep : Rep cap m nodes items) (who : Site) (g : Ledger) (c : Call) :
    (code c).wp (sem.annotate (Ledger.note who)) (fun _ => True)
      (fun r x => r = (Fifo.step cap items c).1 ∧
        ∃ nodes', Rep cap x.1 nodes' (Fifo.step cap items c).2 ∧
          Handled who nodes g c r nodes' x.2) (m, g) := by
  refine Prog.wp_annotate_map (f := Prod.snd) (fun _ _ _ => rfl) (fun _ _ _ => trivial) ?_
    (code_tracked rep who g c)
  intro _ _ _ leaves
  exact ⟨leaves.reply, leaves.handled⟩

end Os2Labs.Queue
