import Os2Labs.Conc.Chain
import Os2Labs.Storage.Build

/-!
# `add_node` appends

`Total` is the weakest precondition with a note whether a `malloc` has failed.  The walk of
`add_node` stops at the last node of a chain (`toLast_total`), which is linked to the new node
while the `next` of the new node is still whatever `malloc` has left there; `Appended` is what
`add_node` has done in the end.
-/

namespace Os2Labs.Storage

open Bytes Conc

/-! ## Rules for the accesses -/

/-- Whether a `malloc` has failed. -/
def noteFailure (failed : Bool) : (o : Access) → o.Res → Bool
  | .mallocStorage, found => failed || !found
  | .mallocNode, found => failed || found.isNone
  | _, _ => failed

/-- The code never faults and ends with `Q`, which is told whether a `malloc` has failed. -/
abbrev Total {α : Type} (p : Code α) (Q : α → Mem × Bool → Prop) (x : Mem × Bool) : Prop :=
  p.wp (sem.annotate noteFailure) (fun _ => True) Q x

section Rules

variable {α β : Type} {Q : α → Mem × Bool → Prop} {m : Mem} {failed : Bool} {p : Ptr} {n : Node}

theorem total_ret {a : α} : Total (.ret a) Q (m, failed) ↔ Q a (m, failed) :=
  Iff.of_eq (true_and _)

theorem total_bind {R : β → Mem × Bool → Prop} {first : Code β} {rest : β → Code α}
    (before : Total first R (m, failed))
    (after : ∀ b m' failed', R b (m', failed') → Total (rest b) Q (m', failed')) :
    Total (first >>= rest) Q (m, failed) :=
  Prog.wp_bind before fun b x _ => after b x.1 x.2

/-- An access, by its outcomes. -/
theorem total_access {o : Access} {k : o.Res → Code α} (defined : ¬ o.Faults m)
    (enabled : ∃ new r m', o.perform new m = some (r, m'))
    (later : ∀ new r m', o.perform new m = some (r, m') →
      Total (k r) Q (m', noteFailure failed o r)) :
    Total (access o >>= k) Q (m, failed) := by
  have exec : ∀ new, sem.exec o new m = o.perform new m := fun new => if_neg defined
  change Total (Prog.op (S := sig) o k) Q _
  rw [Total, Prog.wp_annotate_op]
  refine ⟨trivial, defined, ?_, ?_⟩
  · rcases enabled with ⟨new, r, m', moved⟩
    exact ⟨new, r, m', (exec new).trans moved⟩
  · intro new r m' moved
    exact later new r m' ((exec new).symm.trans moved)

/-- An access with one outcome. -/
theorem total_one {o : Access} {k : o.Res → Code α} {r : o.Res} {m' : Mem}
    (defined : ¬ o.Faults m) (only : ∀ new, o.perform new m = some (r, m'))
    (later : Total (k r) Q (m', noteFailure failed o r)) :
    Total (access o >>= k) Q (m, failed) := by
  refine total_access defined ⟨Classical.arbitrary Fresh, r, m', only _⟩ ?_
  intro new r₁ m₁ moved
  cases (only new).symm.trans moved
  exact later

theorem total_loadFirst {k : Ptr → Code α} (there : m.storage = some p)
    (later : Total (k p) Q (m, failed)) : Total (loadFirst >>= k) Q (m, failed) :=
  total_one (o := .loadFirst) (by simp [Access.Faults, there])
    (fun _ => by simp [Access.perform, there]) later

theorem total_storeFirst {r : Ptr} {k : Unit → Code α} (there : m.storage ≠ none)
    (later : Total (k ()) Q ({ m with storage := some r }, failed)) :
    Total (storeFirst r >>= k) Q (m, failed) :=
  total_one (o := .storeFirst r) there (fun _ => rfl) later

theorem total_loadCapacity {z : Int} {k : Int → Code α} (there : m.storageCapacity = z)
    (later : Total (k z) Q (m, failed)) : Total (loadCapacity >>= k) Q (m, failed) :=
  total_one (o := .loadCapacity) id (fun _ => by simp [Access.perform, there]) later

theorem total_storeCapacity {z : Int} {k : Unit → Code α}
    (later : Total (k ()) Q ({ m with storageCapacity := z }, failed)) :
    Total (storeCapacity z >>= k) Q (m, failed) :=
  total_one (o := .storeCapacity z) id (fun _ => rfl) later

theorem total_arith {b : Bool} {k : Unit → Code α} (holds : b = true)
    (later : Total (k ()) Q (m, failed)) : Total (access (.arith b) >>= k) Q (m, failed) :=
  total_one (o := .arith b) (by simp [Access.Faults, holds]) (fun _ => rfl) later

theorem total_loadNext {k : Ptr → Code α} (live : m.node p = some n)
    (later : Total (k n.next) Q (m, failed)) : Total (loadNext p >>= k) Q (m, failed) :=
  total_one (o := .loadNext p) (by simp [Access.Faults, live])
    (fun _ => by simp [Access.perform, live]) later

theorem total_storeNext {r : Ptr} {k : Unit → Code α} (live : m.node p = some n)
    (later : Total (k ()) Q (m.setNode p { n with next := r }, failed)) :
    Total (storeNext p r >>= k) Q (m, failed) :=
  total_one (o := .storeNext p r) (by simp [Access.Faults, live])
    (fun _ => by simp [Access.perform, live]) later

theorem total_initLock {lock : LockType} {k : Unit → Code α} (live : m.node p = some n)
    (later : Total (k ()) Q (m.setNode p { n with lock := some lock }, failed)) :
    Total (access (.initLock p lock) >>= k) Q (m, failed) :=
  total_one (o := .initLock p lock) (by simp [Access.Faults, live])
    (fun _ => by simp [Access.perform, live]) later

/-- `malloc` fails, or finds an address that is not in use. -/
theorem total_mallocNode {k : Ptr → Code α} (fails : Total (k none) Q (m, true))
    (finds : ∀ a node, m.heap a = none →
      Total (k (some a)) Q (m.setNode (some a) node, failed)) :
    Total (access .mallocNode >>= k) Q (m, failed) := by
  have none_found := Classical.arbitrary Fresh
  refine total_access (o := .mallocNode) id ?_ ?_
  · exact ⟨{ none_found with addr := none }, none, m, rfl⟩
  · intro new r m' moved
    simp only [Access.perform] at moved
    split at moved
    · cases moved
      simpa [noteFailure] using fails
    · next a found =>
      split at moved
      · next free =>
        cases moved
        simpa [noteFailure] using finds a new.node free
      · cases moved

/-- A loop, by its variant. -/
theorem total_loop {body : β → Code (β ⊕ α)} (I : Nat → β → Mem × Bool → Prop)
    (turn : ∀ v b x, I v b x → Total (body b) (fun next x' =>
      (∀ b', next = .inl b' → ∃ w, v = w + 1 ∧ I w b' x') ∧ ∀ a, next = .inr a → Q a x') x)
    {v : Nat} {b : β} {x : Mem × Bool} (start : I v b x) {turns : Nat} (enough : v < turns) :
    Total (Prog.loop body turns b) (fun done x' => ∃ a, done = some a ∧ Q a x') x := by
  refine Prog.wp_mono (fun _ => id) ?_ (Prog.wp_loop I (fun _ _ _ _ => trivial) turn start turns)
  intro done x' after
  rcases Option.ne_none_iff_exists'.mp (after.1 enough) with ⟨a, same⟩
  exact ⟨a, same, after.2 a same⟩

/-- Stores into the array of a node. -/
theorem total_storeValue {a : Addr} {ws : List (Nat × UInt8)} {k : Unit → Code α}
    (live : m.heap a = some n) (fits : ∀ w ∈ ws, w.1 < maxStringLength)
    (later : Total (k ())
      Q (m.setNode (some a) { n with value := n.value.stores ws }, failed)) :
    Total (storeValue (some a) ws >>= k) Q (m, failed) := by
  induction ws generalizing m n with
  | nil =>
    have same : m.setNode (some a) n = m := by
      unfold Mem.setNode
      dsimp only
      rw [← live, Function.update_eq_self]
    have unchanged : { n with value := n.value.stores [] } = n := rfl
    rw [unchanged, same] at later
    exact later
  | cons w ws ih =>
    have here : ¬ (m.node (some a) = none ∨ maxStringLength ≤ w.1) := by
      rintro (absent | beyond)
      · cases live.symm.trans absent
      · exact absurd beyond (Nat.not_le.mpr (fits w List.mem_cons_self))
    have effect : ∀ new, Access.perform (.storeValue (some a) w.1 w.2) new m =
        some ((), m.setNode (some a) { n with value := Function.update n.value w.1 w.2 }) := by
      intro new
      have node : m.node (some a) = some n := live
      simp only [Access.perform, node, Option.map_some]
    refine total_one here effect ?_
    refine ih (n := { n with value := Function.update n.value w.1 w.2 })
      (Function.update_self a _ _) (fun v member => fits v (List.mem_cons_of_mem w member)) ?_
    unfold Mem.setNode at later ⊢
    dsimp only at later ⊢
    rw [Function.update_idem]
    exact later

/-- Stores into `buff`. -/
theorem total_storeBuff {ws : List (Nat × UInt8)} {k : Unit → Code α}
    (fits : ∀ w ∈ ws, w.1 < buffSize)
    (later : Total (k ()) Q ({ m with buff := m.buff.stores ws }, failed)) :
    Total (storeBuff ws >>= k) Q (m, failed) := by
  induction ws generalizing m with
  | nil => exact later
  | cons w ws ih =>
    refine total_one (o := .storeBuff w.1 w.2) (Nat.not_le.mpr (fits w List.mem_cons_self))
      (fun _ => rfl) ?_
    exact ih (fun v member => fits v (List.mem_cons_of_mem w member)) later

end Rules

/-! ## The walk -/

/-- The storage holds the nodes `l`, in a chain that ends in `NULL`. -/
structure WellFormed (m : Mem) (l : List Addr) : Prop where
  chain : ∃ first, m.storage = some first ∧ Linked m.next first l
  live : ∀ a ∈ l, m.heap a ≠ none

/-- A new node is none of the list. -/
theorem WellFormed.outside {m : Mem} {l : List Addr} {a : Addr} (wellFormed : WellFormed m l)
    (fresh : m.heap a = none) : a ∉ l :=
  fun member => wellFormed.live a member fresh

section Walk

variable {m : Mem} {failed : Bool} {l : List Addr} {a b : Addr} {turns : Nat}

theorem next_of_live {n : Node} (live : m.heap a = some n) : m.next a = n.next := by
  unfold Mem.next
  rw [live]
  rfl

/-- A pointer into the list `l`, with `v` nodes behind its node up to the last one, `b`. -/
def Behind (m : Mem) (l : List Addr) (b : Addr) (v : Nat) (p : Ptr) : Prop :=
  ∃ l', Linked m.next p l' ∧ l' ⊆ l ∧ l'.getLast? = some b ∧ l'.length = v + 1

/-- One turn of the walk: it stops at `b`, or there is one node less to go. -/
theorem toLast_turn {v : Nat} {p : Ptr} (live : ∀ c ∈ l, m.heap c ≠ none)
    (behind : Behind m l b v p) :
    Total (toLast p) (fun next x =>
      (∀ p', next = .inl p' → ∃ w, v = w + 1 ∧ x = (m, failed) ∧ Behind m l b w p') ∧
        ∀ p', next = .inr p' → p' = some b ∧ x = (m, failed)) (m, failed) := by
  obtain ⟨l', chain, inside, last, length⟩ := behind
  cases l' with
  | nil => cases length
  | cons c rest =>
    obtain ⟨rfl, chain⟩ := chain
    rcases Option.ne_none_iff_exists'.mp (live c (inside List.mem_cons_self)) with ⟨n, at_c⟩
    rw [next_of_live at_c] at chain
    refine total_loadNext (n := n) at_c ?_
    cases rest with
    | nil =>
      have stop : n.next = none := chain
      cases last
      simp only [stop, ne_eq, not_true_eq_false, if_false]
      refine total_ret.mpr ⟨fun _ same => (by cases same), fun done same => ?_⟩
      cases same
      exact ⟨rfl, rfl⟩
    | cons d rest =>
      have goes := chain.1
      simp only [goes, ne_eq, reduceCtorEq, not_false_eq_true, if_true]
      refine total_loadNext (n := n) at_c ?_
      refine total_ret.mpr ⟨fun next same => ?_, fun _ same => by cases same⟩
      cases same
      simp only [List.length_cons] at length
      refine ⟨rest.length, by omega, rfl, d :: rest, ?_, ?_, ?_, rfl⟩
      · rw [goes] at chain ⊢
        exact chain
      · exact fun x member => inside (List.mem_cons_of_mem c member)
      · rw [List.getLast?_cons_cons] at last
        exact last

/-- The walk from a node stops at the last one. -/
theorem toLast_total (chain : Linked m.next (some a) l) (live : ∀ c ∈ l, m.heap c ≠ none)
    (last : l.getLast? = some b) (enough : l.length ≤ turns) :
    Total (Prog.loop toLast turns (some a))
      (fun done x => ∃ p, done = some p ∧ p = some b ∧ x = (m, failed)) (m, failed) := by
  have nonempty : l.length ≠ 0 := by
    intro empty
    rw [List.eq_nil_of_length_eq_zero empty] at last
    cases last
  have start : Behind m l b (l.length - 1) (some a) :=
    ⟨l, chain, List.Subset.refl l, last, by omega⟩
  refine total_loop (fun v p x => x = (m, failed) ∧ Behind m l b v p) ?_ ⟨rfl, start⟩ (by omega)
  intro v p x here
  obtain ⟨rfl, behind⟩ := here
  exact toLast_turn live behind

/-- The memory once the new node is linked. -/
def Mem.linked (m : Mem) (l : List Addr) (a : Addr) : Mem :=
  match l.getLast? with
  | none => { m with storage := some (some a) }
  | some b => { m with
      heap := Function.update m.heap b ((m.heap b).map fun n => { n with next := some a }) }

theorem link_total (wellFormed : WellFormed m l) (enough : l.length ≤ turns) :
    Total (link turns (some a))
      (fun outcome x => outcome = .returned ∧ x = (m.linked l a, failed)) (m, failed) := by
  rcases wellFormed.chain with ⟨first, there, chain⟩
  refine total_loadFirst there ?_
  cases l with
  | nil =>
    have empty : first = none := chain
    simp only [empty, ne_eq, not_true_eq_false, if_false]
    refine total_storeFirst (by rw [there]; exact Option.some_ne_none _) ?_
    exact total_ret.mpr ⟨rfl, rfl⟩
  | cons c rest =>
    have start := chain.1
    simp only [start, ne_eq, reduceCtorEq, not_false_eq_true, if_true]
    refine total_loadFirst (p := some c) (start ▸ there) ?_
    have last : (c :: rest).getLast? = some ((c :: rest).getLast (List.cons_ne_nil c rest)) :=
      List.getLast?_eq_some_getLast _
    refine total_bind (toLast_total (start ▸ chain) wellFormed.live last enough) ?_
    intro done m' failed' after
    obtain ⟨p, rfl, rfl, same⟩ := after
    cases same
    have at_last := wellFormed.live _ (List.mem_of_getLast? last)
    rcases Option.ne_none_iff_exists'.mp at_last with ⟨n, at_last⟩
    refine total_storeNext (n := n) at_last (total_ret.mpr ⟨rfl, ?_⟩)
    unfold Mem.linked Mem.setNode
    rw [last]
    dsimp only
    rw [at_last]
    rfl

end Walk

/-! ## What `add_node` does -/

/-- `m'` is `m` with one more node at the end, which holds the string `s`. -/
structure Appended (lock : LockType) (s : List UInt8) (l : List Addr) (a : Addr) (m m' : Mem) :
    Prop where
  fresh : m.heap a = none
  node : ∃ n, m'.heap a = some n ∧ IsString n.value s ∧ n.next = none ∧ n.lock = some lock
  others : ∀ b, b ≠ a → m'.heap b =
    if l.getLast? = some b then (m.heap b).map fun n => { n with next := some a } else m.heap b
  wellFormed : WellFormed m' (l ++ [a])
  capacity : m'.storageCapacity = m.storageCapacity

section Append

variable {lock : LockType} {s : List UInt8} {m m' : Mem} {failed : Bool} {l : List Addr} {a : Addr}
  {turns : Nat}

theorem setNode_of_ne {n : Node} {b : Addr} (other : b ≠ a) :
    (m.setNode (some a) n).heap b = m.heap b :=
  Function.update_of_ne other _ _

theorem linked_heap (b : Addr) : (m.linked l a).heap b =
    if l.getLast? = some b then (m.heap b).map fun n => { n with next := some a }
    else m.heap b := by
  unfold Mem.linked
  cases last : l.getLast? with
  | none => rw [if_neg (Option.some_ne_none b).symm]
  | some c =>
    dsimp only
    by_cases same : b = c
    · rw [same, Function.update_self, if_pos rfl]
    · rw [Function.update_of_ne same, if_neg (by simp [Ne.symm same])]

theorem linked_storage : (m.linked l a).storage = if l = [] then some (some a) else m.storage := by
  unfold Mem.linked
  cases last : l.getLast? with
  | none => rw [if_pos (List.getLast?_eq_none_iff.mp last)]
  | some c =>
    rw [if_neg]
    rintro rfl
    cases last

theorem linked_capacity : (m.linked l a).storageCapacity = m.storageCapacity := by
  unfold Mem.linked
  split
  · rfl
  · rfl

/-- A new node behind the last one makes the chain longer. -/
theorem WellFormed.snoc {n : Node} (wellFormed : WellFormed m l) (fresh : m.heap a = none)
    (node : m'.heap a = some n) (stop : n.next = none)
    (others : ∀ b, b ≠ a → m'.heap b = if l.getLast? = some b then
      (m.heap b).map fun n => { n with next := some a } else m.heap b)
    (storage : m'.storage = if l = [] then some (some a) else m.storage) :
    WellFormed m' (l ++ [a]) := by
  have outside := wellFormed.outside fresh
  have apart : ∀ b ∈ l, b ≠ a := fun b member same => outside (same ▸ member)
  have at_a : m'.next a = none := by
    rw [next_of_live node, stop]
  constructor
  case chain =>
    rcases wellFormed.chain with ⟨first, there, chain⟩
    rcases List.eq_nil_or_concat l with rfl | ⟨l, b, rfl⟩
    · exact ⟨some a, storage, rfl, at_a⟩
    · rw [List.concat_eq_append] at *
      have last : (l ++ [b]).getLast? = some b := List.getLast?_concat
      rw [if_neg (by simp)] at storage
      refine ⟨first, storage.trans there, Linked.snoc chain ?_ ?_ at_a⟩
      · intro x other
        by_cases new : x = a
        · rw [new, at_a]
          unfold Mem.next
          rw [fresh]
          rfl
        · unfold Mem.next
          rw [others x new, if_neg]
          rw [last]
          exact fun same => other (Option.some.inj same).symm
      · have member : b ∈ l ++ [b] := by simp
        rcases Option.ne_none_iff_exists'.mp (wellFormed.live b member) with ⟨nb, at_b⟩
        unfold Mem.next
        rw [others b (apart b member), if_pos last, at_b]
        rfl
  case live =>
    intro b member
    rcases List.mem_append.mp member with old | new
    · rw [others b (apart b old)]
      split
      · exact Option.map_eq_none_iff.not.mpr (wellFormed.live b old)
      · exact wellFormed.live b old
    · rw [List.mem_singleton.mp new, node]
      exact Option.some_ne_none n

theorem Appended.intro {n : Node} (wellFormed : WellFormed m l) (fresh : m.heap a = none)
    (node : m'.heap a = some n) (string : IsString n.value s) (stop : n.next = none)
    (locked : n.lock = some lock)
    (others : ∀ b, b ≠ a → m'.heap b = if l.getLast? = some b then
      (m.heap b).map fun n => { n with next := some a } else m.heap b)
    (storage : m'.storage = if l = [] then some (some a) else m.storage)
    (capacity : m'.storageCapacity = m.storageCapacity) : Appended lock s l a m m' where
  fresh := fresh
  node := ⟨n, node, string, stop, locked⟩
  others := others
  wellFormed := wellFormed.snoc fresh node stop others storage
  capacity := capacity

/-- Memory that is not in use may hold a node. -/
theorem WellFormed.setNode (wellFormed : WellFormed m l) (fresh : m.heap a = none) (node : Node) :
    WellFormed (m.setNode (some a) node) l := by
  have other : ∀ b ∈ l, (m.setNode (some a) node).heap b = m.heap b := by
    intro b member
    refine setNode_of_ne ?_
    intro same
    exact wellFormed.outside fresh (same ▸ member)
  rcases wellFormed.chain with ⟨first, there, chain⟩
  refine ⟨⟨first, there, chain.congr fun b member => ?_⟩, fun b member => ?_⟩
  · unfold Mem.next
    rw [other b member]
  · rw [other b member]
    exact wellFormed.live b member

/-- **`add_node` appends one node**, unless its `malloc` fails. -/
theorem addNode_total (wellFormed : WellFormed m l) (noNul : 0 ∉ s)
    (fits : s.length < maxStringLength) (enough : l.length ≤ turns) :
    Total (addNode lock turns s) (fun outcome x =>
      (outcome = .returned ∧ x.2 = failed ∧ ∃ a, Appended lock s l a m x.1) ∨
        (outcome = .exited ∧ x = (m, true))) (m, failed) := by
  refine total_mallocNode (total_ret.mpr (Or.inr ⟨rfl, rfl⟩)) ?_
  intro a node fresh
  have not_last : l.getLast? ≠ some a :=
    fun last => wellFormed.outside fresh (List.mem_of_getLast? last)
  refine total_bind (link_total (wellFormed.setNode fresh node) enough) ?_
  intro outcome m₂ failed₂ after
  obtain ⟨rfl, same⟩ := after
  cases same
  have at_a : ((m.setNode (some a) node).linked l a).heap a = some node := by
    rw [linked_heap, if_neg not_last]
    exact Function.update_self a _ _
  refine total_storeValue at_a ?_ ?_
  · intro w member
    rcases List.mem_append.mp member with byte | nul
    · exact Nat.lt_trans (strncpy_lt byte) fits
    · rw [List.mem_singleton.mp nul]
      exact fits
  refine total_storeNext (Function.update_self a _ _) ?_
  refine total_initLock (Function.update_self a _ _) ?_
  refine total_ret.mpr (Or.inl ⟨rfl, rfl, a, ?_⟩)
  have others : ∀ b, b ≠ a → ((m.setNode (some a) node).linked l a).heap b =
      if l.getLast? = some b then (m.heap b).map fun n => { n with next := some a }
      else m.heap b := by
    intro b other
    rw [linked_heap, setNode_of_ne other]
  refine Appended.intro wellFormed fresh (Function.update_self a _ _) (isString_copy _ noNul) rfl
    rfl ?_ linked_storage linked_capacity
  intro b other
  rw [setNode_of_ne other, setNode_of_ne other, setNode_of_ne other, others b other]

end Append

end Os2Labs.Storage
