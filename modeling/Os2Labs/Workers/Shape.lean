import Mathlib.Data.Fintype.EquivFin
import Os2Labs.Workers.Discipline

/-!
# The shape of the list while swaps are in progress

Between its first and its third write a swap has its third node detached: nothing
points to it, and it points back into the list.  `shape`: in every reachable state, whatever
swaps are half done, the chain from `storage->first` runs through all the nodes but the detached
ones, and from every node one gets to the end of the list in at most as many steps as
there are nodes.

`Linked.skip` gets the chain from the order of the list with the swaps completed.
-/

namespace Os2Labs.Workers

open Conc

variable {Node Tid : Type}

/-- `curr3` of a thread that has executed `curr2->next = curr3->next` and not yet
`curr1->next = curr3`. -/
def Pc.detached : Pc Node → Option Node
  | .storeCurr3 _ _ _ _ curr3 | .storeCurr1 _ _ _ curr3 => curr3
  | _ => none

/-- Some swap has the node detached. -/
def Detached (s : State Node Tid) (a : Node) : Prop := ∃ t, (s.pc t).detached = some a

/-- A swap that has still to write has a node detached. -/
theorem detached_unwritten {pc : Pc Node} {x : Node} (pending : x ∈ unwritten pc)
    {next : Node → Option Node} (facts : Facts next pc) : ∃ c, pc.detached = some c := by
  cases pc <;> simp only [unwritten, List.not_mem_nil] at pending
  case storeCurr3 curr1 second third curr2 curr3 => exact ⟨third, facts.2.2.2⟩
  case storeCurr1 curr1 second third curr3 => exact ⟨third, facts.2.2⟩

variable [DecidableEq Node] [DecidableEq Tid] {variant : Variant} {s s' : State Node Tid} {t : Tid}
  {initial l : List Node} {first : Option Node} {kind : Tid → Kind} {done : Node → Option Node}

/-- The three nodes of a swap that has one of them detached. -/
structure Triple (s : State Node Tid) (done : Node → Option Node) (t : Tid) (a b c : Node) :
    Prop where
  held : held (s.pc t) = [a, b, c]
  swap : (s.pc t).kind = .swap
  next_a : s.next a = some b
  done_a : done a = some c
  done_c : done c = some b
  next_c : s.next c = some b ∨ s.next c = s.next b
  pending : a ∈ unwritten (s.pc t)
  only : ∀ x ∈ unwritten (s.pc t), x = a ∨ x = c

theorem Ordered.triple [Fintype Tid] (ordered : Ordered initial s done l)
    (owned : Owned variant first kind s) {c : Node} (detached : (s.pc t).detached = some c) :
    ∃ a b, Triple s done t a b c := by
  have facts := owned.facts t
  have promised := ordered.promised t
  cases here : s.pc t <;> rw [here] at detached facts promised <;> try cases detached
  case storeCurr3 curr1 second third curr2 =>
    obtain ⟨ab, bc, -, ⟨⟩⟩ := facts
    refine ⟨curr1, second, by rw [here]; rfl, by rw [here]; rfl, ab, promised.1, promised.2,
      Or.inr bc.symm, by rw [here]; simp [unwritten], ?_⟩
    rw [here]
    simp [unwritten]
  case storeCurr1 curr1 second third =>
    obtain ⟨ab, cb, ⟨⟩⟩ := facts
    have swap : (s.pc t).kind = .swap := by rw [here]; rfl
    have holds : held (s.pc t) = [curr1, second, c] := by rw [here]; rfl
    have distinct := owned.locks.nodup swap
    rw [holds] at distinct
    obtain ⟨⟨-, a_c⟩, -⟩ : (curr1 ≠ second ∧ curr1 ≠ c) ∧ second ≠ c := by
      simpa using distinct
    -- `curr3` has its final value, as the write of `curr1` is the only one left
    have settled : done c = s.next c := by
      refine ordered.written c (owned.settled (t := t) ?_ ?_)
      · rw [holds]
        simp
      · rw [here]
        simpa [unwritten] using Ne.symm a_c
    refine ⟨curr1, second, holds, swap, ab, promised, settled.trans cb, Or.inl cb,
      by rw [here]; simp [unwritten], ?_⟩
    rw [here]
    simp [unwritten]

/-- A node that one swap has locked is detached by no other. -/
theorem Owned.detached_mine (owned : Owned variant first kind s) (swap : (s.pc t).kind = .swap)
    {x : Node} (holds : x ∈ held (s.pc t)) (detached : Detached s x) :
    (s.pc t).detached = some x := by
  rcases detached with ⟨u, there⟩
  have theirs : x ∈ held (s.pc u) := by
    have facts := owned.facts u
    cases here : s.pc u <;> rw [here] at there facts <;> try cases there
    · rcases facts with ⟨-, -, -, ⟨⟩⟩
      simp [held]
    · rcases facts with ⟨-, -, ⟨⟩⟩
      simp [held]
  by_cases who : u = t
  · rw [← who]
    exact there
  · exact (owned.locks.apart swap holds who theirs).elim

/-- `curr2` is not detached. -/
theorem Triple.attached (owned : Owned variant first kind s) {a b c : Node}
    (triple : Triple s done t a b c) (detached : (s.pc t).detached = some c) : ¬ Detached s b := by
  intro also
  have mine := owned.detached_mine triple.swap (x := b) (by rw [triple.held]; simp) also
  cases mine.symm.trans detached
  have distinct := owned.locks.nodup triple.swap
  rw [triple.held] at distinct
  simp at distinct

section Shape

variable [Fintype Tid] (ordered : Ordered initial s done l) (owned : Owned variant first kind s)
  (known : Known initial s)
include ordered owned known

/-- The chain from `storage->first` leaves out the detached nodes. -/
theorem Ordered.chain [DecidablePred (Detached s)] :
    Linked s.next s.first (l.filter fun a => ¬ Detached s a) := by
  apply Linked.skip ordered.linked
  · -- the first node has no predecessor
    intro x start detached
    rcases detached with ⟨t, detached⟩
    rcases ordered.triple owned detached with ⟨a, b, triple⟩
    have in_list := ordered.held_mem known (t := t) (a := a) (by rw [triple.held]; simp)
    exact Linked.next_ne_start ordered.linked in_list (triple.done_a.trans start.symm)
  · intro x member out
    by_cases settled : ∀ t, x ∉ unwritten (s.pc t)
    · -- an untouched node points to what it will point to, which has no other predecessor
      left
      have same := ordered.written x settled
      refine ⟨same.symm, ?_⟩
      intro y points detached
      rcases detached with ⟨t, detached⟩
      rcases ordered.triple owned detached with ⟨a, b, triple⟩
      have in_list := ordered.held_mem known (t := t) (a := a) (by rw [triple.held]; simp)
      have same_node := Linked.next_inj ordered.linked member in_list
        (points.trans triple.done_a.symm)
      apply settled t
      rw [same_node]
      exact triple.pending
    · -- `curr1` points to `curr2`, and is going to point to `curr3`
      right
      simp only [not_forall, not_not] at settled
      rcases settled with ⟨t, pending⟩
      rcases detached_unwritten pending (owned.facts t) with ⟨c, detached⟩
      rcases ordered.triple owned detached with ⟨a, b, triple⟩
      rcases triple.only x pending with rfl | rfl
      · refine ⟨c, triple.done_a, ⟨t, detached⟩, triple.next_a.trans triple.done_c.symm, ?_⟩
        intro y points also
        cases triple.done_c.symm.trans points
        exact triple.attached owned detached also
      · exact (out ⟨t, detached⟩).elim

/-- The end of the list is near from every node. -/
theorem Ordered.ends {x : Node} (member : x ∈ l) :
    ∃ nodes, Linked s.next (some x) nodes ∧ nodes.length ≤ l.length := by
  classical
  have chain := ordered.chain owned known
  by_cases detached : Detached s x
  · have shorter : (l.filter fun a => ¬ Detached s a).length < l.length := by
      refine List.length_filter_lt_length_iff_exists.mpr ⟨x, member, ?_⟩
      simpa using detached
    rcases detached with ⟨t, detached⟩
    rcases ordered.triple owned detached with ⟨a, b, triple⟩
    -- `curr3` points to `curr2`, or to where `curr2` points
    have second : b ∈ l.filter fun a => ¬ Detached s a := by
      refine List.mem_filter.mpr ⟨ordered.held_mem known (t := t) (by rw [triple.held]; simp), ?_⟩
      simpa using triple.attached owned detached
    rcases Linked.of_mem chain second with ⟨nodes, from_b, short⟩
    rcases triple.next_c with to_b | as_b
    · refine ⟨x :: nodes, ⟨rfl, ?_⟩, ?_⟩
      · rw [to_b]
        exact from_b
      · rw [List.length_cons]
        omega
    · cases nodes with
      | nil => cases from_b
      | cons b' rest =>
        obtain ⟨⟨⟩, rest_linked⟩ := from_b
        refine ⟨x :: rest, ⟨rfl, ?_⟩, ?_⟩
        · rw [as_b]
          exact rest_linked
        · rw [List.length_cons] at short ⊢
          omega
  · have attached : x ∈ l.filter fun a => ¬ Detached s a :=
      List.mem_filter.mpr ⟨member, by simpa using detached⟩
    rcases Linked.of_mem chain attached with ⟨nodes, from_x, short⟩
    exact ⟨nodes, from_x, le_trans short (List.length_filter_le _ l)⟩

end Shape

/-- **The list has no cycle and loses only detached nodes.**  In every reachable state, following
`next` from any node one comes to `NULL` after at most as many steps as there are nodes, and
the nodes that one does not get to from `storage->first` are the third nodes of the swaps that
have done their first write and not their third. -/
theorem shape [Finite Tid] {next : Node → Option Node} (linked : Linked next first initial)
    (reached : Reachable (step variant) (init first next kind) s) :
    (∀ a ∈ initial, ∃ nodes, Linked s.next (some a) nodes ∧ nodes.length ≤ initial.length) ∧
      ∃ nodes, Linked s.next s.first nodes ∧
        ∀ a ∈ initial, a ∉ nodes ↔ ∃ t, (s.pc t).detached = some a := by
  classical
  have := Fintype.ofFinite Tid
  rcases ordered linked reached with ⟨known, done, l, ordered⟩
  have here := owned reached
  have perm := ordered.exchanges.perm
  constructor
  · intro a member
    rcases ordered.ends here known (perm.mem_iff.mpr member) with ⟨nodes, from_a, short⟩
    exact ⟨nodes, from_a, short.trans perm.length_eq.le⟩
  · refine ⟨_, ordered.chain here known, fun a member => ?_⟩
    have in_order : a ∈ l := perm.mem_iff.mpr member
    simp only [List.mem_filter, in_order, true_and, decide_not, Bool.not_eq_true',
      decide_eq_false_iff_not, not_not]
    exact Iff.rfl

/-- After the first write of a swap of three nodes in a row. -/
theorem shape_detached : ∃ s, Reachable (step .mutex) (init (some 0) triple pair) s ∧
    (s.pc 0).detached = some 2 ∧
    (∀ a ∈ [0, 1, 2], ∃ nodes, Linked s.next (some a) nodes ∧ nodes.length ≤ 3) ∧
      ∃ nodes, Linked s.next s.first nodes ∧
        ∀ a ∈ [0, 1, 2], a ∉ nodes ↔ ∃ t, (s.pc t).detached = some a := by
  have reached : Reachable (step .mutex) (init (some 0) triple pair) _ :=
    ⟨swapOnce.take 19, rfl⟩
  exact ⟨_, reached, rfl, shape triple_linked reached⟩

end Os2Labs.Workers
