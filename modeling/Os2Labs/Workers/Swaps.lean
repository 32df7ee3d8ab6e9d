import Os2Labs.Workers.Invariant

/-!
# The order of the list

Between its first and its last write a swap leaves the list in pieces.  `Ordered` looks at
the list as if every swap that has begun were completed (`done`): in this view the first
write of a swap exchanges two neighbours, and the other two change nothing.

`swaps_exchange_neighbours`: whenever no thread is between its third `trylock` and its
first unlock, the view is the list itself, so that its order is the initial one after as
many exchanges as the counters say.
-/

namespace Os2Labs.Workers

open Conc

variable {Node Tid : Type}

/-- The nodes in the local variables. -/
def nodes : Pc Node → List Node
  | .startNext p | .walkTest p | .walkStep p => p.toList
  | .testNext _ a | .loadNext a | .rand a | .tryFirst _ a | .skip _ a | .testSecond _ a
  | .loadSecond _ a | .passFirst _ a => [a]
  | .testNextNext a p | .trySecond _ a p | .unlockFirst _ a p => a :: p.toList
  | .loadThird a b | .reloadSecond a b | .passSecond _ a b | .loadPair a b => [a, b]
  | .testThird a b p | .reloadThird a b p | .tryThird a b p | .unlockTmp _ a b p
  | .compare a b p => a :: b :: p.toList
  | .unlockCurr _ b p => b :: p.toList
  | .loadCurr2 a b c | .countSwap a b c | .reloadCurr1 a b c => [a, b, c]
  | .loadCurr3 a b c p | .storeCurr1 a b c p | .reloadCurr2 a b c p => a :: b :: c :: p.toList
  | .loadCurr3Next a b c p q | .loadTail a b c p q | .storeCurr3 a b c p q
  | .unlock1 a b c p q => a :: b :: c :: (p.toList ++ q.toList)
  | .storeCurr2 a b c p q v => a :: b :: c :: (p.toList ++ q.toList ++ v.toList)
  | .unlock2 b c p q => b :: c :: (p.toList ++ q.toList)
  | .unlock3 b p q => b :: (p.toList ++ q.toList)
  | .startTest | .startLoad | .loadFirst _ | .countPass | .exit _ => []

/-- Where a thread goes with an answer to its access. -/
def Code.Goes : Code Node → Option Node → Pc Node → Prop
  | .first k, answer, new | .load _ k, answer, new => new = k answer
  | .store _ _ k, _, new | .unlock _ k, _, new | .values _ _ k, _, new | .count k, _, new => new = k
  | .tryLock _ k, _, new | .rand k, _, new => ∃ b, new = k b
  | .halt, _, _ => False

theorem nodes_loop (k : Kind) (p : Option Node) : nodes (loop k p) ⊆ p.toList := by
  cases k <;> cases p <;> simp [loop, nodes]

/-- The nodes a thread knows are those it knew and the answer. -/
theorem nodes_goes {pc new : Pc Node} {answer : Option Node}
    (goes : (code pc).Goes answer new) : nodes new ⊆ nodes pc ++ answer.toList := by
  cases pc <;> simp only [code, Code.Goes] at goes
  case tryFirst k curr => rcases goes with ⟨_ | _, rfl⟩ <;> simp [nodes]
  case trySecond k curr p =>
    rcases goes with ⟨_ | _, rfl⟩ <;> cases p <;> cases k <;> simp [nodes]
  case tryThird curr1 second p => rcases goes with ⟨_ | _, rfl⟩ <;> cases p <;> simp [nodes]
  case rand curr1 => rcases goes with ⟨_ | _, rfl⟩ <;> simp [nodes]
  all_goals subst goes
  case skip k curr => exact List.Subset.trans (nodes_loop k answer) (List.subset_append_right _ _)
  case unlockFirst k tmp p | unlockCurr k second p =>
    exact List.Subset.trans (nodes_loop k p) (by simp [nodes])
  case unlock3 second p q => exact List.Subset.trans (nodes_loop .swap p) (by simp [nodes])
  case testNext k a => cases answer <;> cases k <;> simp [nodes, afterTest]
  case startTest | startNext | loadFirst | testNextNext | walkTest | testSecond | testThird =>
    cases answer <;> simp [nodes]
  case startLoad | countPass => simp [nodes]
  all_goals
    intro x member
    simp only [nodes, List.mem_cons, List.mem_append, List.not_mem_nil, or_false]
      at member ⊢
    tauto

/-- Whether a thread has done the first write of a swap, and not counted the swap. -/
def swapped : Pc Node → Nat
  | .storeCurr3 .. | .storeCurr1 .. | .countSwap .. => 1
  | _ => 0

/-- The nodes whose `next` a swap in progress has still to write. -/
def unwritten : Pc Node → List Node
  | .storeCurr3 a _ c _ _ => [a, c]
  | .storeCurr1 a _ _ _ => [a]
  | _ => []

/-- What it is going to write there. -/
def Promised (done : Node → Option Node) : Pc Node → Prop
  | .storeCurr3 a b c _ _ => done a = some c ∧ done c = some b
  | .storeCurr1 a _ c _ => done a = some c
  | _ => True

/-- From the third `trylock` of `swap_thread` to the first unlock. -/
def Pc.critical : Pc Node → Bool
  | .loadCurr2 .. | .loadCurr3 .. | .loadCurr3Next .. | .loadTail .. | .storeCurr2 ..
  | .storeCurr3 .. | .storeCurr1 .. | .countSwap .. | .reloadCurr1 .. | .reloadCurr2 ..
  | .unlock1 .. => true
  | _ => false

/-- No swap is in progress outside of it. -/
theorem swapped_outside {pc : Pc Node} (outside : pc.critical = false) :
    swapped pc = 0 ∧ unwritten pc = [] := by
  cases pc <;> first | exact ⟨rfl, rfl⟩ | cases outside

def Code.isStore : Code Node → Bool
  | .store .. => true
  | _ => false

theorem swapped_loop (k : Kind) (p : Option Node) : swapped (loop k p) = 0 := by
  cases k <;> cases p <;> rfl

/-- A swap begins with a write. -/
theorem swapped_goes {pc new : Pc Node} {answer : Option Node} (goes : (code pc).Goes answer new)
    (quiet : (code pc).isStore = false) : swapped new = 0 := by
  cases pc <;> simp only [code, Code.Goes, Code.isStore, reduceCtorEq] at goes quiet
  case tryFirst k curr => rcases goes with ⟨_ | _, rfl⟩ <;> rfl
  case trySecond k curr p =>
    rcases goes with ⟨_ | _, rfl⟩ <;> cases p <;> cases k <;> rfl
  case tryThird curr1 second p => rcases goes with ⟨_ | _, rfl⟩ <;> cases p <;> rfl
  case rand curr1 => rcases goes with ⟨_ | _, rfl⟩ <;> rfl
  all_goals subst goes
  case skip | unlockFirst | unlockCurr | unlock3 => exact swapped_loop _ _
  case testNext k a => cases answer <;> cases k <;> rfl
  case startTest | startNext | loadFirst | testNextNext | walkTest | testSecond | testThird =>
    cases answer <;> rfl
  all_goals rfl

/-- What a thread has in hand of a swap it shows by its next access. -/
theorem unwritten_quiet {pc : Pc Node} (quiet : (code pc).isStore = false) : unwritten pc = [] := by
  cases pc <;> first | rfl | cases quiet

theorem swapped_quiet {pc : Pc Node} (quiet : (code pc).isStore = false)
    (uncounted : ∀ k, code pc ≠ .count k) : swapped pc = 0 := by
  cases pc <;> first | rfl | exact (uncounted _ rfl).elim | cases quiet

theorem swapped_count {pc k : Pc Node} (here : code pc = .count k) (swap : pc.kind = .swap) :
    swapped pc = 1 := by
  cases pc <;> simp only [code, reduceCtorEq] at here
  · rfl
  · cases swap

theorem Promised.of_idle {done : Node → Option Node} {pc : Pc Node} (idle : swapped pc = 0) :
    Promised done pc := by
  cases pc <;> trivial

/-- Promises are about nodes that are held. -/
theorem Promised.congr {done done' : Node → Option Node} {pc : Pc Node}
    (agree : ∀ a ∈ held pc, done' a = done a) (promised : Promised done pc) :
    Promised done' pc := by
  cases pc <;> try trivial
  case storeCurr3 a b c p q =>
    obtain ⟨ac, cb⟩ := promised
    exact ⟨(agree a (by grind)).trans ac, (agree c (by grind)).trans cb⟩
  case storeCurr1 a b c p => exact (agree a (by grind)).trans promised

theorem unwritten_held (pc : Pc Node) : unwritten pc ⊆ held pc := by
  cases pc <;> simp [unwritten, held]

theorem held_nodes (pc : Pc Node) : held pc ⊆ nodes pc := by
  cases pc <;> simp [nodes, held]

/-- A node a swap has still to write has a successor, or is going to have a predecessor. -/
theorem unwritten_linked {next done : Node → Option Node} {pc : Pc Node} {a : Node}
    (facts : Facts next pc) (promised : Promised done pc) (pending : a ∈ unwritten pc) :
    next a ≠ none ∨ ∃ b ∈ held pc, done b = some a := by
  cases pc <;> simp only [unwritten, List.mem_cons, List.not_mem_nil, or_false] at pending
  case storeCurr3 curr1 second third curr2 curr3 =>
    obtain ⟨ab, -⟩ := facts
    obtain ⟨ac, -⟩ := promised
    rcases pending with rfl | rfl
    · exact Or.inl (ab ▸ Option.some_ne_none second)
    · exact Or.inr ⟨curr1, by grind, ac⟩
  case storeCurr1 curr1 second third curr3 =>
    obtain ⟨ab, -⟩ := facts
    subst pending
    exact Or.inl (ab ▸ Option.some_ne_none second)

/-- The three writes. -/
theorem Facts.stores {next : Node → Option Node} {pc k : Pc Node} {x : Node} {v : Option Node}
    (facts : Facts next pc) (here : code pc = .store (some x) v k) :
    (∃ a c, pc = .storeCurr2 a x c (some x) (some c) v ∧ k = .storeCurr3 a x c (some x) (some c) ∧
        next a = some x ∧ next x = some c ∧ next c = v) ∨
      (∃ a b, pc = .storeCurr3 a b x (some b) (some x) ∧ v = some b ∧
        k = .storeCurr1 a b x (some x)) ∨
      ∃ b c, pc = .storeCurr1 x b c (some c) ∧ v = some c ∧ k = .countSwap x b c := by
  cases pc <;> simp only [code, reduceCtorEq, Code.store.injEq] at here
  case storeCurr2 curr1 second third curr2 curr3 tail =>
    obtain ⟨rfl, rfl, rfl⟩ := here
    obtain ⟨ab, bc, ⟨⟩, rfl, tail⟩ := facts
    exact Or.inl ⟨curr1, third, rfl, rfl, ab, bc, tail⟩
  case storeCurr3 curr1 second third curr2 curr3 =>
    obtain ⟨rfl, rfl, rfl⟩ := here
    obtain ⟨-, -, rfl, ⟨⟩⟩ := facts
    exact Or.inr (Or.inl ⟨curr1, second, rfl, rfl, rfl⟩)
  case storeCurr1 curr1 second third curr3 =>
    obtain ⟨⟨⟩, rfl, rfl⟩ := here
    obtain ⟨-, -, rfl⟩ := facts
    exact Or.inr (Or.inr ⟨second, third, rfl, rfl, rfl⟩)

/-! ## The nodes of the list -/

/-- The threads and the list know no other nodes than the initial ones. -/
structure Known (initial : List Node) (s : State Node Tid) : Prop where
  locals : ∀ t, nodes (s.pc t) ⊆ initial
  first : s.first.toList ⊆ initial
  next : ∀ a ∈ initial, (s.next a).toList ⊆ initial

theorem nodes_load {pc : Pc Node} {a : Node} {k : Option Node → Pc Node}
    (here : code pc = .load (some a) k) : a ∈ nodes pc := by
  cases pc <;> grind [nodes]

theorem nodes_store {pc k : Pc Node} {p v : Option Node}
    (here : code pc = .store p v k) : v.toList ⊆ nodes pc := by
  cases pc <;> simp only [code, reduceCtorEq, Code.store.injEq] at here
  all_goals
    obtain ⟨-, rfl, -⟩ := here
    intro x member
    simp only [nodes, List.mem_cons, List.mem_append]
    tauto

variable [DecidableEq Node] [DecidableEq Tid] {variant : Variant} {s s' : State Node Tid} {t : Tid}
  {initial : List Node}

/-- Where a step takes its thread. -/
theorem Known.goes (known : Known initial s) (move : Move variant s t s') :
    ∃ answer new, s'.pc = (s.goto t new).pc ∧ (code (s.pc t)).Goes answer new ∧
      answer.toList ⊆ initial := by
  cases move with
  | first here => exact ⟨s.first, _, rfl, by rw [here]; rfl, known.first⟩
  | @load a k here =>
    exact ⟨s.next a, _, rfl, by rw [here]; rfl, known.next a (known.locals t (nodes_load here))⟩
  | store here => exact ⟨none, _, rfl, by rw [here]; rfl, List.nil_subset _⟩
  | lock here free => exact ⟨none, _, rfl, by rw [here]; exact ⟨true, rfl⟩, List.nil_subset _⟩
  | fail here => exact ⟨none, _, rfl, by rw [here]; exact ⟨false, rfl⟩, List.nil_subset _⟩
  | unlock here mine => exact ⟨none, _, rfl, by rw [here]; rfl, List.nil_subset _⟩
  | values here => exact ⟨none, _, rfl, by rw [here]; rfl, List.nil_subset _⟩
  | rand here b => exact ⟨none, _, rfl, by rw [here]; exact ⟨b, rfl⟩, List.nil_subset _⟩
  | count here => exact ⟨none, _, rfl, by rw [here]; rfl, List.nil_subset _⟩

theorem Known.step (known : Known initial s) (move : Move variant s t s') : Known initial s' := by
  rcases known.goes move with ⟨answer, new, pc, goes, within⟩
  refine ⟨fun u => ?_, ?_, fun a member => ?_⟩
  · by_cases who : u = t
    · rw [who, pc, goto_pc_self]
      apply List.Subset.trans (nodes_goes goes)
      exact List.append_subset.mpr ⟨known.locals t, within⟩
    · rw [pc, goto_pc_of_ne new who]
      exact known.locals u
  · have same : s'.first = s.first := by cases move <;> rfl
    rw [same]
    exact known.first
  · cases move with
    | @store b v k here =>
      show (Function.update s.next b v a).toList ⊆ initial
      by_cases node : a = b
      · rw [node, Function.update_self]
        exact List.Subset.trans (nodes_store here) (known.locals t)
      · rw [Function.update_of_ne node]
        exact known.next a member
    | _ => exact known.next a member

omit [DecidableEq Node] [DecidableEq Tid] in
theorem Known.init {first : Option Node} {next : Node → Option Node}
    (linked : Linked next first initial) (kind : Tid → Kind) :
    Known initial (init first next kind) := by
  refine ⟨fun t => ?_, ?_, fun a member => ?_⟩
  · show nodes (start (kind t)) ⊆ initial
    cases kind t <;> exact List.nil_subset _
  · exact Linked.start_mem linked
  · exact Linked.next_mem linked member

/-! ## The order of the list -/

/-- The swaps a thread has begun. -/
def swaps (s : State Node Tid) (t : Tid) : Nat :=
  if (s.pc t).kind = .swap then s.counter t + swapped (s.pc t) else 0

variable {done : Node → Option Node} {l : List Node} {first : Option Node} {kind : Tid → Kind}

/-- A step increments the counter of its thread, or none. -/
theorem Move.counter (move : Move variant s t s') :
    (∃ k, code (s.pc t) = .count k ∧ s'.counter = Function.update s.counter t (s.counter t + 1)) ∨
      (∀ k, code (s.pc t) ≠ .count k) ∧ s'.counter = s.counter := by
  cases move with
  | count here => exact Or.inl ⟨_, here, rfl⟩
  | first here | load here | store here | lock here | fail here | unlock here | values here
  | rand here => exact Or.inr ⟨by simp [here], rfl⟩

/-- Where a step takes its thread, and what a load answers. -/
theorem Move.goes (move : Move variant s t s') :
    ∃ answer new, s'.pc = (s.goto t new).pc ∧ (code (s.pc t)).Goes answer new ∧
      ∀ a k, code (s.pc t) = .load (some a) k → answer = s.next a := by
  cases move with
  | first here => exact ⟨s.first, _, rfl, by rw [here]; rfl, by simp [here]⟩
  | @load a k here =>
    refine ⟨s.next a, _, rfl, by rw [here]; rfl, fun b k' same => ?_⟩
    rw [here] at same
    cases same
    rfl
  | lock here free => exact ⟨none, _, rfl, by rw [here]; exact ⟨true, rfl⟩, by simp [here]⟩
  | fail here => exact ⟨none, _, rfl, by rw [here]; exact ⟨false, rfl⟩, by simp [here]⟩
  | rand here b => exact ⟨none, _, rfl, by rw [here]; exact ⟨b, rfl⟩, by simp [here]⟩
  | store here | unlock here mine | values here | count here =>
    exact ⟨none, _, rfl, by rw [here]; rfl, by simp [here]⟩

theorem Move.next_quiet (move : Move variant s t s') (quiet : (code (s.pc t)).isStore = false) :
    s'.next = s.next := by
  cases move with
  | store here =>
    rw [here] at quiet
    cases quiet
  | _ => rfl

/-- A step that writes no `next` begins no swap. -/
theorem swaps_quiet (owned : Owned variant first kind s) (move : Move variant s t s')
    (quiet : (code (s.pc t)).isStore = false) (u : Tid) : swaps s' u = swaps s u := by
  rcases move.goes with ⟨answer, new, pc, goes, -⟩
  have kind_same : (s'.pc t).kind = (s.pc t).kind :=
    ((owned.step move).kinds t).trans (owned.kinds t).symm
  unfold swaps
  by_cases who : u = t
  · subst who
    rw [kind_same, pc, goto_pc_self, swapped_goes goes quiet]
    rcases move.counter with ⟨k, here, counter⟩ | ⟨uncounted, counter⟩
    · split
      · next swap => rw [counter, Function.update_self, swapped_count here swap]
      · rfl
    · rw [counter, swapped_quiet quiet uncounted]
  · have counter : s'.counter u = s.counter u := by
      rcases move.counter with ⟨k, -, counter⟩ | ⟨-, counter⟩
      · rw [counter, Function.update_of_ne who]
      · rw [counter]
    rw [pc, goto_pc_of_ne new who, counter]

variable [Fintype Tid]

/-- With every swap in progress completed, the list is `l`. -/
structure Ordered (initial : List Node) (s : State Node Tid) (done : Node → Option Node)
    (l : List Node) : Prop where
  linked : Linked done s.first l
  exchanges : Exchanges (∑ t, swaps s t) initial l
  promised : ∀ t, Promised done (s.pc t)
  written : ∀ a, (∀ t, a ∉ unwritten (s.pc t)) → done a = s.next a

/-- A step that writes no `next`. -/
theorem Ordered.quiet (ordered : Ordered initial s done l) (owned : Owned variant first kind s)
    (move : Move variant s t s') (quiet : (code (s.pc t)).isStore = false) :
    Ordered initial s' done l := by
  rcases move.goes with ⟨answer, new, pc, goes, -⟩
  have idle : swapped new = 0 := swapped_goes goes quiet
  have first_same : s'.first = s.first := (owned.step move).first.trans owned.first.symm
  refine ⟨?_, ?_, fun u => ?_, fun a free => ?_⟩
  · rw [first_same]
    exact ordered.linked
  · rw [Finset.sum_congr rfl fun u _ => swaps_quiet owned move quiet u]
    exact ordered.exchanges
  · by_cases who : u = t
    · rw [who, pc, goto_pc_self]
      exact .of_idle idle
    · rw [pc, goto_pc_of_ne new who]
      exact ordered.promised u
  · rw [move.next_quiet quiet]
    apply ordered.written a
    intro u
    by_cases who : u = t
    · rw [who, unwritten_quiet quiet]
      exact List.not_mem_nil
    · rw [← goto_pc_of_ne (s := s) new who, ← pc]
      exact free u

section Write

variable {x : Node} {v : Option Node} {k : Pc Node}

omit [Fintype Tid] in
/-- The swaps a thread has begun, after one of its writes. -/
theorem swaps_written (pending : swapped k = 1) (swap : k.kind = .swap) :
    swaps { s.goto t k with next := Function.update s.next x v } t = s.counter t + 1 := by
  unfold swaps
  rw [show State.pc _ t = k from goto_pc_self k, if_pos swap, pending]
  rfl

/-- The swaps begun, after a write. -/
theorem swaps_write (pending : swapped k = 1) (swap : k.kind = .swap)
    (same_kind : (s.pc t).kind = .swap) :
    (∑ u, swaps { s.goto t k with next := Function.update s.next x v } u) + swapped (s.pc t) =
      (∑ u, swaps s u) + 1 := by
  have own := swaps_written (s := s) (t := t) (x := x) (v := v) pending swap
  have before : swaps s t = s.counter t + swapped (s.pc t) := if_pos same_kind
  have moved : _ = _ := sum_move (t := t) (f := swaps s)
    (g := swaps { s.goto t k with next := Function.update s.next x v }) fun u who => by
      unfold swaps
      rw [show State.pc _ u = s.pc u from goto_pc_of_ne k who]
      rfl
  rw [own, before] at moved
  omega

/-- The second and the third write of a swap do what was promised. -/
theorem Ordered.finish (ordered : Ordered initial s done l) (pending : swapped (s.pc t) = 1)
    (swap : (s.pc t).kind = .swap) (still : swapped k = 1) (same_kind : k.kind = .swap)
    (kept : done x = v) (promised : Promised done k)
    (less : ∀ y, y ∈ unwritten (s.pc t) → y = x ∨ y ∈ unwritten k) :
    Ordered initial { s.goto t k with next := Function.update s.next x v } done l := by
  have begun := swaps_write (x := x) (v := v) still same_kind swap
  rw [pending] at begun
  refine ⟨ordered.linked, ?_, fun u => ?_, fun y free => ?_⟩
  · rw [Nat.add_right_cancel begun]
    exact ordered.exchanges
  · by_cases who : u = t
    · rw [who, show State.pc _ t = k from goto_pc_self k]
      exact promised
    · rw [show State.pc _ u = s.pc u from goto_pc_of_ne k who]
      exact ordered.promised u
  · show done y = Function.update s.next x v y
    by_cases node : y = x
    · rw [node, Function.update_self, kept]
    · rw [Function.update_of_ne node]
      apply ordered.written y
      intro u member
      have here := free u
      by_cases who : u = t
      · rw [who, show State.pc _ t = k from goto_pc_self k] at here
        rw [who] at member
        exact (less y member).elim node here
      · rw [show State.pc _ u = s.pc u from goto_pc_of_ne k who] at here
        exact here member

omit [DecidableEq Node] [DecidableEq Tid] in
/-- What a thread holds is in the list. -/
theorem Ordered.held_mem (ordered : Ordered initial s done l) (known : Known initial s) {a : Node}
    (holds : a ∈ held (s.pc t)) : a ∈ l :=
  ordered.exchanges.perm.mem_iff.mpr (known.locals t (held_nodes _ holds))

/-- With the first write of a swap the nodes `b` and `c` behind `a` change places. -/
theorem Ordered.begin (ordered : Ordered initial s done l) (owned : Owned variant first kind s)
    (known : Known initial s) {a b c : Node} {p q : Option Node}
    (here : s.pc t = .storeCurr2 a b c p q v) (ab : s.next a = some b) (bc : s.next b = some c)
    (tail : s.next c = v) :
    ∃ done' l', Ordered initial
      { s.goto t (.storeCurr3 a b c p q) with next := Function.update s.next b v } done' l' := by
  have swap : (s.pc t).kind = .swap := by rw [here]; rfl
  have holds : held (s.pc t) = [a, b, c] := by rw [here]; rfl
  have distinct := owned.locks.nodup swap
  rw [holds] at distinct
  obtain ⟨⟨a_b, a_c⟩, b_c⟩ : (a ≠ b ∧ a ≠ c) ∧ b ≠ c := by simpa using distinct
  -- nobody is going to write to the three nodes, so that they have their final values
  have settled : ∀ y ∈ [a, b, c], done y = s.next y := by
    intro y member
    rw [← holds] at member
    apply ordered.written y
    intro u pending
    by_cases who : u = t
    · rw [who, here] at pending
      cases pending
    · exact owned.locks.apart swap member who (unwritten_held _ pending)
  have in_list : a ∈ l := ordered.held_mem known (t := t) (by simp [holds])
  obtain ⟨pre, post, rfl⟩ := Linked.split ordered.linked in_list
    ((settled a (by simp)).trans ab) ((settled b (by simp)).trans bc)
  obtain ⟨done', at_a, at_b, at_c, others⟩ : ∃ done' : Node → Option Node, done' a = some c ∧
      done' b = v ∧ done' c = some b ∧ ∀ y, y ≠ a → y ≠ b → y ≠ c → done' y = done y := by
    refine ⟨Function.update (Function.update (Function.update done a (some c)) b v) c (some b),
      ?_, ?_, ?_, ?_⟩
    · rw [Function.update_of_ne a_c, Function.update_of_ne a_b, Function.update_self]
    · rw [Function.update_of_ne b_c, Function.update_self]
    · rw [Function.update_self]
    · intro y not_a not_b not_c
      rw [Function.update_of_ne not_c, Function.update_of_ne not_b, Function.update_of_ne not_a]
  have begun := swaps_write (s := s) (t := t) (x := b) (v := v)
    (k := .storeCurr3 a b c p q) rfl rfl swap
  rw [here] at begun
  refine ⟨done', pre ++ a :: c :: b :: post, ?_, ?_, fun u => ?_, fun y free => ?_⟩
  · apply ordered.linked.exchange others at_a at_c
    rw [at_b, settled c (by simp), tail]
  · rw [show (∑ u, swaps _ u) = _ from begun]
    exact .snoc ordered.exchanges
  · by_cases who : u = t
    · rw [who, show State.pc _ t = _ from goto_pc_self _]
      exact ⟨at_a, at_c⟩
    · rw [show State.pc _ u = s.pc u from goto_pc_of_ne _ who]
      refine (ordered.promised u).congr fun y member => ?_
      have elsewhere : ∀ z ∈ [a, b, c], y ≠ z := by
        intro z mine same
        subst same
        rw [← holds] at mine
        exact owned.locks.apart swap mine who member
      exact others y (elsewhere a (by simp)) (elsewhere b (by simp)) (elsewhere c (by simp))
  · show done' y = Function.update s.next b v y
    have mine := free t
    rw [show State.pc _ t = _ from goto_pc_self _] at mine
    obtain ⟨not_a, not_c⟩ : y ≠ a ∧ y ≠ c := by simpa [unwritten] using mine
    by_cases not_b : y = b
    · rw [not_b, Function.update_self, at_b]
    · rw [Function.update_of_ne not_b, others y not_a not_b not_c]
      apply ordered.written y
      intro u
      by_cases who : u = t
      · rw [who, here]
        exact List.not_mem_nil
      · have unchanged := free u
        rw [show State.pc _ u = s.pc u from goto_pc_of_ne _ who] at unchanged
        exact unchanged

end Write

theorem Ordered.step (ordered : Ordered initial s done l) (owned : Owned variant first kind s)
    (known : Known initial s) (move : Move variant s t s') :
    ∃ done' l', Ordered initial s' done' l' := by
  cases writes : (code (s.pc t)).isStore with
  | false => exact ⟨done, l, ordered.quiet owned move writes⟩
  | true =>
    cases move with
    | @store x v k here =>
      rcases (owned.facts t).stores here with ⟨a, c, at_t, rfl, ab, bc, tail⟩ |
        ⟨a, b, at_t, rfl, rfl⟩ | ⟨b, c, at_t, rfl, rfl⟩
      · exact ordered.begin owned known at_t ab bc tail
      · have promised := ordered.promised t
        rw [at_t] at promised
        refine ⟨done, l, ordered.finish ?_ ?_ rfl rfl promised.2 promised.1 ?_⟩
        all_goals rw [at_t]
        · rfl
        · rfl
        · simp [unwritten, or_comm]
      · have promised := ordered.promised t
        rw [at_t] at promised
        refine ⟨done, l, ordered.finish ?_ ?_ rfl rfl promised trivial ?_⟩
        all_goals rw [at_t]
        · rfl
        · rfl
        · simp [unwritten]
    | first here | load here | lock here | fail here | unlock here | values here | rand here
    | count here =>
      rw [here] at writes
      cases writes

/-! ## Runs -/

omit [DecidableEq Node] [DecidableEq Tid] in
theorem Ordered.init {next : Node → Option Node} (linked : Linked next first initial) :
    Ordered initial (init first next kind) next initial := by
  refine ⟨linked, ?_, fun t => ?_, fun a _ => rfl⟩
  · have nothing : ∀ t, swaps (Workers.init first next kind) t = 0 := by
      intro t
      show (if (start (kind t)).kind = .swap then 0 + swapped (start (kind t)) else 0) = 0
      cases kind t <;> rfl
    rw [Finset.sum_congr rfl fun t _ => nothing t, Finset.sum_const_zero]
    exact .refl initial
  · show Promised next (start (kind t))
    cases kind t <;> trivial

theorem ordered {next : Node → Option Node} (linked : Linked next first initial)
    (reached : Reachable (step variant) (init first next kind) s) :
    Known initial s ∧ ∃ done l, Ordered initial s done l := by
  refine reached.induction (motive := fun s => Known initial s ∧ ∃ done l, Ordered initial s done l)
    ⟨.init linked kind, next, initial, .init linked⟩ ?_
  intro a b e before known moved
  rcases known with ⟨known, done, l, ordered⟩
  have move := step_move moved
  exact ⟨known.step move, ordered.step (owned before) known move⟩

/-- **Swaps exchange neighbours.**  Whenever no thread has three nodes locked, the list runs through
the initial nodes, from the initial first one, and its order is the initial one after as
many exchanges of neighbours behind the first as the swapping threads have counted. -/
theorem swaps_exchange_neighbours {next : Node → Option Node} (linked : Linked next first initial)
    (reached : Reachable (step variant) (init first next kind) s)
    (outside : ∀ t, (s.pc t).critical = false) :
    ∃ l, Linked s.next s.first l ∧ l.Perm initial ∧ l.head? = initial.head? ∧
      Exchanges (∑ t with kind t = .swap, s.counter t) initial l := by
  rcases ordered linked reached with ⟨-, done, l, ordered⟩
  have settled : done = s.next := by
    funext a
    apply ordered.written a
    intro t pending
    rw [(swapped_outside (outside t)).2] at pending
    cases pending
  have begun : ∑ t, swaps s t = ∑ t with kind t = .swap, s.counter t := by
    rw [Finset.sum_filter]
    apply Finset.sum_congr rfl
    intro t _
    unfold swaps
    rw [(owned reached).kinds t, (swapped_outside (outside t)).1, Nat.add_zero]
  have exchanges := ordered.exchanges
  rw [begun] at exchanges
  exact ⟨l, settled ▸ ordered.linked, exchanges.perm, exchanges.head, exchanges⟩

/-- Three nodes in a row, and one thread of each kind. -/
def triple : Fin 3 → Option (Fin 3)
  | 0 => some 1
  | 1 => some 2
  | 2 => none

def pair : Fin 2 → Kind
  | 0 => .swap
  | 1 => .process

theorem triple_linked : Linked triple (some 0) [0, 1, 2] := ⟨rfl, rfl, rfl, rfl⟩

/-- One swap, from `storage->first` to the third unlock. -/
def swapOnce : List (Event (Fin 2)) := List.replicate 27 ⟨0, true⟩

theorem swaps_exchange_neighbours_once : ∃ s,
    Reachable (step .mutex) (init (some 0) triple pair) s ∧
    ∑ t with pair t = .swap, s.counter t = 1 ∧
    ∃ l, Linked s.next s.first l ∧ l.Perm [0, 1, 2] ∧ l.head? = some 0 ∧
      Exchanges (∑ t with pair t = .swap, s.counter t) [0, 1, 2] l := by
  have reached : Reachable (step .mutex) (init (some 0) triple pair) _ := ⟨swapOnce, rfl⟩
  refine ⟨_, reached, by decide, swaps_exchange_neighbours triple_linked reached ?_⟩
  decide

end Os2Labs.Workers
