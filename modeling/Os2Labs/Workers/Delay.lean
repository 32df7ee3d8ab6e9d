import Mathlib.Algebra.BigOperators.Group.Finset.Piecewise
import Os2Labs.Conc.Ahead
import Os2Labs.Workers.Shape
import Os2Labs.Workers.SwapPass

/-!
# A pass among others

Other threads may carry the node at the cursor of a pass towards the front of the list, so that the
pass has one more node before it; nothing else that they do can delay it (`contended_pass`).

Nodes are counted in the order with all the swaps completed, which the first of the three writes
of a swap changes.  Where this order and the `next` fields differ, the code gets on faster
(`Ordered.ahead_next`).
-/

namespace Os2Labs.Workers

open Conc

variable {Node Tid : Type}

/-! ## The order, step by step -/

theorem Promised.unique {done done' : Node → Option Node} {pc : Pc Node} {x : Node}
    (left : Promised done pc) (right : Promised done' pc) (pending : x ∈ unwritten pc) :
    done x = done' x := by
  cases pc <;> simp only [unwritten, List.not_mem_nil, List.mem_cons, or_false] at pending
  case storeCurr3 curr1 second third curr2 curr3 =>
    rcases pending with rfl | rfl
    · exact left.1.trans right.1.symm
    · exact left.2.trans right.2.symm
  case storeCurr1 curr1 second third curr3 =>
    subst pending
    exact Eq.trans left (Eq.symm right)

variable [DecidableEq Node] [DecidableEq Tid] {variant : Variant} {s s' : State Node Tid}
  {t u : Tid}
  {initial l l' : List Node} {first : Option Node} {kind : Tid → Kind}
  {done done' : Node → Option Node}

/-- What a step of `t` does to the order. -/
inductive Reordered (s : State Node Tid) (t : Tid) (s' : State Node Tid) (l : List Node) :
    List Node → Prop
  | same (other : ∀ a b c p q v, s.pc t ≠ .storeCurr2 a b c p q v) : Reordered s t s' l l
  | exchange {a b c : Node} {p q v : Option Node} {pre post : List Node}
      (here : s.pc t = .storeCurr2 a b c p q v)
      (there : s'.pc = (s.goto t (.storeCurr3 a b c p q)).pc)
      (split : l = pre ++ a :: b :: c :: post) :
      Reordered s t s' l (pre ++ a :: c :: b :: post)

section Order

variable [Fintype Tid]

/-- The first write of a swap exchanges two neighbours of the order. -/
theorem Ordered.exchanged (ordered : Ordered initial s done l) (owned : Owned variant first kind s)
    (known : Known initial s) {a b c : Node} {p q v : Option Node}
    (here : s.pc t = .storeCurr2 a b c p q v) (ab : s.next a = some b) (bc : s.next b = some c)
    (tail : s.next c = v) (ordered' : Ordered initial
      { s.goto t (.storeCurr3 a b c p q) with next := Function.update s.next b v } done' l') :
    ∃ pre post, l = pre ++ a :: b :: c :: post ∧ l' = pre ++ a :: c :: b :: post := by
  have holds : held (s.pc t) = [a, b, c] := by rw [here]; rfl
  have idle : unwritten (s.pc t) = [] := by rw [here]; rfl
  have distinct := owned.locks.nodup (t := t) (by rw [here]; rfl)
  rw [holds] at distinct
  obtain ⟨⟨a_b, -⟩, b_c⟩ : (a ≠ b ∧ a ≠ c) ∧ b ≠ c := by simpa using distinct
  have settled : ∀ x ∈ [a, b, c], ∀ u, x ∉ unwritten (s.pc u) := by
    intro x member
    rw [← holds] at member
    exact owned.settled member (by rw [idle]; exact List.not_mem_nil)
  have in_list : a ∈ l := ordered.held_mem known (t := t) (by simp [holds])
  obtain ⟨pre, post, rfl⟩ := Linked.split ordered.linked in_list
    ((ordered.written a (settled a (by simp))).trans ab)
    ((ordered.written b (settled b (by simp))).trans bc)
  refine ⟨pre, post, rfl, ?_⟩
  -- the others are going to write what they were going to write
  have elsewhere : ∀ u, u ≠ t → State.pc { s.goto t (.storeCurr3 a b c p q) with
      next := Function.update s.next b v } u = s.pc u := fun u who => goto_pc_of_ne _ who
  have mine := ordered'.promised t
  rw [show State.pc _ t = .storeCurr3 a b c p q from goto_pc_self _] at mine
  obtain ⟨at_a, at_c⟩ := mine
  have at_b : done' b = v := by
    have untouched : ∀ u, b ∉ unwritten (State.pc { s.goto t (.storeCurr3 a b c p q) with
        next := Function.update s.next b v } u) := by
      intro u
      by_cases who : u = t
      · subst who
        rw [show State.pc _ u = .storeCurr3 a b c p q from goto_pc_self _]
        simp [unwritten, Ne.symm a_b, b_c]
      · rw [elsewhere u who]
        exact settled b (by simp) u
    rw [ordered'.written b untouched]
    exact Function.update_self ..
  have others : ∀ x, x ≠ a → x ≠ b → x ≠ c → done' x = done x := by
    intro x not_a not_b not_c
    by_cases pending : ∃ u, x ∈ unwritten (s.pc u)
    · obtain ⟨u, pending⟩ := pending
      have who : u ≠ t := by
        intro same
        rw [same, idle] at pending
        cases pending
      have theirs := ordered'.promised u
      rw [elsewhere u who] at theirs
      exact theirs.unique (ordered.promised u) pending
    · have free := not_exists.mp pending
      have untouched : ∀ u, x ∉ unwritten (State.pc { s.goto t (.storeCurr3 a b c p q) with
          next := Function.update s.next b v } u) := by
        intro u
        by_cases who : u = t
        · subst who
          rw [show State.pc _ u = .storeCurr3 a b c p q from goto_pc_self _]
          simp [unwritten, not_a, not_c]
        · rw [elsewhere u who]
          exact free u
      rw [ordered.written x free, ordered'.written x untouched]
      exact Function.update_of_ne not_b ..
  have at_tail : done' b = done c := by
    rw [at_b, ordered.written c (settled c (by simp)), tail]
  exact Linked.unique ordered'.linked (ordered.linked.exchange others at_a at_c at_tail)

theorem Ordered.reorder (ordered : Ordered initial s done l) (owned : Owned variant first kind s)
    (known : Known initial s) (move : Move variant s t s') :
    ∃ done' l', Ordered initial s' done' l' ∧ Reordered s t s' l l' := by
  cases writes : (code (s.pc t)).isStore with
  | false =>
    refine ⟨done, l, ordered.quiet owned move writes, .same ?_⟩
    intro a b c p q v here
    rw [here] at writes
    cases writes
  | true =>
    cases move with
    | @store x v k here =>
      rcases (owned.facts t).stores here with ⟨a, c, at_t, rfl, ab, bc, tail⟩ |
        ⟨a, b, at_t, rfl, rfl⟩ | ⟨b, c, at_t, rfl, rfl⟩
      · obtain ⟨done', l', ordered'⟩ := ordered.begin owned known at_t ab bc tail
        obtain ⟨pre, post, split, rfl⟩ :=
          ordered.exchanged owned known at_t ab bc tail ordered'
        exact ⟨done', _, ordered', .exchange at_t rfl split⟩
      · have promised := ordered.promised t
        rw [at_t] at promised
        refine ⟨done, l, ordered.finish ?_ ?_ rfl rfl promised.2 promised.1 ?_, .same ?_⟩
        all_goals rw [at_t]
        · rfl
        · rfl
        · simp [unwritten, or_comm]
        · intro _ _ _ _ _ _ same
          cases same
      · have promised := ordered.promised t
        rw [at_t] at promised
        refine ⟨done, l, ordered.finish ?_ ?_ rfl rfl promised trivial ?_, .same ?_⟩
        all_goals rw [at_t]
        · rfl
        · rfl
        · simp [unwritten]
        · intro _ _ _ _ _ _ same
          cases same
    | first here | load here | lock here | fail here | unlock here | values here | rand here
    | count here =>
      rw [here] at writes
      cases writes

/-- Following a `next` field, one gets on by at least one element. -/
theorem Ordered.ahead_next (ordered : Ordered initial s done l) (owned : Owned variant first kind s)
    (known : Known initial s) {x : Node} (member : x ∈ l) :
    ahead l (s.next x) < ahead l (some x) := by
  by_cases settled : ∀ t, x ∉ unwritten (s.pc t)
  · have one := ordered.linked.ahead_next member
    rw [ordered.written x settled] at one
    omega
  · simp only [not_forall, not_not] at settled
    obtain ⟨t, pending⟩ := settled
    obtain ⟨c, detached⟩ := detached_unwritten pending (owned.facts t)
    obtain ⟨a, b, triple⟩ := ordered.triple owned detached
    have held_in : ∀ y ∈ [a, b, c], y ∈ l := by
      intro y member
      rw [← triple.held] at member
      exact ordered.held_mem known member
    have from_a := ordered.linked.ahead_next (held_in a (by simp))
    have from_c := ordered.linked.ahead_next (held_in c (by simp))
    rw [triple.done_a] at from_a
    rw [triple.done_c] at from_c
    rcases triple.only x pending with rfl | rfl
    · rw [triple.next_a]
      omega
    · rcases triple.next_c with to_b | as_b
      · rw [to_b]
        omega
      · -- `curr2` is not going to be written to
        have distinct := owned.locks.nodup triple.swap
        rw [triple.held] at distinct
        have free : b ∉ unwritten (s.pc t) := by
          intro pending
          rcases triple.only b pending with rfl | rfl
          · simp at distinct
          · simp at distinct
        have from_b := ordered.linked.ahead_next (held_in b (by simp))
        rw [ordered.written b (owned.settled (by rw [triple.held]; simp) free)] at from_b
        rw [as_b]
        omega

omit [Fintype Tid] in
/-- How far other threads carry a node to the front. -/
theorem Reordered.carried (reordered : Reordered s u s' l l') (distinct : l.Nodup)
    (p : Option Node) :
    ahead l' p ≤ ahead l p ∨ (∃ a b c q r v, s.pc u = .storeCurr2 a b c q r v ∧ p = some c ∧
      ahead l' p = ahead l p + 1 ∧ ahead l p + 2 = ahead l (some a)) := by
  cases reordered with
  | same other => exact Or.inl (Nat.le_refl _)
  | @exchange a b c q r v pre post here there split =>
    subst split
    obtain ⟨at_a, new_c, old_c, new_b, old_b, others⟩ := ahead_exchange distinct
    by_cases is_c : p = some c
    · subst is_c
      exact Or.inr ⟨a, b, c, q, r, v, here, rfl, by omega, by omega⟩
    · by_cases is_b : p = some b
      · subst is_b
        left
        omega
      · exact Or.inl (others p is_b is_c).le

/-! ## The cursor, step by step -/

/-- What a step of a pass does; `d` nodes were ahead of it and `d'` are. -/
inductive Onward (pc new : Pc Node) (d d' : Nat) : Prop
  | begin (begins : pc.begins = true) (same : d' = d) (begun : pc.begun = 0 ∧ new.begun = 1)
      (left : new.left ≤ 21)
  | stay (begins : pc.begins = false) (same : d' = d) (begun : new.begun = pc.begun)
      (left : new.left + 1 ≤ pc.left)
  | pass (begins : pc.begins = false) (less : d' < d) (begun : pc.begun = 1 ∧ new.begun = 0)
      (left : new.left + 1 ≤ pc.left)

theorem Ordered.onward (ordered : Ordered initial s done l) (owned : Owned variant first kind s)
    (known : Known initial s) (move : Move variant s t s') (inner : (s.pc t).inner = true)
    (more : (s.pc t).over = false) (reordered : Reordered s t s' l l') :
    (s'.pc t).inner = true ∧ Onward (s.pc t) (s'.pc t) (ahead l (s.pc t).cursor)
      (ahead l' (s'.pc t).cursor) := by
  have facts := owned.facts t
  cases writes : (code (s.pc t)).isStore with
  | false =>
    have same : l' = l := by
      cases reordered with
      | same => rfl
      | exchange here =>
        rw [here] at writes
        cases writes
    subst same
    obtain ⟨answer, new, pc, goes, read⟩ := move.goes
    have at_new : s'.pc t = new := by rw [pc, goto_pc_self]
    rw [at_new]
    obtain ⟨inner, turn⟩ := facts.turn goes read inner more writes
    refine ⟨inner, ?_⟩
    cases turn with
    | begin begins cursor begun left => exact .begin begins (by rw [cursor]) begun left
    | stay begins cursor begun left => exact .stay begins (by rw [cursor]) begun left
    | @pass a begins passes here cursor past begun left =>
      refine .pass begins ?_ begun left
      rw [cursor, here]
      refine ordered.ahead_next owned known ?_
      refine ordered.exchanges.perm.mem_iff.mpr (known.locals t ?_)
      cases pc : s.pc t <;> rw [pc] at passes here <;> cases passes <;> cases here <;> simp [nodes]
  | true =>
    cases move with
    | @store x v k here =>
      rw [show State.pc _ t = k from goto_pc_self k]
      rcases facts.stores here with ⟨a, c, at_t, rfl, ab, bc, tail⟩ |
        ⟨a, b, at_t, rfl, rfl⟩ | ⟨b, c, at_t, rfl, rfl⟩
      · rw [at_t]
        cases reordered with
        | same other => exact (other _ _ _ _ _ _ at_t).elim
        | exchange here there split =>
          cases at_t.symm.trans here
          subst split
          obtain ⟨at_a, new_c, -⟩ := ahead_exchange ordered.linked.nodup
          refine ⟨rfl, .pass rfl ?_ ⟨rfl, rfl⟩ (Nat.le_refl _)⟩
          simp only [Pc.cursor]
          omega
      · cases reordered with
        | same other =>
          rw [at_t]
          exact ⟨rfl, .stay rfl rfl rfl (Nat.le_refl _)⟩
        | exchange here there split => cases at_t.symm.trans here
      · cases reordered with
        | same other =>
          rw [at_t]
          exact ⟨rfl, .stay rfl rfl rfl (Nat.le_refl _)⟩
        | exchange here there split => cases at_t.symm.trans here
    | first here | load here | lock here | fail here | unlock here | values here | rand here
    | count here =>
      rw [here] at writes
      cases writes

end Order

/-! ## A whole pass -/

/-- The node that a swap is about to bring one place to the front. -/
def Pc.carries : Pc Node → Option Node
  | .storeCurr2 _ _ c _ _ _ => some c
  | _ => none

/-- What is counted of a pass: executions of the body, steps, and how often another thread has
carried the node at the cursor to the front. -/
structure Delay where
  bodies : Nat
  steps : Nat
  carried : Nat

def Delay.zero : Delay := ⟨0, 0, 0⟩

/-- The recorder for the pass of `t`. -/
def delay (t : Tid) (s : State Node Tid) (e : Event Tid) (_ : State Node Tid) (g : Delay) : Delay :=
  if e.thread = t then
    { g with bodies := g.bodies + if (s.pc t).begins then 1 else 0, steps := g.steps + 1 }
  else
    { g with carried := g.carried +
        if (s.pc e.thread).carries.isSome ∧ (s.pc e.thread).carries = (s.pc t).cursor then 1
        else 0 }

/-- When its pass is over `t` stops. -/
def Unfinished (t : Tid) (s : State Node Tid) (e : Event Tid) : Prop :=
  e.thread = t → (s.pc t).over = false

instance (t : Tid) (s : State Node Tid) (e : Event Tid) : Decidable (Unfinished t s e) :=
  inferInstanceAs (Decidable (e.thread = t → (s.pc t).over = false))

/-- A swap begins with its first write. -/
theorem swaps_step (owned : Owned variant first kind s) (move : Move variant s t s') (u : Tid) :
    swaps s' u = swaps s u + if u = t ∧ (s.pc t).carries.isSome then 1 else 0 := by
  cases writes : (code (s.pc t)).isStore with
  | false =>
    have nothing : (s.pc t).carries = none := by
      cases pc : s.pc t <;> first | rfl | (rw [pc] at writes; cases writes)
    rw [swaps_quiet owned move writes u, nothing]
    simp
  | true =>
    cases move with
    | @store x v k here =>
      by_cases who : u = t
      · subst who
        have swap := ((owned.facts u).store_held here).1
        have counted : swaps s u = s.counter u + swapped (s.pc u) := if_pos swap
        rcases (owned.facts u).stores here with ⟨a, c, at_u, rfl, -⟩ | ⟨a, b, at_u, -, rfl⟩ |
          ⟨b, c, at_u, -, rfl⟩
        all_goals
          rw [swaps_written rfl rfl, counted, at_u]
          simp [swapped, Pc.carries]
      · unfold swaps
        rw [show State.pc _ u = s.pc u from goto_pc_of_ne k who]
        simp only [who, false_and, if_false]
        rfl
    | first here | load here | lock here | fail here | unlock here | values here | rand here
    | count here =>
      rw [here] at writes
      cases writes

section Pass

variable [Fintype Tid] {s₀ : State Node Tid} {g : Delay}

/-- A step of `t` does not count for the others. -/
theorem others_same (owned : Owned variant first kind s) (move : Move variant s t s') :
    ∑ u with u ≠ t, swaps s' u = ∑ u with u ≠ t, swaps s u := by
  apply Finset.sum_congr rfl
  intro u member
  have who := (Finset.mem_filter.mp member).2
  rw [swaps_step owned move u, if_neg fun both => who both.1]
  rfl

theorem others_more (owned : Owned variant first kind s) (move : Move variant s u s') (ne : u ≠ t) :
    ∑ w with w ≠ t, swaps s' w =
      (∑ w with w ≠ t, swaps s w) + if (s.pc u).carries.isSome then 1 else 0 := by
  rw [Finset.sum_congr rfl fun w _ => swaps_step owned move w, Finset.sum_add_distrib]
  congr 1
  by_cases carries : (s.pc u).carries.isSome
  · have member : u ∈ Finset.univ.filter fun w => w ≠ t :=
      Finset.mem_filter.mpr ⟨Finset.mem_univ u, ne⟩
    simp only [carries, and_true, if_true]
    rw [Finset.sum_ite_eq', if_pos member]
  · simp [carries]

/-- A pass of `t` that began at `s₀`: of the nodes, and one more for each time that the cursor has
been carried, it has been at some, and the others are ahead. -/
structure Contended (initial l : List Node) (t : Tid) (s₀ s : State Node Tid) (g : Delay) :
    Prop where
  inner : (s.pc t).inner = true
  bodies : g.bodies + ahead l (s.pc t).cursor ≤ initial.length + g.carried + (s.pc t).begun
  steps : g.steps + (s.pc t).left ≤ 22 * g.bodies
  others : g.carried + ∑ u with u ≠ t, swaps s₀ u ≤ ∑ u with u ≠ t, swaps s u

theorem Contended.step (contended : Contended initial l t s₀ s g)
    (ordered : Ordered initial s done l) (owned : Owned variant first kind s)
    (known : Known initial s) {e : Event Tid} (within : Unfinished t s e)
    (moved : Workers.step variant s e = some s') (reordered : Reordered s e.thread s' l l') :
    Contended initial l' t s₀ s' (delay t s e s' g) := by
  have move := step_move moved
  obtain ⟨inner, bodies, steps, others⟩ := contended
  unfold delay
  by_cases who : e.thread = t
  · rw [if_pos who]
    rw [who] at move reordered
    obtain ⟨inner', onward⟩ := ordered.onward owned known move inner (within who) reordered
    refine ⟨inner', ?_, ?_, ?_⟩
    · cases onward with
      | begin begins same begun left =>
        rw [begins, if_pos rfl, same]
        show g.bodies + 1 + _ ≤ initial.length + g.carried + _
        omega
      | stay begins same begun left =>
        rw [begins, same, begun]
        exact bodies
      | pass begins less begun left =>
        rw [begins]
        show g.bodies + 0 + _ ≤ initial.length + g.carried + _
        omega
    · cases onward with
      | begin begins same begun left =>
        rw [begins, if_pos rfl]
        show g.steps + 1 + _ ≤ 22 * (g.bodies + 1)
        omega
      | stay begins same begun left | pass begins less begun left =>
        rw [begins]
        show g.steps + 1 + _ ≤ 22 * (g.bodies + 0)
        omega
    · rw [others_same owned move]
      exact others
  · rw [if_neg who]
    obtain ⟨answer, new, pc, -, -⟩ := move.goes
    have same : s'.pc t = s.pc t := by rw [pc, goto_pc_of_ne new (Ne.symm who)]
    rw [← same] at inner steps
    refine ⟨inner, ?_, steps, ?_⟩
    · rw [same]
      show g.bodies + _ ≤ initial.length + (g.carried + _) + _
      rcases reordered.carried ordered.linked.nodup (s.pc t).cursor with
        less | ⟨a, b, c, p, q, v, here, at_c, more, -⟩
      · omega
      · rw [here, if_pos ⟨rfl, at_c.symm⟩]
        omega
    · rw [others_more owned move who]
      show g.carried + _ + _ ≤ _
      split
      · next hit =>
        rw [if_pos hit.1]
        omega
      · omega

/-- **A pass is delayed only by what carries its cursor.**  Whatever the other threads do, and
whatever the `trylock`s say, a pass over `n` nodes during which the others have carried the node at
its cursor `k` times towards the front executes its body at most `n + k` times, in at most 22
steps each; the others have begun at least `k` swaps meanwhile; and it is never stuck. -/
theorem contended_pass {next : Node → Option Node} (linked : Linked next first initial)
    (reached : Reachable (step variant) (init first next kind) s) {k : Kind} {a : Node}
    (begins : s.pc t = .tryFirst k a)
    (ran : Reachable (recorded (restrict (Unfinished t) (step variant)) (delay t))
      (s, Delay.zero) (s', g)) :
    g.bodies ≤ initial.length + g.carried ∧ g.steps ≤ 22 * (initial.length + g.carried) ∧
    g.carried + ∑ u with u ≠ t, swaps s u ≤ ∑ u with u ≠ t, swaps s' u ∧
    ((s'.pc t).over = false →
      ∃ e x, e.thread = t ∧ restrict (Unfinished t) (step variant) s' e = some x) := by
  have later : ∀ {x : State Node Tid × Delay},
      Reachable (recorded (restrict (Unfinished t) (step variant)) (delay t)) (s, Delay.zero) x →
        Reachable (step variant) (init first next kind) x.1 :=
    fun there => reached.trans there.of_recorded.of_restrict
  have contended : ∃ done l, Ordered initial s' done l ∧ Contended initial l t s s' g := by
    refine ran.induction (motive := fun x => ∃ done l, Ordered initial x.1 done l ∧
      Contended initial l t s x.1 x.2) ?_ ?_
    · obtain ⟨-, done, l, ordered⟩ := ordered linked reached
      refine ⟨done, l, ordered, ?_, ?_, ?_, ?_⟩
      · rw [begins]
        rfl
      · show 0 + ahead l (s.pc t).cursor ≤ initial.length + 0 + (s.pc t).begun
        have length := ordered.exchanges.perm.length_eq
        have most : ahead l (s.pc t).cursor ≤ l.length := ahead_le
        omega
      · rw [begins]
        exact Nat.le_refl 0
      · exact (Nat.zero_add _).le
    · intro x y e before so_far moved
      obtain ⟨done, l, ordered, contended⟩ := so_far
      obtain ⟨moved, noted⟩ := recorded_eq_some.mp moved
      obtain ⟨within, moved⟩ := restrict_eq_some.mp moved
      have here := owned (later before)
      have known := (Workers.ordered linked (later before)).1
      obtain ⟨done', l', ordered', reordered⟩ := ordered.reorder here known (step_move moved)
      rw [noted]
      exact ⟨done', l', ordered', contended.step ordered here known within moved reordered⟩
  obtain ⟨done, l, ordered, inner, bodies, steps, others⟩ := contended
  have here := owned (later ran)
  have known := (Workers.ordered linked (later ran)).1
  have reached_by : (s'.pc t).begun ≤ ahead l (s'.pc t).cursor := by
    rcases cursor_begun (s'.pc t) with none_begun | ⟨one, some_node⟩
    · omega
    · obtain ⟨x, at_x⟩ := Option.ne_none_iff_exists'.mp some_node
      have member : x ∈ l := by
        refine ordered.exchanges.perm.mem_iff.mpr (known.locals t ?_)
        cases pc : s'.pc t <;> rw [pc] at at_x one <;> cases one <;> cases at_x <;> simp [nodes]
      rw [one, at_x]
      exact ahead_pos member
  refine ⟨by omega, by omega, others, ?_⟩
  intro more
  have moves : ∃ e x, e.thread = t ∧ restrict (InPass t true) (step variant) s' e = some x :=
    goes_on here inner more fun _ _ _ same => (by cases same)
  obtain ⟨e, x, who, moved⟩ := moves
  exact ⟨e, x, who, restrict_eq_some.mpr ⟨fun _ => more, (restrict_eq_some.mp moved).2⟩⟩

end Pass

/-- `process_thread` has come to the last of three nodes when a whole swap carries that one to the
front, so that it comes to the second node again. -/
def carriedAlong (process swap : Tid) : List (Event Tid) :=
  List.replicate 5 ⟨process, false⟩ ++ List.replicate 27 ⟨swap, true⟩ ++
    List.replicate 3 ⟨process, false⟩

theorem contended_pass_carried : ∃ (s s' : State (Fin 3) (Fin 2)) (g : Delay),
    Reachable (step .mutex) (init (some 0) triple pair) s ∧
    Reachable (recorded (restrict (Unfinished 1) (step .mutex)) (delay 1)) (s, Delay.zero) (s', g) ∧
    (s'.pc 1).over = true ∧ g.bodies = 4 ∧ g.carried = 1 ∧
      g.bodies ≤ [0, 1, 2].length + g.carried := by
  have reached : Reachable (step .mutex) (init (some 0) triple pair) _ :=
    ⟨List.replicate 5 ⟨1, true⟩, rfl⟩
  have passed := contended_pass (t := 1) triple_linked reached rfl ⟨carriedAlong 1 0, rfl⟩
  exact ⟨_, _, _, reached, ⟨carriedAlong 1 0, rfl⟩, rfl, rfl, rfl, passed.1⟩

end Os2Labs.Workers
