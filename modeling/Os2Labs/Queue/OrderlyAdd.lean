import Os2Labs.Queue.Orderly

/-!
# The steps of the writer in an orderly run

`Sound.add_access` says that they keep `Sound`, `Sound.add_defined` that they do not fault.
-/

namespace Os2Labs.Queue.Unlocked

open Conc

variable {max : Int} {m m' : Mem} {l : List Addr} {d i n : Nat} {w : Option AddPoint}
  {r : Option GetPoint}

/-- The values, after one more was linked. -/
theorem values_append {a : Addr}
    (values : ∀ j b, l[j]? = some b → m'.val b = some (BitVec.ofNat 32 (d + j)))
    (val : m'.val a = some (BitVec.ofNat 32 (d + l.length))) :
    ∀ j b, (l ++ [a])[j]? = some b → m'.val b = some (BitVec.ofNat 32 (d + j)) := by
  intro j b there
  by_cases old : j < l.length
  · rw [List.getElem?_append_left old] at there
    exact values j b there
  · rw [List.getElem?_append_right (Nat.not_lt.mp old), List.getElem?_singleton] at there
    split at there
    · next last =>
      cases there
      rw [show j = l.length by omega]
      exact val
    · cases there

/-- The node is linked as the first one. -/
theorem Sound.link_first {new : Ptr} (sound : Sound max m l d i n (some (.storeFirst new)) r) :
    ∃ l', Sound max { m with q := m.q.setPtr .first new } l' d i n (some .loadIncrement) r := by
  obtain ⟨⟨a, c, rfl, here, rfl, outside, other⟩, rfl, last⟩ := sound.add
  have added : i + 0 = d + 0 := sound.added
  have count : r.elim false GetPoint.storing = false →
    m.q.count + ((0 : Nat) : Int) ≤ ((0 : Nat) : Int) + r.elim 0 GetPoint.uncounted := sound.count
  have adds : m.q.addCount + ((0 : Nat) : Int) = d + ((0 : Nat) : Int) := sound.adds
  refine ⟨[a], { sound with
    linked := ⟨rfl, ?_⟩, values := ?_, count := ?_, last := fun _ _ => last, added := ?_,
    adds := ?_, add := trivial, get := ?_ }⟩
  · show m.next a = none
    rw [Mem.next, here]
    rfl
  · apply values_append (l := []) (fun j b there => by cases there)
    show m.val a = _
    rw [Mem.val, here, show i = d by omega]
    rfl
  · intro settled
    have before := count settled
    show m.q.count + ((1 : Nat) : Int) ≤ ((1 : Nat) : Int) + _
    omega
  · show i + 1 = d + 1
    omega
  · show m.q.addCount + ((1 : Nat) : Int) = d + ((1 : Nat) : Int)
    omega
  · refine sound.get_link ?_ ?_ (fun _ _ => ?_) other rfl (Or.inl rfl)
    · rfl
    · rfl
    · exact id

/-- The node is linked to the last one. -/
theorem Sound.link_last {new last : Ptr} {x : Fresh} {res : Unit}
    (sound : Sound max m l d i n (some (.link new last)) r)
    (performed : (Access.storeNext last new).perform x m = some (res, m')) :
    ∃ l', Sound max m' l' d i n (some (.reloadLast new)) r := by
  obtain ⟨⟨a, c, rfl, here, rfl, outside, other⟩, some_node, rfl⟩ := sound.add
  rcases l.eq_nil_or_concat with rfl | ⟨front, b, l_eq⟩
  · exact (some_node rfl).elim
  rw [List.concat_eq_append] at l_eq
  have at_end : l.getLast? = some b := by rw [l_eq, List.getLast?_concat]
  have b_mem : b ∈ l := by simp [l_eq]
  have a_b : a ≠ b := fun same => outside (same ▸ b_mem)
  obtain ⟨x, at_b⟩ := Option.ne_none_iff_exists'.mp (sound.live b_mem)
  rw [at_end, Access.perform, Mem.node, Option.bind_some, at_b] at performed
  cases performed
  have next_b : (m.setNode (some b) (some { x with next := some a })).next b = some a := by
    rw [Mem.next, heap_setNode_self]
    rfl
  have next_a : (m.setNode (some b) (some { x with next := some a })).next a = none := by
    rw [next_setNode_of_ne _ a_b, Mem.next, here]
    rfl
  have val : ∀ y, (m.setNode (some b) (some { x with next := some a })).val y = m.val y := by
    intro y
    by_cases same : y = b
    · rw [same, Mem.val, heap_setNode_self, Mem.val, at_b]
      rfl
    · exact val_setNode_of_ne _ same
  have added : i + 0 = d + l.length := sound.added
  have count : r.elim false GetPoint.storing = false →
    m.q.count + ((0 : Nat) : Int) ≤ l.length + r.elim 0 GetPoint.uncounted := sound.count
  have adds : m.q.addCount + ((0 : Nat) : Int) = d + l.length := sound.adds
  have length : (l ++ [a]).length = l.length + 1 := List.length_append
  refine ⟨l ++ [a], { sound with
    linked := ?_, values := values_append (fun j y there => ?_) ?_, count := ?_,
    last := fun _ still => (Bool.noConfusion still), added := ?_, adds := ?_,
    add := ⟨a, b, rfl, List.getLast?_concat, (sound.last some_node rfl).trans at_end, next_b⟩,
    get := ?_ }⟩
  · have linked := sound.linked
    rw [l_eq] at linked ⊢
    exact linked.snoc (fun y other => next_setNode_of_ne _ other) next_b next_a
  · rw [val]
    exact sound.values j y there
  · rw [val, Mem.val, here, show d + l.length = i by omega]
    rfl
  · intro settled
    have before := count settled
    show m.q.count + ((1 : Nat) : Int) ≤ _
    omega
  · show i + 1 = _
    omega
  · show m.q.addCount + ((1 : Nat) : Int) = _
    omega
  · exact sound.get_link rfl rfl (fun _ _ => live_setNode _) other rfl (Or.inr rfl)

/-- The node is counted. -/
theorem Sound.increment {z : Int} (sound : Sound max m l d i n (some (.storeIncrement z)) r)
    (true_count : r.elim false GetPoint.storing = false →
      z + 1 ≤ l.length + r.elim 0 GetPoint.uncounted) :
    Sound max { m with q := m.q.setInt .count (z + 1) } l d i n (some .loadAdds) r := by
  obtain ⟨nonneg, small⟩ := sound.add
  refine { sound with
    nonneg := ?_, bound := ?_, count := ?_, room := nofun, add := trivial, get := ?_ }
  · show 0 ≤ z + 1
    omega
  · show z + 1 ≤ max
    omega
  · intro settled
    have known := true_count settled
    show z + 1 + ((0 : Nat) : Int) ≤ _
    omega
  · refine sound.get_still (fun _ => ?_) ?_ (fun _ _ => ?_) (Nat.zero_le 1) nofun
    · show 1 ≤ z + 1
      omega
    · rfl
    · exact id

theorem Sound.add_access {p : AddPoint} (sound : Sound max m l d i n (some p) r) {o : Access}
    {k : o.Res → AddPoint} (head : p.head (BitVec.ofNat 32 i) = .op o k) {new : Fresh} {res : o.Res}
    (done : sem.exec o new m = some (res, m'))
    (closing : o = .loadPtr .first → ∀ tmp val, r ≠ some (.storeFirst tmp val none))
    (true_count : ∀ z, o = .storeInt .count z → r.elim false GetPoint.storing = false →
      z ≤ l.length + r.elim 0 GetPoint.uncounted) :
    ∃ l', Sound max m' l' d i n (some (k res)) r := by
  have facts := sound.add
  obtain ⟨defined, performed⟩ := exec_eq_some done
  cases p <;> cases head
  case loadAttempts =>
    cases performed
    exact ⟨l, { sound with add := trivial }⟩
  case storeAttempts attempts =>
    cases performed
    exact ⟨l, { sound with add := trivial }⟩
  case loadCount =>
    cases performed
    exact ⟨l, { sound with add := sound.bound }⟩
  case loadMax count =>
    cases performed
    have small : count ≤ m.q.maxCount := by
      rw [sound.maxCount]
      exact facts
    exact ⟨l, { sound with add := small }⟩
  case check count maxCount =>
    cases performed
    exact ⟨l, { sound with add := trivial }⟩
  case reloadCount =>
    cases performed
    exact ⟨l, { sound with add := (lt_or_eq_of_le sound.bound).symm }⟩
  case reloadMax count =>
    cases performed
    have maxCount : m.q.int .maxCount = max := sound.maxCount
    dsimp only
    rw [maxCount]
    by_cases full : count = max
    · rw [if_pos full]
      exact ⟨l, { sound with add := trivial }⟩
    · rw [if_neg full]
      have free : m.q.count < max := facts.resolve_left full
      exact ⟨l, { sound with add := trivial, room := fun _ => free }⟩
  case malloc =>
    have allocated : (if m.heap new.addr = none then
      some (some new.addr, m.setNode (some new.addr) (some new.contents)) else none) =
        some (res, m') := performed
    split at allocated
    · next unused =>
      cases allocated
      have outside : new.addr ∉ l := fun member => sound.live member unused
      have other : r.elim none GetPoint.garbage ≠ some new.addr := fun garbage =>
        (sound.garbage garbage).1 unused
      refine ⟨l, { sound with
        linked := linked_setNode _ outside sound.linked
        values := values_setNode _ outside sound.values
        add := ⟨new.addr, new.contents, rfl, heap_setNode_self _ _, trivial, outside, other⟩
        get :=
          sound.get_still id rfl (fun _ _ => live_setNode _) (Nat.le_refl _) Bool.noConfusion }⟩
    · cases allocated
  case checkNew new =>
    cases performed
    exact ⟨l, { sound with add := facts }⟩
  case storeVal new =>
    obtain ⟨a, c, rfl, here, -, outside, other⟩ := facts
    rw [Access.perform, Mem.node, Option.bind_some, here] at performed
    cases performed
    exact ⟨l, { sound with
      linked := linked_setNode _ outside sound.linked
      values := values_setNode _ outside sound.values
      add := ⟨a, _, rfl, heap_setNode_self _ _, rfl, outside, other⟩
      get := sound.get_still id rfl (fun _ _ => live_setNode _) (Nat.le_refl _) Bool.noConfusion }⟩
  case storeNext new =>
    obtain ⟨a, c, rfl, here, val, outside, other⟩ := facts
    rw [Access.perform, Mem.node, Option.bind_some, here] at performed
    cases performed
    exact ⟨l, { sound with
      linked := linked_setNode _ outside sound.linked
      values := values_setNode _ outside sound.values
      add := ⟨a, _, rfl, heap_setNode_self _ _, by rw [val], outside, other⟩
      get := sound.get_still id rfl (fun _ _ => live_setNode _) (Nat.le_refl _) Bool.noConfusion }⟩
  case testFirst new =>
    cases performed
    dsimp only
    have first : m.q.ptr .first = l.head? := (Linked.head? sound.linked).symm
    rw [first]
    by_cases empty : l.head? = none
    · rw [if_pos empty]
      exact ⟨l, { sound with add := ⟨facts, List.head?_eq_none_iff.mp empty⟩ }⟩
    · rw [if_neg empty]
      refine ⟨l, { sound with
        add := ⟨facts, fun nil => empty (List.head?_eq_none_iff.mpr nil)⟩
        get := sound.get_still id rfl (fun _ _ => id) (Nat.le_refl _) fun _ =>
          Or.inr (closing rfl) }⟩
  case storeLast new =>
    cases performed
    obtain ⟨unlinked, rfl⟩ := facts
    exact ⟨[], { sound with
      add := ⟨unlinked, rfl, rfl⟩
      last := fun some_node => (some_node rfl).elim }⟩
  case loadLast new =>
    cases performed
    exact ⟨l, { sound with add := ⟨facts.1, facts.2, sound.last facts.2 rfl⟩ }⟩
  case reloadLast new =>
    cases performed
    exact ⟨l, { sound with add := ⟨facts, rfl⟩ }⟩
  case loadLink new last =>
    obtain ⟨⟨a, b, rfl, at_end, last_there, successor⟩, rfl⟩ := facts
    rw [Access.perform, Mem.node, last_there, Option.bind_some] at performed
    rw [Mem.next] at successor
    obtain ⟨c, here, next⟩ := Option.bind_eq_some_iff.mp successor
    rw [here] at performed
    cases performed
    exact ⟨l, { sound with add := ⟨⟨a, rfl⟩, at_end, next⟩ }⟩
  case moveLast new next =>
    cases performed
    obtain ⟨-, at_end, rfl⟩ := facts
    exact ⟨l, { sound with add := trivial, last := fun _ _ => at_end.symm }⟩
  case loadIncrement =>
    cases performed
    exact ⟨l, { sound with add := ⟨sound.nonneg, sound.room rfl⟩ }⟩
  case loadAdds =>
    cases performed
    exact ⟨l, { sound with add := rfl }⟩
  case storeAdds adds =>
    cases performed
    have before : m.q.addCount + ((1 : Nat) : Int) = d + l.length := sound.adds
    rcases facts with rfl
    have after : m.q.addCount + 1 + ((0 : Nat) : Int) = d + l.length := by omega
    exact ⟨l, { sound with add := trivial, adds := after }⟩
  case storeFirst new =>
    cases performed
    exact sound.link_first
  case link new last => exact sound.link_last performed
  case storeIncrement count =>
    cases performed
    exact ⟨l, sound.increment (true_count _ rfl)⟩

/-- No access of the writer faults. -/
theorem Sound.add_defined {p : AddPoint} (sound : Sound max m l d i n (some p) r)
    (isInt : max ≤ intMax) {o : Access} {k : o.Res → AddPoint}
    (head : p.head (BitVec.ofNat 32 i) = .op o k) :
    ¬ o.Faults m := by
  have facts := sound.add
  cases p <;> cases head <;> simp only [Access.Faults, not_false_eq_true, reduceCtorEq, false_and]
  case check count maxCount =>
    rw [decide_eq_false_iff_not, not_not]
    exact facts
  case checkNew new =>
    obtain ⟨a, c, rfl, -⟩ := facts
    exact Bool.noConfusion
  case storeVal new =>
    obtain ⟨a, c, rfl, here, -⟩ := facts
    rw [Mem.node, Option.bind_some, here]
    exact Option.some_ne_none c
  case storeNext new =>
    obtain ⟨a, c, rfl, here, -⟩ := facts
    rw [Mem.node, Option.bind_some, here]
    exact Option.some_ne_none c
  case link new last =>
    obtain ⟨-, some_node, rfl⟩ := facts
    rw [List.getLast?_eq_some_getLast some_node, Mem.node, Option.bind_some]
    exact sound.live (List.getLast_mem some_node)
  case loadLink new last =>
    obtain ⟨⟨a, b, -, -, last_there, successor⟩, rfl⟩ := facts
    rw [last_there, Mem.node, Option.bind_some]
    intro freed
    rw [Mem.next, freed] at successor
    cases successor
  case storeIncrement count =>
    have lower : intMin ≤ 0 := by decide
    obtain ⟨nonneg, small⟩ := facts
    omega

end Os2Labs.Queue.Unlocked
