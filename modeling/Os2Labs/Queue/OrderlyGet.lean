import Os2Labs.Queue.Orderly

/-!
# The steps of the reader in an orderly run

`Sound.get_access` says that they keep `Sound`, `Sound.get_defined` that they do not fault.
-/

namespace Os2Labs.Queue.Unlocked

open Conc

variable {max : Int} {m m' : Mem} {l : List Addr} {d i n : Nat} {w : Option AddPoint}
  {r : Option GetPoint}

/-- What the writer knows when the reader takes the first node. -/
theorem AddFacts.pop {val : CInt} {p : AddPoint} {a : Addr}
    (facts : AddFacts max m (a :: l) none val p)
    (busy : p.appending = true ∨ p.moving = true → l ≠ []) :
    AddFacts max m l (some a) val p := by
  have unlinked : ∀ {new content}, Unlinked m (a :: l) none new content →
      Unlinked m l (some a) new content := by
    intro new content before
    obtain ⟨b, c, same, here, holds, outside, -⟩ := before
    rw [List.mem_cons, not_or] at outside
    exact ⟨b, c, same, here, holds, outside.2, fun equal => outside.1 (Option.some.inj equal).symm⟩
  have end_same : l ≠ [] → (a :: l).getLast? = l.getLast? := by
    intro some_node
    cases l with
    | nil => exact (some_node rfl).elim
    | cons b l => rfl
  have moving : l ≠ [] → ∀ {new}, Moving m (a :: l) new → Moving m l new := by
    intro some_node new before
    obtain ⟨b, c, same, at_end, last, successor⟩ := before
    exact ⟨b, c, same, (end_same some_node).symm.trans at_end, last, successor⟩
  cases p
  case checkNew new => exact unlinked facts
  case storeVal new => exact unlinked facts
  case storeNext new => exact unlinked facts
  case testFirst new => exact unlinked facts
  case storeLast new => cases facts.2
  case storeFirst new => cases facts.2.1
  case loadLast new => exact ⟨unlinked facts.1, busy (Or.inl rfl)⟩
  case link new last =>
    have some_node := busy (Or.inl rfl)
    exact ⟨unlinked facts.1, some_node, facts.2.2.trans (end_same some_node)⟩
  case reloadLast new => exact moving (busy (Or.inr rfl)) facts
  case loadLink new last => exact ⟨moving (busy (Or.inr rfl)) facts.1, facts.2⟩
  case moveLast new next =>
    exact ⟨facts.1, (end_same (busy (Or.inr rfl))).symm.trans facts.2.1, facts.2.2⟩
  all_goals exact facts

/-- And when it frees the node. -/
theorem AddFacts.free {val : CInt} {p : AddPoint} {a : Addr}
    (facts : AddFacts max m l (some a) val p)
    (apart : p.readsLast = true → m.q.last ≠ some a) :
    AddFacts max (m.setNode (some a) none) l none val p := by
  have unlinked : ∀ {new content}, Unlinked m l (some a) new content →
      Unlinked (m.setNode (some a) none) l none new content := by
    intro new content before
    obtain ⟨b, c, same, here, holds, outside, other⟩ := before
    refine ⟨b, c, same, ?_, holds, outside, nofun⟩
    rw [heap_setNode_of_ne _ fun equal => other (congrArg some equal.symm), here]
  have moving : m.q.last ≠ some a → ∀ {new}, Moving m l new →
      Moving (m.setNode (some a) none) l new := by
    intro not_last new before
    obtain ⟨b, c, same, at_end, last, successor⟩ := before
    refine ⟨b, c, same, at_end, last, ?_⟩
    rw [next_setNode_of_ne _ fun equal => not_last (last.trans (congrArg some equal)), successor]
  cases p
  case checkNew new => exact unlinked facts
  case storeVal new => exact unlinked facts
  case storeNext new => exact unlinked facts
  case testFirst new => exact unlinked facts
  case storeLast new => exact ⟨unlinked facts.1, facts.2⟩
  case storeFirst new => exact ⟨unlinked facts.1, facts.2⟩
  case loadLast new => exact ⟨unlinked facts.1, facts.2⟩
  case link new last => exact ⟨unlinked facts.1, facts.2⟩
  case reloadLast new => exact moving (apart rfl) facts
  case loadLink new last => exact ⟨moving (apart rfl) facts.1, facts.2⟩
  all_goals exact facts

/-- The reader takes the first node. -/
theorem Sound.pop {tmp next : Ptr} {val : CInt}
    (sound : Sound max m l d i n w (some (.storeFirst tmp val next))) :
    ∃ l', Sound max { m with q := m.q.setPtr .first next } l' (d + 1) i n w
      (some (.free tmp val)) := by
  obtain ⟨⟨positive, more⟩, rfl, val_same, rfl, last⟩ := sound.get
  cases l with
  | nil => simp at more
  | cons a l =>
    have linked := sound.linked.2
    rw [← Linked.head? linked] at linked
    have taken : n + 0 = d := sound.taken
    have added : i + w.elim 0 AddPoint.linked = d + (l.length + 1) := sound.added
    have count : m.q.count + w.elim 0 AddPoint.uncounted ≤
        ((l.length + 1 : Nat) : Int) + ((0 : Nat) : Int) := sound.count rfl
    have adds : m.q.addCount + w.elim 0 AddPoint.untallied = d + ((l.length + 1 : Nat) : Int) :=
      sound.adds
    have gets : m.q.getCount + ((0 : Nat) : Int) = d := sound.gets
    have busy : w.elim false AddPoint.appending = true ∨ w.elim false AddPoint.moving = true →
        l ≠ [] := by
      intro busy empty
      rw [empty] at more last
      rcases busy with appending | moving
      · rw [last rfl] at appending
        cases appending
      · cases w with
        | none => cases moving
        | some p => cases p <;> simp [AddPoint.moving, AddPoint.uncounted] at moving more
    refine ⟨l, { sound with
      linked := linked, values := fun j b there => ?_, count := ?_,
      last := fun some_node still => ?_, added := ?_, taken := ?_, adds := ?_, gets := ?_,
      add := ?_,
      get := ⟨⟨a, rfl, sound.live List.mem_cons_self, ?_⟩, positive, val_same⟩ }⟩
    · have value := sound.values (j + 1) b there
      rw [show d + 1 + j = d + (j + 1) by omega]
      exact value
    · intro _
      show m.q.count + _ ≤ (l.length : Int) + ((1 : Nat) : Int)
      omega
    · have before := sound.last (List.cons_ne_nil a l) still
      cases l with
      | nil => exact (some_node rfl).elim
      | cons b l => exact before
    · omega
    · show n + 1 = d + 1
      omega
    · show m.q.addCount + _ = ((d + 1 : Nat) : Int) + l.length
      omega
    · show m.q.getCount + ((1 : Nat) : Int) = ((d + 1 : Nat) : Int)
      omega
    · have facts := sound.add
      cases w with
      | none => trivial
      | some p => exact facts.pop busy
    · exact (List.nodup_cons.mp sound.linked.nodup).1

/-- It frees it. -/
theorem Sound.free {tmp : Ptr} {val : CInt} (sound : Sound max m l d i n w (some (.free tmp val)))
    (apart : tmp = m.q.last → w.elim false AddPoint.readsLast = false) :
    Sound max (m.setNode tmp none) l d i n w (some (.loadDecrement val)) := by
  obtain ⟨⟨a, rfl, -, outside⟩, positive, val_same⟩ := sound.get
  refine { sound with
    linked := linked_setNode _ outside sound.linked
    values := values_setNode _ outside sound.values
    get := ⟨positive, val_same⟩, add := ?_ }
  have facts := sound.add
  cases w with
  | none => trivial
  | some p =>
    refine AddFacts.free facts fun reads last => ?_
    have clear : p.readsLast = false := apart last.symm
    rw [reads] at clear
    cases clear

/-- It counts it. -/
theorem Sound.decrement {z : Int} {val : CInt}
    (sound : Sound max m l d i n w (some (.storeDecrement val z))) :
    Sound max { m with q := m.q.setInt .count (z + -1) } l d i n w (some (.loadGets val)) := by
  obtain ⟨positive, small, true_count, val_same⟩ := sound.get
  refine { sound with
    nonneg := ?_, bound := ?_, count := ?_, room := fun _ => ?_, get := val_same, add := ?_ }
  · show 0 ≤ z + -1
    omega
  · show z + -1 ≤ max
    omega
  · intro _
    show z + -1 + _ ≤ (l.length : Int) + ((0 : Nat) : Int)
    omega
  · show z + -1 < max
    omega
  · have facts := sound.add
    cases w with
    | none => trivial
    | some p =>
      cases p
      case reloadMax count =>
        refine Or.inr ?_
        show z + -1 < max
        omega
      all_goals exact facts

theorem Sound.get_access {p : GetPoint} (sound : Sound max m l d i n w (some p)) {o : Access}
    {k : o.Res → GetPoint} (head : p.head = .op o k) {new : Fresh} {res : o.Res}
    (done : sem.exec o new m = some (res, m'))
    (ending : ∀ q, o = .loadNext q → (m.node q).bind QNodeT.next = none →
      w.elim false AddPoint.appending = false)
    (apart : ∀ q, o = .free q → q = m.q.last → w.elim false AddPoint.readsLast = false) :
    ∃ l' d', Sound max m' l' d' i n w (some (k res)) := by
  have facts := sound.get
  obtain ⟨defined, performed⟩ := exec_eq_some done
  cases p <;> cases head
  case loadAttempts =>
    cases performed
    exact ⟨l, d, { sound with get := trivial }⟩
  case storeAttempts attempts =>
    cases performed
    exact ⟨l, d, { sound with get := trivial }⟩
  case loadCount =>
    cases performed
    exact ⟨l, d, { sound with get := sound.nonneg }⟩
  case check count =>
    cases performed
    exact ⟨l, d, { sound with get := trivial }⟩
  case reloadCount =>
    cases performed
    dsimp only
    by_cases empty : m.q.count = 0
    · rw [show m.q.int .count = 0 from empty, if_pos rfl]
      exact ⟨l, d, { sound with get := trivial }⟩
    · rw [if_neg (show m.q.int .count ≠ 0 from empty)]
      have nonneg := sound.nonneg
      have count : m.q.count + w.elim 0 AddPoint.uncounted ≤ l.length + ((0 : Nat) : Int) :=
        sound.count rfl
      exact ⟨l, d, { sound with get := ⟨by omega, by omega⟩ }⟩
  case loadFirst =>
    cases performed
    exact ⟨l, d, { sound with get := ⟨facts, (Linked.head? sound.linked).symm⟩ }⟩
  case loadVal tmp =>
    obtain ⟨ready, rfl⟩ := facts
    cases l with
    | nil => exact absurd ready.2 (by simp)
    | cons a l =>
      have val := sound.values 0 a rfl
      have taken : n + 0 = d := sound.taken
      obtain ⟨c, here, value⟩ := Option.map_eq_some_iff.mp val
      rw [Access.perform, Mem.node, List.head?_cons, Option.bind_some, here] at performed
      cases performed
      refine ⟨a :: l, d, { sound with get := ⟨ready, rfl, ?_⟩ }⟩
      rw [value, ← taken]
      rfl
  case reloadFirst tmp val =>
    cases performed
    obtain ⟨ready, rfl, val_same⟩ := facts
    exact ⟨l, d, { sound with
      get := ⟨ready, rfl, val_same, (Linked.head? sound.linked).symm⟩ }⟩
  case loadNext tmp val first =>
    obtain ⟨ready, rfl, val_same, rfl⟩ := facts
    cases l with
    | nil => exact absurd ready.2 (by simp)
    | cons a l =>
      obtain ⟨c, here⟩ := Option.ne_none_iff_exists'.mp (sound.live (List.mem_cons_self (a := a)))
      have next : c.next = l.head? := by
        rw [Linked.head? sound.linked.2, Mem.next, here]
        rfl
      have node : m.node (a :: l).head? = some c := here
      rw [Access.perform, node] at performed
      cases performed
      refine ⟨a :: l, d, { sound with get := ⟨ready, rfl, val_same, next, fun none_left => ?_⟩ }⟩
      apply ending _ rfl
      rw [node]
      exact none_left
  case storeFirst tmp val next =>
    cases performed
    obtain ⟨l', popped⟩ := sound.pop
    exact ⟨l', d + 1, popped⟩
  case free tmp val =>
    cases performed
    exact ⟨l, d, sound.free (apart tmp rfl)⟩
  case loadDecrement val =>
    cases performed
    have count : m.q.count + w.elim 0 AddPoint.uncounted ≤ l.length + ((1 : Nat) : Int) :=
      sound.count rfl
    exact ⟨l, d, { sound with
      count := fun settled => Bool.noConfusion settled
      get := ⟨facts.1, sound.bound, by exact_mod_cast count, facts.2⟩ }⟩
  case storeDecrement val z =>
    cases performed
    exact ⟨l, d, sound.decrement⟩
  case loadGets val =>
    cases performed
    exact ⟨l, d, { sound with get := ⟨rfl, facts⟩ }⟩
  case storeGets val gets =>
    cases performed
    obtain ⟨rfl, val_same⟩ := facts
    have before : m.q.getCount + ((1 : Nat) : Int) = d := sound.gets
    have after : m.q.getCount + 1 + ((0 : Nat) : Int) = d := by omega
    exact ⟨l, d, { sound with get := val_same, gets := after }⟩

/-- No access of the reader faults. -/
theorem Sound.get_defined {p : GetPoint} (sound : Sound max m l d i n w (some p))
    (isInt : max ≤ intMax) {o : Access} {k : o.Res → GetPoint} (head : p.head = .op o k) :
    ¬ o.Faults m := by
  have facts := sound.get
  have first : Ready m l (w.elim 0 AddPoint.uncounted) → m.node l.head? ≠ none := by
    intro ready
    cases l with
    | nil => exact absurd ready.2 (by simp)
    | cons a l => exact sound.live List.mem_cons_self
  cases p <;> cases head <;> simp only [Access.Faults, not_false_eq_true, reduceCtorEq, false_and]
  case check count =>
    rw [decide_eq_false_iff_not, not_not]
    exact facts
  case loadVal tmp =>
    obtain ⟨ready, rfl⟩ := facts
    exact first ready
  case loadNext tmp val next =>
    obtain ⟨ready, rfl, -, rfl⟩ := facts
    exact first ready
  case free tmp val =>
    obtain ⟨⟨a, rfl, live, -⟩, -⟩ := facts
    exact fun freed => live freed.2
  case storeDecrement val z =>
    have lower : intMin ≤ 0 := by decide
    obtain ⟨positive, small, -⟩ := facts
    omega

end Os2Labs.Queue.Unlocked
