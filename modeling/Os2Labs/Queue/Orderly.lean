import Os2Labs.Queue.ReaderWriter
import Os2Labs.Queue.UnlockedPoints

/-!
# Orderly runs of the reader and the writer of `lab2/1`

Without a lock the accesses of an add and of a get can meet in four ways that go wrong (`Orderly`
says that they do not):

* a get finds that it removes the only node while an add is about to append to that node;
* an add finds a first node that a get is about to replace by `NULL`;
* a get frees the node that an add is about to read through `last`;
* an add stores a count from before a decrement, and no get is about to overwrite it: then the
  count is too high.

A run in which none of this happens keeps `Sound`, where a lost increment only makes the count too
low.
-/

namespace Os2Labs.Queue.Unlocked

open Conc

/-! ## The condition -/

/-- The access a thread makes next. -/
def nextAccess (s : State Local Role) (t : Role) : Option Access :=
  match s.pc t with
  | some (_, .op o _) => some o
  | _ => none

/-- The accesses of an add between its test of `first` and its link to the last node. -/
def appends : Access → Bool
  | .loadPtr .last | .storeNext _ (some _) => true
  | _ => false

/-- The accesses of an add that read through `last`. -/
def readsLast : Access → Bool
  | .loadPtr .last | .loadNext _ => true
  | _ => false

/-- A get makes the queue empty. -/
def empties : Access → Bool
  | .storePtr .first none => true
  | _ => false

/-- A get has decremented the count and not yet incremented `get_count`. -/
def tallies : Access → Bool
  | .loadInt .getCount | .storeInt .getCount _ => true
  | _ => false

/-- A get is about to store the count. -/
def discounts : Access → Bool
  | .storeInt .count _ => true
  | _ => false

/-- The next access of the writer or the reader goes well together with the one that the other one
makes next. -/
def Orderly (s : State Local Role) : Event Role → Prop
  | .access .reader _ =>
      match nextAccess s .reader with
      | some (.loadNext p) =>
          (s.mem.node p).bind QNodeT.next = none →
            (nextAccess s .writer).all fun o => !appends o
      | some (.free p) =>
          p = s.mem.q.last → (nextAccess s .writer).all fun o => !readsLast o
      | _ => True
  | .access .writer _ =>
      match nextAccess s .writer with
      | some (.loadPtr .first) => (nextAccess s .reader).all fun o => !empties o
      | some (.storeInt .count z) =>
          (nextAccess s .reader).any discounts = false →
            z + s.mem.q.getCount + (if (nextAccess s .reader).any tallies then 1 else 0) ≤
              s.mem.q.addCount + 1
      | _ => True
  | _ => True

instance (s : State Local Role) (e : Event Role) : Decidable (Orderly s e) := by
  unfold Orderly
  split
  · split <;> infer_instance
  · split <;> infer_instance
  · infer_instance

/-! ## What the threads know -/

/-- The writer has linked its node, and not returned. -/
def AddPoint.linked : AddPoint → Nat
  | .reloadLast _ | .loadLink .. | .moveLast .. | .loadIncrement | .storeIncrement _ | .loadAdds
  | .storeAdds _ | .added => 1
  | _ => 0

/-- It has linked its node, and not counted it in `count`, or in `add_count`. -/
def AddPoint.uncounted : AddPoint → Nat
  | .reloadLast _ | .loadLink .. | .moveLast .. | .loadIncrement | .storeIncrement _ => 1
  | _ => 0

def AddPoint.untallied : AddPoint → Nat
  | .reloadLast _ | .loadLink .. | .moveLast .. | .loadIncrement | .storeIncrement _ | .loadAdds
  | .storeAdds _ => 1
  | _ => 0

/-- It has found the queue not empty, and is about to append. -/
def AddPoint.appending : AddPoint → Bool
  | .loadLast _ | .link .. => true
  | _ => false

/-- It has linked its node, and not moved `last` to it. -/
def AddPoint.moving : AddPoint → Bool
  | .reloadLast _ | .loadLink .. | .moveLast .. => true
  | _ => false

/-- It is about to read through `last` after it has linked its node. -/
def AddPoint.readsLast : AddPoint → Bool
  | .reloadLast _ | .loadLink .. => true
  | _ => false

/-- It has found room for its node. -/
def AddPoint.room : AddPoint → Bool
  | .malloc | .checkNew _ | .storeVal _ | .storeNext _ | .testFirst _ | .storeLast _ | .storeFirst _
  | .loadLast _ | .link .. | .reloadLast _ | .loadLink .. | .moveLast .. | .loadIncrement
  | .storeIncrement _ => true
  | _ => false

/-- The reader has taken a node from the queue, and not returned. -/
def GetPoint.taken : GetPoint → Nat
  | .free .. | .loadDecrement _ | .storeDecrement .. | .loadGets _ | .storeGets .. | .got _ => 1
  | _ => 0

/-- It has taken a node, and not counted it in `count`, or in `get_count`. -/
def GetPoint.uncounted : GetPoint → Nat
  | .free .. | .loadDecrement _ | .storeDecrement .. => 1
  | _ => 0

def GetPoint.untallied : GetPoint → Nat
  | .free .. | .loadDecrement _ | .storeDecrement .. | .loadGets _ | .storeGets .. => 1
  | _ => 0

/-- It is about to store the count. -/
def GetPoint.storing : GetPoint → Bool
  | .storeDecrement .. => true
  | _ => false

/-- The node it is about to free. -/
def GetPoint.garbage : GetPoint → Ptr
  | .free tmp _ => tmp
  | _ => none

/-- The node of an add that is not linked yet. -/
def Unlinked (m : Mem) (l : List Addr) (garbage new : Ptr) (content : QNodeT → Prop) : Prop :=
  ∃ a c, new = some a ∧ m.heap a = some c ∧ content c ∧ a ∉ l ∧ garbage ≠ some a

/-- The last node was linked to the one that `last` still points to. -/
def Moving (m : Mem) (l : List Addr) (new : Ptr) : Prop :=
  ∃ a b, new = some a ∧ l.getLast? = some a ∧ m.q.last = some b ∧ m.next b = some a

/-- What the writer knows, when it adds `val`. -/
def AddFacts (max : Int) (m : Mem) (l : List Addr) (garbage : Ptr) (val : CInt) : AddPoint → Prop
  | .loadMax count => count ≤ max
  | .check count maxCount => count ≤ maxCount
  | .reloadMax count => count = max ∨ m.q.count < max
  | .checkNew new | .storeVal new => Unlinked m l garbage new fun _ => True
  | .storeNext new => Unlinked m l garbage new fun c => c.val = val
  | .testFirst new => Unlinked m l garbage new (· = ⟨val, none⟩)
  | .storeLast new => Unlinked m l garbage new (· = ⟨val, none⟩) ∧ l = []
  | .storeFirst new => Unlinked m l garbage new (· = ⟨val, none⟩) ∧ l = [] ∧ m.q.last = new
  | .loadLast new => Unlinked m l garbage new (· = ⟨val, none⟩) ∧ l ≠ []
  | .link new last => Unlinked m l garbage new (· = ⟨val, none⟩) ∧ l ≠ [] ∧ last = l.getLast?
  | .reloadLast new => Moving m l new
  | .loadLink new last => Moving m l new ∧ last = m.q.last
  | .moveLast new next => (∃ a, new = some a) ∧ l.getLast? = new ∧ next = new
  | .storeIncrement count => 0 ≤ count ∧ count < max
  | .storeAdds adds => adds = m.q.addCount
  | _ => True

/-- There is a node for the reader that the writer has counted. -/
def Ready (m : Mem) (l : List Addr) (uncounted : Nat) : Prop :=
  1 ≤ m.q.count ∧ uncounted + 1 ≤ l.length

/-- What the reader knows, when it expects `val`. -/
def GetFacts (max : Int) (m : Mem) (l : List Addr) (uncounted : Nat) (appending : Bool)
    (expected : CInt) : GetPoint → Prop
  | .check count => 0 ≤ count
  | .loadFirst => Ready m l uncounted
  | .loadVal tmp => Ready m l uncounted ∧ tmp = l.head?
  | .reloadFirst tmp val => Ready m l uncounted ∧ tmp = l.head? ∧ val = expected
  | .loadNext tmp val first => Ready m l uncounted ∧ tmp = l.head? ∧ val = expected ∧ first = tmp
  | .storeFirst tmp val next => Ready m l uncounted ∧ tmp = l.head? ∧ val = expected ∧
      next = l.tail.head? ∧ (next = none → appending = false)
  | .free tmp val => (∃ a, tmp = some a ∧ m.heap a ≠ none ∧ a ∉ l) ∧ 1 ≤ m.q.count ∧ val = expected
  | .loadDecrement val => 1 ≤ m.q.count ∧ val = expected
  | .storeDecrement val count => 1 ≤ count ∧ count ≤ max ∧ count + uncounted ≤ l.length + 1 ∧
      val = expected
  | .loadGets val | .got val => val = expected
  | .storeGets val gets => gets = m.q.getCount ∧ val = expected
  | _ => True

/-- The memory and the two threads in an orderly run: the chain `l` holds the values from `d` on,
the writer has completed `i` adds and the reader `n` gets. -/
structure Sound (max : Int) (m : Mem) (l : List Addr) (d i n : Nat) (w : Option AddPoint)
    (r : Option GetPoint) : Prop where
  linked : Linked m.next m.q.first l
  values : ∀ j a, l[j]? = some a → m.val a = some (BitVec.ofNat 32 (d + j))
  maxCount : m.q.maxCount = max
  nonneg : 0 ≤ m.q.count
  bound : m.q.count ≤ max
  count : r.elim false GetPoint.storing = false →
    m.q.count + w.elim 0 AddPoint.uncounted ≤ l.length + r.elim 0 GetPoint.uncounted
  last : l ≠ [] → w.elim false AddPoint.moving = false → m.q.last = l.getLast?
  room : w.elim false AddPoint.room = true → m.q.count < max
  added : i + w.elim 0 AddPoint.linked = d + l.length
  taken : n + r.elim 0 GetPoint.taken = d
  adds : m.q.addCount + w.elim 0 AddPoint.untallied = d + l.length
  gets : m.q.getCount + r.elim 0 GetPoint.untallied = d
  add : w.elim True (AddFacts max m l (r.elim none GetPoint.garbage) (BitVec.ofNat 32 i))
  get : r.elim True (GetFacts max m l (w.elim 0 AddPoint.uncounted)
    (w.elim false AddPoint.appending) (BitVec.ofNat 32 n))

theorem exec_eq_some {o : Access} {new : Fresh} {m m' : Mem} {res : o.Res}
    (done : sem.exec o new m = some (res, m')) :
    ¬ o.Faults m ∧ o.perform new m = some (res, m') := by
  by_cases faults : o.Faults m
  · rw [show sem.exec o new m = none from if_pos faults] at done
    cases done
  · exact ⟨faults, (sem_exec faults new).symm.trans done⟩

variable {max : Int} {m m' : Mem} {l : List Addr} {d i n : Nat} {w : Option AddPoint}
  {r : Option GetPoint}

/-! ## Frames -/

theorem heap_setNode_of_ne {a b : Addr} (c : Option QNodeT) (other : b ≠ a) :
    (m.setNode (some a) c).heap b = m.heap b := Function.update_of_ne other ..

theorem heap_setNode_self (a : Addr) (c : Option QNodeT) : (m.setNode (some a) c).heap a = c :=
  Function.update_self ..

theorem next_setNode_of_ne {a b : Addr} (c : Option QNodeT) (other : b ≠ a) :
    (m.setNode (some a) c).next b = m.next b := by
  rw [Mem.next, heap_setNode_of_ne c other, Mem.next]

theorem val_setNode_of_ne {a b : Addr} (c : Option QNodeT) (other : b ≠ a) :
    (m.setNode (some a) c).val b = m.val b := by
  rw [Mem.val, heap_setNode_of_ne c other, Mem.val]

/-- A store to a node outside of the chain. -/
theorem linked_setNode {a : Addr} (c : Option QNodeT) (outside : a ∉ l)
    (linked : Linked m.next m.q.first l) :
    Linked (m.setNode (some a) c).next (m.setNode (some a) c).q.first l := by
  refine Seg.congr (fun b member => next_setNode_of_ne c ?_) linked
  intro same
  exact outside (same ▸ member)

theorem values_setNode {a : Addr} (c : Option QNodeT) (outside : a ∉ l)
    (values : ∀ j b, l[j]? = some b → m.val b = some (BitVec.ofNat 32 (d + j))) :
    ∀ j b, l[j]? = some b →
      (m.setNode (some a) c).val b = some (BitVec.ofNat 32 (d + j)) := by
  intro j b there
  rw [val_setNode_of_ne c, values j b there]
  intro same
  exact outside (same ▸ List.mem_of_getElem? there)

/-- The nodes of the chain are allocated. -/
theorem Sound.live (sound : Sound max m l d i n w r) {a : Addr} (member : a ∈ l) :
    m.heap a ≠ none := by
  intro freed
  obtain ⟨j, there⟩ := List.getElem?_of_mem member
  have val := sound.values j a there
  rw [Mem.val, freed] at val
  cases val

/-- The node that the reader is about to free is allocated, and not in the chain. -/
theorem Sound.garbage (sound : Sound max m l d i n w r) {a : Addr}
    (garbage : r.elim none GetPoint.garbage = some a) : m.heap a ≠ none ∧ a ∉ l := by
  cases r with
  | none => cases garbage
  | some p =>
    cases p <;> simp only [Option.elim_some, GetPoint.garbage, reduceCtorEq] at garbage
    case free tmp val =>
      obtain ⟨⟨b, same, live, outside⟩, -⟩ := sound.get
      cases same.symm.trans garbage
      exact ⟨live, outside⟩

/-- A step of the writer that leaves the chain alone. -/
theorem GetFacts.still {expected : CInt} {p : GetPoint} {u u' : Nat} {b b' : Bool}
    (facts : GetFacts max m l u b expected p) (count : 1 ≤ m.q.count → 1 ≤ m'.q.count)
    (gets : m'.q.getCount = m.q.getCount)
    (live : ∀ a, p.garbage = some a → m.heap a ≠ none → m'.heap a ≠ none) (less : u' ≤ u)
    (appending : b' = true → b = true ∨ ∀ tmp val, p ≠ .storeFirst tmp val none) :
    GetFacts max m' l u' b' expected p := by
  have ready : Ready m l u → Ready m' l u' := fun ready =>
    ⟨count ready.1, le_trans (Nat.succ_le_succ less) ready.2⟩
  cases p
  case loadFirst => exact ready facts
  case loadVal tmp => exact ⟨ready facts.1, facts.2⟩
  case reloadFirst tmp val => exact ⟨ready facts.1, facts.2⟩
  case loadNext tmp val first => exact ⟨ready facts.1, facts.2⟩
  case storeFirst tmp val next =>
    obtain ⟨before, head, same, behind, last⟩ := facts
    refine ⟨ready before, head, same, behind, fun none_left => ?_⟩
    rw [Bool.eq_false_iff]
    intro set
    rcases appending set with already | other
    · rw [last none_left] at already
      cases already
    · rw [none_left] at other
      exact other tmp val rfl
  case free tmp val =>
    obtain ⟨⟨a, same, allocated, outside⟩, positive, val_same⟩ := facts
    exact ⟨⟨a, same, live a same allocated, outside⟩, count positive, val_same⟩
  case loadDecrement val => exact ⟨count facts.1, facts.2⟩
  case storeDecrement val z =>
    obtain ⟨positive, small, true_count, same⟩ := facts
    exact ⟨positive, small, by omega, same⟩
  case storeGets val z => exact ⟨facts.1.trans gets.symm, facts.2⟩
  all_goals exact facts

/-- A step of the writer that links its node. -/
theorem GetFacts.link {expected : CInt} {p : GetPoint} {u : Nat} {b : Bool} {a : Addr}
    (facts : GetFacts max m l u b expected p) (count : m'.q.count = m.q.count)
    (gets : m'.q.getCount = m.q.getCount)
    (live : ∀ c, p.garbage = some c → m.heap c ≠ none → m'.heap c ≠ none)
    (other : p.garbage ≠ some a) (appends : l = [] ∨ b = true) :
    GetFacts max m' (l ++ [a]) (u + 1) false expected p := by
  have length : (l ++ [a]).length = l.length + 1 := List.length_append
  have ready : Ready m l u → Ready m' (l ++ [a]) (u + 1) ∧ (l ++ [a]).head? = l.head? := by
    intro ready
    obtain ⟨positive, more⟩ := ready
    refine ⟨⟨count ▸ positive, by omega⟩, ?_⟩
    cases l with
    | nil => simp at more
    | cons x l => rfl
  cases p
  case loadFirst => exact (ready facts).1
  case loadVal tmp =>
    obtain ⟨after, head⟩ := ready facts.1
    exact ⟨after, facts.2.trans head.symm⟩
  case reloadFirst tmp val =>
    obtain ⟨after, head⟩ := ready facts.1
    exact ⟨after, facts.2.1.trans head.symm, facts.2.2⟩
  case loadNext tmp val first =>
    obtain ⟨after, head⟩ := ready facts.1
    exact ⟨after, facts.2.1.trans head.symm, facts.2.2⟩
  case storeFirst tmp val next =>
    obtain ⟨before, head, same, behind, last⟩ := facts
    obtain ⟨after, head_same⟩ := ready before
    -- the node behind the first one is there already
    have more : l.tail ≠ [] := by
      intro single
      rcases appends with empty | set
      · rw [empty] at before
        exact absurd before.2 (by simp)
      · rw [single] at behind
        rw [last behind] at set
        cases set
    refine ⟨after, head.trans head_same.symm, same, ?_, fun _ => rfl⟩
    rw [behind]
    cases l with
    | nil => exact (more rfl).elim
    | cons x l =>
      cases l with
      | nil => exact (more rfl).elim
      | cons y l => rfl
  case free tmp val =>
    obtain ⟨⟨c, same, allocated, outside⟩, positive, val_same⟩ := facts
    refine ⟨⟨c, same, live c same allocated, ?_⟩, count ▸ positive, val_same⟩
    rw [List.mem_append, List.mem_singleton, not_or]
    refine ⟨outside, fun equal => other ?_⟩
    rw [← equal]
    exact same
  case loadDecrement val => exact ⟨count ▸ facts.1, facts.2⟩
  case storeDecrement val z =>
    obtain ⟨positive, small, true_count, same⟩ := facts
    exact ⟨positive, small, by omega, same⟩
  case storeGets val z => exact ⟨facts.1.trans gets.symm, facts.2⟩
  all_goals exact facts

section Reader

variable {p : AddPoint} {u : Nat} {b : Bool}

/-- What the reader knows after a step of the writer. -/
theorem Sound.get_still (sound : Sound max m l d i n (some p) r)
    (count : 1 ≤ m.q.count → 1 ≤ m'.q.count) (gets : m'.q.getCount = m.q.getCount)
    (live : ∀ a, r.elim none GetPoint.garbage = some a → m.heap a ≠ none → m'.heap a ≠ none)
    (less : u ≤ p.uncounted)
    (appending : b = true → p.appending = true ∨ ∀ tmp val, r ≠ some (.storeFirst tmp val none)) :
    r.elim True (GetFacts max m' l u b (BitVec.ofNat 32 n)) := by
  cases r with
  | none => trivial
  | some x =>
    refine GetFacts.still sound.get count gets live less fun set => ?_
    exact (appending set).imp_right fun other tmp val same => other tmp val (congrArg some same)

theorem Sound.get_link (sound : Sound max m l d i n (some p) r) {a : Addr}
    (count : m'.q.count = m.q.count) (gets : m'.q.getCount = m.q.getCount)
    (live : ∀ c, r.elim none GetPoint.garbage = some c → m.heap c ≠ none → m'.heap c ≠ none)
    (other : r.elim none GetPoint.garbage ≠ some a) (before : p.uncounted = 0)
    (appends : l = [] ∨ p.appending = true) :
    r.elim True (GetFacts max m' (l ++ [a]) 1 false (BitVec.ofNat 32 n)) := by
  cases r with
  | none => trivial
  | some x =>
    have facts := sound.get
    rw [Option.elim_some, Option.elim_some, Option.elim_some, before] at facts
    exact facts.link count gets live other appends

/-- A store to a node leaves the others allocated. -/
theorem live_setNode {a c : Addr} (x : QNodeT) (live : m.heap c ≠ none) :
    (m.setNode (some a) (some x)).heap c ≠ none := by
  by_cases same : c = a
  · rw [same, heap_setNode_self]
    exact Option.some_ne_none x
  · rw [heap_setNode_of_ne _ same]
    exact live

end Reader

end Os2Labs.Queue.Unlocked
