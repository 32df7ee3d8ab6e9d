import Os2Labs.Workers.Swaps

/-!
# The turns of the inner loop

The inner loop of `process_thread`, and of `swap_thread` with `should_swap == 1`, moves a cursor
over the list.  `Facts.turn` says what a step does with it: the execution of the body begins,
something happens at the cursor, or the cursor passes on.  The step of a swap that moves the cursor
is the first of its three writes; the code finds the node it has moved to by reading a `next` field
that it has just written.

`Facts.short`: when every `trylock` succeeds, the cursor passes on without a swap at the end of the
list only.
-/

namespace Os2Labs.Workers

open Conc

variable {Node Tid : Type}

/-- The pass is over. -/
def Pc.over : Pc Node → Bool
  | .loadFirst .swap | .countPass => true
  | _ => false

/-- The points of the inner loop, and the end of it. -/
def Pc.inner : Pc Node → Bool
  | .startTest | .startLoad | .startNext _ | .loadFirst .process | .testNext .. | .loadNext _
  | .testNextNext .. | .rand _ | .walkTest _ | .walkStep _ | .exit _ => false
  | _ => true

/-- The node the loop has got to: the local variable `curr`, and while that is behind, the node it
is about to become. -/
def Pc.cursor : Pc Node → Option Node
  | .tryFirst _ a | .skip _ a | .testSecond _ a | .loadSecond _ a | .trySecond _ a _
  | .passFirst _ a | .loadThird a _ | .testThird a _ _ | .reloadSecond a _ | .reloadThird a _ _
  | .tryThird a _ _ | .passSecond _ a _ | .loadCurr2 a _ _ | .loadCurr3 a _ _ _
  | .loadCurr3Next a _ _ _ _ | .loadTail a _ _ _ _ | .storeCurr2 a _ _ _ _ _ | .loadPair a _
  | .compare a _ _ => some a
  | .storeCurr3 _ _ c _ _ | .storeCurr1 _ _ c _ | .countSwap _ _ c | .reloadCurr1 _ _ c => some c
  | .reloadCurr2 _ _ _ p | .unlock1 _ _ _ p _ | .unlock2 _ _ p _ | .unlock3 _ p _
  | .unlockFirst _ _ p | .unlockTmp _ _ _ p | .unlockCurr _ _ p => p
  | _ => none

/-- `curr = curr->next`, without a swap. -/
def Pc.passes : Pc Node → Bool
  | .skip .. | .passFirst .. | .passSecond .. => true
  | _ => false

/-- The execution of the body begins here. -/
def Pc.begins : Pc Node → Bool
  | .tryFirst .. => true
  | _ => false

/-- Whether the body has begun and the cursor has not moved. -/
def Pc.begun : Pc Node → Nat
  | .skip .. | .testSecond .. | .loadSecond .. | .trySecond .. | .passFirst .. | .loadThird ..
  | .testThird .. | .reloadSecond .. | .reloadThird .. | .tryThird .. | .passSecond ..
  | .loadCurr2 .. | .loadCurr3 .. | .loadCurr3Next .. | .loadTail .. | .storeCurr2 ..
  | .loadPair .. | .compare .. => 1
  | _ => 0

/-- How many steps the body takes from here, at most. -/
def Pc.left : Pc Node → Nat
  | .testSecond .. => 21
  | .loadSecond .. => 20
  | .trySecond .. => 19
  | .loadThird .. => 18
  | .testThird .. => 17
  | .reloadSecond .. => 16
  | .reloadThird .. => 15
  | .tryThird .. => 14
  | .loadCurr2 .. => 13
  | .loadCurr3 .. => 12
  | .loadCurr3Next .. => 11
  | .loadTail .. => 10
  | .storeCurr2 .. => 9
  | .storeCurr3 .. => 8
  | .storeCurr1 .. => 7
  | .countSwap .. => 6
  | .reloadCurr1 .. | .loadPair .. => 5
  | .reloadCurr2 .. | .compare .. => 4
  | .unlock1 .. | .passSecond .. => 3
  | .unlock2 .. | .unlockTmp .. | .passFirst .. => 2
  | .unlock3 .. | .unlockCurr .. | .unlockFirst .. | .skip .. => 1
  | _ => 0

/-- Whether the pair at the cursor has been compared and the cursor has not moved. -/
def Pc.paired : Pc Node → Nat
  | .passSecond .process _ _ => 1
  | _ => 0

theorem cursor_loop (k : Kind) (p : Option Node) : (loop k p).cursor = p := by
  cases k <;> cases p <;> rfl

theorem inner_loop (k : Kind) (p : Option Node) : (loop k p).inner = true := by
  cases k <;> cases p <;> rfl

theorem passes_loop (k : Kind) (p : Option Node) : (loop k p).passes = false := by
  cases k <;> cases p <;> rfl

theorem begun_loop (k : Kind) (p : Option Node) : (loop k p).begun = 0 := by
  cases k <;> cases p <;> rfl

theorem left_loop (k : Kind) (p : Option Node) : (loop k p).left = 0 := by
  cases k <;> cases p <;> rfl

theorem paired_loop (k : Kind) (p : Option Node) : (loop k p).paired = 0 := by
  cases k <;> cases p <;> rfl

/-- The values that an access compares. -/
def Code.pairs : Code Node → List (Node × Node)
  | .values (some a) (some b) _ => [(a, b)]
  | _ => []

/-- What is compared are the values of the node at the cursor and of its successor. -/
theorem Facts.pairs {next : Node → Option Node} {pc : Pc Node} (facts : Facts next pc)
    {x : Node × Node} {xs : List (Node × Node)} (compared : (code pc).pairs = x :: xs) :
    xs = [] ∧ pc.cursor = some x.1 ∧ next x.1 = some x.2 ∧ pc.paired = 0 := by
  cases pc <;> simp only [code, Code.pairs, reduceCtorEq] at compared
  case compare curr second p =>
    obtain ⟨linked, rfl⟩ := facts
    cases compared
    exact ⟨rfl, rfl, linked, rfl⟩

/-- What a step of the inner loop that writes no `next` does with the cursor. -/
inductive Turn (next : Node → Option Node) (pc new : Pc Node) : Prop
  | begin (begins : pc.begins = true) (cursor : new.cursor = pc.cursor)
      (begun : pc.begun = 0 ∧ new.begun = 1) (left : new.left ≤ 21)
      (paired : new.paired = 0 ∧ pc.paired = 0) (silent : (code pc).pairs = [])
  | stay (begins : pc.begins = false) (cursor : new.cursor = pc.cursor)
      (begun : new.begun = pc.begun) (left : new.left + 1 ≤ pc.left)
      (paired : new.paired = pc.paired + (code pc).pairs.length)
  | pass {a : Node} (begins : pc.begins = false) (passes : pc.passes = true)
      (here : pc.cursor = some a) (cursor : new.cursor = next a) (past : new.passes = false)
      (begun : pc.begun = 1 ∧ new.begun = 0) (left : new.left + 1 ≤ pc.left)
      (paired : new.paired = 0) (silent : (code pc).pairs = [])

theorem Facts.turn {next : Node → Option Node} {pc new : Pc Node} {answer : Option Node}
    (facts : Facts next pc) (goes : (code pc).Goes answer new)
    (read : ∀ a k, code pc = .load (some a) k → answer = next a)
    (inner : pc.inner = true) (more : pc.over = false) (quiet : (code pc).isStore = false) :
    new.inner = true ∧ Turn next pc new := by
  cases pc <;> simp only [code, Code.Goes, Code.isStore, reduceCtorEq] at goes quiet
  case startTest | startLoad | startNext | testNext | loadNext | testNextNext | rand | walkTest
    | walkStep => cases inner
  case countPass => cases more
  case loadFirst k =>
    cases k
    · cases inner
    · cases more
  case tryFirst k curr =>
    rcases goes with ⟨_ | _, rfl⟩ <;>
      exact ⟨rfl, .begin rfl rfl ⟨rfl, rfl⟩ (by simp [Pc.left]) ⟨rfl, rfl⟩ rfl⟩
  case trySecond k curr p =>
    rcases goes with ⟨_ | _, rfl⟩ <;> cases p <;> cases k <;>
      exact ⟨rfl, .stay rfl rfl rfl (by simp [Pc.left]) rfl⟩
  case tryThird curr1 second p =>
    rcases goes with ⟨_ | _, rfl⟩ <;> cases p <;>
      exact ⟨rfl, .stay rfl rfl rfl (by simp [Pc.left]) rfl⟩
  all_goals subst goes
  case skip k curr =>
    refine ⟨inner_loop k answer, .pass rfl rfl rfl ?_ (passes_loop k answer)
      ⟨rfl, begun_loop k answer⟩ ?_ (paired_loop k answer) rfl⟩
    · rw [cursor_loop]
      exact read curr _ rfl
    · rw [left_loop]
      exact Nat.le_refl _
  case passFirst k curr | passSecond k curr second =>
    exact ⟨rfl, .pass rfl rfl rfl (read curr _ rfl) rfl ⟨rfl, rfl⟩ (Nat.le_refl _) rfl rfl⟩
  case unlockFirst k tmp p | unlockCurr k second p =>
    refine ⟨inner_loop k p, .stay rfl (cursor_loop k p) (begun_loop k p) ?_ (paired_loop k p)⟩
    rw [left_loop]
    exact Nat.le_refl _
  case unlock3 second p q =>
    refine ⟨inner_loop .swap p, .stay rfl (cursor_loop .swap p) (begun_loop .swap p) ?_
      (paired_loop .swap p)⟩
    rw [left_loop]
    exact Nat.le_refl _
  case reloadCurr1 tmp second third =>
    have third_there := (read tmp _ rfl).trans facts.1
    exact ⟨rfl, .stay rfl third_there rfl (Nat.le_refl _) rfl⟩
  case compare curr second p =>
    obtain ⟨-, rfl⟩ := facts
    exact ⟨rfl, .stay rfl rfl rfl (Nat.le_refl _) rfl⟩
  case testSecond | testThird =>
    cases answer <;> exact ⟨rfl, .stay rfl rfl rfl (by simp [Pc.left]) rfl⟩
  all_goals exact ⟨rfl, .stay rfl rfl rfl (Nat.le_refl _) rfl⟩

/-- How many nodes are left at most where the cursor passes on although every `trylock` succeeds. -/
def Pc.Short (rest : List Node) : Pc Node → Prop
  | .skip .. => False
  | .passFirst .. => rest.length ≤ 1
  | .passSecond .swap .. => rest.length ≤ 2
  | _ => True

theorem short_of_past {pc : Pc Node} (past : pc.passes = false) (rest : List Node) :
    pc.Short rest := by
  cases pc <;> trivial

theorem short_swap {pc : Pc Node} {rest : List Node} (passes : pc.passes = true)
    (short : pc.Short rest) : pc.kind = .process ∨ rest.length ≤ 2 := by
  cases pc <;> try cases passes
  case skip k curr => exact short.elim
  case passFirst k curr => exact Or.inr (Nat.le_trans short (by decide))
  case passSecond k curr second =>
    cases k with
    | process => exact Or.inl rfl
    | swap => exact Or.inr short

theorem short_process {pc : Pc Node} {rest : List Node} (passes : pc.passes = true)
    (process : pc.kind = .process) (short : pc.Short rest) :
    pc.paired = 1 ∨ rest.length ≤ 1 := by
  cases pc <;> try cases passes
  case skip k curr => exact short.elim
  case passFirst k curr => exact Or.inr short
  case passSecond k curr second =>
    cases k with
    | process => exact Or.inl rfl
    | swap => cases process

/-- When its `trylock`s succeed the cursor passes on at the end of the list only. -/
theorem Facts.short {next : Node → Option Node} {pc new : Pc Node} {answer q : Option Node}
    {rest : List Node} (facts : Facts next pc) (goes : (code pc).Goes answer new)
    (read : ∀ a k, code pc = .load (some a) k → answer = next a) (linked : Linked next q rest)
    (cursor : rest.head? = pc.cursor) (succeeds : ∀ p k, code pc = .tryLock p k → new = k true) :
    new.Short rest := by
  cases pc <;> simp only [code, Code.Goes] at goes
  case tryFirst k curr =>
    rw [succeeds _ _ rfl]
    trivial
  case trySecond k curr p =>
    obtain ⟨some_p, -⟩ := facts
    rw [succeeds _ _ rfl]
    cases p with
    | none => exact (some_p rfl).elim
    | some second => cases k <;> trivial
  case tryThird curr1 second p =>
    obtain ⟨-, some_p, -⟩ := facts
    rw [succeeds _ _ rfl]
    cases p with
    | none => exact (some_p rfl).elim
    | some third => trivial
  case testSecond k curr =>
    cases there : answer with
    | some second =>
      rw [goes, there]
      trivial
    | none =>
      rw [goes, there]
      have last : next curr = none := (read curr _ rfl).symm.trans there
      obtain ⟨after, rfl⟩ := List.head?_eq_some_iff.mp cursor
      have empty := Linked.head? linked.2
      rw [last, List.head?_eq_none_iff] at empty
      rw [empty]
      exact Nat.le_refl 1
  case testThird curr1 second p =>
    obtain ⟨linked_second, rfl⟩ := facts
    cases there : answer with
    | some third =>
      rw [goes, there]
      trivial
    | none =>
      rw [goes, there]
      have last : next second = none := (read second _ rfl).symm.trans there
      obtain ⟨after, rfl⟩ := List.head?_eq_some_iff.mp cursor
      have behind := linked.2
      rw [linked_second] at behind
      obtain ⟨later, rfl⟩ := List.head?_eq_some_iff.mp (Linked.head? behind)
      have empty := Linked.head? behind.2
      rw [last, List.head?_eq_none_iff] at empty
      rw [empty]
      exact Nat.le_refl 2
  case rand curr1 => rcases goes with ⟨_ | _, rfl⟩ <;> trivial
  all_goals subst goes
  case skip | unlockFirst | unlockCurr | unlock3 => exact short_of_past (passes_loop _ _) rest
  case testNext k curr => cases answer <;> cases k <;> trivial
  case startTest | startNext | loadFirst | testNextNext | walkTest => cases answer <;> trivial
  all_goals trivial

end Os2Labs.Workers
