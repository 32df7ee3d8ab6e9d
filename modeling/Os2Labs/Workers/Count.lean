import Mathlib.Algebra.GroupWithZero.Nat
import Os2Labs.Bytes.CString
import Os2Labs.Workers.SwapPass

/-!
# What the comparing threads count

`process_thread` compares the values of neighbours with `compare_nodes`, whose last argument says
what is counted: `ASC`, `DESC` or `EQ`.  In its place the thread passes on the pointer to its own
counter, of which the conversion to `int` keeps the low 32 bits.

A traversal compares the pairs of neighbours, each once and in order.  `counts_iff`: the results
add up to what the threads are named for only when the address of `counters` has no bit in
its lower half, so that one of the three pointers is taken for `ASC`, and there is nothing else to
count.
-/

namespace Os2Labs.Workers

open Conc Bytes

/-- The comparing threads. -/
inductive Comparison where
  | asc | desc | eq
deriving DecidableEq

/-- `ASC`, `DESC` and `EQ`. -/
def Comparison.number : Comparison → BitVec 32
  | .asc => 0
  | .desc => 1
  | .eq => 2

/-- `compare_nodes`. -/
def compareNodes (value1 value2 : List UInt8) (operation : BitVec 32) : Nat :=
  if (operation = Comparison.asc.number ∧ strlen value1 < strlen value2) ∨
      (operation = Comparison.desc.number ∧ strlen value1 > strlen value2) ∨
      (operation = Comparison.eq.number ∧ strlen value1 = strlen value2) then 1 else 0

/-- `ThreadData`, as far as `process_thread` passes it on. -/
structure ThreadData where
  counter : BitVec 64

/-- What `main` gives to a thread: `&counters[ASC]` and so on. -/
def threadData (counters : BitVec 64) (c : Comparison) : ThreadData where
  counter := counters + 4 * c.number.setWidth 64

/-- The argument of `compare_nodes`: a pointer that is converted to `int`. -/
def ThreadData.operation (data : ThreadData) : BitVec 32 := data.counter.setWidth 32

/-- What a thread is named for. -/
def Comparison.holds : Comparison → Nat → Nat → Bool
  | .asc, m, n => m < n
  | .desc, m, n => m > n
  | .eq, m, n => m = n

section

variable {Node : Type}

/-- The sum of the results of `compare_nodes`. -/
def results (value : Node → CString) (data : ThreadData) (pairs : List (Node × Node)) : Nat :=
  (pairs.map fun x => compareNodes (value x.1).bytes (value x.2).bytes data.operation).sum

/-- The number of the pairs that the thread is named for. -/
def wanted (value : Node → CString) (c : Comparison) (pairs : List (Node × Node)) : Nat :=
  pairs.countP fun x => c.holds (strlen (value x.1).bytes) (strlen (value x.2).bytes)

variable {value : Node → CString} {pairs : List (Node × Node)}

variable (value pairs) in
/-- Every pair is counted by one of the three. -/
theorem wanted_total : wanted value .asc pairs + wanted value .desc pairs +
    wanted value .eq pairs = pairs.length := by
  induction pairs with
  | nil => rfl
  | cons x pairs ih =>
    simp only [wanted, List.countP_cons, Comparison.holds, decide_eq_true_eq, List.length_cons]
      at ih ⊢
    rcases Nat.lt_trichotomy (strlen (value x.1).bytes) (strlen (value x.2).bytes) with
      less | same | more
    · rw [if_pos less, if_neg (by omega), if_neg (by omega)]
      omega
    · rw [if_neg (by omega), if_neg (by omega), if_pos same]
      omega
    · rw [if_neg (by omega), if_pos more, if_neg (by omega)]
      omega

/-- A call of `compare_nodes` with one of the three numbers. -/
theorem compareNodes_number (value1 value2 : List UInt8) (c : Comparison) :
    compareNodes value1 value2 c.number =
      if c.holds (strlen value1) (strlen value2) then 1 else 0 := by
  cases c <;> simp [compareNodes, Comparison.number, Comparison.holds]

theorem compareNodes_other {operation : BitVec 32} (other : ∀ c : Comparison, operation ≠ c.number)
    (value1 value2 : List UInt8) : compareNodes value1 value2 operation = 0 := by
  simp [compareNodes, other]

/-- With the right number the results are what is wanted. -/
theorem results_number {data : ThreadData} {c : Comparison} (right : data.operation = c.number) :
    results value data pairs = wanted value c pairs := by
  unfold results wanted
  rw [right]
  induction pairs with
  | nil => rfl
  | cons x pairs ih =>
    rw [List.map_cons, List.sum_cons, ih, List.countP_cons, compareNodes_number, Nat.add_comm]

theorem results_other {data : ThreadData} (other : ∀ c : Comparison, data.operation ≠ c.number) :
    results value data pairs = 0 := by
  unfold results
  induction pairs with
  | nil => rfl
  | cons x pairs ih => rw [List.map_cons, List.sum_cons, ih, compareNodes_other other]

theorem operation_toNat (counters : BitVec 64) (c : Comparison) :
    (threadData counters c).operation.toNat =
      (counters.toNat + 4 * c.number.toNat) % 2 ^ 32 := by
  cases c <;> simp [threadData, ThreadData.operation, Comparison.number, BitVec.toNat_add]

variable (value pairs) in
/-- A pointer to a counter is taken for `ASC`, or for nothing. -/
theorem results_aligned {counters : BitVec 64} (aligned : counters.toNat % 4 = 0)
    (c : Comparison) : results value (threadData counters c) pairs =
      if (counters.toNat + 4 * c.number.toNat) % 2 ^ 32 = 0 then wanted value .asc pairs
      else 0 := by
  have toNat := operation_toNat counters c
  split
  · next zero =>
    apply results_number
    apply BitVec.eq_of_toNat_eq
    rw [toNat, zero]
    rfl
  · next some_bit =>
    apply results_other
    intro d same
    rw [same] at toNat
    have number : d.number.toNat = 0 ∨ d.number.toNat = 1 ∨ d.number.toNat = 2 := by
      cases d <;> decide
    omega

/-- The results of the three threads, for the pairs they have compared. -/
structure Counts (value : Node → CString) (counters : BitVec 64) (l : List Node)
    (compared : List (Node × Node)) : Prop where
  pairs : compared = adjacent l
  each : ∀ c, results value (threadData counters c) compared = wanted value c (adjacent l)
  total : results value (threadData counters .asc) compared +
    results value (threadData counters .desc) compared +
    results value (threadData counters .eq) compared = l.length - 1

/-- When the results are right. -/
theorem counts_adjacent {counters : BitVec 64} (aligned : counters.toNat % 4 = 0) {l : List Node}
    (two : 2 ≤ l.length) : Counts value counters l (adjacent l) ↔
      counters.toNat % 2 ^ 32 = 0 ∧
        ∀ x ∈ adjacent l, strlen (value x.1).bytes < strlen (value x.2).bytes := by
  have total := wanted_total value (adjacent l)
  rw [length_adjacent] at total
  have asc := results_aligned value (adjacent l) aligned .asc
  have desc := results_aligned value (adjacent l) aligned .desc
  have eq := results_aligned value (adjacent l) aligned .eq
  rw [show Comparison.asc.number.toNat = 0 from rfl] at asc
  rw [show Comparison.desc.number.toNat = 1 from rfl] at desc
  rw [show Comparison.eq.number.toNat = 2 from rfl] at eq
  have ascending : wanted value .asc (adjacent l) = l.length - 1 ↔
      ∀ x ∈ adjacent l, strlen (value x.1).bytes < strlen (value x.2).bytes := by
    rw [← length_adjacent, wanted, List.countP_eq_length]
    simp [Comparison.holds]
  rw [← ascending]
  constructor
  · intro counts
    have asc' := counts.each .asc
    have desc' := counts.each .desc
    have eq' := counts.each .eq
    rw [asc] at asc'
    rw [desc] at desc'
    rw [eq] at eq'
    split at asc' <;> split at desc' <;> split at eq' <;> omega
  · intro both
    obtain ⟨zero, all⟩ := both
    rw [if_pos (by omega)] at asc
    rw [if_neg (by omega)] at desc eq
    refine ⟨rfl, fun c => ?_, ?_⟩
    · cases c
      · exact asc
      · rw [desc]
        omega
      · rw [eq]
        omega
    · omega

end

variable {Node Tid : Type} [DecidableEq Node] [DecidableEq Tid] {variant : Variant}
  {s s' : State Node Tid} {t : Tid} {l : List Node} {g : Tally Node} {first : Option Node}
  {next : Node → Option Node} {kind : Tid → Kind}

/-- **What the comparing threads count.**  A traversal in which every `trylock` succeeds and nobody
writes a `next` field compares each pair of neighbours once, in order.  With the pointers that
`main` passes, the results of the three threads are the numbers of ascending, descending and equal
pairs if and only if the lower half of the address of `counters` is zero and all pairs are
ascending. -/
theorem counts_iff (reached : Reachable (step variant) (init first next kind) s)
    (linked : Linked s.next s.first l) (two : 2 ≤ l.length) {a : Node} (at_first : s.first = some a)
    (begins : s.pc t = .tryFirst .process a)
    (ran : Reachable (recorded (restrict (InPass t false) (step variant)) (tally t))
      (s, Tally.zero) (s', g))
    (ended : s'.pc t = .countPass) (value : Node → CString) {counters : BitVec 64}
    (aligned : counters.toNat % 4 = 0) :
    g.compared = adjacent l ∧ (Counts value counters l g.compared ↔
      counters.toNat % 2 ^ 32 = 0 ∧
        ∀ x ∈ adjacent l, strlen (value x.1).bytes < strlen (value x.2).bytes) := by
  obtain ⟨-, n, pre, rest, along⟩ := along reached linked at_first begins ran
  have empty := along.finished (by rw [ended]; rfl)
  have length := along.swept.length
  have compared := along.compared rfl (by rw [ended]; rfl)
  rw [empty, List.length_nil] at length
  rw [List.take_of_length_le (by rw [length_adjacent]; omega)] at compared
  rw [compared]
  exact ⟨rfl, counts_adjacent aligned two⟩

/-- The values `a`, `aa` and `aaa`. -/
def growing (i : Fin 3) : CString where
  bytes := List.replicate (i + 1) 'a'.toNat.toUInt8
  noNul := by simp [List.mem_replicate]

/-- At an address whose lower half is zero they are counted. -/
theorem counts_iff_growing : ∃ (s s' : State (Fin 3) (Fin 2)) (g : Tally (Fin 3)),
    Reachable (step .mutex) (init (some 0) triple pair) s ∧
    Reachable (recorded (restrict (InPass 1 false) (step .mutex)) (tally 1)) (s, Tally.zero)
      (s', g) ∧
    s'.pc 1 = .countPass ∧ Counts growing 0x100000000 [0, 1, 2] g.compared := by
  have reached : Reachable (step .mutex) (init (some 0) triple pair) _ :=
    ⟨List.replicate 5 ⟨1, true⟩, rfl⟩
  have aligned : (0x100000000 : BitVec 64).toNat % 4 = 0 := by decide
  have counted := counts_iff (t := 1) reached triple_linked (by decide) rfl rfl
    ⟨List.replicate 22 ⟨1, true⟩, rfl⟩ rfl growing aligned
  exact ⟨_, _, _, reached, ⟨List.replicate 22 ⟨1, true⟩, rfl⟩, rfl, counted.2.mpr (by decide)⟩

/-- With any other address nothing is counted. -/
theorem address_is_no_operation : ∃ (s s' : State (Fin 3) (Fin 2)) (g : Tally (Fin 3)),
    Reachable (step .mutex) (init (some 0) triple pair) s ∧ s.pc 1 = .tryFirst .process 0 ∧
    Reachable (recorded (restrict (InPass 1 false) (step .mutex)) (tally 1)) (s, Tally.zero)
      (s', g) ∧
    s'.pc 1 = .countPass ∧ g.compared = adjacent [0, 1, 2] ∧
    results growing (threadData 0x1000 .asc) g.compared = 0 ∧
    wanted growing .asc g.compared = 2 ∧ ¬ Counts growing 0x1000 [0, 1, 2] g.compared := by
  have reached : Reachable (step .mutex) (init (some 0) triple pair) _ :=
    ⟨List.replicate 5 ⟨1, true⟩, rfl⟩
  refine ⟨_, _, _, reached, rfl, ⟨List.replicate 22 ⟨1, true⟩, rfl⟩, rfl, rfl, by decide, by decide,
    ?_⟩
  intro counts
  exact absurd (counts.each .asc) (by decide)

end Os2Labs.Workers
