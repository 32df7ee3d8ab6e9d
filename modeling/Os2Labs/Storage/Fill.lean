import Os2Labs.Storage.Append

/-!
# `fill_storage` fills

After `k` turns of the loop of `fill_storage` there are `k` nodes with the numbers below `k` in
order (`Filled`); each turn prints the next number into `buff` and appends it.  A number
below `10 ^ 9` has at most nine digits, so it fits into `buff` with its NUL.
-/

namespace Os2Labs.Storage

open Bytes Conc

/-! ## Rules for the accesses -/

section Rules

variable {α : Type} {Q : α → Mem × Bool → Prop} {m : Mem} {failed : Bool}

/-- `buff` comes with whatever is in memory. -/
theorem total_declareBuff {k : Unit → Code α}
    (later : ∀ buff, Total (k ()) Q ({ m with buff := buff }, failed)) :
    Total (access .declareBuff >>= k) Q (m, failed) := by
  refine total_access (o := .declareBuff) id ⟨Classical.arbitrary Fresh, _, _, rfl⟩ ?_
  intro new r m' moved
  cases moved
  exact later new.buff

/-- What is in `buff`. -/
theorem total_loadBuff {s : List UInt8} {k : List UInt8 → Code α} (string : IsString m.buff s)
    (fits : s.length < buffSize) (later : Total (k s) Q (m, failed)) :
    Total (access .loadBuff >>= k) Q (m, failed) := by
  have read : m.buffString = s := string.takeWhile_array fits
  refine total_one (o := .loadBuff) ?_ (fun _ => ?_) later
  · exact fun unterminated => unterminated s.length fits string.terminated
  · rw [← read]
    rfl

/-- `sprintf` of a string, and what is in `buff` then. -/
theorem total_sprintf {s : List UInt8} {k : List UInt8 → Code α} (noNul : 0 ∉ s)
    (fits : s.length < buffSize)
    (later : ∀ buff, Total (k s) Q ({ m with buff := buff }, failed)) :
    Total (storeBuff (strcpy s) >>= fun _ => access .loadBuff >>= k) Q (m, failed) := by
  have stores : ∀ w ∈ strcpy s, w.1 < buffSize := by
    intro w member
    rcases List.mem_append.mp member with byte | nul
    · exact Nat.lt_trans (strncpy_lt byte) fits
    · rw [List.mem_singleton.mp nul]
      exact fits
  refine total_storeBuff stores ?_
  exact total_loadBuff (isString_copy _ noNul) fits (later _)

/-- `malloc` fails, or finds memory. -/
theorem total_mallocStorage {k : Bool → Code α} (fails : Total (k false) Q (m, true))
    (finds : ∀ first, Total (k true) Q ({ m with storage := some first }, failed)) :
    Total (access .mallocStorage >>= k) Q (m, failed) := by
  have none_found := Classical.arbitrary Fresh
  refine total_access (o := .mallocStorage) id ?_ ?_
  · exact ⟨{ none_found with addr := none }, false, m, rfl⟩
  · intro new r m' moved
    simp only [Access.perform] at moved
    split at moved
    · cases moved
      simpa [noteFailure] using fails
    · cases moved
      simpa [noteFailure] using finds new.first

end Rules

/-! ## What the loop keeps -/

/-- The storage holds `n` new nodes, with the numbers below `n` in order, and the other nodes
have not changed since `m`. -/
structure Filled (lock : LockType) (n : Nat) (l : List Addr) (m m' : Mem) : Prop where
  wellFormed : WellFormed m' l
  length : l.length = n
  values : ∀ i a, l[i]? = some a → ∃ node, m'.heap a = some node ∧
    IsString node.value (decimal i) ∧ node.lock = some lock
  fresh : ∀ a ∈ l, m.heap a = none
  others : ∀ a, a ∉ l → m'.heap a = m.heap a

section Fill

variable {lock : LockType} {n k turns : Nat} {l : List Addr} {m m' m'' : Mem} {a : Addr}

/-- The nodes of a chain are distinct. -/
theorem WellFormed.nodup (wellFormed : WellFormed m l) : l.Nodup := by
  rcases wellFormed.chain with ⟨first, -, chain⟩
  exact chain.nodup

/-- One node more. -/
theorem Filled.snoc (filled : Filled lock k l m m')
    (appended : Appended lock (decimal k) l a m' m'') : Filled lock (k + 1) (l ++ [a]) m m'' := by
  have outside := filled.wellFormed.outside appended.fresh
  have apart : ∀ b ∈ l, b ≠ a := fun b member same => outside (same ▸ member)
  constructor
  case wellFormed => exact appended.wellFormed
  case length => rw [List.length_append, filled.length, List.length_singleton]
  case values =>
    intro i b at_i
    by_cases old : i < l.length
    · rw [List.getElem?_append_left old] at at_i
      rcases filled.values i b at_i with ⟨node, at_b, string, locked⟩
      rw [appended.others b (apart b (List.mem_of_getElem? at_i)), at_b]
      split
      · exact ⟨_, rfl, string, locked⟩
      · exact ⟨node, rfl, string, locked⟩
    · rw [List.getElem?_append_right (Nat.not_lt.mp old), List.getElem?_singleton] at at_i
      split at at_i
      · next last =>
        cases at_i
        have here : i = k := by
          have length := filled.length
          omega
        rcases appended.node with ⟨node, at_a, string, -, locked⟩
        exact ⟨node, at_a, here ▸ string, locked⟩
      · cases at_i
  case fresh =>
    intro b member
    rcases List.mem_append.mp member with old | new
    · exact filled.fresh b old
    · rw [List.mem_singleton.mp new, ← filled.others a outside]
      exact appended.fresh
  case others =>
    intro b absent
    rw [List.mem_append, List.mem_singleton, not_or] at absent
    have not_last : l.getLast? ≠ some b := fun last => absent.1 (List.mem_of_getLast? last)
    rw [appended.others b absent.2, if_neg not_last]
    exact filled.others b absent.1

/-- **The numbers below `10 ^ 9`** and no others fit into `buff` with their NUL. -/
theorem sprintf_fits : (decimal k).length + 1 ≤ buffSize ↔ k < 10 ^ 9 := by
  unfold buffSize
  rw [Nat.add_le_add_iff_right (n := 1) (k := 9)]
  exact length_decimal_le (by decide)

/-- What `buff` and the capacity are does not matter to the nodes. -/
theorem Filled.of_eq (filled : Filled lock k l m m') (storage : m''.storage = m'.storage)
    (heap : m''.heap = m'.heap) : Filled lock k l m m'' := by
  have next : m''.next = m'.next := by
    unfold Mem.next
    rw [heap]
  rcases filled with ⟨⟨chain, live⟩, length, values, fresh, others⟩
  refine ⟨⟨?_, ?_⟩, length, ?_, fresh, ?_⟩
  · rw [storage, next]
    exact chain
  · rw [heap]
    exact live
  · rw [heap]
    exact values
  · rw [heap]
    exact others

/-- After `k` turns of the loop. -/
def AfterTurns (lock : LockType) (n : Nat) (m : Mem) (k : Nat) (x : Mem × Bool) : Prop :=
  x.2 = false ∧ x.1.storageCapacity = n ∧ ∃ l, Filled lock k l m x.1

/-- How `fill_storage` ends. -/
def Ends (lock : LockType) (n : Nat) (m : Mem) (outcome : Outcome) (x : Mem × Bool) : Prop :=
  (outcome = .returned ∧ AfterTurns lock n m n x) ∨ (outcome = .exited ∧ x.2 = true)

/-- The turn at `k` appends one node. -/
theorem fillTurn_total {x : Mem × Bool} (small : n ≤ 10 ^ 9) (enough : n ≤ turns) (below : k < n)
    (after : AfterTurns lock n m k x) :
    Total (fillTurn lock turns k) (fun next x' =>
      (next = .inl (k + 1 : Int) ∧ AfterTurns lock n m (k + 1) x') ∨
        (next = .inr .exited ∧ x'.2 = true)) x := by
  rcases x with ⟨m₁, failed⟩
  obtain ⟨rfl, capacity, l, filled⟩ := after
  dsimp only at capacity filled
  refine total_loadCapacity capacity ?_
  rw [if_pos (Int.ofNat_lt.mpr below)]
  refine total_declareBuff fun junk => ?_
  refine total_loadCapacity capacity ?_
  have positive : (n : Int) ≠ 0 := by omega
  have defined : decide ((n : Int) ≠ 0 ∧ ¬ ((k : Int) = intMin ∧ (n : Int) = -1)) = true := by
    rw [decide_eq_true_eq]
    exact ⟨positive, fun both => by omega⟩
  refine total_arith defined ?_
  have digits : formatInt ((k : Int).tmod n) = decimal k := by
    rw [Int.tmod_eq_of_lt (Int.natCast_nonneg k) (Int.ofNat_lt.mpr below)]
    rfl
  -- from here on it is any string that is short enough
  generalize formatInt ((k : Int).tmod n) = s at digits ⊢
  have noNul : 0 ∉ s := digits ▸ noNul_decimal k
  have fits : s.length < buffSize := digits ▸ sprintf_fits.mpr (Nat.lt_of_lt_of_le below small)
  refine total_sprintf noNul fits fun buff => ?_
  have ready : Filled lock k l m { m₁ with buff := buff } := filled.of_eq rfl rfl
  have short : s.length < maxStringLength := Nat.lt_trans fits (by decide)
  have walk : l.length ≤ turns := by
    have length := filled.length
    omega
  refine total_bind (addNode_total ready.wellFormed noNul short walk) ?_
  intro outcome m₂ failed appended
  rcases appended with ⟨rfl, same, a, appended⟩ | ⟨rfl, same⟩
  · cases same
    have next_int : decide ((k : Int) + 1 ≤ intMax) = true := by
      rw [decide_eq_true_eq]
      unfold intMax
      omega
    refine total_arith next_int (total_ret.mpr (Or.inl ⟨rfl, rfl, ?_, l ++ [a], ?_⟩))
    · exact appended.capacity.trans capacity
    · exact ready.snoc (digits ▸ appended)
  · cases same
    exact total_ret.mpr (Or.inr ⟨rfl, rfl⟩)

/-- **`fill_storage` fills the storage**, unless a `malloc` fails. -/
theorem fillStorage_total {x : Mem × Bool} (small : n ≤ 10 ^ 9) (enough : n < turns)
    (start : AfterTurns lock n m 0 x) :
    Total (fillStorage lock turns) (Ends lock n m) x := by
  rcases x with ⟨m₀, failed₀⟩
  have loop : Total (Prog.loop (fillTurn lock turns) turns 0)
      (fun done x => ∃ outcome, done = some outcome ∧ Ends lock n m outcome x) (m₀, failed₀) := by
    refine total_loop (fun v i x => ∃ k, k + v = n ∧ i = (k : Int) ∧ AfterTurns lock n m k x) ?_
      ⟨0, Nat.zero_add n, rfl, start⟩ enough
    intro v i y here
    obtain ⟨k, count, rfl, after⟩ := here
    by_cases below : k < n
    · refine Prog.wp_mono (fun _ => id) ?_ (fillTurn_total small (by omega) below after)
      intro next y' ended
      rcases ended with ⟨rfl, after'⟩ | ⟨rfl, failed⟩
      · refine ⟨fun i' same => ?_, fun _ same => by cases same⟩
        cases same
        exact ⟨v - 1, by omega, k + 1, by omega, rfl, after'⟩
      · refine ⟨fun _ same => (by cases same), fun outcome same => ?_⟩
        cases same
        exact Or.inr ⟨rfl, failed⟩
    · rcases y with ⟨m₁, failed⟩
      have full : k = n := by omega
      refine total_loadCapacity after.2.1 ?_
      rw [if_neg (by omega)]
      refine total_ret.mpr ⟨fun _ same => (by cases same), fun outcome same => ?_⟩
      cases same
      exact Or.inl ⟨rfl, full ▸ after⟩
  refine total_bind loop ?_
  intro done m₁ failed after
  obtain ⟨outcome, rfl, ended⟩ := after
  exact total_ret.mpr ended

theorem initializeStorage_total {z : Int} {failed : Bool} :
    Total (initializeStorage z) (fun outcome x =>
      (outcome = .returned ∧ x = ({ m with storageCapacity := z, storage := some none }, failed)) ∨
        (outcome = .exited ∧ x = (m, true))) (m, failed) := by
  refine total_mallocStorage (total_ret.mpr (Or.inr ⟨rfl, rfl⟩)) fun first => ?_
  refine total_storeCapacity ?_
  refine total_storeFirst (Option.some_ne_none first) ?_
  exact total_ret.mpr (Or.inl ⟨rfl, rfl⟩)

/-- An empty storage. -/
theorem Filled.empty {z : Int} :
    Filled lock 0 [] m { m with storageCapacity := z, storage := some none } where
  wellFormed := ⟨⟨none, rfl, rfl⟩, fun _ member => by cases member⟩
  length := rfl
  values i a at_i := by cases at_i
  fresh _ member := by cases member
  others _ _ := rfl

theorem buildStorage_total (small : n ≤ 10 ^ 9) (enough : n < turns) :
    Total (buildStorage lock turns n) (Ends lock n m) (m, false) := by
  refine total_bind initializeStorage_total ?_
  intro outcome m₁ failed after
  rcases after with ⟨rfl, same⟩ | ⟨rfl, same⟩
  · cases same
    exact fillStorage_total small enough ⟨rfl, rfl, [], Filled.empty⟩
  · cases same
    exact total_ret.mpr (Or.inr ⟨rfl, rfl⟩)

/-- **Building the storage.**  `add_node` appends exactly one node to a list of any length, and
the storage of any capacity up to `10 ^ 9` gets exactly its numbers in order, unless a `malloc`
fails; no two numbers print alike, and each fits into `buff`. -/
theorem storage_built (small : n ≤ 10 ^ 9) (enough : n < turns) (lock : LockType) (m : Mem) :
    (∀ (m : Mem) (l : List Addr) (s : CString) (turns : Nat), WellFormed m l →
      s.bytes.length < maxStringLength → l.length ≤ turns →
      Total (addNode lock turns s.bytes) (fun outcome x =>
        (outcome = .returned ∧ x.2 = false ∧ ∃ a, a ∉ l ∧ Appended lock s.bytes l a m x.1) ∨
          (outcome = .exited ∧ x = (m, true))) (m, false)) ∧
      Total (buildStorage lock turns n) (fun outcome x =>
        (outcome = .returned ∧ x.2 = false ∧ ∃ l, l.Nodup ∧ Filled lock n l m x.1) ∨
          (outcome = .exited ∧ x.2 = true)) (m, false) ∧
      (∀ i j, decimal i = decimal j → i = j) ∧
      ∀ i < n, (formatInt i).length + 1 ≤ buffSize := by
  refine ⟨?_, ?_, fun i j same => decimal_injective same, ?_⟩
  · intro m l s turns wellFormed fits enough
    refine Prog.wp_mono (fun _ => id) ?_ (addNode_total wellFormed s.noNul fits enough)
    intro outcome x ended
    rcases ended with ⟨returned, kept, a, appended⟩ | exited
    · exact Or.inl ⟨returned, kept, a, wellFormed.outside appended.fresh, appended⟩
    · exact Or.inr exited
  · refine Prog.wp_mono (fun _ => id) ?_ (buildStorage_total small enough)
    intro outcome x ended
    rcases ended with ⟨returned, kept, -, l, filled⟩ | exited
    · exact Or.inl ⟨returned, kept, l, filled.wellFormed.nodup, filled⟩
    · exact Or.inr exited
  · intro i below
    exact sprintf_fits.mpr (Nat.lt_of_lt_of_le below small)

/-- A storage with one node, at the address 7. -/
def single : Mem where
  storageCapacity := 1
  storage := some (some 7)
  heap := Function.update (fun _ => none) 7 (some ⟨fun _ => 0, none, some .mutex⟩)
  buff _ := 0

theorem single_wellFormed : WellFormed single [7] where
  chain := ⟨some 7, rfl, rfl, rfl⟩
  live a member := by
    rw [List.mem_singleton.mp member]
    exact Option.some_ne_none _

/-- One node more, and three nodes in an empty storage. -/
theorem storage_built_three :
    Total (addNode .mutex 1 [120]) (fun outcome x =>
      (outcome = .returned ∧ x.2 = false ∧
        ∃ a, a ∉ [7] ∧ Appended .mutex [120] [7] a single x.1) ∨
        (outcome = .exited ∧ x = (single, true))) (single, false) ∧
      Total (buildStorage .mutex 4 3) (fun outcome x =>
        (outcome = .returned ∧ x.2 = false ∧ ∃ l, l.Nodup ∧ Filled .mutex 3 l single x.1) ∨
          (outcome = .exited ∧ x.2 = true)) (single, false) := by
  have small : 3 ≤ 10 ^ 9 := by decide
  have enough : 3 < 4 := by decide
  have built := storage_built small enough .mutex single
  refine ⟨?_, built.2.1⟩
  exact built.1 single [7] ⟨[120], by decide⟩ 1 single_wellFormed (by decide) (by decide)

end Fill

end Os2Labs.Storage
