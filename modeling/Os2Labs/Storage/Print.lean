import Os2Labs.Conc.Inversions
import Os2Labs.Storage.Fill
import Os2Labs.Workers.Swappers

/-!
# Printing the storage

`print_storage` of `lab2/3`, and what it prints after `main` has filled the storage and the workers
have swapped nodes (`prints_rearrangement`): every number below the capacity once, with 0 in
front, in an order that has as many inversions modulo 2 as swaps have been counted.

The workers know the nodes by their addresses, and of a node only its `next`; `Mem.relinked` is the
memory when they have been at work.  The `queue.c` with read-write locks locks each node while it
prints it, and waits where a worker has locked it for writing.
-/

namespace Os2Labs.Storage

open Bytes Conc

/-! ## `print_storage` -/

/-- One access, or one call of `printf`. -/
inductive PrintAccess where
  | loadFirst
  | loadNext (p : Ptr)
  /-- `pthread_rwlock_rdlock(&(current->rwlock))`, and the unlock. -/
  | rdLock (p : Ptr)
  | unlock (p : Ptr)
  /-- `printf("%s ", current->value)`. -/
  | printValue (p : Ptr)
  /-- `printf("\n")`. -/
  | printLine

@[reducible] def PrintAccess.Res : PrintAccess → Type
  | .loadFirst | .loadNext _ => Ptr
  | .rdLock _ | .unlock _ | .printValue _ | .printLine => Unit

abbrev printSig : Signature := ⟨PrintAccess, PrintAccess.Res⟩

/-- The string in the `value` of a node, which is looked for in the array only. -/
def Node.string (n : Node) : List UInt8 :=
  ((List.range maxStringLength).map n.value).takeWhile (· ≠ 0)

/-- The memory, who holds the lock of a node and how, and what has been printed.  The thread that
prints is `none`. -/
structure PrintState (Tid : Type) where
  mem : Mem
  lock : Addr → List (Option Tid × Workers.Mode)
  out : List UInt8

section Accesses

variable {Tid : Type}

/-- Undefined behaviour. -/
def PrintAccess.Faults : PrintAccess → PrintState Tid → Prop
  | .loadFirst, x => x.mem.storage = none
  | .loadNext p, x => x.mem.node p = none
  | .rdLock p, x => ∀ n, x.mem.node p = some n → n.lock ≠ some .rwlock
  | .unlock p, x => ∀ a, p = some a → (none, .shared) ∉ x.lock a
  | .printValue p, x => ∀ n, x.mem.node p = some n → ∀ i < maxStringLength, n.value i ≠ 0
  | .printLine, _ => False

variable [DecidableEq Tid]

/-- The effect of an access.  `pthread_rwlock_rdlock` waits while the node is locked for writing. -/
def PrintAccess.perform : (o : PrintAccess) → PrintState Tid → Option (o.Res × PrintState Tid)
  | .loadFirst, x => x.mem.storage.map fun first => (first, x)
  | .loadNext p, x => (x.mem.node p).map fun n => (n.next, x)
  | .rdLock p, x =>
      p.bind fun a =>
        if Workers.Available (x.lock a) .shared then
          some ((), { x with lock := Function.update x.lock a ((none, .shared) :: x.lock a) })
        else none
  | .unlock p, x =>
      p.map fun a =>
        ((), { x with lock := Function.update x.lock a ((x.lock a).erase (none, .shared)) })
  | .printValue p, x =>
      (x.mem.node p).map fun n => ((), { x with out := x.out ++ (n.string ++ [32]) })
  | .printLine, x => some ((), { x with out := x.out ++ [10] })

def printSem : Semantics printSig (PrintState Tid) Unit where
  exec o _ x := o.perform x
  Faults o x := o.Faults x

end Accesses

abbrev PrintCode := Prog printSig

def printAccess (o : PrintAccess) : PrintCode o.Res := Prog.access (S := printSig) o

/-- What the loop of `print_storage` does with a node; one of the three `queue.c` locks it. -/
def printNode : LockType → Ptr → PrintCode Unit
  | .mutex, current | .spinlock, current => printAccess (.printValue current)
  | .rwlock, current => do
    printAccess (.rdLock current)
    printAccess (.printValue current)
    printAccess (.unlock current)

/-- The loop of `print_storage` at `current`. -/
def printTurn (lock : LockType) (current : Ptr) : PrintCode (Ptr ⊕ Unit) := do
  if current ≠ none then
    printNode lock current
    let next ← printAccess (.loadNext current)
    return .inl next
  else
    return .inr ()

/-- `print_storage`. -/
def printStorage (lock : LockType) (turns : Nat) : PrintCode Outcome := do
  let current ← printAccess .loadFirst
  match ← Prog.loop (printTurn lock) turns current with
  | none => return .running
  | some () =>
    printAccess .printLine
    return .returned

/-! ## What it prints -/

section Print

variable {Tid : Type} [DecidableEq Tid]

/-- The code never faults, never waits for a lock, and ends with `Q`. -/
abbrev Prints {α : Type} (p : PrintCode α) (Q : α → PrintState Tid → Prop) (x : PrintState Tid) :
    Prop :=
  p.wp printSem (fun _ => True) Q x

/-- What the values of some nodes print. -/
def printed (text : Addr → List UInt8) (l : List Addr) : List UInt8 :=
  l.flatMap fun a => text a ++ [32]

variable {α : Type} {Q : α → PrintState Tid → Prop} {x : PrintState Tid} {m : Mem} {a : Addr}
  {n : Node} {s : List UInt8} {l : List Addr} {text : Addr → List UInt8} {lock : LockType}
  {locks : Addr → List (Option Tid × Workers.Mode)} {turns : Nat}

theorem prints_ret {b : α} : Prints (.ret b) Q x ↔ Q b x := Iff.of_eq (true_and _)

theorem prints_one {o : PrintAccess} {k : o.Res → PrintCode α} {r : o.Res} {x' : PrintState Tid}
    (defined : ¬ o.Faults x) (only : o.perform x = some (r, x')) (later : Prints (k r) Q x') :
    Prints (printAccess o >>= k) Q x := by
  refine ⟨trivial, defined, ⟨(), r, x', only⟩, ?_⟩
  intro _ r₁ x₁ moved
  cases only.symm.trans moved
  exact later

theorem prints_loadFirst {first : Ptr} {k : Ptr → PrintCode α} (there : x.mem.storage = some first)
    (later : Prints (k first) Q x) : Prints (printAccess .loadFirst >>= k) Q x :=
  prints_one (o := .loadFirst) (by simp [PrintAccess.Faults, there])
    (by simp [PrintAccess.perform, there]) later

theorem prints_loadNext {k : Ptr → PrintCode α} (live : x.mem.heap a = some n)
    (later : Prints (k n.next) Q x) : Prints (printAccess (.loadNext (some a)) >>= k) Q x :=
  prints_one (o := .loadNext (some a)) (by simp [PrintAccess.Faults, Mem.node, live])
    (by simp [PrintAccess.perform, Mem.node, live]) later

theorem prints_rdLock {k : Unit → PrintCode α} (live : x.mem.heap a = some n)
    (initialised : n.lock = some .rwlock) (shared : Workers.Available (x.lock a) .shared)
    (later : Prints (k ()) Q
      { x with lock := Function.update x.lock a ((none, .shared) :: x.lock a) }) :
    Prints (printAccess (.rdLock (some a)) >>= k) Q x := by
  refine prints_one (o := .rdLock (some a)) ?_ ?_ later
  · exact fun faults => faults n live initialised
  · simp only [PrintAccess.perform, Option.bind_some, if_pos shared]

theorem prints_unlock {k : Unit → PrintCode α} (mine : (none, .shared) ∈ x.lock a)
    (later : Prints (k ()) Q
      { x with lock := Function.update x.lock a ((x.lock a).erase (none, .shared)) }) :
    Prints (printAccess (.unlock (some a)) >>= k) Q x :=
  prints_one (o := .unlock (some a)) (fun faults => faults a rfl mine) rfl later

theorem prints_printValue {k : Unit → PrintCode α} (live : x.mem.heap a = some n)
    (string : IsString n.value s) (fits : s.length < maxStringLength)
    (later : Prints (k ()) Q { x with out := x.out ++ (s ++ [32]) }) :
    Prints (printAccess (.printValue (some a)) >>= k) Q x := by
  have read : n.string = s := string.takeWhile_array fits
  have node : x.mem.node (some a) = some n := live
  refine prints_one (o := .printValue (some a)) ?_ ?_ later
  · exact fun unterminated => unterminated n live s.length fits string.terminated
  · simp only [PrintAccess.perform, node, Option.map_some, read]

/-- The lock of a node is as before when the node has been printed. -/
theorem prints_node {k : Unit → PrintCode α} (live : x.mem.heap a = some n)
    (string : IsString n.value s) (fits : s.length < maxStringLength)
    (initialised : n.lock = some lock)
    (shared : lock = .rwlock → Workers.Available (x.lock a) .shared)
    (later : Prints (k ()) Q { x with out := x.out ++ (s ++ [32]) }) :
    Prints (printNode lock (some a) >>= k) Q x := by
  cases lock with
  | mutex => exact prints_printValue live string fits later
  | spinlock => exact prints_printValue live string fits later
  | rwlock =>
    refine prints_rdLock live initialised (shared rfl) ?_
    refine prints_printValue live string fits ?_
    refine prints_unlock ?_ ?_
    · simp only [Function.update_self, List.mem_cons_self]
    · simpa only [Function.update_self, List.erase_cons_head, Function.update_idem,
        Function.update_eq_self] using later

/-- The nodes hold these strings, and their locks have been initialised. -/
def Holds (lock : LockType) (m : Mem) (l : List Addr) (text : Addr → List UInt8) : Prop :=
  ∀ a ∈ l, ∃ n, m.heap a = some n ∧ IsString n.value (text a) ∧
    (text a).length < maxStringLength ∧ n.lock = some lock

/-- Before the node at `current`, when `v` nodes are left. -/
def Printing (m : Mem) (locks : Addr → List (Option Tid × Workers.Mode)) (out : List UInt8)
    (l : List Addr) (text : Addr → List UInt8) (v : Nat) (current : Ptr) (x : PrintState Tid) :
    Prop :=
  ∃ before rest, l = before ++ rest ∧ rest.length = v ∧ Linked m.next current rest ∧
    x = ⟨m, locks, out ++ printed text before⟩

theorem printTurn_prints {out : List UInt8} {v : Nat} {current : Ptr} (holds : Holds lock m l text)
    (shared : lock = .rwlock → ∀ a ∈ l, Workers.Available (locks a) .shared)
    (printing : Printing m locks out l text v current x) :
    Prints (printTurn lock current) (fun next x' =>
      (∀ p, next = .inl p → ∃ w, v = w + 1 ∧ Printing m locks out l text w p x') ∧
        ∀ u, next = .inr u → x' = ⟨m, locks, out ++ printed text l⟩) x := by
  obtain ⟨before, rest, split, length, linked, rfl⟩ := printing
  cases rest with
  | nil =>
    have ended : current = none := linked
    subst ended
    rw [List.append_nil] at split
    subst split
    exact prints_ret.mpr ⟨fun _ same => (by cases same), fun _ _ => rfl⟩
  | cons a rest =>
    obtain ⟨rfl, linked⟩ := linked
    have member : a ∈ l := by simp [split]
    obtain ⟨n, live, string, fits, initialised⟩ := holds a member
    refine prints_node live string fits initialised (fun rw_lock => shared rw_lock a member) ?_
    refine prints_loadNext live (prints_ret.mpr ?_)
    refine ⟨fun p same => ?_, fun _ same => (by cases same)⟩
    cases same
    rw [next_of_live live] at linked
    refine ⟨rest.length, length.symm, before ++ [a], rest, ?_, rfl, linked, ?_⟩
    · rw [split, List.append_assoc, List.singleton_append]
    · simp only [printed, List.flatMap_append, List.flatMap_singleton, List.append_assoc]

/-- **`print_storage` prints the values in the order of the chain**, and leaves the rest alone. -/
theorem printStorage_prints (wellFormed : WellFormed m l) (holds : Holds lock m l text)
    (shared : lock = .rwlock → ∀ a ∈ l, Workers.Available (locks a) .shared)
    (enough : l.length < turns) (out : List UInt8) :
    Prints (printStorage lock turns) (fun outcome x =>
      outcome = .returned ∧ x = ⟨m, locks, out ++ printed text l ++ [10]⟩) ⟨m, locks, out⟩ := by
  obtain ⟨first, there, linked⟩ := wellFormed.chain
  refine prints_loadFirst there ?_
  have start : Printing m locks out l text l.length first ⟨m, locks, out⟩ :=
    ⟨[], l, rfl, rfl, linked, by simp [printed]⟩
  have loop : Prints (Prog.loop (printTurn lock) turns first) (fun done x =>
      (l.length < turns → done ≠ none) ∧
        ∀ u, done = some u → x = ⟨m, locks, out ++ printed text l⟩) ⟨m, locks, out⟩ :=
    Prog.wp_loop (Printing m locks out l text) (fun _ _ _ _ => trivial)
      (fun v b x here => printTurn_prints holds shared here) start turns
  refine Prog.wp_bind loop ?_
  intro done x _ after
  obtain ⟨u, same⟩ := Option.ne_none_iff_exists'.mp (after.1 enough)
  subst same
  have at_end := after.2 u rfl
  subst at_end
  exact prints_one (o := .printLine) (r := ()) id rfl (prints_ret.mpr ⟨rfl, rfl⟩)

end Print

/-! ## The whole program -/

/-- The variant of the workers that uses the locks of the nodes. -/
def LockType.variant : LockType → Workers.Variant
  | .mutex => .mutex
  | .spinlock => .spinlock
  | .rwlock => .rwlock

/-- The memory with other `next` fields in its nodes. -/
def Mem.relinked (m : Mem) (next : Addr → Ptr) : Mem :=
  { m with heap := fun a => (m.heap a).map fun n => { n with next := next a } }

section Program

variable {m m₀ : Mem} {l l' : List Addr} {lock : LockType} {n turns : Nat} {next : Addr → Ptr}
  {first : Ptr}

theorem relinked_live {node : Node} {a : Addr} (live : m.heap a = some node) :
    (m.relinked next).heap a = some { node with next := next a } := by
  show (m.heap a).map _ = _
  rw [live]
  rfl

theorem WellFormed.relinked (wellFormed : WellFormed m l) (there : m.storage = some first)
    (linked : Linked next first l') (same : ∀ a ∈ l', a ∈ l) : WellFormed (m.relinked next) l' := by
  have live : ∀ a ∈ l', ∃ node, m.heap a = some node := fun a member =>
    Option.ne_none_iff_exists'.mp (wellFormed.live a (same a member))
  refine ⟨⟨first, there, linked.congr fun a member => ?_⟩, fun a member => ?_⟩
  · obtain ⟨node, at_a⟩ := live a member
    exact next_of_live (relinked_live at_a)
  · obtain ⟨node, at_a⟩ := live a member
    rw [relinked_live at_a]
    exact Option.some_ne_none _

/-- The numbers of the nodes by their places in the storage that has been filled. -/
theorem Filled.numbers (filled : Filled lock n l m₀ m) :
    l.map (fun a => l.idxOf a) = List.range n := by
  have distinct := filled.wellFormed.nodup
  apply List.ext_getElem
  · rw [List.length_map, List.length_range, filled.length]
  · intro i inside _
    rw [List.length_map] at inside
    rw [List.getElem_map, List.getElem_range]
    exact distinct.idxOf_getElem i inside

theorem Filled.holds (filled : Filled lock n l m₀ m) (small : n ≤ 10 ^ 9)
    (same : ∀ a ∈ l', a ∈ l) :
    Holds lock (m.relinked next) l' fun a => decimal (l.idxOf a) := by
  intro a member
  have inside := List.idxOf_lt_length_of_mem (same a member)
  have at_i : l[l.idxOf a]? = some a := by
    rw [List.getElem?_eq_getElem inside, List.getElem_idxOf inside]
  obtain ⟨node, live, string, initialised⟩ := filled.values _ a at_i
  have below : l.idxOf a < 10 ^ 9 := by
    have length := filled.length
    omega
  have short := sprintf_fits.mpr below
  exact ⟨_, relinked_live live, string, Nat.lt_trans short (by decide), initialised⟩

/-- What `print_storage` finds when the workers have come from the memory `m` to `s`. -/
def printState {Tid : Type} (m : Mem) (s : Workers.State Addr Tid) : PrintState Tid where
  mem := m.relinked s.next
  lock a := (s.lock a).map fun h => (some h.1, h.2)
  out := []

variable {Tid : Type} [DecidableEq Tid] [Fintype Tid] {kind : Tid → Workers.Kind}
  {s : Workers.State Addr Tid}

omit [DecidableEq Tid] [Fintype Tid] in
theorem shared_outside {a : Addr} (shared : Workers.Available (s.lock a) .shared) :
    Workers.Available ((printState m s).lock a) .shared := by
  intro h member
  obtain ⟨holder, holds, rfl⟩ := List.mem_map.mp member
  exact shared holder holds

/-- What is printed while no thread is in the middle of a swap. -/
structure Rearranged (n : Nat) (s : Workers.State Addr Tid) (kind : Tid → Workers.Kind)
    (d : List Nat) : Prop where
  perm : d.Perm (List.range n)
  head : d.head? = (List.range n).head?
  parity : inversions d % 2 = (∑ t with kind t = .swap, s.counter t) % 2

theorem Filled.linked (filled : Filled lock n l m₀ m) (there : m.storage = some first) :
    Linked m.next first l := by
  obtain ⟨first', there', linked⟩ := filled.wellFormed.chain
  cases there.symm.trans there'
  exact linked

theorem Filled.prints (filled : Filled lock n l m₀ m) (small : n ≤ 10 ^ 9) (enough : n < turns)
    (there : m.storage = some first)
    (reached : Reachable (Workers.step lock.variant) (Workers.init first m.next kind) s)
    (outside : ∀ t, (s.pc t).critical = false)
    (shared : lock = .rwlock → ∀ a, Workers.Available (s.lock a) .shared) :
    ∃ d, Rearranged n s kind d ∧ Prints (printStorage lock turns) (fun outcome x =>
      outcome = .returned ∧
        x = { printState m s with out := d.flatMap (fun i => decimal i ++ [32]) ++ [10] })
      (printState m s) := by
  obtain ⟨-, done, l', ordered⟩ := Workers.ordered (filled.linked there) reached
  have settled : done = s.next := by
    funext a
    apply ordered.written a
    intro t pending
    rw [(Workers.swapped_outside (outside t)).2] at pending
    cases pending
  have owned := Workers.owned reached
  have counted : ∑ t, Workers.swaps s t = ∑ t with kind t = .swap, s.counter t := by
    rw [Finset.sum_filter]
    apply Finset.sum_congr rfl
    intro t _
    unfold Workers.swaps
    rw [owned.kinds t, (Workers.swapped_outside (outside t)).1, Nat.add_zero]
  have exchanges := ordered.exchanges
  rw [counted] at exchanges
  have same : ∀ a ∈ l', a ∈ l := fun a member => exchanges.perm.mem_iff.mp member
  have linked' : Linked s.next first l' := by
    rw [← settled, ← owned.first]
    exact ordered.linked
  have numbers := exchanges.map fun a => l.idxOf a
  rw [filled.numbers] at numbers
  refine ⟨l'.map fun a => l.idxOf a, ⟨numbers.perm, numbers.head, ?_⟩, ?_⟩
  · rw [numbers.inversions List.nodup_range, inversions_sorted List.pairwise_le_range,
      Nat.zero_add]
  · have wellFormed := filled.wellFormed.relinked there linked' same
    have short : l'.length < turns := by
      have length := exchanges.perm.length_eq
      have length' := filled.length
      omega
    have unlocked : lock = .rwlock → ∀ a ∈ l',
        Workers.Available ((printState m s).lock a) .shared :=
      fun rw_lock a _ => shared_outside (shared rw_lock a)
    refine Prog.wp_mono (fun _ => id) ?_
      (printStorage_prints wellFormed (filled.holds small same) unlocked short [])
    intro outcome x ended
    refine ⟨ended.1, ?_⟩
    rw [ended.2]
    simp only [printState, printed, List.nil_append, List.flatMap_map]

/-- **No number is lost.**  Unless a `malloc` fails, the storage of any capacity up to `10 ^ 9` gets
built, and whatever the workers do with it then, in every state in which no thread is between its
third `trylock` and its first unlock, and in which no read-write lock is held for writing,
`print_storage` prints every number below the capacity exactly once, 0 in front, in an order with
as many inversions modulo 2 as the swap counters say. -/
theorem program (small : n ≤ 10 ^ 9) (enough : n < turns) (lock : LockType)
    (kind : Tid → Workers.Kind) (m : Mem) :
    Total (buildStorage lock turns n) (fun outcome x =>
      (outcome = .exited ∧ x.2 = true) ∨
      (outcome = .returned ∧ ∃ first l, x.1.storage = some first ∧ Filled lock n l m x.1 ∧
        ∀ s : Workers.State Addr Tid,
          Reachable (Workers.step lock.variant) (Workers.init first x.1.next kind) s →
          (∀ t, (s.pc t).critical = false) →
          (lock = .rwlock → ∀ a, Workers.Available (s.lock a) .shared) →
          ∃ d, Rearranged n s kind d ∧ Prints (printStorage lock turns) (fun outcome y =>
            outcome = .returned ∧ y = { printState x.1 s with
              out := d.flatMap (fun i => decimal i ++ [32]) ++ [10] })
            (printState x.1 s))) (m, false) := by
  refine Prog.wp_mono (fun _ => id) ?_ (buildStorage_total small enough)
  intro outcome x ended
  rcases ended with ⟨returned, -, -, l, filled⟩ | exited
  · obtain ⟨first, there, -⟩ := filled.wellFormed.chain
    refine Or.inr ⟨returned, first, l, there, filled, ?_⟩
    intro s reached outside shared
    exact filled.prints small enough there reached outside shared
  · exact Or.inl exited

end Program

/-- The only order of three numbers with 0 in front and an odd number of inversions. -/
theorem Rearranged.odd {s : Workers.State Addr (Fin 2)} {d : List Nat}
    (order : Rearranged 3 s Workers.pair d) (swapped : s.counter 0 = 1) : d = [0, 2, 1] := by
  obtain ⟨perm, head, parity⟩ := order
  have counted : ∑ t with Workers.pair t = .swap, s.counter t = 1 := by
    have swapping : Finset.univ.filter (fun t => Workers.pair t = .swap) = {0} := by decide
    rw [swapping, Finset.sum_singleton, swapped]
  rw [counted] at parity
  obtain ⟨rest, rfl⟩ := List.head?_eq_some_iff.mp (head.trans rfl)
  have perm : rest.Perm [1, 2] := (List.perm_cons 0).mp perm
  match rest, perm.length_eq with
  | [x, y], _ =>
    have x_mem : x ∈ [1, 2] := perm.subset List.mem_cons_self
    have sum := perm.sum_eq
    simp only [List.sum_cons, List.sum_nil] at sum
    rcases List.mem_pair.mp x_mem with rfl | rfl
    · obtain rfl : y = 2 := by omega
      cases parity
    · obtain rfl : y = 1 := by omega
      rfl

/-- Three nodes, after a pass of the thread that swaps. -/
theorem program_three : Total (buildStorage .rwlock 4 3) (fun outcome x =>
    (outcome = .exited ∧ x.2 = true) ∨
    (outcome = .returned ∧ ∃ first, ∃ s : Workers.State Addr (Fin 2),
      Reachable (Workers.step .rwlock) (Workers.init first x.1.next Workers.pair) s ∧
      s.counter 0 = 1 ∧ Prints (printStorage .rwlock 4) (fun outcome y =>
        outcome = .returned ∧ y.out = ascii "0 2 1 \n") (printState x.1 s))) (single, false) := by
  have small : 3 ≤ 10 ^ 9 := by decide
  have enough : 3 < 4 := by decide
  refine Prog.wp_mono (fun _ => id) ?_ (program small enough .rwlock Workers.pair single)
  intro outcome x ended
  rcases ended with exited | ⟨returned, first, l, there, filled, prints⟩
  · exact Or.inl exited
  refine Or.inr ⟨returned, first, ?_⟩
  match l, filled.length with
  | [a, b, c], _ =>
    have linked : Linked x.1.next first [a, b, c] := filled.linked there
    have passes : ∃ s, Reachable (Workers.step .rwlock)
        (Workers.init first x.1.next Workers.pair) s ∧ s.counter 0 = [c].length ∧
        (∀ u, (s.pc u).critical = false) ∧ ∀ p, s.lock p = [] :=
      Workers.passes_first linked rfl
    obtain ⟨s, reached, swapped, outside, free⟩ := passes
    have shared : ∀ p, Workers.Available (s.lock p) .shared := by
      intro p
      rw [free p]
      exact fun _ member => absurd member List.not_mem_nil
    obtain ⟨d, order, printed⟩ := prints s reached outside fun _ => shared
    cases order.odd swapped
    refine ⟨s, reached, swapped, Prog.wp_mono (fun _ => id) ?_ printed⟩
    intro outcome y done
    refine ⟨done.1, ?_⟩
    rw [done.2]
    rfl

end Os2Labs.Storage
