import Mathlib.Logic.Function.Basic
import Os2Labs.Bytes.Decimal
import Os2Labs.Conc.Program

/-!
# Building the storage

`initialize_storage`, `add_node` and `fill_storage` of `lab2/3`.  The three `queue.c` differ
in the lock that is initialised in a new node.

A memory holds the storage, its nodes, the global capacity and the `buff` of `fill_storage`.
`Access.Faults` is undefined behaviour: a field reached through `NULL`, a byte stored beyond an
array, a string without a NUL, arithmetic without a result.  `malloc` may fail, and may return
any address that is not in use.
-/

namespace Os2Labs.Storage

open Bytes Conc

abbrev Addr := Nat

/-- A `Node *`; `none` is `NULL`. -/
abbrev Ptr := Option Addr

/-- `MAX_STRING_LENGTH`. -/
def maxStringLength : Nat := 100

/-- `char buff[10]`. -/
def buffSize : Nat := 10

def intMin : Int := -2147483648

def intMax : Int := 2147483647

/-- The lock in each node. -/
inductive LockType where
  | mutex | spinlock | rwlock
deriving DecidableEq

/-- `Node`, and which lock has been initialised in it. -/
structure Node where
  value : Memory
  next : Ptr
  lock : Option LockType

/-- `storage_capacity`, the field `first` of the storage if there is one, the nodes, and `buff`. -/
structure Mem where
  storageCapacity : Int
  storage : Option Ptr
  heap : Addr → Option Node
  buff : Memory

/-- The node a pointer points to, if there is one. -/
def Mem.node (m : Mem) (p : Ptr) : Option Node := p.bind m.heap

/-- The next pointer of the node at an address. -/
def Mem.next (m : Mem) (a : Addr) : Ptr := (m.heap a).bind Node.next

/-- Put a node at the address a pointer holds. -/
def Mem.setNode (m : Mem) (p : Ptr) (n : Node) : Mem :=
  match p with
  | none => m
  | some a => { m with heap := Function.update m.heap a (some n) }

/-- The string in `buff`, which is looked for in the array only. -/
def Mem.buffString (m : Mem) : List UInt8 :=
  ((List.range buffSize).map m.buff).takeWhile (· ≠ 0)

/-! ## Accesses -/

/-- One access. -/
inductive Access where
  | mallocStorage
  | mallocNode
  | loadCapacity
  | storeCapacity (z : Int)
  | loadFirst
  | storeFirst (p : Ptr)
  | loadNext (p : Ptr)
  | storeNext (p r : Ptr)
  | storeValue (p : Ptr) (i : Nat) (c : UInt8)
  | initLock (p : Ptr) (lock : LockType)
  | declareBuff
  | storeBuff (i : Nat) (c : UInt8)
  | loadBuff
  /-- Arithmetic whose result is defined if `b`. -/
  | arith (b : Bool)

/-- What an access answers. -/
@[reducible] def Access.Res : Access → Type
  | .mallocStorage => Bool
  | .loadCapacity => Int
  | .mallocNode | .loadFirst | .loadNext _ => Ptr
  | .loadBuff => List UInt8
  | _ => Unit

abbrev sig : Signature := ⟨Access, Access.Res⟩

/-- What the environment decides: whether and where `malloc` finds memory, and what stands in
memory that has not been written. -/
structure Fresh where
  addr : Option Addr
  node : Node
  first : Ptr
  buff : Memory

instance : Nonempty Fresh := ⟨⟨none, ⟨fun _ => 0, none, none⟩, none, fun _ => 0⟩⟩

/-- Undefined behaviour. -/
def Access.Faults : Access → Mem → Prop
  | .loadFirst, m | .storeFirst _, m => m.storage = none
  | .loadNext p, m | .storeNext p _, m | .initLock p _, m => m.node p = none
  | .storeValue p i _, m => m.node p = none ∨ maxStringLength ≤ i
  | .storeBuff i _, _ => buffSize ≤ i
  | .loadBuff, m => ∀ i < buffSize, m.buff i ≠ 0
  | .arith b, _ => b = false
  | .mallocStorage, _ | .mallocNode, _ | .loadCapacity, _ | .storeCapacity _, _
  | .declareBuff, _ => False

instance : (o : Access) → (m : Mem) → Decidable (o.Faults m)
  | .loadFirst, m | .storeFirst _, m => inferInstanceAs (Decidable (m.storage = none))
  | .loadNext p, m | .storeNext p _, m | .initLock p _, m =>
      inferInstanceAs (Decidable (m.node p = none))
  | .storeValue p i _, m => inferInstanceAs (Decidable (m.node p = none ∨ maxStringLength ≤ i))
  | .storeBuff i _, _ => inferInstanceAs (Decidable (buffSize ≤ i))
  | .loadBuff, m => inferInstanceAs (Decidable (∀ i < buffSize, m.buff i ≠ 0))
  | .arith b, _ => inferInstanceAs (Decidable (b = false))
  | .mallocStorage, _ | .mallocNode, _ | .loadCapacity, _ | .storeCapacity _, _
  | .declareBuff, _ => inferInstanceAs (Decidable False)

/-- The effect of an access that does not fault. -/
def Access.perform : (o : Access) → Fresh → Mem → Option (o.Res × Mem)
  | .mallocStorage, new, m =>
      match new.addr with
      | none => some (false, m)
      | some _ => some (true, { m with storage := some new.first })
  | .mallocNode, new, m =>
      match new.addr with
      | none => some (none, m)
      | some a => if m.heap a = none then some (some a, m.setNode (some a) new.node) else none
  | .loadCapacity, _, m => some (m.storageCapacity, m)
  | .storeCapacity z, _, m => some ((), { m with storageCapacity := z })
  | .loadFirst, _, m => m.storage.map fun first => (first, m)
  | .storeFirst p, _, m => some ((), { m with storage := some p })
  | .loadNext p, _, m => (m.node p).map fun n => (n.next, m)
  | .storeNext p r, _, m => (m.node p).map fun n => ((), m.setNode p { n with next := r })
  | .storeValue p i c, _, m =>
      (m.node p).map fun n => ((), m.setNode p { n with value := Function.update n.value i c })
  | .initLock p lock, _, m =>
      (m.node p).map fun n => ((), m.setNode p { n with lock := some lock })
  | .declareBuff, new, m => some ((), { m with buff := new.buff })
  | .storeBuff i c, _, m => some ((), { m with buff := Function.update m.buff i c })
  | .loadBuff, _, m => some (m.buffString, m)
  | .arith _, _, m => some ((), m)

/-- The accesses of `queue.c`: a faulting one has no outcome. -/
def sem : Semantics sig Mem Fresh where
  exec o new m := if o.Faults m then none else o.perform new m
  Faults o m := o.Faults m

/-! ## The code -/

abbrev Code := Prog sig

def access (o : Access) : Code o.Res := Prog.access (S := sig) o

def loadFirst : Code Ptr := access .loadFirst
def storeFirst (p : Ptr) : Code Unit := access (.storeFirst p)
def loadNext (p : Ptr) : Code Ptr := access (.loadNext p)
def storeNext (p r : Ptr) : Code Unit := access (.storeNext p r)
def loadCapacity : Code Int := access .loadCapacity
def storeCapacity (z : Int) : Code Unit := access (.storeCapacity z)

/-- How a function ends: it returns, it ends the program because `malloc` has failed, or it is
not over after so many turns of its loops. -/
inductive Outcome where
  | returned | exited | running
deriving DecidableEq

/-- `initialize_storage`. -/
def initializeStorage (capacity : Int) : Code Outcome := do
  let storage ← access .mallocStorage
  if storage then
    storeCapacity capacity
    storeFirst none
    return .returned
  else
    return .exited

/-- `while (node->next != NULL) node = node->next`. -/
def toLast (node : Ptr) : Code (Ptr ⊕ Ptr) := do
  let next ← loadNext node
  if next ≠ none then
    let node ← loadNext node
    return .inl node
  else
    return .inr node

/-- The linking of the new node. -/
def link (turns : Nat) (newNode : Ptr) : Code Outcome := do
  let first ← loadFirst
  if first ≠ none then
    let node ← loadFirst
    match ← Prog.loop toLast turns node with
    | none => return .running
    | some node =>
      storeNext node newNode
      return .returned
  else
    storeFirst newNode
    return .returned

/-- Stores into the `value` of a node. -/
def storeValue (p : Ptr) : List (Nat × UInt8) → Code Unit
  | [] => return ()
  | w :: ws => do
    access (.storeValue p w.1 w.2)
    storeValue p ws

/-- `add_node`. -/
def addNode (lock : LockType) (turns : Nat) (value : List UInt8) : Code Outcome := do
  let newNode ← access .mallocNode
  if newNode = none then
    return .exited
  else
    match ← link turns newNode with
    | .returned =>
      storeValue newNode (strcpy value)
      storeNext newNode none
      access (.initLock newNode lock)
      return .returned
    | stopped => return stopped

/-- Stores into `buff`. -/
def storeBuff : List (Nat × UInt8) → Code Unit
  | [] => return ()
  | w :: ws => do
    access (.storeBuff w.1 w.2)
    storeBuff ws

/-- The loop of `fill_storage` at `i`. -/
def fillTurn (lock : LockType) (turns : Nat) (i : Int) : Code (Int ⊕ Outcome) := do
  let capacity ← loadCapacity
  if i < capacity then
    access .declareBuff
    -- `sprintf(buff, "%d", (i) % storage_capacity)`
    let capacity ← loadCapacity
    access (.arith (capacity ≠ 0 ∧ ¬ (i = intMin ∧ capacity = -1)))
    storeBuff (strcpy (formatInt (i.tmod capacity)))
    let value ← access .loadBuff
    match ← addNode lock turns value with
    | .returned =>
      -- `++i`
      access (.arith (i + 1 ≤ intMax))
      return .inl (i + 1)
    | stopped => return .inr stopped
  else
    return .inr .returned

/-- `fill_storage`. -/
def fillStorage (lock : LockType) (turns : Nat) : Code Outcome := do
  match ← Prog.loop (fillTurn lock turns) turns 0 with
  | none => return .running
  | some outcome => return outcome

/-- `initialize_storage(capacity)` and `fill_storage`. -/
def buildStorage (lock : LockType) (turns : Nat) (capacity : Int) : Code Outcome := do
  match ← initializeStorage capacity with
  | .returned => fillStorage lock turns
  | stopped => return stopped

end Os2Labs.Storage
