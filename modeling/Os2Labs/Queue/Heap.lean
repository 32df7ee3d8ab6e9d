import Mathlib.Logic.Function.Basic
import Os2Labs.Conc.Program

/-!
# The queue in memory

The five variants of `queue.c` share one data structure: a `queue_t` with
pointers to the first and last node of a chain of `qnode_t`, a count, a bound and
four statistics counters.  This module is that memory and its atomic accesses,
one for every single read or write of a field of the queue or of a node, and for
`malloc`, `free` and `assert`.

A heap maps an address to the node allocated there, so an address that was never
returned by `malloc`, or was freed since, maps to `none`.  `Access.Faults` is the
undefined or aborting behaviour: a field reached through `NULL` or through a
freed node, a double `free`, an `int` count out of range, a failing `assert`.
`malloc` succeeds and may return any address that is not in use, with any
contents; the address is the choice of the environment.

The counts of attempts and successes are `long`; they are unbounded integers
here, as they would need `2 ^ 63` calls to wrap.
-/

namespace Os2Labs.Queue

open Conc

/-- The `int` values stored in the queue. -/
abbrev CInt := BitVec 32

/-- The address of a node. -/
abbrev Addr := Nat

/-- A `qnode_t *`; `none` is `NULL`. -/
abbrev Ptr := Option Addr

def intMin : Int := -2147483648

def intMax : Int := 2147483647

/-- `qnode_t`. -/
structure QNodeT where
  val : CInt
  next : Ptr
deriving DecidableEq

/-- `queue_t`, without the identifier of the monitoring thread. -/
structure QueueT where
  first : Ptr
  last : Ptr
  count : Int
  maxCount : Int
  addAttempts : Int
  getAttempts : Int
  addCount : Int
  getCount : Int
deriving DecidableEq

/-- One queue and the heap of its nodes. -/
structure Mem where
  q : QueueT
  heap : Addr → Option QNodeT

inductive PtrField where
  | first | last
deriving DecidableEq

inductive IntField where
  | count | maxCount | addAttempts | getAttempts | addCount | getCount
deriving DecidableEq

def QueueT.ptr (q : QueueT) : PtrField → Ptr
  | .first => q.first
  | .last => q.last

def QueueT.setPtr (q : QueueT) : PtrField → Ptr → QueueT
  | .first, p => { q with first := p }
  | .last, p => { q with last := p }

def QueueT.int (q : QueueT) : IntField → Int
  | .count => q.count
  | .maxCount => q.maxCount
  | .addAttempts => q.addAttempts
  | .getAttempts => q.getAttempts
  | .addCount => q.addCount
  | .getCount => q.getCount

def QueueT.setInt (q : QueueT) : IntField → Int → QueueT
  | .count, z => { q with count := z }
  | .maxCount, z => { q with maxCount := z }
  | .addAttempts, z => { q with addAttempts := z }
  | .getAttempts, z => { q with getAttempts := z }
  | .addCount, z => { q with addCount := z }
  | .getCount, z => { q with getCount := z }

/-- The node a pointer points to, if there is one. -/
def Mem.node (m : Mem) (p : Ptr) : Option QNodeT := p.bind m.heap

/-- Put something at the address a pointer holds. -/
def Mem.setNode (m : Mem) (p : Ptr) (n : Option QNodeT) : Mem :=
  match p with
  | none => m
  | some a => { m with heap := Function.update m.heap a n }

/-- The next pointer of the node at an address. -/
def Mem.next (m : Mem) (a : Addr) : Ptr := (m.heap a).bind QNodeT.next

/-- The value of the node at an address. -/
def Mem.val (m : Mem) (a : Addr) : Option CInt := (m.heap a).map QNodeT.val

/-! ## Accesses -/

/-- One atomic access. -/
inductive Access where
  | loadPtr (f : PtrField)
  | storePtr (f : PtrField) (p : Ptr)
  | loadInt (f : IntField)
  | storeInt (f : IntField) (z : Int)
  | loadVal (p : Ptr)
  | storeVal (p : Ptr) (v : CInt)
  | loadNext (p : Ptr)
  | storeNext (p : Ptr) (r : Ptr)
  | malloc
  | free (p : Ptr)
  | assert (b : Bool)

/-- What an access answers. -/
@[reducible] def Access.Res : Access → Type
  | .loadPtr _ | .loadNext _ | .malloc => Ptr
  | .loadInt _ => Int
  | .loadVal _ => CInt
  | .storePtr .. | .storeInt .. | .storeVal .. | .storeNext .. | .free _ | .assert _ => Unit

abbrev sig : Signature := ⟨Access, Access.Res⟩

/-- What `malloc` would return: an address and the contents of the fresh node. -/
structure Fresh where
  addr : Addr
  contents : QNodeT

instance : Nonempty Fresh := ⟨⟨0, ⟨0, none⟩⟩⟩

/-- Undefined behaviour, or an abort. -/
def Access.Faults : Access → Mem → Prop
  | .loadVal p, m | .storeVal p _, m | .loadNext p, m | .storeNext p _, m => m.node p = none
  | .free p, m => p ≠ none ∧ m.node p = none
  | .storeInt f z, _ => f = .count ∧ ¬ (intMin ≤ z ∧ z ≤ intMax)
  | .assert b, _ => b = false
  | .loadPtr _, _ | .storePtr .., _ | .loadInt _, _ | .malloc, _ => False

instance : (o : Access) → (m : Mem) → Decidable (o.Faults m)
  | .loadVal p, m | .storeVal p _, m | .loadNext p, m | .storeNext p _, m =>
      inferInstanceAs (Decidable (m.node p = none))
  | .free p, m => inferInstanceAs (Decidable (p ≠ none ∧ m.node p = none))
  | .storeInt f z, _ => inferInstanceAs (Decidable (f = .count ∧ ¬ (intMin ≤ z ∧ z ≤ intMax)))
  | .assert b, _ => inferInstanceAs (Decidable (b = false))
  | .loadPtr _, _ | .storePtr .., _ | .loadInt _, _ | .malloc, _ =>
      inferInstanceAs (Decidable False)

/-- The effect of an access that does not fault. -/
def Access.perform : (o : Access) → Fresh → Mem → Option (o.Res × Mem)
  | .loadPtr f, _, m => some (m.q.ptr f, m)
  | .storePtr f p, _, m => some ((), { m with q := m.q.setPtr f p })
  | .loadInt f, _, m => some (m.q.int f, m)
  | .storeInt f z, _, m => some ((), { m with q := m.q.setInt f z })
  | .loadVal p, _, m => (m.node p).map fun n => (n.val, m)
  | .storeVal p v, _, m => (m.node p).map fun n => ((), m.setNode p (some { n with val := v }))
  | .loadNext p, _, m => (m.node p).map fun n => (n.next, m)
  | .storeNext p r, _, m => (m.node p).map fun n => ((), m.setNode p (some { n with next := r }))
  | .malloc, new, m =>
      if m.heap new.addr = none then
        some (some new.addr, m.setNode (some new.addr) (some new.contents))
      else none
  | .free p, _, m => some ((), m.setNode p none)
  | .assert _, _, m => some ((), m)

/-- The accesses of the queue code: a faulting one has no outcome. -/
def sem : Semantics sig Mem Fresh where
  exec o new m := if o.Faults m then none else o.perform new m
  Faults o m := o.Faults m

theorem sem_exec {o : Access} {m : Mem} (defined : ¬ o.Faults m) (new : Fresh) :
    sem.exec o new m = o.perform new m := if_neg defined

end Os2Labs.Queue
