import Mathlib.Data.List.Basic
import Mathlib.Logic.Function.Basic
import Os2Labs.Conc.Runs

/-!
# The list workers

`process_thread` and `swap_thread` of `lab2/3`, in the variants with a mutex, a spin
lock or a read-write lock in each node.  A program point (`Pc`) holds the pointers the
thread has in its local variables; `code` gives for each point its next atomic access and
where the thread goes with the answer.  Every occurrence of a `next` field in the
source is an access of its own.

Besides, a point remembers the nodes that the thread's `trylock`s succeeded on (`second`
and `third`); the code itself finds them again by reading `next` fields.

An access through `NULL` has no step: a run ends for a thread that is about to make one.
-/

namespace Os2Labs.Workers

open Conc

variable {Node : Type}

inductive Kind where
  | process | swap
deriving DecidableEq

/-- Where a thread is. -/
inductive Pc (Node : Type) where
  /-- `storage->first == NULL`, once before the loops of `process_thread`. -/
  | startTest
  /-- `storage->first` and then `->next` of it. -/
  | startLoad
  | startNext (first : Option Node)
  /-- `curr = storage->first`, in the outer loop. -/
  | loadFirst (k : Kind)
  /-- `curr->next == NULL`, and in `swap_thread` the two reads of `curr1->next->next`. -/
  | testNext (k : Kind) (curr : Node)
  | loadNext (curr1 : Node)
  | testNextNext (curr1 : Node) (next : Option Node)
  | rand (curr1 : Node)
  /-- The walk of `should_swap == 0`: `curr1->next != NULL`, and `curr1 = curr1->next`. -/
  | walkTest (curr1 : Option Node)
  | walkStep (curr1 : Option Node)
  /-- The `trylock` of `curr`, and `curr = curr->next` after it failed. -/
  | tryFirst (k : Kind) (curr : Node)
  | skip (k : Kind) (curr : Node)
  /-- `curr->next != NULL`, and the `trylock` of `curr->next`. -/
  | testSecond (k : Kind) (curr : Node)
  | loadSecond (k : Kind) (curr : Node)
  | trySecond (k : Kind) (curr : Node) (next : Option Node)
  /-- The `else` after it: `curr = curr->next`, and the unlock of `tmp`. -/
  | passFirst (k : Kind) (curr : Node)
  | unlockFirst (k : Kind) (tmp : Node) (curr : Option Node)
  /-- With `curr1` and `second` locked: `curr1->next->next != NULL`, and its `trylock`. -/
  | loadThird (curr1 second : Node)
  | testThird (curr1 second : Node) (next : Option Node)
  | reloadSecond (curr1 second : Node)
  | reloadThird (curr1 second : Node) (next : Option Node)
  | tryThird (curr1 second : Node) (next : Option Node)
  /-- With two nodes locked: `curr = curr->next`, and the unlocks of `tmp` and `curr`. -/
  | passSecond (k : Kind) (curr second : Node)
  | unlockTmp (k : Kind) (tmp second : Node) (curr : Option Node)
  | unlockCurr (k : Kind) (second : Node) (curr : Option Node)
  /-- With three nodes locked: `curr2 = curr1->next`, `curr3 = curr1->next->next`. -/
  | loadCurr2 (curr1 second third : Node)
  | loadCurr3 (curr1 second third : Node) (curr2 : Option Node)
  | loadCurr3Next (curr1 second third : Node) (curr2 next : Option Node)
  /-- `curr2->next = curr3->next`, `curr3->next = curr2`, `curr1->next = curr3`. -/
  | loadTail (curr1 second third : Node) (curr2 curr3 : Option Node)
  | storeCurr2 (curr1 second third : Node) (curr2 curr3 tail : Option Node)
  | storeCurr3 (curr1 second third : Node) (curr2 curr3 : Option Node)
  | storeCurr1 (curr1 second third : Node) (curr3 : Option Node)
  | countSwap (curr1 second third : Node)
  /-- `curr1 = tmp->next`, `curr2 = curr1->next`, and the three unlocks. -/
  | reloadCurr1 (tmp second third : Node)
  | reloadCurr2 (tmp second third : Node) (curr1 : Option Node)
  | unlock1 (tmp second third : Node) (curr1 curr2 : Option Node)
  | unlock2 (second third : Node) (curr1 curr2 : Option Node)
  | unlock3 (second : Node) (curr1 curr2 : Option Node)
  /-- `curr2 = curr->next` of `process_thread`, and the comparison of the two values. -/
  | loadPair (curr second : Node)
  | compare (curr second : Node) (curr2 : Option Node)
  | countPass
  | exit (k : Kind)
deriving DecidableEq

/-- The next atomic access of a thread, and where it goes with the answer. -/
inductive Code (Node : Type) where
  | first (k : Option Node → Pc Node)
  | load (p : Option Node) (k : Option Node → Pc Node)
  | store (p v : Option Node) (k : Pc Node)
  | tryLock (p : Option Node) (k : Bool → Pc Node)
  | unlock (p : Option Node) (k : Pc Node)
  /-- The two reads of `compare_nodes`. -/
  | values (p q : Option Node) (k : Pc Node)
  | rand (k : Bool → Pc Node)
  | count (k : Pc Node)
  | halt

/-- The head of the inner loop: at the end of the list it is left. -/
def loop : Kind → Option Node → Pc Node
  | k, some curr => .tryFirst k curr
  | .process, none => .countPass
  | .swap, none => .loadFirst .swap

/-- After `curr->next == NULL` in the outer loop. -/
def afterTest : Kind → Node → Pc Node
  | .process, curr => .tryFirst .process curr
  | .swap, curr1 => .loadNext curr1

/-- `process_thread` and `swap_thread`. -/
@[grind =] def code : Pc Node → Code Node
  | .startTest => .first fun first => if first.isNone then .exit .process else .startLoad
  | .startLoad => .first .startNext
  | .startNext first =>
      .load first fun next => if next.isNone then .exit .process else .loadFirst .process
  | .loadFirst k => .first fun first => first.elim (.exit k) (.testNext k)
  | .testNext k curr =>
      .load (some curr) fun next => if next.isNone then .exit k else afterTest k curr
  | .loadNext curr1 => .load (some curr1) (.testNextNext curr1)
  | .testNextNext curr1 next =>
      .load next fun next => if next.isNone then .exit .swap else .rand curr1
  | .rand curr1 =>
      .rand fun shouldSwap => if shouldSwap then .tryFirst .swap curr1 else .walkTest (some curr1)
  | .walkTest curr1 =>
      .load curr1 fun next => if next.isNone then .loadFirst .swap else .walkStep curr1
  | .walkStep curr1 => .load curr1 .walkTest
  | .tryFirst k curr =>
      .tryLock (some curr) fun ok => if ok then .testSecond k curr else .skip k curr
  | .skip k curr => .load (some curr) (loop k)
  | .testSecond k curr =>
      .load (some curr) fun next => if next.isNone then .passFirst k curr else .loadSecond k curr
  | .loadSecond k curr => .load (some curr) (.trySecond k curr)
  | .trySecond k curr next =>
      .tryLock next fun ok =>
        match ok, next, k with
        | true, some second, .process => .loadPair curr second
        | true, some second, .swap => .loadThird curr second
        | _, _, _ => .passFirst k curr
  | .passFirst k curr => .load (some curr) (.unlockFirst k curr)
  | .unlockFirst k tmp curr => .unlock (some tmp) (loop k curr)
  | .loadThird curr1 second => .load (some curr1) (.testThird curr1 second)
  | .testThird curr1 second next =>
      .load next fun next =>
        if next.isNone then .passSecond .swap curr1 second else .reloadSecond curr1 second
  | .reloadSecond curr1 second => .load (some curr1) (.reloadThird curr1 second)
  | .reloadThird curr1 second next => .load next (.tryThird curr1 second)
  | .tryThird curr1 second next =>
      .tryLock next fun ok =>
        match ok, next with
        | true, some third => .loadCurr2 curr1 second third
        | _, _ => .passSecond .swap curr1 second
  | .passSecond k curr second => .load (some curr) (.unlockTmp k curr second)
  | .unlockTmp k tmp second curr => .unlock (some tmp) (.unlockCurr k second curr)
  | .unlockCurr k _ curr => .unlock curr (loop k curr)
  | .loadCurr2 curr1 second third => .load (some curr1) (.loadCurr3 curr1 second third)
  | .loadCurr3 curr1 second third curr2 =>
      .load (some curr1) (.loadCurr3Next curr1 second third curr2)
  | .loadCurr3Next curr1 second third curr2 next =>
      .load next (.loadTail curr1 second third curr2)
  | .loadTail curr1 second third curr2 curr3 =>
      .load curr3 (.storeCurr2 curr1 second third curr2 curr3)
  | .storeCurr2 curr1 second third curr2 curr3 tail =>
      .store curr2 tail (.storeCurr3 curr1 second third curr2 curr3)
  | .storeCurr3 curr1 second third curr2 curr3 =>
      .store curr3 curr2 (.storeCurr1 curr1 second third curr3)
  | .storeCurr1 curr1 second third curr3 =>
      .store (some curr1) curr3 (.countSwap curr1 second third)
  | .countSwap curr1 second third => .count (.reloadCurr1 curr1 second third)
  | .reloadCurr1 tmp second third => .load (some tmp) (.reloadCurr2 tmp second third)
  | .reloadCurr2 tmp second third curr1 => .load curr1 (.unlock1 tmp second third curr1)
  | .unlock1 tmp second third curr1 curr2 =>
      .unlock (some tmp) (.unlock2 second third curr1 curr2)
  | .unlock2 second _ curr1 curr2 => .unlock curr1 (.unlock3 second curr1 curr2)
  | .unlock3 _ curr1 curr2 => .unlock curr2 (loop .swap curr1)
  | .loadPair curr second => .load (some curr) (.compare curr second)
  | .compare curr second curr2 => .values (some curr) curr2 (.passSecond .process curr second)
  | .countPass => .count (.loadFirst .process)
  | .exit _ => .halt

/-! ## The machine -/

/-- How a node is locked. -/
inductive Mode where
  | exclusive | shared
deriving DecidableEq

/-- The locks of the nodes: only `process_thread` of the variant with read-write locks shares
them. -/
inductive Variant where
  | mutex | spinlock | rwlock
deriving DecidableEq

def Variant.mode : Variant → Kind → Mode
  | .rwlock, .process => .shared
  | _, _ => .exclusive

/-- What a thread is executing. -/
def Pc.kind : Pc Node → Kind
  | .startTest | .startLoad | .startNext _ | .loadPair .. | .compare .. | .countPass => .process
  | .loadFirst k | .testNext k _ | .tryFirst k _ | .skip k _ | .testSecond k _ | .loadSecond k _
  | .trySecond k _ _ | .passFirst k _ | .unlockFirst k _ _ | .passSecond k _ _
  | .unlockTmp k _ _ _ | .unlockCurr k _ _ | .exit k => k
  | .loadNext _ | .testNextNext .. | .rand _ | .walkTest _ | .walkStep _ | .loadThird ..
  | .testThird .. | .reloadSecond .. | .reloadThird .. | .tryThird .. | .loadCurr2 ..
  | .loadCurr3 .. | .loadCurr3Next .. | .loadTail .. | .storeCurr2 .. | .storeCurr3 ..
  | .storeCurr1 .. | .countSwap .. | .reloadCurr1 .. | .reloadCurr2 .. | .unlock1 ..
  | .unlock2 .. | .unlock3 .. => .swap

structure State (Node Tid : Type) where
  first : Option Node
  next : Node → Option Node
  /-- Who holds the lock of a node, and how. -/
  lock : Node → List (Tid × Mode)
  pc : Tid → Pc Node
  /-- The increments each thread has made to its counter. -/
  counter : Tid → Nat

/-- What is left open by the source: the outcome of a `trylock` or of `rand`. -/
structure Event (Tid : Type) where
  thread : Tid
  choice : Bool

/-- A lock can be had. -/
def Available {Tid : Type} (holders : List (Tid × Mode)) : Mode → Prop
  | .exclusive => holders = []
  | .shared => ∀ h ∈ holders, h.2 = .shared

instance {Tid : Type} [DecidableEq Tid] (holders : List (Tid × Mode)) :
    (m : Mode) → Decidable (Available holders m)
  | .exclusive => inferInstanceAs (Decidable (holders = []))
  | .shared => inferInstanceAs (Decidable (∀ h ∈ holders, h.2 = .shared))

variable {Tid : Type} [DecidableEq Node] [DecidableEq Tid]

/-- Thread `t` goes to a point of its code. -/
def State.goto (s : State Node Tid) (t : Tid) (new : Pc Node) : State Node Tid :=
  { s with pc := Function.update s.pc t new }

/-- One step of one thread.  A `trylock` may fail although the lock is free; an unlock needs a
lock that the thread holds. -/
def step (variant : Variant) (s : State Node Tid) (e : Event Tid) : Option (State Node Tid) :=
  let t := e.thread
  match code (s.pc t) with
  | .first k => some (s.goto t (k s.first))
  | .load (some a) k => some (s.goto t (k (s.next a)))
  | .store (some a) v k => some { s.goto t k with next := Function.update s.next a v }
  | .tryLock (some a) k =>
      let m := variant.mode (s.pc t).kind
      if e.choice then
        if Available (s.lock a) m then
          some { s.goto t (k true) with lock := Function.update s.lock a ((t, m) :: s.lock a) }
        else none
      else some (s.goto t (k false))
  | .unlock (some a) k =>
      let m := variant.mode (s.pc t).kind
      if (t, m) ∈ s.lock a then
        some { s.goto t k with lock := Function.update s.lock a ((s.lock a).erase (t, m)) }
      else none
  | .values (some _) (some _) k => some (s.goto t k)
  | .rand k => some (s.goto t (k e.choice))
  | .count k =>
      some { s.goto t k with counter := Function.update s.counter t (s.counter t + 1) }
  | _ => none

/-- Where a thread starts. -/
def start : Kind → Pc Node
  | .process => .startTest
  | .swap => .loadFirst .swap

/-- A filled storage and the threads before their first access. -/
def init (first : Option Node) (next : Node → Option Node) (kind : Tid → Kind) :
    State Node Tid where
  first := first
  next := next
  lock _ := []
  pc t := start (kind t)
  counter _ := 0

/-- An access through `NULL`. -/
def Code.Null : Code Node → Prop
  | .load p _ | .store p _ _ | .tryLock p _ | .unlock p _ => p = none
  | .values p q _ => p = none ∨ q = none
  | .first _ | .rand _ | .count _ | .halt => False

end Os2Labs.Workers
