import Os2Labs.Conc.Fifo
import Os2Labs.Queue.Heap

/-!
# `queue_add` and `queue_get`

The code of the two operations, access by access, as it stands between taking
and releasing the lock in the variants that have one, and as the whole function
in `lab2/1/queue.c`; and the rules of verification for the accesses.
-/

namespace Os2Labs.Queue

open Conc

abbrev Call := Fifo.Call CInt

/-- The `int` returned, and the value stored through `val`, if any. -/
abbrev Reply := Fifo.Reply CInt

/-! ## The code -/

abbrev Code := Prog sig

/-- One access. -/
def access (o : Access) : Code o.Res := Prog.access (S := sig) o

def loadPtr (f : PtrField) : Code Ptr := access (.loadPtr f)
def storePtr (f : PtrField) (p : Ptr) : Code Unit := access (.storePtr f p)
def loadInt (f : IntField) : Code Int := access (.loadInt f)
def storeInt (f : IntField) (z : Int) : Code Unit := access (.storeInt f z)
def loadVal (p : Ptr) : Code CInt := access (.loadVal p)
def storeVal (p : Ptr) (v : CInt) : Code Unit := access (.storeVal p v)
def loadNext (p : Ptr) : Code Ptr := access (.loadNext p)
def storeNext (p : Ptr) (r : Ptr) : Code Unit := access (.storeNext p r)
def malloc : Code Ptr := access .malloc
def free (p : Ptr) : Code Unit := access (.free p)
def assert (b : Bool) : Code Unit := access (.assert b)

/-- `q->f++` and `q->f--`: a read and a write. -/
def addInt (f : IntField) (d : Int) : Code Unit := do
  let z ← loadInt f
  storeInt f (z + d)

/-- The linking of the fresh node: the first one, or after the last one. -/
def link (new : Ptr) : Code Unit := do
  let first ← loadPtr .first
  if first = none then
    storePtr .last new
    storePtr .first new
  else
    let last ← loadPtr .last
    storeNext last new
    let last ← loadPtr .last
    let next ← loadNext last
    storePtr .last next

/-- `queue_add`. -/
def queueAdd (val : CInt) : Code Reply := do
  addInt .addAttempts 1
  let count ← loadInt .count
  let maxCount ← loadInt .maxCount
  assert (count ≤ maxCount)
  let count ← loadInt .count
  let maxCount ← loadInt .maxCount
  if count = maxCount then
    return ⟨0, none⟩
  else
    let new ← malloc
    -- `if (!new) abort()`
    assert new.isSome
    storeVal new val
    storeNext new none
    link new
    addInt .count 1
    addInt .addCount 1
    return ⟨1, none⟩

/-- `queue_get`; the store through `val` is to a variable of the caller. -/
def queueGet : Code Reply := do
  addInt .getAttempts 1
  let count ← loadInt .count
  assert (0 ≤ count)
  let count ← loadInt .count
  if count = 0 then
    return ⟨0, none⟩
  else
    let tmp ← loadPtr .first
    let val ← loadVal tmp
    let first ← loadPtr .first
    let next ← loadNext first
    storePtr .first next
    free tmp
    addInt .count (-1)
    addInt .getCount 1
    return ⟨1, some val⟩

/-- The code of a call. -/
def code : Call → Code Reply
  | .add v => queueAdd v
  | .get => queueGet

/-- The queue `queue_init` leaves behind. -/
def queueInit (maxCount : Int) : Mem where
  q := ⟨none, none, 0, maxCount, 0, 0, 0, 0⟩
  heap _ := none

/-! ## Rules for the accesses -/

section Rules

variable {η α : Type} {w : η → (o : Access) → o.Res → η} {J : Mem × η → Prop}
  {Q : α → Mem × η → Prop} {m : Mem} {h : η}

/-- An access with one outcome. -/
theorem wp_access {o : Access} {k : o.Res → Code α} {r : o.Res} {m' : Mem}
    (defined : ¬ o.Faults m) (only : ∀ new, o.perform new m = some (r, m')) :
    (access o >>= k).wp (sem.annotate w) J Q (m, h) ↔
      J (m, h) ∧ (k r).wp (sem.annotate w) J Q (m', w h o r) := by
  have exec : ∀ new, sem.exec o new m = some (r, m') :=
    fun new => (sem_exec defined new).trans (only new)
  change Prog.wp _ _ _ (Prog.op (S := sig) o k) _ ↔ _
  rw [Prog.wp_annotate_op]
  constructor
  · intro known
    rcases known with ⟨stays, -, -, rest⟩
    exact ⟨stays, rest (Classical.arbitrary Fresh) r m' (exec _)⟩
  · intro known
    rcases known with ⟨stays, rest⟩
    refine ⟨stays, defined, ⟨Classical.arbitrary Fresh, r, m', exec _⟩, ?_⟩
    intro new r₁ m₁ moved
    cases (exec new).symm.trans moved
    exact rest

@[simp] theorem wp_loadPtr {f : PtrField} {k : Ptr → Code α} :
    (loadPtr f >>= k).wp (sem.annotate w) J Q (m, h) ↔
      J (m, h) ∧ (k (m.q.ptr f)).wp (sem.annotate w) J Q (m, w h (.loadPtr f) (m.q.ptr f)) :=
  wp_access (o := .loadPtr f) id fun _ => rfl

@[simp] theorem wp_storePtr {f : PtrField} {p : Ptr} {k : Unit → Code α} :
    (storePtr f p >>= k).wp (sem.annotate w) J Q (m, h) ↔
      J (m, h) ∧ (k ()).wp (sem.annotate w) J Q
        ({ m with q := m.q.setPtr f p }, w h (.storePtr f p) ()) :=
  wp_access (o := .storePtr f p) id fun _ => rfl

@[simp] theorem wp_loadInt {f : IntField} {k : Int → Code α} :
    (loadInt f >>= k).wp (sem.annotate w) J Q (m, h) ↔
      J (m, h) ∧ (k (m.q.int f)).wp (sem.annotate w) J Q (m, w h (.loadInt f) (m.q.int f)) :=
  wp_access (o := .loadInt f) id fun _ => rfl

theorem wp_storeInt {f : IntField} {z : Int} {k : Unit → Code α} (stat : f ≠ .count) :
    (storeInt f z >>= k).wp (sem.annotate w) J Q (m, h) ↔
      J (m, h) ∧ (k ()).wp (sem.annotate w) J Q
        ({ m with q := m.q.setInt f z }, w h (.storeInt f z) ()) :=
  wp_access (o := .storeInt f z) (fun fault => stat fault.1) fun _ => rfl

/-- The count must stay an `int`. -/
theorem wp_storeCount {z : Int} {k : Unit → Code α} (fits : intMin ≤ z ∧ z ≤ intMax) :
    (storeInt .count z >>= k).wp (sem.annotate w) J Q (m, h) ↔
      J (m, h) ∧ (k ()).wp (sem.annotate w) J Q
        ({ m with q := m.q.setInt .count z }, w h (.storeInt .count z) ()) :=
  wp_access (o := .storeInt .count z) (fun fault => fault.2 fits) fun _ => rfl

theorem wp_loadVal {p : Ptr} {n : QNodeT} {k : CInt → Code α} (live : m.node p = some n) :
    (loadVal p >>= k).wp (sem.annotate w) J Q (m, h) ↔
      J (m, h) ∧ (k n.val).wp (sem.annotate w) J Q (m, w h (.loadVal p) n.val) :=
  wp_access (o := .loadVal p) (by simp [Access.Faults, live])
    fun _ => by simp [Access.perform, live]

theorem wp_storeVal {p : Ptr} {n : QNodeT} {v : CInt} {k : Unit → Code α}
    (live : m.node p = some n) :
    (storeVal p v >>= k).wp (sem.annotate w) J Q (m, h) ↔
      J (m, h) ∧ (k ()).wp (sem.annotate w) J Q
        (m.setNode p (some { n with val := v }), w h (.storeVal p v) ()) :=
  wp_access (o := .storeVal p v) (by simp [Access.Faults, live])
    fun _ => by simp [Access.perform, live]

theorem wp_loadNext {p : Ptr} {n : QNodeT} {k : Ptr → Code α} (live : m.node p = some n) :
    (loadNext p >>= k).wp (sem.annotate w) J Q (m, h) ↔
      J (m, h) ∧ (k n.next).wp (sem.annotate w) J Q (m, w h (.loadNext p) n.next) :=
  wp_access (o := .loadNext p) (by simp [Access.Faults, live])
    fun _ => by simp [Access.perform, live]

theorem wp_storeNext {p : Ptr} {n : QNodeT} {r : Ptr} {k : Unit → Code α}
    (live : m.node p = some n) :
    (storeNext p r >>= k).wp (sem.annotate w) J Q (m, h) ↔
      J (m, h) ∧ (k ()).wp (sem.annotate w) J Q
        (m.setNode p (some { n with next := r }), w h (.storeNext p r) ()) :=
  wp_access (o := .storeNext p r) (by simp [Access.Faults, live])
    fun _ => by simp [Access.perform, live]

theorem wp_free {p : Ptr} {n : QNodeT} {k : Unit → Code α} (live : m.node p = some n) :
    (free p >>= k).wp (sem.annotate w) J Q (m, h) ↔
      J (m, h) ∧ (k ()).wp (sem.annotate w) J Q (m.setNode p none, w h (.free p) ()) :=
  wp_access (o := .free p) (by simp [Access.Faults, live]) fun _ => rfl

theorem wp_assert {b : Bool} {k : Unit → Code α} (holds : b = true) :
    (assert b >>= k).wp (sem.annotate w) J Q (m, h) ↔
      J (m, h) ∧ (k ()).wp (sem.annotate w) J Q (m, w h (.assert b) ()) :=
  wp_access (o := .assert b) (by simp [Access.Faults, holds]) fun _ => rfl

/-- `malloc` returns any address that is not in use. -/
theorem wp_malloc {k : Ptr → Code α} :
    (malloc >>= k).wp (sem.annotate w) J Q (m, h) ↔
      J (m, h) ∧ (∃ a, m.heap a = none) ∧
        ∀ new : Fresh, m.heap new.addr = none → (k (some new.addr)).wp (sem.annotate w) J Q
          (m.setNode (some new.addr) (some new.contents), w h .malloc (some new.addr)) := by
  have exec : ∀ new : Fresh, sem.exec .malloc new m = if m.heap new.addr = none then
      some (some new.addr, m.setNode (some new.addr) (some new.contents)) else none :=
    fun new => sem_exec (o := .malloc) id new
  change Prog.wp _ _ _ (Prog.op (S := sig) .malloc k) _ ↔ _
  rw [Prog.wp_annotate_op]
  constructor
  · intro known
    rcases known with ⟨stays, -, ⟨new, r, m', moved⟩, rest⟩
    refine ⟨stays, ⟨new.addr, ?_⟩, fun new unused => rest new _ _ ?_⟩
    · rw [exec] at moved
      by_contra used
      rw [if_neg used] at moved
      cases moved
    · rw [exec, if_pos unused]
  · intro known
    rcases known with ⟨stays, ⟨a, unused⟩, rest⟩
    refine ⟨stays, id, ⟨⟨a, ⟨0, none⟩⟩, _, _, (exec _).trans (if_pos unused)⟩, ?_⟩
    intro new r m' moved
    rw [exec] at moved
    split at moved
    · next unused =>
      cases moved
      exact rest new unused
    · cases moved

end Rules

end Os2Labs.Queue
