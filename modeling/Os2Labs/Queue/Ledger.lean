import Os2Labs.Queue.Heap

/-!
# The ledger of the nodes

A `Ledger` is kept beside a run, not by the program: one entry for every `malloc`, in
order, with the code that allocated the node and everything that ever called `free`
on it.  Addresses are used again, so a `free` is entered at the youngest node with
its address; a `free` of `NULL`, or of an address never allocated, is a stray.

`release_append` says where a `free` is entered when the nodes allocated later are
elsewhere.
-/

namespace Os2Labs.Queue

/-- Which code performs an access: the call with this number, or `queue_destroy`. -/
inductive Site where
  | call (i : Nat)
  | destroy
deriving DecidableEq

/-- One node ever allocated. -/
structure Allocation where
  addr : Addr
  born : Site
  freed : List Site
deriving DecidableEq

structure Ledger where
  nodes : List Allocation
  strays : Nat
deriving DecidableEq

def Allocation.free (who : Site) (n : Allocation) : Allocation :=
  { n with freed := n.freed ++ [who] }

/-- Enter a `free` at the youngest node at an address. -/
def release (who : Site) (a : Addr) : List Allocation → List Allocation
  | [] => []
  | n :: l =>
      if a ∈ l.map Allocation.addr then n :: release who a l
      else if n.addr = a then n.free who :: l
      else n :: l

namespace Ledger

/-- Nothing was allocated yet. -/
def empty : Ledger := ⟨[], 0⟩

def alloc (who : Site) (a : Addr) (g : Ledger) : Ledger :=
  { g with nodes := g.nodes ++ [⟨a, who, []⟩] }

def free (who : Site) (p : Ptr) (g : Ledger) : Ledger :=
  match p with
  | some a =>
      if a ∈ g.nodes.map Allocation.addr then { g with nodes := release who a g.nodes }
      else { g with strays := g.strays + 1 }
  | none => { g with strays := g.strays + 1 }

/-- Enter an access and its answer. -/
def note (who : Site) (g : Ledger) : (o : Access) → o.Res → Ledger
  | .malloc, some a => g.alloc who a
  | .free p, _ => g.free who p
  | _, _ => g

end Ledger

theorem release_append {who : Site} {n : Allocation} {before after : List Allocation}
    (youngest : n.addr ∉ after.map Allocation.addr) :
    release who n.addr (before ++ n :: after) = before ++ n.free who :: after := by
  induction before with
  | nil =>
    unfold release
    simp only [List.nil_append, youngest, ↓reduceIte]
  | cons x before ih =>
    have later : n.addr ∈ (before ++ n :: after).map Allocation.addr := by simp
    rw [List.cons_append, release, if_pos later, ih]
    rfl

/-- A `free` of the oldest of the nodes not freed yet. -/
theorem Ledger.free_head {who : Site} {n : Allocation} {closed opened : List Allocation}
    {strays : Nat} (distinct : ((n :: opened).map Allocation.addr).Nodup) :
    Ledger.free who (some n.addr) ⟨closed ++ n :: opened, strays⟩ =
      ⟨closed ++ n.free who :: opened, strays⟩ := by
  have known : n.addr ∈ (closed ++ n :: opened).map Allocation.addr := by simp
  unfold Ledger.free
  simp only [known, ↓reduceIte]
  rw [List.map_cons, List.nodup_cons] at distinct
  rw [release_append distinct.1]

end Os2Labs.Queue
