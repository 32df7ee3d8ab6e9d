import Os2Labs.Conc.Client
import Os2Labs.Queue.Object

/-!
# The reader and the writer of `queue-threads.c`

The two threads of the test programs as clients of the queue: the writer adds
`0, 1, 2, ...`, retrying an add that fails, and the reader checks that it gets
them in that order.  Both count with wrapping `int` arithmetic.

`readerWriter_in_order` is about any log whose replies are those of the FIFO, so
it serves every variant of the queue whose calls are atomic.
-/

namespace Os2Labs.Queue

open Conc

inductive Role where
  | reader
  | writer
deriving DecidableEq

/-- The local variable `i` of the writer, or `expected` of the reader together
with the values it got and how often it took its `ERROR` branch. -/
inductive Local where
  | reader (expected : CInt) (obtained : List CInt) (errors : Nat)
  | writer (i : CInt)
deriving DecidableEq

/-- The bodies of the two loops around the call. -/
def readerWriter : Client Local Call Reply where
  calls
    | .reader .., .get => true
    | .writer i, .add v => v = i
    | _, _ => false
  returns
    | .reader expected obtained errors, _, r =>
        if r.ret = 0 then .reader expected obtained errors
        else
          let val := r.stored.getD (-1)
          .reader (val + 1) (obtained ++ [val])
            (if expected ≠ val then errors + 1 else errors)
    | .writer i, _, r => if r.ret = 0 then .writer i else .writer (i + 1)

def startLocals : Role → Local
  | .reader => .reader 0 [] 0
  | .writer => .writer 0

/-- `0, 1, ..., n - 1` as wrapping `int`s. -/
def countUp (n : Nat) : List CInt := (List.range n).map (BitVec.ofNat 32)

theorem countUp_succ (n : Nat) : countUp (n + 1) = countUp n ++ [BitVec.ofNat 32 n] := by
  simp [countUp, List.range_succ]

theorem length_countUp (n : Nat) : (countUp n).length = n := by simp [countUp]

theorem getElem?_countUp {n i : Nat} (lt : i < n) :
    (countUp n)[i]? = some (BitVec.ofNat 32 i) := by
  simp [countUp, lt]

/-- What comes first in a count up is itself a count up. -/
theorem countUp_prefix {l rest : List CInt} {n : Nat} (split : countUp n = l ++ rest) :
    l = countUp l.length := by
  have bound : l.length ≤ n := by
    have lengths := congrArg List.length split
    simp only [length_countUp, List.length_append] at lengths
    omega
  refine List.ext_getElem? fun i => ?_
  by_cases lt : i < l.length
  · rw [getElem?_countUp lt, ← getElem?_countUp (n := n) (by omega), split,
      List.getElem?_append_left lt]
  · rw [List.getElem?_eq_none (by omega), List.getElem?_eq_none (by rw [length_countUp]; omega)]

/-- What follows is the next value. -/
theorem countUp_next {l rest : List CInt} {v : CInt} {n : Nat}
    (split : countUp n = l ++ v :: rest) :
    v = BitVec.ofNat 32 l.length := by
  have bound : l.length < n := by
    have lengths := congrArg List.length split
    simp only [length_countUp, List.length_append, List.length_cons] at lengths
    omega
  have here := getElem?_countUp bound
  rw [split, List.getElem?_append_right (Nat.le_refl _)] at here
  simpa using here

/-- The private states of the two threads after a log whose elements are `items`. -/
structure InOrder (log : List (Entry Role)) (k : Role → Local) : Prop where
  writer : k .writer = .writer (BitVec.ofNat 32 (Fifo.inserted log).length)
  inserted : Fifo.inserted log = countUp (Fifo.inserted log).length
  reader : k .reader = .reader (BitVec.ofNat 32 (Fifo.delivered log).length) (Fifo.delivered log) 0

/-- An `add` by the writer. -/
theorem InOrder.add {cap : Nat} {log : List (Entry Role)} {k : Role → Local} {items : List CInt}
    {v : CInt} (before : InOrder log k) (allowed : readerWriter.calls (k .writer) (.add v) = true) :
    InOrder (log ++ [⟨.writer, .add v, (Fifo.step cap items (.add v)).1⟩])
      (Function.update k .writer
        (readerWriter.returns (k .writer) (.add v) (Fifo.step cap items (.add v)).1)) := by
  rw [before.writer] at allowed ⊢
  have value : v = BitVec.ofNat 32 (Fifo.inserted log).length := by
    simpa [readerWriter] using allowed
  by_cases full : items.length = cap
  · rw [Fifo.step_add_full full]
    refine ⟨?_, ?_, ?_⟩
    · simp [readerWriter]
    · rw [Fifo.inserted_refused]
      exact before.inserted
    · simp [before.reader]
  · rw [Fifo.step_add_room full]
    refine ⟨?_, ?_, ?_⟩
    · simp [readerWriter, BitVec.ofNat_add]
    · rw [Fifo.inserted_added, List.length_append, List.length_singleton, countUp_succ,
        ← before.inserted, value]
    · simp [before.reader]

/-- A `get` by the reader. -/
theorem InOrder.get {cap : Nat} {log : List (Entry Role)} {k : Role → Local} {items : List CInt}
    (before : InOrder log k) (conserved : Fifo.inserted log = Fifo.delivered log ++ items) :
    InOrder (log ++ [⟨.reader, .get, (Fifo.step cap items .get).1⟩])
      (Function.update k .reader
        (readerWriter.returns (k .reader) .get (Fifo.step cap items .get).1)) := by
  rw [before.reader]
  cases items with
  | nil =>
    refine ⟨?_, ?_, ?_⟩
    · simp [before.writer]
    · rw [Fifo.inserted_get]
      exact before.inserted
    · simp [readerWriter]
  | cons v items =>
    -- the element delivered is the next one of the count
    have next : v = BitVec.ofNat 32 (Fifo.delivered log).length :=
      countUp_next (before.inserted.symm.trans conserved)
    refine ⟨?_, ?_, ?_⟩
    · simp [before.writer]
    · rw [Fifo.inserted_get]
      exact before.inserted
    · simp [readerWriter, ← next, BitVec.ofNat_add]

/-- **The reader sees the writer's count.**  Whatever the order of the calls, the
values obtained are `0, 1, 2, ...` and the `ERROR` branch is never taken. -/
theorem readerWriter_in_order {cap : Nat} {log : List (Entry Role)} {k : Role → Local}
    {items : List CInt} (follows : Follows readerWriter startLocals log k)
    (legal : Legal (Fifo.step cap) [] log items) : InOrder log k := by
  induction follows generalizing items with
  | nil => exact ⟨rfl, rfl, rfl⟩
  | @snoc log k before t c r allowed ih =>
    rcases legal_append.mp legal with ⟨items₀, legal₀, reply, -⟩
    dsimp only at reply
    subst reply
    have known := ih legal₀
    have conserved := Fifo.conservation legal₀
    rw [List.nil_append] at conserved
    cases t with
    | reader =>
      rw [known.reader] at allowed
      cases c with
      | add v => simp [readerWriter] at allowed
      | get => exact known.get conserved
    | writer =>
      cases c with
      | add v => exact known.add allowed
      | get =>
        rw [known.writer] at allowed
        simp [readerWriter] at allowed

/-- The reader has obtained `0, 1, ..., n - 1` and expects `n`. -/
theorem InOrder.obtained {cap : Nat} {log : List (Entry Role)} {k : Role → Local}
    {items : List CInt} (inOrder : InOrder log k) (legal : Legal (Fifo.step cap) [] log items) :
    ∃ n, k .reader = .reader (BitVec.ofNat 32 n) (countUp n) 0 := by
  have conserved := Fifo.conservation legal
  rw [List.nil_append, inOrder.inserted] at conserved
  refine ⟨(Fifo.delivered log).length, ?_⟩
  rw [← countUp_prefix conserved]
  exact inOrder.reader

end Os2Labs.Queue
