import Os2Labs.Queue.OrderlyAdd
import Os2Labs.Queue.OrderlyGet

/-!
# Gaps in what the reader sees

In an orderly run the reader gets `0, 1, 2, ...` and no access faults: `never_a_gap`.  In another
run the reader dereferences `NULL`: `decrement_lost`.
-/

namespace Os2Labs.Queue.Unlocked

open Conc

variable {max : Int} {l : List Addr} {d i n : Nat} {w : Option AddPoint} {r : Option GetPoint}

/-- What holds in every state of an orderly run. -/
structure Kept (max : Int) (s : State Local Role) (l : List Addr) (d i n : Nat)
    (w : Option AddPoint) (r : Option GetPoint) : Prop where
  writer : s.pc .writer =
    w.map fun p => (.add (BitVec.ofNat 32 i), (addPoints (BitVec.ofNat 32 i)).code p)
  reader : s.pc .reader = r.map fun p => (.get, getPoints.code p)
  adds : s.locals .writer = .writer (BitVec.ofNat 32 i)
  gets : s.locals .reader = .reader (BitVec.ofNat 32 n) (countUp n) 0
  sound : Sound max s.mem l d i n w r

section Kept

variable {s s' : State Local Role} (kept : Kept max s l d i n w r)
include kept

theorem Kept.nextAccess_writer :
    nextAccess s .writer = w.bind fun p => (p.head (BitVec.ofNat 32 i)).access := by
  unfold nextAccess
  rw [kept.writer]
  cases w with
  | none => rfl
  | some p =>
    rw [Option.map_some, (addPoints _).unfolds p]
    show _ = (p.head _).access
    cases head : p.head (BitVec.ofNat 32 i) <;> simp only [addPoints, head] <;> rfl

theorem Kept.nextAccess_reader : nextAccess s .reader = r.bind fun p => p.head.access := by
  unfold nextAccess
  rw [kept.reader]
  cases r with
  | none => rfl
  | some p =>
    rw [Option.map_some, getPoints.unfolds p]
    show _ = p.head.access
    cases head : p.head <;> simp only [getPoints, head] <;> rfl

/-- The writer is not about to append when the reader takes the last node. -/
theorem Kept.ending {q : Ptr} {new : Fresh} (orderly : Orderly s (.access .reader new))
    (next : nextAccess s .reader = some (.loadNext q))
    (last : (s.mem.node q).bind QNodeT.next = none) :
    w.elim false AddPoint.appending = false := by
  simp only [Orderly, next] at orderly
  have quiet := orderly last
  rw [kept.nextAccess_writer] at quiet
  have facts := kept.sound.add
  cases w with
  | none => rfl
  | some p =>
    cases p <;> first | rfl | skip
    case loadLast new => cases quiet
    case link new last =>
      obtain ⟨⟨a, c, rfl, -⟩, -⟩ := facts
      cases quiet

/-- The writer is not about to read through `last` when the reader frees that node. -/
theorem Kept.apart {q : Ptr} {new : Fresh} (orderly : Orderly s (.access .reader new))
    (next : nextAccess s .reader = some (.free q)) (last : q = s.mem.q.last) :
    w.elim false AddPoint.readsLast = false := by
  simp only [Orderly, next] at orderly
  have quiet := orderly last
  rw [kept.nextAccess_writer] at quiet
  cases w with
  | none => rfl
  | some p => cases p <;> first | rfl | cases quiet

/-- The reader is not about to empty the queue when the writer finds a first node. -/
theorem Kept.closing {new : Fresh} (orderly : Orderly s (.access .writer new))
    (next : nextAccess s .writer = some (.loadPtr .first)) :
    ∀ tmp val, r ≠ some (.storeFirst tmp val none) := by
  intro tmp val emptying
  simp only [Orderly, next] at orderly
  rw [kept.nextAccess_reader, emptying] at orderly
  cases orderly

/-- The count that the writer stores is not too high. -/
theorem Kept.true_count {z : Int} {new : Fresh} (orderly : Orderly s (.access .writer new))
    (next : nextAccess s .writer = some (.storeInt .count z))
    (settled : r.elim false GetPoint.storing = false) :
    z ≤ l.length + r.elim 0 GetPoint.uncounted := by
  have quiet : (nextAccess s .reader).any discounts = false := by
    rw [kept.nextAccess_reader]
    cases r with
    | none => rfl
    | some p => cases p <;> first | rfl | cases settled
  have counting : w.elim 0 AddPoint.untallied = 1 := by
    rw [kept.nextAccess_writer] at next
    cases w with
    | none => cases next
    | some p => cases p <;> first | rfl | cases next
  have lag : r.elim 0 GetPoint.untallied =
      r.elim 0 GetPoint.uncounted + if (nextAccess s .reader).any tallies then 1 else 0 := by
    rw [kept.nextAccess_reader]
    cases r with
    | none => rfl
    | some p => cases p <;> rfl
  have adds := kept.sound.adds
  have gets := kept.sound.gets
  simp only [Orderly, next] at orderly
  have small := orderly quiet
  rw [counting] at adds
  rw [lag] at gets
  by_cases tally : (nextAccess s .reader).any tallies = true
  · rw [if_pos tally] at small gets
    omega
  · rw [if_neg tally] at small gets
    omega

end Kept

section Steps

variable {s s' : State Local Role} (kept : Kept max s l d i n w r)
include kept

/-- The point of the writer in a call. -/
theorem Kept.writer_at {c : Call} {q : Code Reply} (running : s.pc .writer = some (c, q)) :
    ∃ p, w = some p ∧ c = .add (BitVec.ofNat 32 i) ∧
      (addPoints (BitVec.ofNat 32 i)).code p = q := by
  rw [kept.writer] at running
  obtain ⟨p, rfl, here⟩ := Option.map_eq_some_iff.mp running
  exact ⟨p, rfl, (congrArg Prod.fst here).symm, congrArg Prod.snd here⟩

/-- The point of the reader in a call. -/
theorem Kept.reader_at {c : Call} {q : Code Reply} (running : s.pc .reader = some (c, q)) :
    ∃ p, r = some p ∧ c = .get ∧ getPoints.code p = q := by
  rw [kept.reader] at running
  obtain ⟨p, rfl, here⟩ := Option.map_eq_some_iff.mp running
  exact ⟨p, rfl, (congrArg Prod.fst here).symm, congrArg Prod.snd here⟩

/-! ## The steps of a call -/

theorem Kept.call_writer {c : Call} (out : s.pc .writer = none)
    (allowed : readerWriter.calls (s.locals .writer) c = true) :
    Kept max { s with pc := Function.update s.pc .writer (some (c, code c)) } l d i n
      (some .loadAttempts) r := by
  obtain rfl : w = none := Option.map_eq_none_iff.mp (kept.writer.symm.trans out)
  rw [kept.adds] at allowed
  cases c with
  | get => cases allowed
  | add v =>
    obtain rfl : v = BitVec.ofNat 32 i := of_decide_eq_true allowed
    exact { kept with
      writer := Function.update_self Role.writer _ s.pc
      reader := kept.reader
      sound := { kept.sound with add := trivial } }

theorem Kept.call_reader {c : Call} (out : s.pc .reader = none)
    (allowed : readerWriter.calls (s.locals .reader) c = true) :
    Kept max { s with pc := Function.update s.pc .reader (some (c, code c)) } l d i n w
      (some .loadAttempts) := by
  obtain rfl : r = none := Option.map_eq_none_iff.mp (kept.reader.symm.trans out)
  rw [kept.gets] at allowed
  cases c with
  | add v => cases allowed
  | get =>
    exact { kept with
      writer := kept.writer
      reader := Function.update_self Role.reader _ s.pc
      sound := { kept.sound with get := trivial } }

theorem Kept.access_writer {c : Call} {o : Access} {k : o.Res → Code Reply} {new : Fresh}
    {res : o.Res} {m : Mem} (orderly : Orderly s (.access .writer new))
    (running : s.pc .writer = some (c, .op o k)) (done : sem.exec o new s.mem = some (res, m)) :
    ∃ l w, Kept max { s with
      mem := m
      pc := Function.update s.pc .writer (some (c, k res)) } l d i n w r := by
  have next : nextAccess s .writer = some o := by rw [nextAccess, running]
  obtain ⟨p, rfl, rfl, here⟩ := kept.writer_at running
  obtain ⟨k', head, rfl⟩ := (addPoints _).of_op here
  rcases kept.sound.add_access head done (fun same => kept.closing orderly (same ▸ next))
    (fun z same => kept.true_count orderly (same ▸ next)) with ⟨l', sound⟩
  exact ⟨l', some (k' res), { kept with
    writer := Function.update_self Role.writer _ s.pc
    reader := kept.reader
    sound := sound }⟩

theorem Kept.access_reader {c : Call} {o : Access} {k : o.Res → Code Reply} {new : Fresh}
    {res : o.Res} {m : Mem} (orderly : Orderly s (.access .reader new))
    (running : s.pc .reader = some (c, .op o k)) (done : sem.exec o new s.mem = some (res, m)) :
    ∃ l d r, Kept max { s with
      mem := m
      pc := Function.update s.pc .reader (some (c, k res)) } l d i n w r := by
  have next : nextAccess s .reader = some o := by rw [nextAccess, running]
  obtain ⟨p, rfl, rfl, here⟩ := kept.reader_at running
  obtain ⟨k', head, rfl⟩ := getPoints.of_op here
  rcases kept.sound.get_access head done (fun q same => kept.ending orderly (same ▸ next))
    (fun q same => kept.apart orderly (same ▸ next)) with ⟨l', d', sound⟩
  exact ⟨l', d', some (k' res), { kept with
    writer := kept.writer
    reader := Function.update_self Role.reader _ s.pc
    sound := sound }⟩

theorem Kept.ret_writer {c : Call} {reply : Reply} (running : s.pc .writer = some (c, .ret reply)) :
    ∃ i, Kept max { s with
      pc := Function.update s.pc .writer none
      locals := Function.update s.locals .writer
        (readerWriter.returns (s.locals .writer) c reply)
      log := s.log ++ [⟨.writer, c, reply⟩] } l d i n none r := by
  obtain ⟨p, rfl, rfl, here⟩ := kept.writer_at running
  have head := (addPoints _).of_ret here
  have sound := kept.sound
  cases p <;> cases head
  case full =>
    refine ⟨i, { kept with
      writer := Function.update_self Role.writer _ s.pc
      reader := kept.reader
      adds := ?_
      sound := { sound with add := trivial } }⟩
    refine (Function.update_self Role.writer _ s.locals).trans ?_
    rw [kept.adds]
    rfl
  case added =>
    refine ⟨i + 1, { kept with
      writer := Function.update_self Role.writer _ s.pc
      reader := kept.reader
      adds := ?_
      sound := { sound with add := trivial } }⟩
    refine (Function.update_self Role.writer _ s.locals).trans ?_
    rw [kept.adds]
    exact congrArg Local.writer (BitVec.ofNat_add i 1).symm

theorem Kept.ret_reader {c : Call} {reply : Reply} (running : s.pc .reader = some (c, .ret reply)) :
    ∃ n, Kept max { s with
      pc := Function.update s.pc .reader none
      locals := Function.update s.locals .reader
        (readerWriter.returns (s.locals .reader) c reply)
      log := s.log ++ [⟨.reader, c, reply⟩] } l d i n w none := by
  obtain ⟨p, rfl, rfl, here⟩ := kept.reader_at running
  have head := getPoints.of_ret here
  have sound := kept.sound
  cases p <;> cases head
  case empty =>
    refine ⟨n, { kept with
      writer := kept.writer
      reader := Function.update_self Role.reader _ s.pc
      gets := ?_
      sound := { sound with get := trivial } }⟩
    refine (Function.update_self Role.reader _ s.locals).trans ?_
    rw [kept.gets]
    rfl
  case got val =>
    obtain rfl : val = BitVec.ofNat 32 n := sound.get
    refine ⟨n + 1, { kept with
      writer := kept.writer
      reader := Function.update_self Role.reader _ s.pc
      gets := ?_
      sound := { sound with get := trivial } }⟩
    refine (Function.update_self Role.reader _ s.locals).trans ?_
    rw [kept.gets, countUp_succ]
    simp [readerWriter, BitVec.ofNat_add]

/-- No access that a thread is about to make faults. -/
theorem Kept.not_faulty (isInt : max ≤ intMax) : ¬ Faulty s := by
  intro faulty
  obtain ⟨t, c, o, k, running, faults⟩ := faulty
  cases t with
  | reader =>
    obtain ⟨p, rfl, -, here⟩ := kept.reader_at running
    obtain ⟨k', head, -⟩ := getPoints.of_op here
    exact kept.sound.get_defined isInt head faults
  | writer =>
    obtain ⟨p, rfl, -, here⟩ := kept.writer_at running
    obtain ⟨k', head, -⟩ := (addPoints _).of_op here
    exact kept.sound.add_defined isInt head faults

theorem Kept.step {e : Event Role} (orderly : Orderly s e)
    (moved : step readerWriter s e = some s') :
    ∃ l d i n w r, Kept max s' l d i n w r := by
  rcases step_cases moved with ⟨t, c, rfl, out, allowed, rfl⟩ |
    ⟨t, c, o, k, new, res, m, rfl, running, done, rfl⟩ | ⟨t, c, reply, rfl, running, rfl⟩
  · cases t with
    | reader => exact ⟨l, d, i, n, w, _, kept.call_reader out allowed⟩
    | writer => exact ⟨l, d, i, n, _, r, kept.call_writer out allowed⟩
  · cases t with
    | reader =>
      obtain ⟨l', d', r', after⟩ := kept.access_reader orderly running done
      exact ⟨l', d', i, n, w, r', after⟩
    | writer =>
      obtain ⟨l', w', after⟩ := kept.access_writer orderly running done
      exact ⟨l', d, i, n, w', r, after⟩
  · cases t with
    | reader =>
      obtain ⟨n', after⟩ := kept.ret_reader running
      exact ⟨l, d, i, n', w, none, after⟩
    | writer =>
      obtain ⟨i', after⟩ := kept.ret_writer running
      exact ⟨l, d, i', n, none, r, after⟩

end Steps

theorem kept_init {maxCount : Int} (nonneg : 0 ≤ maxCount) :
    Kept maxCount (init maxCount startLocals) [] 0 0 0 none none where
  writer := rfl
  reader := rfl
  adds := rfl
  gets := rfl
  sound := {
    linked := rfl
    values := nofun
    maxCount := rfl
    nonneg := Int.le_refl 0
    bound := nonneg
    count := fun _ => Int.le_refl 0
    last := fun some_node => (some_node rfl).elim
    room := nofun
    added := rfl
    taken := rfl
    adds := rfl
    gets := rfl
    add := trivial
    get := trivial }

/-! ## Orderly runs -/

/-- **The reader sees no gap in an orderly run.**  It has got `0, 1, ..., n - 1`, has not taken its
`ERROR` branch, and neither thread is about to fault. -/
theorem never_a_gap {maxCount : Int} (positive : 1 ≤ maxCount) (isInt : maxCount ≤ intMax)
    {s : State Local Role}
    (reached : Reachable (restrict Orderly (step readerWriter)) (init maxCount startLocals) s) :
    ¬ Faulty s ∧ ∃ n, s.locals .reader = .reader (BitVec.ofNat 32 n) (countUp n) 0 := by
  have kept : ∃ l d i n w r, Kept maxCount s l d i n w r := by
    refine reached.invariant (P := fun s => ∃ l d i n w r, Kept maxCount s l d i n w r)
      ⟨[], 0, 0, 0, none, none, kept_init (by omega)⟩ ?_
    intro s e s' before moved
    obtain ⟨l, d, i, n, w, r, kept⟩ := before
    obtain ⟨orderly, moved⟩ := restrict_eq_some.mp moved
    exact kept.step orderly moved
  obtain ⟨l, d, i, n, w, r, kept⟩ := kept
  exact ⟨kept.not_faulty isInt, n, kept.gets⟩

/-- Accesses of one thread, whose `malloc` returns `addr`. -/
def accesses (t : Role) (addr : Addr) (n : Nat) : List (Event Role) :=
  List.replicate n (.access t ⟨addr, ⟨0, none⟩⟩)

/-- A call of one thread from its start to its end. -/
def whole (t : Role) (c : Call) (addr : Addr) (n : Nat) : List (Event Role) :=
  .call t c :: accesses t addr n ++ [.ret t]

/-- The writer appends a second node while the reader is about to discount the first one. -/
theorem never_a_gap_overlap : ∃ s : State Local Role,
    s.mem.q.count = 0 ∧ s.mem.q.first = some 1 ∧ ¬ Faulty s ∧
      ∃ n, s.locals .reader = .reader (BitVec.ofNat 32 n) (countUp n) 0 := by
  have reached : Reachable (restrict Orderly (step readerWriter)) (init 2 startLocals) _ :=
    ⟨whole .writer (.add 0) 0 18 ++ .call .reader .get :: accesses .reader 0 12 ++
      whole .writer (.add 1) 1 18 ++ accesses .reader 0 3 ++ [.ret .reader], rfl⟩
  exact ⟨_, by decide, by decide, never_a_gap (by decide) (by decide) reached⟩

/-! ## A lost decrement -/

/-- The reader stores its decrement of the count while the writer is about to store an increment of
the old count. -/
def lostDecrement : List (Event Role) :=
  whole .writer (.add 0) 0 18 ++
    .call .reader .get :: accesses .reader 0 12 ++
    .call .writer (.add 1) :: accesses .writer 1 15 ++
    accesses .reader 0 3 ++ .ret .reader ::
    accesses .writer 1 3 ++ .ret .writer ::
    whole .reader .get 0 15 ++ .call .reader .get :: accesses .reader 0 6

/-- Then the count says that there is another element, and the reader follows `first`, which is
`NULL`. -/
theorem decrement_lost : ∃ s : State Local Role,
    Reachable (step readerWriter) (init 2 startLocals) s ∧ Faulty s ∧
      nextAccess s .reader = some (.loadVal none) :=
  ⟨_, ⟨lostDecrement, rfl⟩, ⟨.reader, .get, .loadVal none, _, rfl, rfl⟩, rfl⟩

end Os2Labs.Queue.Unlocked
