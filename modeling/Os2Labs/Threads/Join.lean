import Os2Labs.Conc.Handover
import Os2Labs.Threads.Mythread

/-!
# The handshake of `mythread_join`

The four writes in their order: the record is complete before `clone`, `retval` is there
before `finished`, a joiner has its copy before it sets `joined`, and `thread_startup`
returns after it has seen `joined`.  `Facts` says so point by point; with it the parties
refine `Conc.Handover`.
-/

namespace Os2Labs.Threads

open Conc

variable {W χ J : Type*}

/-! ## What is known at each program point -/

/-- Whether the thread may have been started. -/
def CreatePc.cloned : CreatePc → Bool
  | .waitpid | .storeMytid | .created => true
  | _ => false

/-- What the record holds while `mythread_create` fills it. -/
def CreateFacts (args : CreateArgs) (t : MythreadStruct) : CreatePc → Prop
  | .createStack | .memset | .storeArg | .failed => True
  | .storeStartRoutine => t.arg = args.arg
  | .storeRetval | .storeFinished => t.arg = args.arg ∧ t.startRoutine = args.startRoutine
  | .storeJoined => t.arg = args.arg ∧ t.startRoutine = args.startRoutine ∧ t.finished = 0
  | .storeJoinable =>
      t.arg = args.arg ∧ t.startRoutine = args.startRoutine ∧ t.finished = 0 ∧ t.joined = 0
  | .clone =>
      t.arg = args.arg ∧ t.startRoutine = args.startRoutine ∧ t.finished = 0 ∧ t.joined = 0 ∧
        t.joinable = args.isJoinable
  | .waitpid | .storeMytid | .created =>
      t.arg = args.arg ∧ t.startRoutine = args.startRoutine ∧ t.joinable = args.isJoinable

/-- What `thread_startup` knows. -/
def StartupFacts (P : Routines W χ) (args : CreateArgs) (t : MythreadStruct) : StartupPc W → Prop
  | .notStarted | .loadStartRoutine => True
  | .loadArg f => f = args.startRoutine
  | .running w => P.Leads (P.call args.startRoutine args.arg) w
  | .storeRetval v => P.Returns (P.call args.startRoutine args.arg) v
  | .storeFinished v | .loadJoinable v | .loadJoined v | .returned v =>
      t.retval = v ∧ P.Returns (P.call args.startRoutine args.arg) v

/-- The result once `finished` is set. -/
def StartupPc.stored : StartupPc W → Option VoidPtr
  | .loadJoinable v | .loadJoined v | .returned v => some v
  | _ => none

/-- What a call of `mythread_join` knows about the result and has stored itself. -/
def JoinFacts (stored result : Option VoidPtr) : JoinPc → Prop
  | .outside | .loadFinished => True
  | .loadRetval => ∃ v, stored = some v
  | .storeResult v => stored = some v
  | .storeJoined | .returned => ∃ v, stored = some v ∧ result = some v

/-- The result is no other once `finished` is set. -/
theorem StartupPc.value_of_stored {pc : StartupPc W} {v : VoidPtr} (known : pc.stored = some v) :
    pc.value = some v := by
  cases pc with
  | loadJoinable w => exact known
  | loadJoined w => exact known
  | returned w => exact known
  | _ => cases known

theorem JoinFacts.mono {stored stored' result : Option VoidPtr} {pc : JoinPc}
    (facts : JoinFacts stored result pc)
    (more : ∀ v, stored = some v → stored' = some v) : JoinFacts stored' result pc := by
  cases pc with
  | outside => trivial
  | loadFinished => trivial
  | loadRetval =>
    obtain ⟨v, known⟩ := facts
    exact ⟨v, more v known⟩
  | storeResult v => exact more v facts
  | storeJoined =>
    obtain ⟨v, known, copied⟩ := facts
    exact ⟨v, more v known, copied⟩
  | returned =>
    obtain ⟨v, known, copied⟩ := facts
    exact ⟨v, more v known, copied⟩

/-- The invariant. -/
structure Facts (P : Routines W χ) (args : CreateArgs) (s : State W J) : Prop where
  create : CreateFacts args s.thread s.create
  alone : s.create.cloned = false → s.startup = .notStarted
  startup : StartupFacts P args s.thread s.startup
  /-- The flags, which are junk before `clone`. -/
  pending : s.create.cloned = true → s.startup.stored = none → s.thread.finished = 0
  joined : s.create.cloned = true → s.thread.joined ≠ 0 → ∃ j v, s.result j = some v
  /-- Nobody can join before `mythread_create` is over. -/
  published : s.mytid = true → s.create = .created
  callers : ∀ j, s.join j ≠ .outside → s.mytid = true
  join : ∀ j, JoinFacts s.startup.stored (s.result j) (s.join j)

section Create

variable {P : Routines W χ} {args : CreateArgs} {s s' : State W J} {fails : Bool}

theorem Facts.init (memory : MythreadStruct) : Facts P args (State.init memory : State W J) where
  create := trivial
  alone _ := rfl
  startup := trivial
  pending cloned := by cases cloned
  joined cloned := by cases cloned
  published known := by cases known
  callers _ known := (known rfl).elim
  join _ := trivial

/-- Before `clone` there is only `mythread_create`, and it may write what it likes. -/
theorem Facts.fill {t : MythreadStruct} {pc : CreatePc} (facts : Facts P args s)
    (before : s.create.cloned = false) (after : pc.cloned = false)
    (holds : CreateFacts args t pc) : Facts P args { s with thread := t, create := pc } where
  create := holds
  alone _ := facts.alone before
  startup := by
    rw [facts.alone before]
    trivial
  pending cloned := by
    rw [after] at cloned
    cases cloned
  joined cloned := by
    rw [after] at cloned
    cases cloned
  published known := by
    rw [facts.published known] at before
    cases before
  callers := facts.callers
  join := facts.join

/-- `clone`, with a thread or without. -/
theorem Facts.clone {starting : StartupPc W} {pc : CreatePc} (facts : Facts P args s)
    (at_clone : s.create = .clone) (starts : starting = .notStarted ∨ starting = .loadStartRoutine)
    (after : pc = .waitpid ∨ pc = .storeMytid) :
    Facts P args { s with startup := starting, create := pc } := by
  have record := facts.create
  rw [at_clone] at record
  obtain ⟨arg, routine, finished, joined, joinable⟩ := record
  have unpublished : s.mytid ≠ true := by
    intro known
    rw [facts.published known] at at_clone
    cases at_clone
  have nobody : ∀ j, s.join j = .outside := by
    intro j
    by_contra inside
    exact unpublished (facts.callers j inside)
  constructor
  case create =>
    rcases after with rfl | rfl
    · exact ⟨arg, routine, joinable⟩
    · exact ⟨arg, routine, joinable⟩
  case alone =>
    intro uncloned
    rcases after with rfl | rfl
    · cases uncloned
    · cases uncloned
  case startup =>
    rcases starts with rfl | rfl
    · trivial
    · trivial
  case pending => exact fun _ _ => finished
  case joined => exact fun _ set => (set joined).elim
  case published => exact fun known => (unpublished known).elim
  case callers => exact facts.callers
  case join =>
    intro j
    dsimp only
    rw [nobody j]
    trivial

theorem Facts.mythreadCreate (facts : Facts P args s)
    (moved : mythreadCreate args fails s = some s') : Facts P args s' := by
  have record := facts.create
  cases at_pc : s.create with
  | createStack =>
    simp only [Threads.mythreadCreate, at_pc] at moved
    cases moved
    cases fails with
    | true => exact facts.fill (by rw [at_pc]; rfl) rfl trivial
    | false => exact facts.fill (by rw [at_pc]; rfl) rfl trivial
  | memset =>
    simp only [Threads.mythreadCreate, at_pc] at moved
    cases moved
    exact facts.fill (by rw [at_pc]; rfl) rfl trivial
  | storeArg =>
    simp only [Threads.mythreadCreate, at_pc] at moved
    cases moved
    exact facts.fill (by rw [at_pc]; rfl) rfl rfl
  | storeStartRoutine =>
    simp only [Threads.mythreadCreate, at_pc] at moved
    cases moved
    rw [at_pc] at record
    exact facts.fill (by rw [at_pc]; rfl) rfl ⟨record, rfl⟩
  | storeRetval =>
    simp only [Threads.mythreadCreate, at_pc] at moved
    cases moved
    rw [at_pc] at record
    exact facts.fill (by rw [at_pc]; rfl) rfl record
  | storeFinished =>
    simp only [Threads.mythreadCreate, at_pc] at moved
    cases moved
    rw [at_pc] at record
    exact facts.fill (by rw [at_pc]; rfl) rfl ⟨record.1, record.2, rfl⟩
  | storeJoined =>
    simp only [Threads.mythreadCreate, at_pc] at moved
    cases moved
    rw [at_pc] at record
    exact facts.fill (by rw [at_pc]; rfl) rfl ⟨record.1, record.2.1, record.2.2, rfl⟩
  | storeJoinable =>
    simp only [Threads.mythreadCreate, at_pc] at moved
    cases moved
    rw [at_pc] at record
    obtain ⟨arg, routine, finished, joined⟩ := record
    exact facts.fill (by rw [at_pc]; rfl) rfl ⟨arg, routine, finished, joined, rfl⟩
  | clone =>
    simp only [Threads.mythreadCreate, at_pc] at moved
    cases moved
    refine facts.clone at_pc ?_ ?_
    · cases fails with
      | true => exact Or.inl (facts.alone (by rw [at_pc]; rfl))
      | false => exact Or.inr rfl
    · split
      · exact Or.inl rfl
      · exact Or.inr rfl
  | waitpid =>
    simp only [Threads.mythreadCreate, at_pc] at moved
    split at moved
    · cases moved
      rw [at_pc] at record
      have cloned : s.create.cloned = true := by rw [at_pc]; rfl
      refine ⟨record, (by rintro ⟨⟩), facts.startup, fun _ => facts.pending cloned,
        fun _ => facts.joined cloned, fun known => ?_, facts.callers, facts.join⟩
      rw [facts.published known] at at_pc
      cases at_pc
    · cases moved
  | storeMytid =>
    simp only [Threads.mythreadCreate, at_pc] at moved
    cases moved
    rw [at_pc] at record
    have cloned : s.create.cloned = true := by rw [at_pc]; rfl
    exact ⟨record, (by rintro ⟨⟩), facts.startup, fun _ => facts.pending cloned,
      fun _ => facts.joined cloned, fun _ => rfl, fun _ _ => rfl, facts.join⟩
  | created =>
    simp only [Threads.mythreadCreate, at_pc] at moved
    cases moved
  | failed =>
    simp only [Threads.mythreadCreate, at_pc] at moved
    cases moved

end Create

/-! ## The thread and its joiners -/

section Thread

variable {P : Routines W χ} {args : CreateArgs} {s s' : State W J} {x : χ} {j : J}

theorem Facts.cloned (facts : Facts P args s) (started : s.startup ≠ .notStarted) :
    s.create.cloned = true := by
  by_contra uncloned
  rw [Bool.not_eq_true] at uncloned
  exact started (facts.alone uncloned)

/-- After `clone` these fields stay as they are. -/
theorem createFacts_cloned {t : MythreadStruct} {pc : CreatePc} (cloned : pc.cloned = true) :
    CreateFacts args t pc ↔
      t.arg = args.arg ∧ t.startRoutine = args.startRoutine ∧ t.joinable = args.isJoinable := by
  cases pc with
  | waitpid => exact Iff.rfl
  | storeMytid => exact Iff.rfl
  | created => exact Iff.rfl
  | _ => cases cloned

/-- A step of `thread_startup`, which writes `retval` and `finished` only. -/
theorem Facts.write {retval : VoidPtr} {finished : Int} {pc : StartupPc W}
    (facts : Facts P args s) (started : s.startup ≠ .notStarted)
    (holds : StartupFacts P args { s.thread with retval := retval, finished := finished } pc)
    (unset : pc.stored = none → finished = 0)
    (more : ∀ v, s.startup.stored = some v → pc.stored = some v) :
    Facts P args { s with
      thread := { s.thread with retval := retval, finished := finished }, startup := pc } := by
  have cloned := facts.cloned started
  constructor
  case create =>
    have record := (createFacts_cloned cloned).mp facts.create
    exact (createFacts_cloned cloned).mpr record
  case alone =>
    intro uncloned
    exact (started (facts.alone uncloned)).elim
  case startup => exact holds
  case pending => exact fun _ unstored => unset unstored
  case joined => exact facts.joined
  case published => exact facts.published
  case callers => exact facts.callers
  case join =>
    intro i
    exact (facts.join i).mono more

/-- A step of `thread_startup` that writes nothing. -/
theorem Facts.advance {pc : StartupPc W} (facts : Facts P args s)
    (started : s.startup ≠ .notStarted) (holds : StartupFacts P args s.thread pc)
    (same : pc.stored = s.startup.stored) : Facts P args { s with startup := pc } := by
  refine facts.write started holds ?_ ?_
  · intro unstored
    exact facts.pending (facts.cloned started) (same ▸ unstored)
  · intro v known
    rw [same, known]

theorem Facts.threadStartup (facts : Facts P args s) (moved : threadStartup P x s = some s') :
    Facts P args s' := by
  have known := facts.startup
  cases at_pc : s.startup with
  | notStarted =>
    simp only [Threads.threadStartup, at_pc] at moved
    cases moved
  | loadStartRoutine =>
    simp only [Threads.threadStartup, at_pc] at moved
    cases moved
    have started : s.startup ≠ .notStarted := by simp [at_pc]
    have record := (createFacts_cloned (facts.cloned started)).mp facts.create
    exact facts.advance started record.2.1 (by rw [at_pc]; rfl)
  | loadArg f =>
    simp only [Threads.threadStartup, at_pc] at moved
    cases moved
    rw [at_pc] at known
    have started : s.startup ≠ .notStarted := by simp [at_pc]
    have record := (createFacts_cloned (facts.cloned started)).mp facts.create
    refine facts.advance started ?_ (by rw [at_pc]; rfl)
    rw [known, record.1]
    exact Relation.ReflTransGen.refl
  | running w =>
    simp only [Threads.threadStartup, at_pc] at moved
    rw [at_pc] at known
    have started : s.startup ≠ .notStarted := by simp [at_pc]
    split at moved
    · next w' stepped =>
      cases moved
      exact facts.advance started (known.tail ⟨x, stepped⟩) (by rw [at_pc]; rfl)
    · next v stepped =>
      cases moved
      exact facts.advance started ⟨w, x, known, stepped⟩ (by rw [at_pc]; rfl)
    · cases moved
  | storeRetval v =>
    simp only [Threads.threadStartup, at_pc] at moved
    cases moved
    rw [at_pc] at known
    have started : s.startup ≠ .notStarted := by simp [at_pc]
    have unset := facts.pending (facts.cloned started) (by rw [at_pc]; rfl)
    refine facts.write started ⟨rfl, known⟩ (fun _ => unset) ?_
    intro w stored
    simp [at_pc, StartupPc.stored] at stored
  | storeFinished v =>
    simp only [Threads.threadStartup, at_pc] at moved
    cases moved
    rw [at_pc] at known
    have started : s.startup ≠ .notStarted := by simp [at_pc]
    refine facts.write started known (by rintro ⟨⟩) ?_
    intro w stored
    simp [at_pc, StartupPc.stored] at stored
  | loadJoinable v =>
    simp only [Threads.threadStartup, at_pc] at moved
    cases moved
    rw [at_pc] at known
    have started : s.startup ≠ .notStarted := by simp [at_pc]
    split
    · exact facts.advance started known (by rw [at_pc]; rfl)
    · exact facts.advance started known (by rw [at_pc]; rfl)
  | loadJoined v =>
    simp only [Threads.threadStartup, at_pc] at moved
    cases moved
    rw [at_pc] at known
    have started : s.startup ≠ .notStarted := by simp [at_pc]
    split
    · exact facts.advance started known (by rw [at_pc])
    · exact facts.advance started known (by rw [at_pc]; rfl)
  | returned v =>
    simp only [Threads.threadStartup, at_pc] at moved
    cases moved

/-- What is in the record once `finished` is set. -/
theorem Facts.retval {v : VoidPtr} (facts : Facts P args s) (stored : s.startup.stored = some v) :
    s.thread.retval = v ∧ P.Returns (P.call args.startRoutine args.arg) v := by
  have known := facts.startup
  cases at_pc : s.startup with
  | loadJoinable w =>
    rw [at_pc] at known stored
    cases stored
    exact known
  | loadJoined w =>
    rw [at_pc] at known stored
    cases stored
    exact known
  | returned w =>
    rw [at_pc] at known stored
    cases stored
    exact known
  | _ =>
    rw [at_pc] at stored
    cases stored

variable [DecidableEq J]

/-- The call `j` goes on to another point. -/
theorem Facts.turn {pc : JoinPc} (facts : Facts P args s) (inside : s.mytid = true)
    (holds : JoinFacts s.startup.stored (s.result j) pc) :
    Facts P args { s with join := Function.update s.join j pc } := by
  refine { facts with callers := fun _ _ => inside, join := fun i => ?_ }
  by_cases same : i = j
  · subst same
    dsimp only
    rw [Function.update_self]
    exact holds
  · dsimp only
    rw [Function.update_of_ne same]
    exact facts.join i

/-- The call `j` stores the result. -/
theorem Facts.copy {v : VoidPtr} (facts : Facts P args s) (at_pc : s.join j = .storeResult v) :
    Facts P args { s with
      result := Function.update s.result j (some v)
      join := Function.update s.join j .storeJoined } := by
  have stored := facts.join j
  rw [at_pc] at stored
  have copied : Facts P args { s with result := Function.update s.result j (some v) } := by
    refine { facts with joined := fun _ _ => ?_, join := fun i => ?_ }
    · exact ⟨j, v, Function.update_self j _ _⟩
    · by_cases same : i = j
      · subst same
        dsimp only
        rw [at_pc]
        exact stored
      · dsimp only
        rw [Function.update_of_ne same]
        exact facts.join i
  refine copied.turn (facts.callers j (by simp [at_pc])) ⟨v, stored, ?_⟩
  exact Function.update_self j _ _

/-- The call `j` sets `joined`. -/
theorem Facts.mark (facts : Facts P args s) (at_pc : s.join j = .storeJoined) :
    Facts P args { s with
      thread := { s.thread with joined := 1 }, join := Function.update s.join j .returned } := by
  have copied := facts.join j
  rw [at_pc] at copied
  have inside := facts.callers j (by simp [at_pc])
  have created := facts.published inside
  obtain ⟨v, stored, result⟩ := copied
  have marked : Facts P args { s with thread := { s.thread with joined := 1 } } := by
    refine { facts with
      create := ?_, startup := facts.startup, joined := fun _ _ => ⟨j, v, result⟩ }
    have record := facts.create
    rw [created] at record
    dsimp only
    rw [created]
    exact record
  exact marked.turn inside ⟨v, stored, result⟩

theorem Facts.mythreadJoin (facts : Facts P args s) (moved : mythreadJoin j s = some s') :
    Facts P args s' := by
  cases at_pc : s.join j with
  | outside =>
    simp only [Threads.mythreadJoin, at_pc] at moved
    split at moved
    · next inside =>
      cases moved
      exact facts.turn inside trivial
    · cases moved
  | loadFinished =>
    have inside := facts.callers j (by simp [at_pc])
    simp only [Threads.mythreadJoin, at_pc] at moved
    split at moved
    · cases moved
      exact facts
    · next set =>
      cases moved
      refine facts.turn inside (Option.ne_none_iff_exists'.mp fun unstored => ?_)
      exact set (facts.pending (by rw [facts.published inside]; rfl) unstored)
  | loadRetval =>
    have inside := facts.callers j (by simp [at_pc])
    have known := facts.join j
    rw [at_pc] at known
    obtain ⟨v, stored⟩ := known
    simp only [Threads.mythreadJoin, at_pc] at moved
    cases moved
    refine facts.turn inside ?_
    rw [(facts.retval stored).1]
    exact stored
  | storeResult v =>
    simp only [Threads.mythreadJoin, at_pc] at moved
    cases moved
    exact facts.copy at_pc
  | storeJoined =>
    simp only [Threads.mythreadJoin, at_pc] at moved
    cases moved
    exact facts.mark at_pc
  | returned =>
    simp only [Threads.mythreadJoin, at_pc] at moved
    cases moved

/-- **The invariant** holds of every reachable state. -/
theorem Facts.reachable {memory : MythreadStruct}
    (reached : Reachable (step P args) (State.init memory : State W J) s) : Facts P args s := by
  refine reached.invariant (Facts.init memory) ?_
  intro a b e facts moved
  cases e with
  | create fails => exact facts.mythreadCreate moved
  | startup x => exact facts.threadStartup moved
  | join i => exact facts.mythreadJoin moved

end Thread

/-! ## The handover -/

/-- The abstract view: what the start routine has made, what the callers have, and whether
`thread_startup` has returned. -/
def State.handover (s : State W J) : Handover.State VoidPtr J where
  value := s.startup.value
  taken := s.result
  left := s.startup.exited

section Handover

variable {P : Routines W χ} {args : CreateArgs} {s s' : State W J} {x : χ} {j : J} {fails : Bool}

theorem handover_made {w : W} {v : VoidPtr} (at_pc : s.startup = .running w) :
    ({ s with startup := .storeRetval v } : State W J).handover =
      { s.handover with value := some v } := by
  unfold State.handover
  rw [at_pc]
  rfl

theorem handover_left {v : VoidPtr} (made : s.startup.value = some v) :
    ({ s with startup := .returned v } : State W J).handover =
      { s.handover with left := true } := by
  unfold State.handover
  rw [made]
  rfl

/-- `mythread_create` hands nothing over. -/
theorem Facts.create_handover (facts : Facts P args s)
    (moved : Threads.mythreadCreate args fails s = some s') : s'.handover = s.handover := by
  cases at_pc : s.create with
  | clone =>
    have waiting := facts.alone (by rw [at_pc]; rfl)
    simp only [Threads.mythreadCreate, at_pc] at moved
    cases moved
    unfold State.handover
    rw [waiting]
    cases fails with
    | true => rfl
    | false => rfl
  | waitpid =>
    simp only [Threads.mythreadCreate, at_pc] at moved
    split at moved
    · cases moved
      rfl
    · cases moved
  | created =>
    simp only [Threads.mythreadCreate, at_pc] at moved
    cases moved
  | failed =>
    simp only [Threads.mythreadCreate, at_pc] at moved
    cases moved
  | _ =>
    simp only [Threads.mythreadCreate, at_pc] at moved
    cases moved
    rfl

variable [DecidableEq J]

/-- `thread_startup` makes the value when the start routine returns, and leaves when it has seen
`joined` or that nobody may join. -/
theorem Facts.startup_handover (facts : Facts P args s)
    (moved : Threads.threadStartup P x s = some s') :
    s'.handover = s.handover ∨ Handover.Step (args.isJoinable ≠ 0) s.handover s'.handover := by
  cases at_pc : s.startup with
  | notStarted =>
    simp only [Threads.threadStartup, at_pc] at moved
    cases moved
  | loadStartRoutine =>
    simp only [Threads.threadStartup, at_pc] at moved
    cases moved
    exact Or.inl (by unfold State.handover; rw [at_pc]; rfl)
  | loadArg f =>
    simp only [Threads.threadStartup, at_pc] at moved
    cases moved
    exact Or.inl (by unfold State.handover; rw [at_pc]; rfl)
  | running w =>
    simp only [Threads.threadStartup, at_pc] at moved
    split at moved
    · cases moved
      exact Or.inl (by unfold State.handover; rw [at_pc]; rfl)
    · next v stepped =>
      cases moved
      have empty : s.handover.value = none := by
        unfold State.handover
        rw [at_pc]
        rfl
      rw [handover_made (v := v) at_pc]
      exact Or.inr (.produce v empty)
    · cases moved
  | storeRetval v =>
    simp only [Threads.threadStartup, at_pc] at moved
    cases moved
    exact Or.inl (by unfold State.handover; rw [at_pc]; rfl)
  | storeFinished v =>
    simp only [Threads.threadStartup, at_pc] at moved
    cases moved
    exact Or.inl (by unfold State.handover; rw [at_pc]; rfl)
  | loadJoinable v =>
    have cloned := facts.cloned (by simp [at_pc])
    have record := (createFacts_cloned cloned).mp facts.create
    simp only [Threads.threadStartup, at_pc] at moved
    cases moved
    split
    · exact Or.inl (by unfold State.handover; rw [at_pc]; rfl)
    · next unjoinable =>
      rw [handover_left (v := v) (by rw [at_pc]; rfl)]
      refine Or.inr (.leave fun joinable => (joinable ?_).elim)
      rw [← record.2.2]
      exact not_not.mp unjoinable
  | loadJoined v =>
    have cloned := facts.cloned (by simp [at_pc])
    simp only [Threads.threadStartup, at_pc] at moved
    cases moved
    split
    · exact Or.inl (by unfold State.handover; rw [at_pc])
    · next set =>
      rw [handover_left (v := v) (by rw [at_pc]; rfl)]
      exact Or.inr (.leave fun _ => facts.joined cloned set)
  | returned v =>
    simp only [Threads.threadStartup, at_pc] at moved
    cases moved

/-- A call of `mythread_join` takes the value when it stores `*retval`. -/
theorem Facts.join_handover (facts : Facts P args s)
    (moved : Threads.mythreadJoin j s = some s') :
    s'.handover = s.handover ∨ Handover.Step (args.isJoinable ≠ 0) s.handover s'.handover := by
  cases at_pc : s.join j with
  | outside =>
    simp only [Threads.mythreadJoin, at_pc] at moved
    split at moved
    · cases moved
      exact Or.inl rfl
    · cases moved
  | loadFinished =>
    simp only [Threads.mythreadJoin, at_pc] at moved
    split at moved
    · cases moved
      exact Or.inl rfl
    · cases moved
      exact Or.inl rfl
  | loadRetval =>
    simp only [Threads.mythreadJoin, at_pc] at moved
    cases moved
    exact Or.inl rfl
  | storeResult v =>
    have stored := facts.join j
    rw [at_pc] at stored
    simp only [Threads.mythreadJoin, at_pc] at moved
    cases moved
    exact Or.inr (.take (s := s.handover) j (StartupPc.value_of_stored stored))
  | storeJoined =>
    simp only [Threads.mythreadJoin, at_pc] at moved
    cases moved
    exact Or.inl rfl
  | returned =>
    simp only [Threads.mythreadJoin, at_pc] at moved
    cases moved

/-- **The refinement**: what the parties do is a handover. -/
theorem handover_run {memory : MythreadStruct}
    (reached : Reachable (step P args) (State.init memory : State W J) s) :
    Relation.ReflTransGen (Handover.Step (args.isJoinable ≠ 0)) .start s.handover := by
  refine Reachable.refines (f := State.handover) ?_ reached
  intro a b e before moved
  have facts := Facts.reachable before
  cases e with
  | create fails => exact Or.inl (facts.create_handover moved)
  | startup x => exact facts.startup_handover moved
  | join i => exact facts.join_handover moved

/-- **The join handshake**: nobody stores a result before the start routine has returned, whoever
returns from `mythread_join` has stored what it returned, and the thread of a joinable
`mythread` does not end before somebody has. -/
theorem join_hands_over {memory : MythreadStruct}
    (reached : Reachable (step P args) (State.init memory : State W J) s) :
    (∀ j v, s.result j = some v → s.startup.value = some v) ∧
      (∀ j, s.join j = .returned → ∃ v, P.Returns (P.call args.startRoutine args.arg) v ∧
        s.startup.value = some v ∧ s.result j = some v) ∧
      (args.isJoinable ≠ 0 → ∀ v, s.startup = .returned v → ∃ j, s.result j = some v) := by
  have facts := Facts.reachable reached
  have run := handover_run reached
  refine ⟨fun j v => Handover.taken_value run, fun j returned => ?_, fun joinable v left => ?_⟩
  · have copied := facts.join j
    rw [returned] at copied
    obtain ⟨v, stored, result⟩ := copied
    exact ⟨v, (facts.retval stored).2, StartupPc.value_of_stored stored, result⟩
  · have ended : s.handover.left = true := by
      unfold State.handover
      rw [left]
      rfl
    rcases Handover.left_taken run ended joinable with ⟨j, same, -⟩
    refine ⟨j, same.trans ?_⟩
    unfold State.handover
    rw [left]
    rfl

/-- `mythread` of `lab1/6/6.c`, whatever its address: four greetings, then `return "bay"`. -/
def greeter (bay : VoidPtr) : Routines Nat Unit where
  call _ _ := 0
  step i _ := if i < 4 then some (.inl (i + 1)) else some (.inr bay)

/-- Two callers wait; the second finds the thread gone. -/
def twoCallers : List (Event Unit Bool) :=
  List.flatten [
    List.replicate 10 (.create false),
    [.startup (), .join false, .join false, .join true],
    List.replicate 8 (.startup ()),
    [.join false, .join false, .startup (), .join false, .startup (), .join false, .startup ()],
    List.replicate 4 (.join true)]

/-- The handshake with two callers. -/
theorem join_hands_over_twice : ∃ s : State Nat Bool,
    s.startup = .returned 0x4000 ∧ s.join true = .returned ∧
      (∀ j v, s.result j = some v → s.startup.value = some v) ∧
      (∀ j, s.join j = .returned → ∃ v, (greeter 0x4000).Returns 0 v ∧
        s.startup.value = some v ∧ s.result j = some v) ∧
      ((1 : Int) ≠ 0 → ∀ v, s.startup = .returned v → ∃ j, s.result j = some v) := by
  have reached : Reachable (step (greeter 0x4000) ⟨1, 0x1000, 0x2000⟩) (.init .filled) _ :=
    ⟨twoCallers, rfl⟩
  exact ⟨_, rfl, rfl, join_hands_over reached⟩

end Handover

end Os2Labs.Threads
