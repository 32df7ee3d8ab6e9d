import Mathlib.Logic.Function.Basic
import Os2Labs.Conc.Runs

/-!
# `mythread`

`mythread_create`, `thread_startup` and `mythread_join` of `lab1/6/mythread.c`, access by
access: one thread is created, its start routine runs for as long as it likes, and any
number of callers of `mythread_join` wait for what it returns.
-/

namespace Os2Labs.Threads

open Conc

/-- `void*`. -/
abbrev VoidPtr := BitVec 64

/-- `start_routine_t`: the address of a function. -/
abbrev StartRoutine := BitVec 64

/-- `mythread_struct_t`, less the id, which is only printed. -/
structure MythreadStruct where
  arg : VoidPtr
  startRoutine : StartRoutine
  retval : VoidPtr
  joinable : Int
  joined : Int
  finished : Int

/-- What `memset(child_stack + PAGE, 0x7f, STACK_SIZE - PAGE)` makes of it. -/
def MythreadStruct.filled : MythreadStruct where
  arg := 0x7f7f7f7f7f7f7f7f
  startRoutine := 0x7f7f7f7f7f7f7f7f
  retval := 0x7f7f7f7f7f7f7f7f
  joinable := 0x7f7f7f7f
  joined := 0x7f7f7f7f
  finished := 0x7f7f7f7f

/-! ## Start routines -/

/-- What the functions of the program do: a call starts somewhere, and each step goes on or
returns.  What a step depends on apart from the call's own state is chosen by `χ`. -/
structure Routines (W χ : Type*) where
  call : StartRoutine → VoidPtr → W
  step : W → χ → Option (W ⊕ VoidPtr)

section Routines

variable {W χ : Type*} (P : Routines W χ)

/-- `w'` comes some finite number of steps after `w`. -/
def Routines.Leads : W → W → Prop :=
  Relation.ReflTransGen fun w w' => ∃ x, P.step w x = some (.inl w')

/-- A call that has got to `w` may return `v`. -/
def Routines.Returns (w : W) (v : VoidPtr) : Prop :=
  ∃ w' x, P.Leads w w' ∧ P.step w' x = some (.inr v)

end Routines

/-! ## Program points -/

/-- The arguments of `mythread_create`. -/
structure CreateArgs where
  isJoinable : Int
  startRoutine : StartRoutine
  arg : VoidPtr

/-- The program points of `mythread_create`; `failed` has returned -1 and `created` 0. -/
inductive CreatePc where
  | createStack
  | memset
  | storeArg
  | storeStartRoutine
  | storeRetval
  | storeFinished
  | storeJoined
  | storeJoinable
  | clone
  | waitpid
  | storeMytid
  | created
  | failed
deriving DecidableEq

/-- The program points of `thread_startup`, with its variable `retval`. -/
inductive StartupPc (W : Type*) where
  | notStarted
  | loadStartRoutine
  | loadArg (startRoutine : StartRoutine)
  | running (w : W)
  | storeRetval (retval : VoidPtr)
  | storeFinished (retval : VoidPtr)
  | loadJoinable (retval : VoidPtr)
  | loadJoined (retval : VoidPtr)
  | returned (retval : VoidPtr)

/-- The program points of `mythread_join`. -/
inductive JoinPc where
  | outside
  | loadFinished
  | loadRetval
  | storeResult (retval : VoidPtr)
  | storeJoined
  | returned
deriving DecidableEq

/-- What the start routine has returned. -/
def StartupPc.value {W : Type*} : StartupPc W → Option VoidPtr
  | .storeRetval v | .storeFinished v | .loadJoinable v | .loadJoined v | .returned v => some v
  | _ => none

/-- Whether `thread_startup` has returned. -/
def StartupPc.exited {W : Type*} : StartupPc W → Bool
  | .returned _ => true
  | _ => false

/-! ## Steps -/

/-- The record, whether `*mytid` has been stored, where each party stands, and what each call
of `mythread_join` has stored in its `*retval`. -/
structure State (W J : Type*) where
  thread : MythreadStruct
  mytid : Bool
  create : CreatePc
  startup : StartupPc W
  join : J → JoinPc
  result : J → Option VoidPtr

/-- Who takes the next step.  A system call of `mythread_create` may fail. -/
inductive Event (χ J : Type*) where
  | create (fails : Bool)
  | startup (x : χ)
  | join (j : J)

section Steps

variable {W χ J : Type*}

/-- One step of `mythread_create`, which looks at the result of `create_stack` only. -/
def mythreadCreate (args : CreateArgs) (fails : Bool) (s : State W J) : Option (State W J) :=
  match s.create with
  | .createStack => some { s with create := if fails then .failed else .memset }
  | .memset => some { s with thread := .filled, create := .storeArg }
  | .storeArg =>
      some { s with thread := { s.thread with arg := args.arg }, create := .storeStartRoutine }
  | .storeStartRoutine =>
      some { s with
        thread := { s.thread with startRoutine := args.startRoutine }, create := .storeRetval }
  | .storeRetval =>
      some { s with thread := { s.thread with retval := 0 }, create := .storeFinished }
  | .storeFinished =>
      some { s with thread := { s.thread with finished := 0 }, create := .storeJoined }
  | .storeJoined =>
      some { s with thread := { s.thread with joined := 0 }, create := .storeJoinable }
  | .storeJoinable =>
      some { s with thread := { s.thread with joinable := args.isJoinable }, create := .clone }
  | .clone =>
      some { s with
        startup := if fails then s.startup else .loadStartRoutine
        create := if args.isJoinable = 0 then .waitpid else .storeMytid }
  | .waitpid =>
      if fails ∨ s.startup.exited then some { s with create := .storeMytid } else none
  | .storeMytid => some { s with mytid := true, create := .created }
  | .created => none
  | .failed => none

/-- One step of `thread_startup`. -/
def threadStartup (P : Routines W χ) (x : χ) (s : State W J) : Option (State W J) :=
  match s.startup with
  | .notStarted => none
  | .loadStartRoutine => some { s with startup := .loadArg s.thread.startRoutine }
  | .loadArg f => some { s with startup := .running (P.call f s.thread.arg) }
  | .running w =>
      match P.step w x with
      | some (.inl w') => some { s with startup := .running w' }
      | some (.inr v) => some { s with startup := .storeRetval v }
      | none => none
  | .storeRetval v =>
      some { s with thread := { s.thread with retval := v }, startup := .storeFinished v }
  | .storeFinished v =>
      some { s with thread := { s.thread with finished := 1 }, startup := .loadJoinable v }
  | .loadJoinable v =>
      some { s with startup := if s.thread.joinable ≠ 0 then .loadJoined v else .returned v }
  | .loadJoined v =>
      some { s with startup := if s.thread.joined = 0 then .loadJoined v else .returned v }
  | .returned _ => none

variable [DecidableEq J]

/-- One step of the call `j` of `mythread_join`, which nobody can make before `mytid` is there. -/
def mythreadJoin (j : J) (s : State W J) : Option (State W J) :=
  match s.join j with
  | .outside =>
      if s.mytid then some { s with join := Function.update s.join j .loadFinished } else none
  | .loadFinished =>
      if s.thread.finished = 0 then some s
      else some { s with join := Function.update s.join j .loadRetval }
  | .loadRetval =>
      some { s with join := Function.update s.join j (.storeResult s.thread.retval) }
  | .storeResult v =>
      some { s with
        result := Function.update s.result j (some v)
        join := Function.update s.join j .storeJoined }
  | .storeJoined =>
      some { s with
        thread := { s.thread with joined := 1 }, join := Function.update s.join j .returned }
  | .returned => none

/-- One step of the three. -/
def step (P : Routines W χ) (args : CreateArgs) (s : State W J) : Event χ J → Option (State W J)
  | .create fails => mythreadCreate args fails s
  | .startup x => threadStartup P x s
  | .join j => mythreadJoin j s

/-- Before the call of `mythread_create`. -/
def State.init (memory : MythreadStruct) : State W J where
  thread := memory
  mytid := false
  create := .createStack
  startup := .notStarted
  join _ := .outside
  result _ := none

end Steps

end Os2Labs.Threads
