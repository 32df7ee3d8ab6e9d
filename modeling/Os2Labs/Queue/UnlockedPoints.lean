import Os2Labs.Queue.Unlocked

/-!
# The points of `queue_add` and `queue_get`

A thread inside one of the two operations stands at one of these points, which hold the values of
its local variables.  `addPoints` and `getPoints` say what it does there, and that this is what
the code does.
-/

namespace Os2Labs.Queue.Unlocked

open Conc

/-- Where the writer is in `queue_add`. -/
inductive AddPoint where
  | loadAttempts
  | storeAttempts (attempts : Int)
  /-- `assert(q->count <= q->max_count)`. -/
  | loadCount
  | loadMax (count : Int)
  | check (count maxCount : Int)
  /-- `q->count == q->max_count`. -/
  | reloadCount
  | reloadMax (count : Int)
  | full
  | malloc
  | checkNew (new : Ptr)
  | storeVal (new : Ptr)
  | storeNext (new : Ptr)
  | testFirst (new : Ptr)
  /-- `q->first = q->last = new`. -/
  | storeLast (new : Ptr)
  | storeFirst (new : Ptr)
  /-- `q->last->next = new`. -/
  | loadLast (new : Ptr)
  | link (new last : Ptr)
  /-- `q->last = q->last->next`. -/
  | reloadLast (new : Ptr)
  | loadLink (new last : Ptr)
  | moveLast (new next : Ptr)
  | loadIncrement
  | storeIncrement (count : Int)
  | loadAdds
  | storeAdds (adds : Int)
  | added

/-- Where the reader is in `queue_get`. -/
inductive GetPoint where
  | loadAttempts
  | storeAttempts (attempts : Int)
  /-- `assert(q->count >= 0)`. -/
  | loadCount
  | check (count : Int)
  /-- `q->count == 0`. -/
  | reloadCount
  | empty
  | loadFirst
  | loadVal (tmp : Ptr)
  /-- `q->first = q->first->next`. -/
  | reloadFirst (tmp : Ptr) (val : CInt)
  | loadNext (tmp : Ptr) (val : CInt) (first : Ptr)
  | storeFirst (tmp : Ptr) (val : CInt) (next : Ptr)
  | free (tmp : Ptr) (val : CInt)
  | loadDecrement (val : CInt)
  | storeDecrement (val : CInt) (count : Int)
  | loadGets (val : CInt)
  | storeGets (val : CInt) (gets : Int)
  | got (val : CInt)

/-! ## What is left to execute -/

/-- The end of `queue_add`. -/
def addEnd : Code Reply := do
  addInt .count 1
  addInt .addCount 1
  return ⟨1, none⟩

/-- From the test of the result of `malloc` on. -/
def addNew (val : CInt) (new : Ptr) : Code Reply := do
  assert new.isSome
  storeVal new val
  storeNext new none
  link new
  addEnd

/-- From the test for room on. -/
def addRoom (val : CInt) : Code Reply := do
  let count ← loadInt .count
  let maxCount ← loadInt .maxCount
  if count = maxCount then
    return ⟨0, none⟩
  else
    let new ← malloc
    addNew val new

def AddPoint.code (val : CInt) : AddPoint → Code Reply
  | .loadAttempts => queueAdd val
  | .storeAttempts attempts => do
      storeInt .addAttempts (attempts + 1)
      let count ← loadInt .count
      let maxCount ← loadInt .maxCount
      assert (count ≤ maxCount)
      addRoom val
  | .loadCount => do
      let count ← loadInt .count
      let maxCount ← loadInt .maxCount
      assert (count ≤ maxCount)
      addRoom val
  | .loadMax count => do
      let maxCount ← loadInt .maxCount
      assert (count ≤ maxCount)
      addRoom val
  | .check count maxCount => do
      assert (count ≤ maxCount)
      addRoom val
  | .reloadCount => addRoom val
  | .reloadMax count => do
      let maxCount ← loadInt .maxCount
      if count = maxCount then
        return ⟨0, none⟩
      else
        let new ← Queue.malloc
        addNew val new
  | .full => return ⟨0, none⟩
  | .malloc => do
      let new ← Queue.malloc
      addNew val new
  | .checkNew new => addNew val new
  | .storeVal new => do
      Queue.storeVal new val
      Queue.storeNext new none
      Queue.link new
      addEnd
  | .storeNext new => do
      Queue.storeNext new none
      Queue.link new
      addEnd
  | .testFirst new => do
      Queue.link new
      addEnd
  | .storeLast new => do
      storePtr .last new
      storePtr .first new
      addEnd
  | .storeFirst new => do
      storePtr .first new
      addEnd
  | .loadLast new => do
      let last ← loadPtr .last
      Queue.storeNext last new
      let last ← loadPtr .last
      let next ← loadNext last
      storePtr .last next
      addEnd
  | .link new last => do
      Queue.storeNext last new
      let last ← loadPtr .last
      let next ← loadNext last
      storePtr .last next
      addEnd
  | .reloadLast _ => do
      let last ← loadPtr .last
      let next ← loadNext last
      storePtr .last next
      addEnd
  | .loadLink _ last => do
      let next ← loadNext last
      storePtr .last next
      addEnd
  | .moveLast _ next => do
      storePtr .last next
      addEnd
  | .loadIncrement => addEnd
  | .storeIncrement count => do
      storeInt .count (count + 1)
      addInt .addCount 1
      return ⟨1, none⟩
  | .loadAdds => do
      addInt .addCount 1
      return ⟨1, none⟩
  | .storeAdds adds => do
      storeInt .addCount (adds + 1)
      return ⟨1, none⟩
  | .added => return ⟨1, none⟩

/-- The end of `queue_get`. -/
def getEnd (val : CInt) : Code Reply := do
  addInt .count (-1)
  addInt .getCount 1
  return ⟨1, some val⟩

/-- From the test for an element on. -/
def getSome : Code Reply := do
  let tmp ← loadPtr .first
  let val ← loadVal tmp
  let first ← loadPtr .first
  let next ← loadNext first
  storePtr .first next
  free tmp
  getEnd val

/-- From the assertion on. -/
def getTest : Code Reply := do
  let count ← loadInt .count
  assert (0 ≤ count)
  let count ← loadInt .count
  if count = 0 then
    return ⟨0, none⟩
  else
    getSome

def GetPoint.code : GetPoint → Code Reply
  | .loadAttempts => queueGet
  | .storeAttempts attempts => do
      storeInt .getAttempts (attempts + 1)
      getTest
  | .loadCount => getTest
  | .check count => do
      assert (0 ≤ count)
      let count ← loadInt .count
      if count = 0 then
        return ⟨0, none⟩
      else
        getSome
  | .reloadCount => do
      let count ← loadInt .count
      if count = 0 then
        return ⟨0, none⟩
      else
        getSome
  | .empty => return ⟨0, none⟩
  | .loadFirst => getSome
  | .loadVal tmp => do
      let val ← Queue.loadVal tmp
      let first ← loadPtr .first
      let next ← Queue.loadNext first
      storePtr .first next
      Queue.free tmp
      getEnd val
  | .reloadFirst tmp val => do
      let first ← loadPtr .first
      let next ← Queue.loadNext first
      storePtr .first next
      Queue.free tmp
      getEnd val
  | .loadNext tmp val first => do
      let next ← Queue.loadNext first
      storePtr .first next
      Queue.free tmp
      getEnd val
  | .storeFirst tmp val next => do
      storePtr .first next
      Queue.free tmp
      getEnd val
  | .free tmp val => do
      Queue.free tmp
      getEnd val
  | .loadDecrement val => getEnd val
  | .storeDecrement val count => do
      storeInt .count (count + -1)
      addInt .getCount 1
      return ⟨1, some val⟩
  | .loadGets val => do
      addInt .getCount 1
      return ⟨1, some val⟩
  | .storeGets val gets => do
      storeInt .getCount (gets + 1)
      return ⟨1, some val⟩
  | .got val => return ⟨1, some val⟩

/-! ## What is done there -/

def AddPoint.head (val : CInt) : AddPoint → Head sig Reply AddPoint
  | .loadAttempts => .op (.loadInt .addAttempts) fun z : Int => .storeAttempts z
  | .storeAttempts attempts => .op (.storeInt .addAttempts (attempts + 1)) fun _ => .loadCount
  | .loadCount => .op (.loadInt .count) fun z : Int => .loadMax z
  | .loadMax count => .op (.loadInt .maxCount) fun z : Int => .check count z
  | .check count maxCount => .op (.assert (count ≤ maxCount)) fun _ => .reloadCount
  | .reloadCount => .op (.loadInt .count) fun z : Int => .reloadMax z
  | .reloadMax count => .op (.loadInt .maxCount) fun z : Int => if count = z then .full else .malloc
  | .full => .ret ⟨0, none⟩
  | .malloc => .op .malloc fun p : Ptr => .checkNew p
  | .checkNew new => .op (.assert new.isSome) fun _ => .storeVal new
  | .storeVal new => .op (.storeVal new val) fun _ => .storeNext new
  | .storeNext new => .op (.storeNext new none) fun _ => .testFirst new
  | .testFirst new =>
      .op (.loadPtr .first) fun p : Ptr => if p = none then .storeLast new else .loadLast new
  | .storeLast new => .op (.storePtr .last new) fun _ => .storeFirst new
  | .storeFirst new => .op (.storePtr .first new) fun _ => .loadIncrement
  | .loadLast new => .op (.loadPtr .last) fun p : Ptr => .link new p
  | .link new last => .op (.storeNext last new) fun _ => .reloadLast new
  | .reloadLast new => .op (.loadPtr .last) fun p : Ptr => .loadLink new p
  | .loadLink new last => .op (.loadNext last) fun p : Ptr => .moveLast new p
  | .moveLast _ next => .op (.storePtr .last next) fun _ => .loadIncrement
  | .loadIncrement => .op (.loadInt .count) fun z : Int => .storeIncrement z
  | .storeIncrement count => .op (.storeInt .count (count + 1)) fun _ => .loadAdds
  | .loadAdds => .op (.loadInt .addCount) fun z : Int => .storeAdds z
  | .storeAdds adds => .op (.storeInt .addCount (adds + 1)) fun _ => .added
  | .added => .ret ⟨1, none⟩

def GetPoint.head : GetPoint → Head sig Reply GetPoint
  | .loadAttempts => .op (.loadInt .getAttempts) fun z : Int => .storeAttempts z
  | .storeAttempts attempts => .op (.storeInt .getAttempts (attempts + 1)) fun _ => .loadCount
  | .loadCount => .op (.loadInt .count) fun z : Int => .check z
  | .check count => .op (.assert (0 ≤ count)) fun _ => .reloadCount
  | .reloadCount => .op (.loadInt .count) fun z : Int => if z = 0 then .empty else .loadFirst
  | .empty => .ret ⟨0, none⟩
  | .loadFirst => .op (.loadPtr .first) fun p : Ptr => .loadVal p
  | .loadVal tmp => .op (.loadVal tmp) fun v : CInt => .reloadFirst tmp v
  | .reloadFirst tmp val => .op (.loadPtr .first) fun p : Ptr => .loadNext tmp val p
  | .loadNext tmp val first => .op (.loadNext first) fun p : Ptr => .storeFirst tmp val p
  | .storeFirst tmp val next => .op (.storePtr .first next) fun _ => .free tmp val
  | .free tmp val => .op (.free tmp) fun _ => .loadDecrement val
  | .loadDecrement val => .op (.loadInt .count) fun z : Int => .storeDecrement val z
  | .storeDecrement val count => .op (.storeInt .count (count + -1)) fun _ => .loadGets val
  | .loadGets val => .op (.loadInt .getCount) fun z : Int => .storeGets val z
  | .storeGets val gets => .op (.storeInt .getCount (gets + 1)) fun _ => .got val
  | .got val => .ret ⟨1, some val⟩

def addPoints (val : CInt) : Points sig Reply AddPoint where
  code := AddPoint.code val
  head := AddPoint.head val
  unfolds p := by
    cases p
    case reloadMax count =>
      refine congrArg (Prog.op (S := sig) (.loadInt .maxCount)) (funext fun z => ?_)
      show (if count = z then AddPoint.code val .full else AddPoint.code val .malloc) =
        AddPoint.code val (if count = z then .full else .malloc)
      exact (apply_ite (AddPoint.code val) (count = z) .full .malloc).symm
    case testFirst new =>
      refine congrArg (Prog.op (S := sig) (.loadPtr .first)) (funext fun p => ?_)
      cases p <;> rfl
    all_goals rfl

def getPoints : Points sig Reply GetPoint where
  code := GetPoint.code
  head := GetPoint.head
  unfolds p := by
    cases p
    case reloadCount =>
      refine congrArg (Prog.op (S := sig) (.loadInt .count)) (funext fun z => ?_)
      show (if z = 0 then GetPoint.code .empty else GetPoint.code .loadFirst) =
        GetPoint.code (if z = 0 then .empty else .loadFirst)
      exact (apply_ite GetPoint.code (z = (0 : Int)) .empty .loadFirst).symm
    all_goals rfl

end Os2Labs.Queue.Unlocked
