import Os2Labs.Proxy.Isolation
import Os2Labs.Proxy.Transfer

/-!
# A handler among others does what it does alone

`clientHandler` says what a handler opens, sends and releases when it gets certain answers.  In a
careful run every handler of the process has done just that when it returns: `logs_clientHandler`.
-/

namespace Os2Labs.Proxy.Process

open Conc Bytes
open Conc.Store

/-- What is recorded of a clean-up. -/
def Cleanup.actions : Cleanup → List Action
  | .client => [.releases .clientSocket]
  | .dest => [.releases .destSocket]
  | .buffer => [.releases .buffer]
  | .request => [.releases .requestTemp]
  | .addrinfo | .unconnected => []

/-- Rounds of the relay loop after which it goes on. -/
def Ongoing (rounds : List (List UInt8 × Int)) : Prop := ∀ r ∈ rounds, r.1 ≠ [] ∧ r.2 ≠ -1

def chunkSends (rounds : List (List UInt8 × Int)) : List Action :=
  rounds.map fun r => .sends .clientSocket r.1

theorem Ongoing.snoc {rounds : List (List UInt8 × Int)} (ongoing : Ongoing rounds)
    {chunk : List UInt8} (some_bytes : chunk ≠ []) {n : Int} (sent : n ≠ -1) :
    Ongoing (rounds ++ [(chunk, n)]) := by
  intro r member
  rcases List.mem_append.mp member with before | last
  · exact ongoing r before
  · rw [List.mem_singleton.mp last]
    exact ⟨some_bytes, sent⟩

theorem chunkSends_snoc (rounds : List (List UInt8 × Int)) (chunk : List UInt8) (n : Int) :
    chunkSends (rounds ++ [(chunk, n)]) = chunkSends rounds ++ [.sends .clientSocket chunk] :=
  List.map_append

/-- The relay loop gets through such rounds. -/
theorem relay_ongoing {rounds : List (List UInt8 × Int)} (ongoing : Ongoing rounds)
    (rest : List (Reading × Int)) :
    relay (rounds.map (fun r => (.bytes r.1, r.2)) ++ rest) =
      (relay rest).map (chunkSends rounds ++ ·) := by
  induction rounds with
  | nil =>
    rw [List.map_nil, List.nil_append]
    cases relay rest with
    | none => rfl
    | some actions => rfl
  | cons r rounds ih =>
    obtain ⟨some_bytes, sent⟩ := ongoing r List.mem_cons_self
    have more : 0 < (Reading.bytes r.1).count :=
      Int.natCast_pos.mpr (List.length_pos_iff.mpr some_bytes)
    have later := ih fun r' member => ongoing r' (List.mem_cons_of_mem r member)
    show relay ((.bytes r.1, r.2) :: (rounds.map (fun r => (.bytes r.1, r.2)) ++ rest)) = _
    rw [relay, if_pos more, if_neg sent, later, Option.map_map]
    rfl

/-- The request is short enough and names a host. -/
def Resolved (request : List UInt8) : Prop :=
  request.length < bufferSize ∧ ∃ host, (hostArray request host).isSome = true

/-- What a handler has recorded is the beginning of a run of `clientHandler`. -/
def Handler.Logged (h : Handler) : Prop :=
  match h.point with
  | .loadClientSocket | .loadRequest | .printf | .strlen | .strcpy => h.log = []
  | .getaddrinfo | .socket | .connect | .freeaddrinfo => Resolved h.request ∧ h.log = []
  | .forward => Resolved h.request ∧ h.log = [.opens .destSocket]
  | .calloc => Resolved h.request ∧ h.log = [.opens .destSocket, .sends .destSocket h.request]
  | .read => Resolved h.request ∧
      ∃ rounds, Ongoing rounds ∧ h.log = forwarding h.request ++ chunkSends rounds
  | .write => Resolved h.request ∧ h.chunk ≠ [] ∧
      ∃ rounds, Ongoing rounds ∧ h.log = forwarding h.request ++ chunkSends rounds
  | .closing todo _ => ∃ host answers,
      clientHandler h.request host answers = some (h.log ++ todo.flatMap Cleanup.actions)

variable {request : List UInt8}

/-- `connect_to_remote` fails. -/
theorem clientHandler_unreachable (resolved : Resolved request) : ∃ host answers,
    clientHandler request host answers = some [.releases .clientSocket] := by
  obtain ⟨short, host, found⟩ := resolved
  obtain ⟨b, found⟩ := Option.isSome_iff_exists.mp found
  refine ⟨host, ⟨-1, 0, []⟩, ?_⟩
  simp only [clientHandler, strlen, if_neg (Nat.not_le.mpr short), found, ↓reduceIte]

/-- The request cannot be sent. -/
theorem clientHandler_unsent (resolved : Resolved request) : ∃ host answers,
    clientHandler request host answers = some [.opens .destSocket, .sends .destSocket request,
      .releases .clientSocket, .releases .destSocket] := by
  obtain ⟨short, host, found⟩ := resolved
  obtain ⟨b, found⟩ := Option.isSome_iff_exists.mp found
  refine ⟨host, ⟨0, -1, []⟩, ?_⟩
  simp only [clientHandler, strlen, if_neg (Nat.not_le.mpr short), found, ↓reduceIte]
  rfl

/-- The relay loop ends with a certain round. -/
theorem clientHandler_relayed (resolved : Resolved request) {rounds : List (List UInt8 × Int)}
    (ongoing : Ongoing rounds) {last : Reading × Int} {actions : List Action}
    (ended : relay [last] = some actions) : ∃ host answers,
      clientHandler request host answers =
        some (forwarding request ++ chunkSends rounds ++ actions) := by
  obtain ⟨short, host, found⟩ := resolved
  refine ⟨host, ⟨0, 0, rounds.map (fun r => (.bytes r.1, r.2)) ++ [last]⟩, ?_⟩
  have connected : (0 : Int) ≠ -1 := by decide
  rw [clientHandler_forwards short found connected connected, relay_ongoing ongoing, ended]
  simp only [Option.map_some, List.append_assoc]

theorem Handler.Logged.strlen {h : Handler} (logged : h.Logged) (point : h.point = .strlen)
    {r : List UInt8} (short : r.length < bufferSize) :
    (if bufferSize ≤ Bytes.strlen r then h.goto (.closing [] .tooLarge)
      else h.goto .strcpy).Logged := by
  have within : ¬ bufferSize ≤ Bytes.strlen r := Nat.not_le.mpr short
  unfold Handler.Logged at logged
  rw [point] at logged
  rw [if_neg within]
  exact logged

theorem Handler.Logged.strcpy {h : Handler} (logged : h.Logged) (point : h.point = .strcpy)
    {r : List UInt8} (short : r.length < bufferSize) :
    (match hostArray r h.host with
      | none => { h with request := r, point := .closing [] .noHost }
      | some host => { h with request := r, host := host, point := .getaddrinfo }).Logged := by
  have within : ¬ bufferSize ≤ Bytes.strlen r := Nat.not_le.mpr short
  unfold Handler.Logged at logged
  rw [point] at logged
  split
  · next none_found =>
    refine ⟨h.host, ⟨0, 0, []⟩, ?_⟩
    show clientHandler r h.host _ = some (h.log ++ [])
    rw [logged, clientHandler, if_neg within, none_found]
    rfl
  · next host found =>
    exact ⟨⟨short, h.host, Option.isSome_iff_exists.mpr ⟨host, found⟩⟩, logged⟩

/-- One call of a handler, except for `strlen` and `strcpy`. -/
theorem Handler.Logged.step {h : Handler} (logged : h.Logged) {call : Call}
    {k : call.Answer → Handler} (at_call : h.head = .op call k) (r : call.Answer)
    (first : h.point ≠ .strlen) (second : h.point ≠ .strcpy) : (k r).Logged := by
  unfold Handler.Logged at logged
  unfold Handler.head at at_call
  cases point : h.point with
  | loadClientSocket | loadRequest =>
    rw [point] at at_call
    cases at_call
  | printf =>
    rw [point] at at_call logged
    cases at_call
    exact logged
  | strlen => exact (first point).elim
  | strcpy => exact (second point).elim
  | getaddrinfo =>
    rw [point] at at_call logged
    cases at_call
    obtain ⟨resolved, empty⟩ := logged
    cases r with
    | none =>
      show ∃ host answers, clientHandler h.request host answers = some (h.log ++ _)
      rw [empty]
      exact clientHandler_unreachable resolved
    | some res => exact ⟨resolved, empty⟩
  | socket =>
    rw [point] at at_call logged
    cases at_call
    obtain ⟨resolved, empty⟩ := logged
    cases r with
    | none =>
      show ∃ host answers, clientHandler h.request host answers = some (h.log ++ _)
      rw [empty]
      exact clientHandler_unreachable resolved
    | some destSocket => exact ⟨resolved, empty⟩
  | connect =>
    rw [point] at at_call logged
    cases at_call
    obtain ⟨resolved, empty⟩ := logged
    cases r with
    | false =>
      show ∃ host answers, clientHandler h.request host answers = some (h.log ++ _)
      rw [empty]
      exact clientHandler_unreachable resolved
    | true => exact ⟨resolved, empty⟩
  | freeaddrinfo =>
    rw [point] at at_call logged
    cases at_call
    refine ⟨logged.1, ?_⟩
    show h.log ++ [.opens .destSocket] = _
    rw [logged.2]
    rfl
  | forward =>
    rw [point] at at_call logged
    cases at_call
    obtain ⟨resolved, before⟩ := logged
    have after : h.log ++ [.sends .destSocket h.request] =
        [.opens .destSocket, .sends .destSocket h.request] := by
      rw [before]
      rfl
    simp only
    split
    · show ∃ host answers, clientHandler h.request host answers =
        some (h.log ++ [.sends .destSocket h.request] ++ _)
      rw [after]
      exact clientHandler_unsent resolved
    · exact ⟨resolved, after⟩
  | calloc =>
    rw [point] at at_call logged
    cases at_call
    refine ⟨logged.1, [], nofun, ?_⟩
    show h.log ++ [.opens .buffer] = _
    rw [logged.2]
    rfl
  | read =>
    rw [point] at at_call logged
    cases at_call
    obtain ⟨resolved, rounds, ongoing, before⟩ := logged
    simp only
    split
    · next more =>
      refine ⟨resolved, ?_, rounds, ongoing, before⟩
      show r.data ≠ []
      cases r with
      | bytes data =>
        intro empty
        rw [show data = [] from empty] at more
        exact absurd more (by decide)
      | error => exact absurd more (by decide)
    · next ended =>
      show ∃ host answers, clientHandler h.request host answers = some (h.log ++ _)
      have ends : relay [(r, 0)] = some [.releases .clientSocket, .releases .destSocket,
          .releases .buffer, .releases .requestTemp] := by
        rw [relay, if_neg ended]
      rw [before]
      exact clientHandler_relayed resolved ongoing ends
  | write =>
    rw [point] at at_call logged
    cases at_call
    obtain ⟨resolved, some_bytes, rounds, ongoing, before⟩ := logged
    simp only
    split
    · show ∃ host answers, clientHandler h.request host answers =
        some (h.log ++ [.sends .clientSocket h.chunk] ++ _)
      have more : 0 < (Reading.bytes h.chunk).count :=
        Int.natCast_pos.mpr (List.length_pos_iff.mpr some_bytes)
      have ends : relay [(.bytes h.chunk, -1)] = some [.sends .clientSocket h.chunk,
          .releases .clientSocket, .releases .destSocket, .releases .buffer] := by
        rw [relay, if_pos more, if_pos rfl]
        rfl
      rw [before, List.append_assoc]
      exact clientHandler_relayed resolved ongoing ends
    · next sent =>
      refine ⟨resolved, rounds ++ [(h.chunk, r)], ongoing.snoc some_bytes sent, ?_⟩
      show h.log ++ [.sends .clientSocket h.chunk] = forwarding h.request ++ _
      rw [before, chunkSends_snoc, List.append_assoc]
  | closing todo exit =>
    rw [point] at at_call logged
    obtain ⟨host, answers, run⟩ := logged
    cases todo with
    | nil => cases at_call
    | cons c todo =>
      rw [List.flatMap_cons] at run
      cases c with
      | client | dest | buffer | request =>
        cases at_call
        refine ⟨host, answers, ?_⟩
        rw [← List.append_assoc] at run
        exact run
      | addrinfo | unconnected =>
        cases at_call
        exact ⟨host, answers, run⟩

/-! ## In a careful run -/

variable {inherited : Table} {s : State} {serverSocket clientSocket : Fd}
  {requestTemp : Option Block} {ctx : Context}

/-- The string that a handler measures and copies is what its client has sent. -/
theorem copied_request {share : Agent → Table} (holding : Holding inherited s share) {i : Nat}
    {h : Handler} (at_i : s.handlers[i]? = some h) (point : h.point = .strlen ∨ h.point = .strcpy)
    {o : Outcome} {r : List UInt8} {table : Table}
    (done : exec (.string h.requestTemp) o s.table = some (r, table)) : r.length < bufferSize := by
  obtain ⟨v, exactly, arrived, -, has, -⟩ := holding.handlers i h at_i
  have kept : .request ∈ holds h.point := by
    rcases point with point | point
    · rw [point]
      decide
    · rw [point]
      decide
  have later : h.point ≠ .loadClientSocket ∧ h.point ≠ .loadRequest := by
    rcases point with point | point
    · rw [point]
      decide
    · rw [point]
      decide
  have copied := has.copied later.1 later.2
  have known := holding.shared.get (request_block exactly kept)
  rw [copied.2] at done
  rw [(exec_string known done).1, arrived.stringAt]
  exact Nat.not_le.mp arrived.short

theorem logged
    (reached : Reachable (restrict Careful step)
      (init inherited serverSocket clientSocket requestTemp ctx) s) :
    ∀ h ∈ s.handlers, h.Logged := by
  apply reached.induction (motive := fun s => ∀ h ∈ s.handlers, h.Logged)
  · nofun
  · intro a b e before ih moved
    obtain ⟨careful, moved⟩ := restrict_eq_some.mp moved
    obtain ⟨share, holds⟩ := holding before
    cases step_move moved with
    | storeClientSocket | storeRequest | createFails | main => exact ih
    | create =>
      intro h member
      rcases List.mem_append.mp member with old | new
      · exact ih h old
      · rw [List.mem_singleton.mp new]
        rfl
    | @load i o h h' at_i loaded =>
      have was := ih h (List.mem_of_getElem? at_i)
      intro g member
      rcases List.mem_or_eq_of_mem_set member with old | rfl
      · exact ih g old
      · unfold Handler.Logged at was
        unfold Handler.load at loaded
        split at loaded
        · next point =>
          rw [point] at was
          cases loaded
          exact was
        · next point =>
          rw [point] at was
          cases loaded
          exact was
        · cases loaded
    | @handler i o h call k r table at_i at_call done =>
      have was := ih h (List.mem_of_getElem? at_i)
      intro g member
      rcases List.mem_or_eq_of_mem_set member with old | rfl
      · exact ih g old
      · by_cases first : h.point = .strlen
        · unfold Handler.head at at_call
          rw [first] at at_call
          cases at_call
          exact was.strlen first (copied_request holds at_i (Or.inl first) done)
        · by_cases second : h.point = .strcpy
          · unfold Handler.head at at_call
            rw [second] at at_call
            cases at_call
            exact was.strcpy second (copied_request holds at_i (Or.inr second) done)
          · exact was.step at_call r first second

end Os2Labs.Proxy.Process
