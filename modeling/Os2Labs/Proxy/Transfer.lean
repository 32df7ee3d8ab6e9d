import Os2Labs.Proxy.Request

/-!
# What arrives at the client

`client_handler` writes to the client what it reads from the origin server.  `write` answers with
the number of bytes it has accepted, and the handler only looks whether that is -1.

`relays_iff`: the client receives what the server has sent unless some `write` accepts only a part,
as the rest of that chunk is not written again.
-/

namespace Os2Labs.Proxy

open Bytes

/-- What the handler asks `write` to send. -/
def sends (r : Resource) (actions : List Action) : List (List UInt8) :=
  actions.filterMap fun
    | .sends r' data => if r' = r then some data else none
    | _ => none

/-- What is accepted of it, by the results of `write`. -/
def accepted (requests : List (List UInt8)) (results : List Int) : List UInt8 :=
  (List.zipWith (fun data n => data.take n.toNat) requests results).flatten

theorem sends_append (r : Resource) (actions actions' : List Action) :
    sends r (actions ++ actions') = sends r actions ++ sends r actions' :=
  List.filterMap_append

/-- What the handler does before the relay loop, when nothing has been stored over its array
`request`. -/
def forwarding (request : List UInt8) : List Action :=
  [.opens .destSocket, .sends .destSocket request, .opens .buffer]

/-- A handler that gets to the relay loop. -/
theorem clientHandler_forwards {request : List UInt8} {host : Memory} {answers : Answers}
    (short : request.length < bufferSize) (resolved : (hostArray request host).isSome = true)
    (connected : answers.connectToRemote ≠ -1) (forwarded : answers.forward ≠ -1) :
    clientHandler request host answers =
      (relay answers.relay).map (forwarding request ++ ·) := by
  obtain ⟨b, found⟩ := Option.isSome_iff_exists.mp resolved
  simp only [clientHandler, strlen, if_neg (Nat.not_le.mpr short), found, if_neg connected,
    if_neg forwarded, forwarding]

/-! ## The relay loop -/

/-- What one `read` delivers, and how much of it `write` accepts. -/
structure Chunk where
  data : List UInt8
  accepted : Nat
  size : 1 ≤ data.length ∧ data.length ≤ bufferSize
  some_accepted : 1 ≤ accepted ∧ accepted ≤ data.length

/-- The rounds of a response, and the end of it. -/
def rounds (chunks : List Chunk) (last : Int) : List (Reading × Int) :=
  chunks.map (fun c => (.bytes c.data, (c.accepted : Int))) ++ [(.bytes [], last)]

theorem relay_rounds (chunks : List Chunk) (last : Int) :
    relay (rounds chunks last) =
      some (chunks.map (fun c => .sends .clientSocket c.data) ++ [.releases .clientSocket,
        .releases .destSocket, .releases .buffer, .releases .requestTemp]) := by
  induction chunks with
  | nil => rfl
  | cons c chunks ih =>
    have more : 0 < (Reading.bytes c.data).count := Int.natCast_pos.mpr c.size.1
    have sent : ¬ (c.accepted : Int) = -1 := by omega
    show relay ((.bytes c.data, (c.accepted : Int)) :: rounds chunks last) = _
    rw [relay, if_pos more, if_neg sent, ih]
    rfl

/-- What was accepted of the chunks. -/
theorem accepted_rounds (chunks : List Chunk) (last : Int) :
    accepted (chunks.map Chunk.data) ((rounds chunks last).map Prod.snd) =
      chunks.flatMap fun c => c.data.take c.accepted := by
  induction chunks with
  | nil => rfl
  | cons c chunks ih =>
    rw [List.flatMap_cons, ← ih]
    rfl

/-- Chunks that are shortened are less than the whole. -/
theorem flatMap_take_iff (chunks : List Chunk) :
    (chunks.flatMap fun c => c.data.take c.accepted) = chunks.flatMap Chunk.data ↔
      ∀ c ∈ chunks, c.accepted = c.data.length := by
  constructor
  · intro same
    have shorter : ∀ chunks : List Chunk,
        (chunks.flatMap fun c => c.data.take c.accepted).length ≤
          (chunks.flatMap Chunk.data).length := by
      intro chunks
      induction chunks with
      | nil => exact Nat.le_refl _
      | cons c chunks ih =>
        simp only [List.flatMap_cons, List.length_append, List.length_take]
        omega
    induction chunks with
    | nil => nofun
    | cons c chunks ih =>
      have lengths := congrArg List.length same
      have rest := shorter chunks
      have fits := c.some_accepted.2
      simp only [List.flatMap_cons, List.length_append, List.length_take] at lengths
      have whole : c.accepted = c.data.length := by omega
      rw [List.flatMap_cons, List.flatMap_cons, whole, List.take_length] at same
      rw [List.forall_mem_cons]
      exact ⟨whole, ih (List.append_cancel_left same)⟩
  · intro whole
    apply List.flatMap_congr
    intro c member
    rw [whole c member, List.take_length]

/-- **When the relay loop is lossless.**  For any chunks that `read` delivers and any results of
`write` other than -1: when the handler reaches its normal end, where it frees the request, the
client has received what the server has sent if and only if every `write` has accepted the
whole chunk. -/
theorem relays_iff {request : CString} {host : Memory} {answers : Answers} {chunks : List Chunk}
    {last : Int} (relayed : answers.relay = rounds chunks last) {actions : List Action}
    (returned : clientHandler request.bytes host answers = some actions)
    (normal : .releases .requestTemp ∈ actions) :
    accepted (sends .clientSocket actions) (answers.relay.map Prod.snd) =
        chunks.flatMap Chunk.data ↔
      ∀ c ∈ chunks, c.accepted = c.data.length := by
  let closing : List Action := [.releases .clientSocket, .releases .destSocket, .releases .buffer,
    .releases .requestTemp]
  let chunkSends : List Action := chunks.map fun c => .sends .clientSocket c.data
  have looped : actions = forwarding request.bytes ++ (chunkSends ++ closing) := by
    -- the other exits do not free the request
    unfold clientHandler at returned
    split at returned
    · cases returned
      cases normal
    · split at returned
      · cases returned
        cases normal
      · split at returned
        · cases returned
          simp at normal
        · split at returned
          · cases returned
            simp at normal
          · rw [relayed, relay_rounds, Option.map_some] at returned
            exact (Option.some.inj returned).symm
  have requests : sends .clientSocket actions = chunks.map Chunk.data := by
    rw [looped, sends_append, sends_append]
    simp [sends, forwarding, chunkSends, closing, List.filterMap_map]
  rw [requests, relayed, accepted_rounds, flatMap_take_iff]

/-- Two bytes of which `write` accepts one, and two of which it accepts both. -/
def halfChunk : Chunk where
  data := ascii "ab"
  accepted := 1
  size := by decide
  some_accepted := by decide

def wholeChunk : Chunk := { halfChunk with accepted := 2, some_accepted := by decide }

/-- A handler that is given these chunks. -/
def answering (chunks : List Chunk) : Answers where
  connectToRemote := 5
  forward := 13
  relay := rounds chunks 0

theorem relays_iff_whole : ∃ actions,
    clientHandler farHost.bytes (fun _ => 0) (answering [wholeChunk, wholeChunk]) = some actions ∧
      accepted (sends .clientSocket actions)
          ((answering [wholeChunk, wholeChunk]).relay.map Prod.snd) = ascii "abab" := by
  have relayed : (answering [wholeChunk, wholeChunk]).relay = rounds [wholeChunk, wholeChunk] 0 :=
    rfl
  have returned : clientHandler farHost.bytes (fun _ => 0)
      (answering [wholeChunk, wholeChunk]) = some _ := rfl
  refine ⟨_, returned, ?_⟩
  exact (relays_iff relayed returned (by decide)).mpr (by simp [wholeChunk, halfChunk, ascii])

/-- The rest of a chunk that was accepted in part is lost. -/
theorem partial_write_loses : ∃ actions,
    clientHandler farHost.bytes (fun _ => 0) (answering [halfChunk, wholeChunk]) = some actions ∧
      .releases .requestTemp ∈ actions ∧
      accepted (sends .clientSocket actions)
          ((answering [halfChunk, wholeChunk]).relay.map Prod.snd) = ascii "aab" ∧
      accepted (sends .clientSocket actions)
          ((answering [halfChunk, wholeChunk]).relay.map Prod.snd) ≠
        [halfChunk, wholeChunk].flatMap Chunk.data :=
  ⟨_, rfl, by decide, by decide, by decide⟩

end Os2Labs.Proxy
