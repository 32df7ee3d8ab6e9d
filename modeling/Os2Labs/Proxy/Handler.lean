import Os2Labs.Proxy.GetHost

/-!
# `client_handler`

The life of one connection, from the copy of `ctx` to the return, under any answers of
`connect_to_remote`, `write` and `read`.  The model records what the handler opens,
releases and sends; `printf` is left out, and the format of `printf(request_temp)` with it.

Each exit has a clean-up of its own, and only the last one is complete: `released_iff`.
-/

namespace Os2Labs.Proxy

open Bytes

/-- What the handler owns. -/
inductive Resource where
  | clientSocket | destSocket | buffer | requestTemp
deriving DecidableEq

/-- What it does with it: `connect_to_remote` or `calloc`, `close` or `free`, and `write`. -/
inductive Action where
  | opens (r : Resource)
  | releases (r : Resource)
  | sends (r : Resource) (data : List UInt8)
deriving DecidableEq

/-- What `read` returns. -/
inductive Reading where
  | bytes (data : List UInt8)
  | error

def Reading.count : Reading → Int
  | .bytes data => data.length
  | .error => -1

def Reading.data : Reading → List UInt8
  | .bytes data => data
  | .error => []

/-- The results of the calls of a handler: of `connect_to_remote`, of the `write` of the request,
and of the `read` and the `write` of each round of the relay loop. -/
structure Answers where
  connectToRemote : Int
  forward : Int
  relay : List (Reading × Int)

/-- The relay loop and the exits behind it; it goes on for ever when the answers do not end it. -/
def relay : List (Reading × Int) → Option (List Action)
  | [] => none
  | (reading, bytesSent) :: rest =>
      if 0 < reading.count then
        if bytesSent = -1 then
          some [.sends .clientSocket reading.data, .releases .clientSocket, .releases .destSocket,
            .releases .buffer]
        else (relay rest).map (.sends .clientSocket reading.data :: ·)
      else
        some [.releases .clientSocket, .releases .destSocket, .releases .buffer,
          .releases .requestTemp]

/-- `client_handler`, with what is in its array `host` to begin with.  Here that is an array of its
own, behind which nothing stands. -/
def clientHandler (request : List UInt8) (host : Memory) (answers : Answers) :
    Option (List Action) :=
  if bufferSize ≤ strlen request then some []
  else
    match hostArray request host with
    | none => some []
    | some _ =>
        if answers.connectToRemote = -1 then some [.releases .clientSocket]
        else if answers.forward = -1 then
          some [.opens .destSocket, .sends .destSocket request, .releases .clientSocket,
            .releases .destSocket]
        else
          (relay answers.relay).map
            ([.opens .destSocket, .sends .destSocket request, .opens .buffer] ++ ·)

/-- Everything the handler owns has been released once: the socket of the client and the request
from the beginning, the other two when they have been opened. -/
structure ReleasedOnce (actions : List Action) : Prop where
  clientSocket : actions.count (.releases .clientSocket) = 1
  destSocket : actions.count (.releases .destSocket) = actions.count (.opens .destSocket)
  buffer : actions.count (.releases .buffer) = actions.count (.opens .buffer)
  requestTemp : actions.count (.releases .requestTemp) = 1

/-- The request is short enough and names a host, and no call fails. -/
structure Smooth (request : List UInt8) (answers : Answers) : Prop where
  short : strlen request < bufferSize
  host : ∃ flag, (flag = 0 ∨ flag = 1) ∧ ∃ h, Field flag request h ∧ h ≠ []
  connected : answers.connectToRemote ≠ -1
  forwarded : answers.forward ≠ -1
  relayed : ∀ round ∈ answers.relay.takeWhile (fun round => 0 < round.1.count), round.2 ≠ -1

/-- The handler finds a host when one of the two searches does. -/
theorem hostArray_isSome_iff (request : CString) (host : Memory) :
    (hostArray request.bytes host).isSome = true ↔
      ∃ flag, (flag = 0 ∨ flag = 1) ∧ ∃ h, Field flag request.bytes h ∧ h ≠ [] := by
  rcases hostArray_cases request host with ⟨h, b, field, nonempty, done, -⟩ |
    ⟨nothing, ⟨h, b, field, nonempty, done, -⟩ | ⟨nothing', failed⟩⟩
  · rw [done]
    exact ⟨fun _ => ⟨0, Or.inl rfl, h, field, nonempty⟩, fun _ => rfl⟩
  · rw [done]
    exact ⟨fun _ => ⟨1, Or.inr rfl, h, field, nonempty⟩, fun _ => rfl⟩
  · rw [failed]
    refine ⟨nofun, ?_⟩
    intro found
    rcases found with ⟨flag, rfl | rfl, h, field, nonempty⟩
    · exact (nonempty (nothing h field)).elim
    · exact (nonempty (nothing' h field)).elim

/-- What the relay loop releases. -/
theorem relay_releases {rounds : List (Reading × Int)} {actions : List Action}
    (returned : relay rounds = some actions) :
    actions.count (.releases .clientSocket) = 1 ∧ actions.count (.releases .destSocket) = 1 ∧
      actions.count (.releases .buffer) = 1 ∧ (∀ r, actions.count (.opens r) = 0) ∧
      (actions.count (.releases .requestTemp) = 1 ↔
        ∀ round ∈ rounds.takeWhile (fun round => 0 < round.1.count), round.2 ≠ -1) := by
  induction rounds generalizing actions with
  | nil => cases returned
  | cons round rest ih =>
    rcases round with ⟨reading, bytesSent⟩
    unfold relay at returned
    split at returned
    · next more =>
      rw [List.takeWhile_cons_of_pos (by simpa using more)]
      split at returned
      · next failed =>
        cases returned
        refine ⟨rfl, rfl, rfl, fun r => rfl, ?_⟩
        simp [failed]
      · next sent =>
        rcases Option.map_eq_some_iff.mp returned with ⟨actions, later, rfl⟩
        rcases ih later with ⟨client, dest, buffer, opened, request⟩
        simp only [List.count_cons, reduceCtorEq, beq_iff_eq, ↓reduceIte, Nat.add_zero,
          List.mem_cons, forall_eq_or_imp]
        exact ⟨client, dest, buffer, opened, request.trans ⟨fun all => ⟨sent, all⟩, And.right⟩⟩
    · next ended =>
      cases returned
      rw [List.takeWhile_cons_of_neg (by simpa using ended)]
      exact ⟨rfl, rfl, rfl, fun r => rfl, fun _ => nofun, fun _ => rfl⟩

/-- **When a handler releases everything once.**  For any request and any answers with which
`client_handler` returns, it has closed both sockets and freed both buffers exactly once if
and only if the request is short enough and names a host, and no call has failed. -/
theorem released_iff (request : CString) (host : Memory) (answers : Answers)
    {actions : List Action} (returned : clientHandler request.bytes host answers = some actions) :
    ReleasedOnce actions ↔ Smooth request.bytes answers := by
  unfold clientHandler at returned
  split at returned
  · next large =>
    cases returned
    constructor
    · intro released
      cases released.clientSocket
    · intro smooth
      exact (Nat.not_le.mpr smooth.short large).elim
  · next fits =>
    have found := hostArray_isSome_iff request host
    split at returned
    · next no_host =>
      cases returned
      rw [no_host] at found
      constructor
      · intro released
        cases released.clientSocket
      · intro smooth
        cases found.mpr smooth.host
    · next b some_host =>
      rw [some_host] at found
      split at returned
      · next unconnected =>
        cases returned
        constructor
        · intro released
          cases released.requestTemp
        · intro smooth
          exact (smooth.connected unconnected).elim
      · next connected =>
        split at returned
        · next unsent =>
          cases returned
          constructor
          · intro released
            cases released.requestTemp
          · intro smooth
            exact (smooth.forwarded unsent).elim
        · next forwarded =>
          rcases Option.map_eq_some_iff.mp returned with ⟨rest, looped, rfl⟩
          rcases relay_releases looped with ⟨client, dest, buffer, opened, request_freed⟩
          constructor
          · intro released
            have freed : rest.count (.releases .requestTemp) = 1 := by
              simpa using released.requestTemp
            exact ⟨Nat.not_le.mp fits, found.mp rfl, connected, forwarded,
              request_freed.mp freed⟩
          · intro smooth
            have freed := request_freed.mpr smooth.relayed
            constructor <;> simp [client, dest, buffer, opened, freed]

/-- A request for a host that cannot be reached. -/
def farHost : CString where
  bytes := ascii "GET http://a/"
  noNul := by decide

/-- A response of one byte. -/
def oneByte : Answers where
  connectToRemote := 5
  forward := 13
  relay := [(.bytes (ascii "x"), 1), (.bytes [], 0)]

theorem released_iff_served : ∃ actions,
    clientHandler farHost.bytes (fun _ => 0) oneByte = some actions ∧
      (ReleasedOnce actions ↔ Smooth farHost.bytes oneByte) :=
  ⟨_, rfl, released_iff farHost (fun _ => 0) oneByte rfl⟩

/-- When `connect_to_remote` fails the request is not freed. -/
theorem unreachable_host_leaks : ∃ actions,
    clientHandler farHost.bytes (fun _ => 0) { oneByte with connectToRemote := -1 } =
        some actions ∧
      actions = [.releases .clientSocket] ∧ ¬ ReleasedOnce actions := by
  refine ⟨_, rfl, rfl, ?_⟩
  intro released
  cases released.requestTemp

end Os2Labs.Proxy
