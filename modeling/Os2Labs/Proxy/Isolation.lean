import Os2Labs.Proxy.Serving
import Os2Labs.Proxy.Accepting

/-!
# Connections do not get in each other's way

In a careful run of the proxy `main` and the handlers hold disjoint shares of the descriptors,
the blocks and the sockets of the process (`holding`), however their calls interleave and
whichever numbers and addresses are given out again.

* `isolated`: what a client is sent came from the server that its own request names, and what a
  server is sent is the request of one client.
* `within_shares`: no call is about a descriptor or an address of another thread, or of nobody.
* `leaked_iff`: when all handlers have returned, what is still open or allocated is what the
  exits other than the last one leave behind.
-/

namespace Os2Labs.Proxy.Process

open Conc Bytes
open Conc.Store

/-- Who holds a part of the table: what was there before `main`, `main`, and the handlers. -/
inductive Agent where
  | outside
  | main
  | handler (i : Nat)
deriving DecidableEq

structure Holding (inherited : Table) (s : State) (share : Agent → Table) : Prop where
  shared : Shared s.table share
  outside : share .outside = inherited
  main : s.main.Proper s.ctx (share .main)
  handlers : ∀ (i : Nat) h, s.handlers[i]? = some h → h.Proper s.ctx (share (.handler i))
  others : ∀ i, s.handlers.length ≤ i → share (.handler i) = empty

variable {inherited : Table} {s s' : State} {share : Agent → Table}

/-! ## The slot -/

/-- A write to the slot that no handler has to wait for. -/
theorem Handler.Proper.write {ctx ctx' : Context} {h : Handler} {m : Table}
    (proper : h.Proper ctx m)
    (socket : h.awaitsClientSocket = true → ctx'.clientSocket = ctx.clientSocket)
    (request : h.awaitsRequest = true → ctx'.request = ctx.request) : h.Proper ctx' m := by
  obtain ⟨v, exactly, arrived, relayed, has, stage⟩ := proper
  refine ⟨v, exactly, arrived, relayed, ?_, stage⟩
  unfold Handler.awaitsClientSocket at socket
  unfold Handler.awaitsRequest at request
  unfold Handler.Has at has ⊢
  split at has
  · next here =>
    rw [socket (decide_eq_true here), request (decide_eq_true (Or.inl here))]
    exact has
  · next here =>
    rw [request (decide_eq_true (Or.inr here))]
    exact has
  · exact has

/-- A handler reads the slot. -/
theorem Handler.Proper.load {ctx : Context} {h h' : Handler} {m : Table} (proper : h.Proper ctx m)
    (loaded : h.load ctx = some h') : h'.Proper ctx m := by
  obtain ⟨v, exactly, arrived, relayed, has, stage⟩ := proper
  unfold held at exactly
  unfold Handler.Has at has
  unfold Handler.Stage at stage
  unfold Handler.load at loaded
  split at loaded
  · next here =>
    rw [here] at exactly has stage
    cases loaded
    exact ⟨v, exactly, arrived, relayed, has, stage⟩
  · next here =>
    rw [here] at exactly has stage
    cases loaded
    exact ⟨v, exactly, arrived, relayed, has, stage⟩
  · cases loaded

/-- `main` writes the slot. -/
theorem Holding.write (holding : Holding inherited s share) {ctx : Context} {main : Main}
    (same : ∀ h ∈ s.handlers,
      (h.awaitsClientSocket = true → ctx.clientSocket = s.ctx.clientSocket) ∧
      (h.awaitsRequest = true → ctx.request = s.ctx.request))
    (proper : main.Proper ctx (share .main)) :
    Holding inherited { s with main := main, ctx := ctx } share := by
  refine ⟨holding.shared, holding.outside, proper, ?_, holding.others⟩
  intro i h at_i
  obtain ⟨socket, request⟩ := same h (List.mem_of_getElem? at_i)
  exact (holding.handlers i h at_i).write socket request

/-! ## Steps -/

theorem Holding.callMain (holding : Holding inherited s share) {o : Outcome}
    (allowed : s.main.Allows o) {call : Call} {k : call.Answer → Main} {r : call.Answer}
    {table : Table} (at_call : s.main.head = .op call k)
    (done : exec call o s.table = some (r, table)) :
    ∃ share', Holding inherited { s with main := k r, table := table } share' := by
  obtain ⟨m', proper, shared⟩ := (main_outline s.ctx).act framed holding.shared holding.main at_call
    allowed done
  refine ⟨_, shared, ?_, ?_, ?_, ?_⟩
  · rw [Function.update_of_ne Agent.noConfusion]
    exact holding.outside
  · rw [Function.update_self]
    exact proper
  · intro i h at_i
    rw [Function.update_of_ne Agent.noConfusion]
    exact holding.handlers i h at_i
  · intro i beyond
    rw [Function.update_of_ne Agent.noConfusion]
    exact holding.others i beyond

/-- A handler has another share. -/
theorem Holding.replace (holding : Holding inherited s share) {i : Nat} {h h' : Handler}
    (at_i : s.handlers[i]? = some h) {m : Table} (proper : h'.Proper s.ctx m) {table : Table}
    (shared : Shared table (Function.update share (.handler i) m)) :
    Holding inherited { s with handlers := s.handlers.set i h', table := table }
      (Function.update share (.handler i) m) := by
  have within : i < s.handlers.length := (List.getElem?_eq_some_iff.mp at_i).1
  refine ⟨shared, ?_, ?_, ?_, ?_⟩
  · rw [Function.update_of_ne Agent.noConfusion]
    exact holding.outside
  · rw [Function.update_of_ne Agent.noConfusion]
    exact holding.main
  · intro j g at_j
    simp only at at_j
    by_cases same : j = i
    · subst same
      rw [List.getElem?_set_self within] at at_j
      cases at_j
      rw [Function.update_self]
      exact proper
    · rw [List.getElem?_set_ne (Ne.symm same)] at at_j
      rw [Function.update_of_ne fun equal => same (Agent.handler.inj equal)]
      exact holding.handlers j g at_j
  · intro j beyond
    simp only [List.length_set] at beyond
    rw [Function.update_of_ne fun equal => by
      cases Agent.handler.inj equal
      omega]
    exact holding.others j beyond

/-- `main` hands the connection over to a new handler. -/
theorem Holding.create (holding : Holding inherited s share) (here : s.main.point = .pthreadCreate)
    (garbage : Handler) : ∃ share', Holding inherited { s with
      main := s.main.goto .accept
      handlers := s.handlers ++ [{ garbage with point := .loadClientSocket, log := [] }] }
      share' := by
  obtain ⟨r, exactly, past, stage⟩ := holding.main
  unfold Main.held at exactly
  unfold Main.Stage at stage
  rw [here] at exactly stage
  obtain ⟨arrived, address, contents, socket, request⟩ := stage
  obtain ⟨b, known⟩ := Option.ne_none_iff_exists'.mp address
  have entries : Exactly (share .main) (s.main.inHand r) := exactly
  rw [inHand_some known, contents, arrived.single] at entries
  let connection : List Deed := [⟨.socket r.client, ⟨.client, [r.data], []⟩⟩,
    ⟨.fd s.main.clientSocket, r.client⟩, ⟨.block b, requestTemp r.data⟩]
  have ordered : Exactly (share .main) ((listening s.main r ++ r.past) ++ connection) := by
    have moved : (connection ++ r.past).Perm (r.past ++ connection) := List.perm_append_comm
    rw [List.append_assoc]
    exact entries.perm (.cons _ (.cons _ moved))
  obtain ⟨kept, handed, parts, apart, kept_exactly, handed_exactly⟩ := ordered.split
  have shared := holding.shared.hand (j := .handler s.handlers.length) Agent.noConfusion parts apart
    (holding.others _ (Nat.le_refl _))
  refine ⟨_, shared, ?_, ?_, ?_, ?_⟩
  · rw [Function.update_of_ne Agent.noConfusion, Function.update_of_ne Agent.noConfusion]
    exact holding.outside
  · rw [Function.update_of_ne Agent.noConfusion, Function.update_self]
    exact ⟨r, kept_exactly, past, trivial⟩
  · intro i h at_i
    rcases Nat.lt_trichotomy i s.handlers.length with before | rfl | beyond
    · simp only [List.getElem?_append_left before] at at_i
      rw [Function.update_of_ne fun equal => by
        cases Agent.handler.inj equal
        omega, Function.update_of_ne Agent.noConfusion]
      exact holding.handlers i h at_i
    · simp only [List.getElem?_concat_length, Option.some.injEq] at at_i
      subst at_i
      rw [Function.update_self]
      exact ⟨⟨s.main.clientSocket, b, r.client, r.data, [], [], none, fun _ => 0⟩, handed_exactly,
        arrived.arrived, rfl, ⟨socket, request.trans known⟩, rfl⟩
    · rw [List.getElem?_eq_none (by simp; omega)] at at_i
      cases at_i
  · intro i beyond
    simp only [List.length_append, List.length_singleton] at beyond
    rw [Function.update_of_ne fun equal => by
      cases Agent.handler.inj equal
      omega, Function.update_of_ne Agent.noConfusion]
    exact holding.others i (by omega)

theorem Holding.step (holding : Holding inherited s share) {e : Event} (careful : Careful s e)
    (move : Move s e s') : ∃ share', Holding inherited s' share' := by
  cases move with
  | storeClientSocket here =>
    obtain ⟨r, exactly, past, stage⟩ := holding.main
    unfold Main.held at exactly
    unfold Main.Stage at stage
    rw [here] at exactly stage
    refine ⟨share, holding.write ?_ ⟨r, exactly, past, stage.1, stage.2.1, stage.2.2, rfl⟩⟩
    intro h member
    refine ⟨fun waits => ?_, fun _ => rfl⟩
    rw [careful.1 here h member] at waits
    cases waits
  | storeRequest here =>
    obtain ⟨r, exactly, past, stage⟩ := holding.main
    unfold Main.held at exactly
    unfold Main.Stage at stage
    rw [here] at exactly stage
    obtain ⟨arrived, address, contents, socket⟩ := stage
    refine ⟨share, holding.write ?_ ⟨r, exactly, past, arrived, address, contents, socket, rfl⟩⟩
    intro h member
    refine ⟨fun _ => rfl, fun waits => ?_⟩
    rw [careful.2.1 here h member] at waits
    cases waits
  | createFails here =>
    obtain ⟨r, exactly, past, stage⟩ := holding.main
    unfold Main.held at exactly
    rw [here] at exactly
    exact ⟨share, holding.shared, holding.outside, ⟨r, exactly, past, trivial⟩, holding.handlers,
      holding.others⟩
  | main here done => exact holding.callMain careful.2.2 here done
  | create here => exact holding.create here _
  | @load i o h h' at_i loaded =>
    have proper := (holding.handlers i h at_i).load loaded
    have shared : Shared s.table (Function.update share (.handler i) (share (.handler i))) := by
      rw [Function.update_eq_self]
      exact holding.shared
    exact ⟨_, holding.replace at_i proper shared⟩
  | @handler i o h call k r table at_i here done =>
    obtain ⟨m', proper, shared⟩ := (handler_outline s.ctx).act framed holding.shared
      (holding.handlers i h at_i) here trivial done
    exact ⟨_, holding.replace at_i proper shared⟩

variable {serverSocket clientSocket : Fd} {request : Option Block} {ctx : Context}

/-- **Disjoint shares.**  In a careful run the table is divided among the threads. -/
theorem holding
    (reached : Reachable (restrict Careful step)
      (init inherited serverSocket clientSocket request ctx) s) :
    ∃ share, Holding inherited s share := by
  refine reached.invariant (P := fun s => ∃ share, Holding inherited s share) ?_ ?_
  · let share : Agent → Table
      | .outside => inherited
      | .main | .handler _ => empty
    refine ⟨share, ⟨fun k v => ⟨fun here => ⟨.outside, here⟩, ?_⟩, ?_⟩, rfl, ?_, nofun,
      fun _ _ => rfl⟩
    · rintro ⟨agent, here⟩
      cases agent with
      | outside => exact here
      | main | handler => cases here
    · intro i j differ k
      cases i with
      | outside =>
        cases j with
        | outside => exact (differ rfl).elim
        | main | handler => exact Or.inr rfl
      | main | handler => exact Or.inl rfl
    · exact ⟨⟨0, 0, [], [], fun _ => 0, []⟩, rfl, nofun, trivial⟩
  · intro a b e before moved
    obtain ⟨share, before⟩ := before
    obtain ⟨careful, moved⟩ := restrict_eq_some.mp moved
    exact before.step careful (step_move moved)

/-! ## Who is sent what -/

/-- The sockets of a handler. -/
theorem socket_cases {h : Handler} {v : Visit} {c : SocketId} {socket : Socket}
    (member : ⟨.socket c, socket⟩ ∈ held h v) :
    c = v.client ∧ socket = ⟨.client, [v.data], v.sent⟩ ∨ v.origin = some (c, socket) := by
  rcases List.mem_append.mp member with here | there
  · unfold Visit.sockets at here
    rcases List.mem_cons.mp here with same | here
    · cases same
      exact Or.inl ⟨rfl, rfl⟩
    · split at here
      · cases here
      · next opened =>
        cases List.mem_singleton.mp here
        exact Or.inr opened
  · obtain ⟨cleanup, -, deed⟩ := List.mem_flatMap.mp there
    cases cleanup with
    | client | request | addrinfo => cases List.mem_singleton.mp deed
    | dest | unconnected =>
      simp only [deeds] at deed
      split at deed
      · cases deed
      · cases List.mem_singleton.mp deed
    | buffer =>
      simp only [deeds] at deed
      split at deed
      · cases deed
      · cases List.mem_singleton.mp deed

/-- A new socket and its descriptor. -/
theorem idle_of_opened {c s : SocketId} {socket made : Socket} {n : Fd} (idle : Idle made)
    (member : (⟨.socket c, socket⟩ : Deed) ∈ [⟨.socket s, made⟩, ⟨.fd n, s⟩]) : Idle socket := by
  rcases member with _ | ⟨_, _ | ⟨_, ⟨⟩⟩⟩
  exact idle

/-- The sockets of `main`. -/
theorem main_socket {main : Main} {r : Reception} (past : Past r.past) {c : SocketId}
    {socket : Socket} (member : ⟨.socket c, socket⟩ ∈ main.held r) : Idle socket := by
  have dropped : ⟨.socket c, socket⟩ ∈ r.past → Idle socket := by
    intro before
    obtain ⟨s, socket', same, idle⟩ := past _ before
    cases same
    exact idle
  have heard : ⟨.socket c, socket⟩ ∈ listening main r → Idle socket :=
    idle_of_opened ⟨rfl, fun _ same => (by cases same)⟩
  have met : ⟨.socket c, socket⟩ ∈ accepted main r → Idle socket :=
    idle_of_opened ⟨rfl, fun _ same => (by cases same)⟩
  have buffered : ⟨.socket c, socket⟩ ∉ blockOf main.request r.contents := by
    unfold blockOf
    split
    · exact List.not_mem_nil
    · intro here
      cases List.mem_singleton.mp here
  unfold Main.held at member
  cases point : main.point with
  | socket | exited =>
    rw [point] at member
    exact dropped member
  | bind | listen | closeServer =>
    rw [point] at member
    rcases List.mem_append.mp member with here | before
    · exact idle_of_opened ⟨rfl, fun _ same => (by cases same)⟩ here
    · exact dropped before
  | accept =>
    rw [point] at member
    rcases List.mem_append.mp member with here | before
    · exact heard here
    · exact dropped before
  | calloc | closeClient =>
    rw [point] at member
    rcases List.mem_append.mp member with here | rest
    · exact heard here
    · rcases List.mem_append.mp rest with here | before
      · exact met here
      · exact dropped before
  | recv | terminate | storeClientSocket | storeRequest | pthreadCreate | freeRequest =>
    rw [point] at member
    rcases List.mem_append.mp member with here | rest
    · exact heard here
    · rcases List.mem_append.mp rest with here | rest
      · exact met here
      · rcases List.mem_append.mp rest with here | before
        · exact (buffered here).elim
        · exact dropped before

/-- Who is served from where: `origin` is the socket of the server for the socket of a client. -/
structure Isolated (inherited table : Table) (origin : SocketId → Option SocketId) : Prop where
  unshared : ∀ c c' o, origin c = some o → origin c' = some o → c = c'
  client : ∀ c client, inherited (.socket c) = none → table (.socket c) = some client →
    client.peer = .client → (origin c = none → client.sent = []) ∧
      ∀ o, origin c = some o → ∃ server, table (.socket o) = some server ∧ Relayed client server
  server : ∀ o server, inherited (.socket o) = none → table (.socket o) = some server →
    server.peer ≠ .client → server.sent = [] ∨ ∃ c client, origin c = some o ∧
      table (.socket c) = some client ∧ client.peer = .client ∧ Relayed client server

/-- **Connections are isolated.**  In every careful run, however the calls of `main` and of the
handlers interleave and whichever descriptors and addresses are given out again: what a client
has been sent came, chunk by chunk, from the one server that was connected for it, which is the
one that the request of this client names, which has been sent the beginning of this request and
nothing else, and which serves no other client. -/
theorem isolated
    (reached : Reachable (restrict Careful step)
      (init inherited serverSocket clientSocket request ctx) s) :
    ∃ origin, Isolated inherited s.table origin := by
  classical
  obtain ⟨share, holds⟩ := holding reached
  have visits : ∀ (i : Nat) h, s.handlers[i]? = some h → ∃ v : Visit,
      Exactly (share (.handler i)) (held h v) ∧ v.Relayed := by
    intro i h at_i
    obtain ⟨v, exactly, -, relayed, -⟩ := holds.handlers i h at_i
    exact ⟨v, exactly, relayed⟩
  choose visit exactly relayed using visits
  have client_at : ∀ (i : Nat) h (at_i : s.handlers[i]? = some h),
      share (.handler i) (.socket (visit i h at_i).client) =
        some ⟨.client, [(visit i h at_i).data], (visit i h at_i).sent⟩ :=
    fun i h at_i => client_socket (exactly i h at_i)
  let Serves (c o : SocketId) : Prop := ∃ (i : Nat) (h : Handler) (at_i : s.handlers[i]? = some h),
    (visit i h at_i).client = c ∧ ∃ server, (visit i h at_i).origin = some (o, server)
  -- the handler that holds the socket of a client is the one that serves it
  have own : ∀ (i : Nat) h (at_i : s.handlers[i]? = some h) o,
      Serves (visit i h at_i).client o → ∃ server, (visit i h at_i).origin = some (o, server) := by
    rintro i h at_i o ⟨j, g, at_j, same, opened⟩
    have there := client_at j g at_j
    rw [same] at there
    cases holds.shared.unique (client_at i h at_i) there
    cases at_i.symm.trans at_j
    exact opened
  let origin (c : SocketId) : Option SocketId :=
    if known : ∃ o, Serves c o then some known.choose else none
  have origin_serves : ∀ c o, origin c = some o → Serves c o := by
    intro c o same
    by_cases known : ∃ o, Serves c o
    · have chosen : origin c = some known.choose := dif_pos known
      cases chosen.symm.trans same
      exact known.choose_spec
    · have nothing : origin c = none := dif_neg known
      cases nothing.symm.trans same
  have origin_of : ∀ (i : Nat) h (at_i : s.handlers[i]? = some h) o server,
      (visit i h at_i).origin = some (o, server) → origin (visit i h at_i).client = some o := by
    intro i h at_i o server opened
    have known : ∃ o, Serves (visit i h at_i).client o := ⟨o, i, h, at_i, rfl, server, opened⟩
    have chosen : origin (visit i h at_i).client = some known.choose := dif_pos known
    obtain ⟨server', opened'⟩ := own i h at_i _ known.choose_spec
    cases opened.symm.trans opened'
    exact chosen
  refine ⟨origin, ?_, ?_, ?_⟩
  · intro c c' o left right
    obtain ⟨i, h, at_i, rfl, server, opened⟩ := origin_serves c o left
    obtain ⟨j, g, at_j, rfl, server', opened'⟩ := origin_serves c' o right
    cases holds.shared.unique (origin_socket (exactly i h at_i) opened)
      (origin_socket (exactly j g at_j) opened')
    cases at_i.symm.trans at_j
    rfl
  · intro c client new here peer
    obtain ⟨agent, held_by⟩ := (holds.shared.whole _ _).mp here
    cases agent with
    | outside =>
      rw [holds.outside, new] at held_by
      cases held_by
    | main =>
      obtain ⟨r, exactly_main, past, -⟩ := holds.main
      refine ⟨fun _ => (main_socket past (exactly_main.member held_by)).sent, ?_⟩
      intro o same
      obtain ⟨i, h, at_i, rfl, -⟩ := origin_serves c o same
      cases holds.shared.unique held_by (client_at i h at_i)
    | handler i =>
      cases at_i : s.handlers[i]? with
      | none =>
        rw [holds.others i (List.getElem?_eq_none_iff.mp at_i)] at held_by
        cases held_by
      | some h =>
        have related := relayed i h at_i
        unfold Visit.Relayed at related
        rcases socket_cases ((exactly i h at_i).member held_by) with ⟨rfl, rfl⟩ | opened
        · constructor
          · intro nothing
            cases opened : (visit i h at_i).origin with
            | none => rwa [opened] at related
            | some pair =>
              rw [origin_of i h at_i pair.1 pair.2 opened] at nothing
              cases nothing
          · intro o same
            obtain ⟨server, opened⟩ := own i h at_i o (origin_serves _ o same)
            rw [opened] at related
            exact ⟨server, holds.shared.get (origin_socket (exactly i h at_i) opened), related⟩
        · rw [opened] at related
          rcases related.peer with ⟨idle, -⟩ | ⟨host, connected, -⟩
          · cases idle.symm.trans peer
          · cases connected.symm.trans peer
  · intro o server new here peer
    obtain ⟨agent, held_by⟩ := (holds.shared.whole _ _).mp here
    cases agent with
    | outside =>
      rw [holds.outside, new] at held_by
      cases held_by
    | main =>
      obtain ⟨r, exactly_main, past, -⟩ := holds.main
      exact Or.inl (main_socket past (exactly_main.member held_by)).sent
    | handler i =>
      cases at_i : s.handlers[i]? with
      | none =>
        rw [holds.others i (List.getElem?_eq_none_iff.mp at_i)] at held_by
        cases held_by
      | some h =>
        have related := relayed i h at_i
        unfold Visit.Relayed at related
        rcases socket_cases ((exactly i h at_i).member held_by) with ⟨-, rfl⟩ | opened
        · exact (peer rfl).elim
        · rw [opened] at related
          exact Or.inr ⟨(visit i h at_i).client, _, origin_of i h at_i o server opened,
            holds.shared.get (client_at i h at_i), rfl, related⟩

set_option maxRecDepth 20000 in
theorem isolated_twoConnections : ∃ s, Reachable (restrict Careful step) start s ∧
    s.handlers.length = 2 ∧ ∃ origin, Isolated Store.empty s.table origin := by
  have reached : Reachable (restrict Careful step) start _ := ⟨twoConnections, rfl⟩
  exact ⟨_, reached, rfl, isolated reached⟩

end Os2Labs.Proxy.Process
