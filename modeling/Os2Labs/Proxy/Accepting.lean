import Os2Labs.Proxy.Holdings

/-!
# The calls of `main`

`main_outline`: the same for `main`, which holds the listening socket, the connection it is
dealing with, and the sockets of those that it has dropped.  It keeps to what it holds as long as
what it receives fits into the buffer.
-/

namespace Os2Labs.Proxy.Process

open Conc Bytes
open Conc.Store

/-- What is known of the connection that `main` is dealing with. -/
structure Reception where
  server : SocketId
  client : SocketId
  received : List (List UInt8)
  data : List UInt8
  contents : Memory
  past : List Deed

/-- A socket to which nothing was sent, and which is not connected to a server. -/
structure Idle (socket : Socket) : Prop where
  sent : socket.sent = []
  peer : ∀ host, socket.peer ≠ .server host

def Past (past : List Deed) : Prop := ∀ d ∈ past, ∃ s socket, d = ⟨.socket s, socket⟩ ∧ Idle socket

def listening (main : Main) (r : Reception) : List Deed :=
  [⟨.socket r.server, ⟨.listening, [], []⟩⟩, ⟨.fd main.serverSocket, r.server⟩]

def accepted (main : Main) (r : Reception) : List Deed :=
  [⟨.socket r.client, ⟨.client, r.received, []⟩⟩, ⟨.fd main.clientSocket, r.client⟩]

def blockOf (p : Option Block) (contents : Memory) : List Deed :=
  match p with
  | none => []
  | some b => [⟨.block b, contents⟩]

/-- What `main` holds at each point. -/
def Main.held (main : Main) (r : Reception) : List Deed :=
  match main.point with
  | .socket | .exited => r.past
  | .bind | .listen | .closeServer =>
      [⟨.socket r.server, ⟨.unconnected, [], []⟩⟩, ⟨.fd main.serverSocket, r.server⟩] ++ r.past
  | .accept => listening main r ++ r.past
  | .calloc | .closeClient => listening main r ++ (accepted main r ++ r.past)
  | .recv | .terminate _ | .storeClientSocket | .storeRequest | .pthreadCreate | .freeRequest =>
      listening main r ++ (accepted main r ++ (blockOf main.request r.contents ++ r.past))

/-- A single `recv` has delivered something that fits. -/
structure Reception.Arrived (r : Reception) : Prop where
  single : r.received = [r.data]
  arrived : Process.Arrived r.data

/-- How far it has got. -/
def Main.Stage (ctx : Context) (main : Main) (r : Reception) : Prop :=
  match main.point with
  | .socket | .bind | .listen | .closeServer | .exited | .accept | .closeClient
  | .freeRequest => True
  | .calloc => r.received = []
  | .recv => r.received = [] ∧ r.contents = fun _ => 0
  | .terminate bytesRead => bytesRead = r.data.length ∧ r.Arrived ∧ main.request ≠ none ∧
      r.contents = Memory.stores (fun _ => 0) (recv r.data)
  | .storeClientSocket => r.Arrived ∧ main.request ≠ none ∧ r.contents = requestTemp r.data
  | .storeRequest => r.Arrived ∧ main.request ≠ none ∧ r.contents = requestTemp r.data ∧
      ctx.clientSocket = main.clientSocket
  | .pthreadCreate => r.Arrived ∧ main.request ≠ none ∧ r.contents = requestTemp r.data ∧
      ctx.clientSocket = main.clientSocket ∧ ctx.request = main.request

/-- What `main` has for its share. -/
def Main.Proper (ctx : Context) (main : Main) (m : Table) : Prop :=
  ∃ r, Exactly m (main.held r) ∧ Past r.past ∧ main.Stage ctx r

variable {ctx : Context} {main : Main} {r : Reception} {m m' : Table} {o : Outcome}

theorem Past.cons {past : List Deed} (before : Past past) (s : SocketId) {socket : Socket}
    (idle : Idle socket) : Past (⟨.socket s, socket⟩ :: past) := by
  intro d member
  rcases List.mem_cons.mp member with same | member
  · exact ⟨s, socket, same, idle⟩
  · exact before d member

/-- The buffer of a request, with the terminator. -/
theorem requestTemp_stores {data : List UInt8} (nonempty : data ≠ []) :
    Memory.stores (Memory.stores (fun _ => 0) (recv data)) [(data.length, 0)] =
      requestTemp data := by
  have length : data.length ≠ 0 := fun empty => nonempty (List.eq_nil_of_length_eq_zero empty)
  rw [requestTemp, readRequest, if_neg length, stores_append]

theorem blockOf_live {p : Option Block} {contents : Memory} {front back : List Deed}
    (exactly : Exactly m (front ++ (blockOf p contents ++ back))) : Live p m := by
  intro b same
  subst same
  exact ⟨contents, exactly.get (List.mem_append_right _ (.head _))⟩

/-- With a connection and perhaps a buffer in hand. -/
def Main.inHand (main : Main) (r : Reception) : List Deed :=
  listening main r ++ (accepted main r ++ (blockOf main.request r.contents ++ r.past))

theorem inHand_live (exactly : Exactly m (main.inHand r)) : Live main.request m := by
  unfold Main.inHand at exactly
  rw [← List.append_assoc] at exactly
  exact blockOf_live exactly

theorem inHand_client (exactly : Exactly m (main.inHand r)) :
    m (.fd main.clientSocket) = some r.client ∧
      m (.socket r.client) = some ⟨.client, r.received, []⟩ :=
  ⟨exactly.get (.tail _ (.tail _ (.tail _ (.head _)))),
    exactly.get (.tail _ (.tail _ (.head _)))⟩

/-- With a buffer. -/
theorem inHand_some {b : Block} (request : main.request = some b) : main.inHand r =
    [⟨.socket r.server, ⟨.listening, [], []⟩⟩, ⟨.fd main.serverSocket, r.server⟩,
      ⟨.socket r.client, ⟨.client, r.received, []⟩⟩, ⟨.fd main.clientSocket, r.client⟩] ++
      ⟨.block b, r.contents⟩ :: r.past := by
  simp only [Main.inHand, blockOf, request]
  rfl

/-- Without one. -/
theorem inHand_none (request : main.request = none) :
    main.inHand r = listening main r ++ (accepted main r ++ r.past) := by
  simp only [Main.inHand, blockOf, request]
  rfl

/-- The calls are about what `main` holds. -/
theorem Main.Proper.safe (proper : main.Proper ctx m) {call : Call} {k : call.Answer → Main}
    (at_call : main.head = .op call k) : ¬ Faults call m := by
  obtain ⟨r, exactly, past, stage⟩ := proper
  unfold Main.head at at_call
  unfold Main.held at exactly
  unfold Main.Stage at stage
  cases point : main.point with
  | storeClientSocket | storeRequest | pthreadCreate | exited =>
    rw [point] at at_call
    cases at_call
  | socket | calloc =>
    rw [point] at at_call
    cases at_call
    exact id
  | bind | listen | closeServer | accept =>
    rw [point] at at_call exactly
    cases at_call
    exact not_not.mpr ⟨r.server, _, exactly.get (.tail _ (.head _)), exactly.get (.head _)⟩
  | recv =>
    rw [point] at at_call exactly
    cases at_call
    obtain ⟨here, there⟩ := inHand_client exactly
    exact not_not.mpr ⟨⟨r.client, _, here, there⟩, inHand_live exactly⟩
  | terminate bytesRead =>
    rw [point] at at_call exactly stage
    cases at_call
    obtain ⟨length, arrived, address, -⟩ := stage
    rw [length]
    exact not_not.mpr ⟨arrived.arrived.fits.1, address, inHand_live exactly⟩
  | freeRequest =>
    rw [point] at at_call exactly
    cases at_call
    exact not_not.mpr (inHand_live exactly)
  | closeClient =>
    rw [point] at at_call exactly
    cases at_call
    exact not_not.mpr ⟨r.client, _, exactly.get (.tail _ (.tail _ (.tail _ (.head _)))),
      exactly.get (.tail _ (.tail _ (.head _)))⟩

/-! ## What the calls lead to -/

theorem keeps_serverSocket (proper : main.Proper ctx m) (point : main.point = .socket)
    {answer : Option Fd} (moved : exec .socket o m = some (answer, m')) :
    (match answer with
      | none => main.goto .exited
      | some serverSocket => { main with serverSocket := serverSocket, point := .bind }).Proper
      ctx m' := by
  obtain ⟨r, exactly, past, stage⟩ := proper
  unfold Main.held at exactly
  rw [point] at exactly
  rcases exec_socket moved with ⟨rfl, rfl⟩ | ⟨fd, s, rfl, opened⟩
  · exact ⟨r, exactly, past, trivial⟩
  · obtain ⟨free, new, rfl⟩ := newSocket_eq_some opened
    have with_socket := exactly.new [] new ⟨.unconnected, [], []⟩
    have unused : Function.update m (.socket s) (some ⟨.unconnected, [], []⟩) (.fd fd) = none := by
      rwa [Function.update_of_ne Key.noConfusion]
    exact ⟨{ r with server := s }, with_socket.new [_] unused s, past, trivial⟩

theorem keeps_listen (proper : main.Proper ctx m) (point : main.point = .listen) {answer : Bool}
    (moved : exec (.listen main.serverSocket) o m = some (answer, m')) :
    (main.goto (if answer then .accept else .closeServer)).Proper ctx m' := by
  obtain ⟨r, exactly, past, stage⟩ := proper
  unfold Main.held at exactly
  rw [point] at exactly
  have here := exactly.get (k := .fd main.serverSocket) (.tail _ (.head _))
  have there := exactly.get (k := .socket r.server) (.head _)
  rcases exec_listen here there moved with ⟨rfl, rfl⟩ | ⟨rfl, rfl⟩
  · exact ⟨r, exactly, past, trivial⟩
  · exact ⟨r, exactly.put [] ⟨.listening, [], []⟩, past, trivial⟩

theorem keeps_closeServer (proper : main.Proper ctx m) (point : main.point = .closeServer)
    {answer : Unit} (moved : exec (.close main.serverSocket) o m = some (answer, m')) :
    (main.goto .exited).Proper ctx m' := by
  obtain ⟨r, exactly, past, stage⟩ := proper
  unfold Main.held at exactly
  rw [point] at exactly
  cases moved
  have idle : Idle ⟨.unconnected, [], []⟩ := ⟨rfl, nofun⟩
  exact ⟨{ r with past := ⟨.socket r.server, ⟨.unconnected, [], []⟩⟩ :: r.past },
    exactly.drop [_], past.cons r.server idle, trivial⟩

theorem keeps_accept (proper : main.Proper ctx m) (point : main.point = .accept)
    {answer : Option Fd} (moved : exec (.accept main.serverSocket) o m = some (answer, m')) :
    (match answer with
      | none => main
      | some clientSocket => { main with clientSocket := clientSocket, point := .calloc }).Proper
      ctx m' := by
  have before := proper
  obtain ⟨r, exactly, past, stage⟩ := proper
  unfold Main.held at exactly
  rw [point] at exactly
  rcases exec_accept moved with ⟨rfl, rfl⟩ | ⟨k, s, rfl, opened⟩
  · exact before
  · obtain ⟨free, new, rfl⟩ := newSocket_eq_some opened
    have with_socket := exactly.new [_, _] new ⟨.client, [], []⟩
    have unused : Function.update m (.socket s) (some ⟨.client, [], []⟩) (.fd k) = none := by
      rwa [Function.update_of_ne Key.noConfusion]
    exact ⟨{ r with client := s, received := [] }, with_socket.new [_, _, _] unused s, past, rfl⟩

theorem keeps_request (proper : main.Proper ctx m) (point : main.point = .calloc)
    {answer : Option Block} (moved : exec .calloc o m = some (answer, m')) :
    Main.Proper ctx { main with request := answer, point := .recv } m' := by
  obtain ⟨r, exactly, past, stage⟩ := proper
  unfold Main.held at exactly
  unfold Main.Stage at stage
  rw [point] at exactly stage
  rcases exec_calloc moved with ⟨rfl, rfl⟩ | ⟨b, rfl, unused, rfl⟩
  · exact ⟨{ r with contents := fun _ => 0 }, exactly, past, stage, rfl⟩
  · exact ⟨{ r with contents := fun _ => 0 }, exactly.new [_, _, _, _] unused fun _ => 0, past,
      stage, rfl⟩

theorem keeps_recv (proper : main.Proper ctx m) (point : main.point = .recv) (fits : o.Fits)
    {answer : Reading}
    (moved : exec (.read main.clientSocket main.request) o m = some (answer, m')) :
    (if answer.count = -1 ∨ answer.count = 0 then main.goto .freeRequest
      else main.goto (.terminate answer.data.length)).Proper ctx m' := by
  obtain ⟨r, exactly, past, stage⟩ := proper
  unfold Main.held at exactly
  unfold Main.Stage at stage
  rw [point] at exactly stage
  have entries : Exactly m (main.inHand r) := exactly
  obtain ⟨here, there⟩ := inHand_client entries
  rcases exec_read here there moved with ⟨rfl, rfl⟩ | ⟨data, w, rfl, rfl, short, filled, rfl⟩
  · have failed : Reading.error.count = -1 ∨ Reading.error.count = 0 := Or.inl rfl
    rw [if_pos failed]
    exact ⟨r, entries, past, trivial⟩
  · rcases Option.eq_none_or_eq_some main.request with request | ⟨b, request⟩
    · -- nothing can be received at `NULL`
      rw [request] at filled
      obtain ⟨rfl, rfl⟩ := fill_null filled
      have nothing : (Reading.bytes []).count = -1 ∨ (Reading.bytes []).count = 0 := Or.inr rfl
      rw [if_pos nothing]
      exact ⟨{ r with received := r.received ++ [[]] },
        entries.put [_, _] ⟨.client, r.received ++ [[]], []⟩, past, trivial⟩
    · rw [inHand_some request] at entries
      rw [request] at filled
      have known : m (.block b) = some r.contents := entries.get
        (.tail _ (.tail _ (.tail _ (.tail _ (.head _)))))
      have changed := (entries.put [_, _, _, _] (r.contents.stores (recv data))).put [_, _]
        ⟨.client, r.received ++ [data], []⟩
      rw [← fill_block known filled, stage.1, stage.2, List.nil_append] at changed
      let later : Reception := { r with
        received := [data]
        data := data
        contents := Memory.stores (fun _ => 0) (recv data) }
      have kept : Exactly (Function.update w (.socket r.client) (some ⟨.client, [data], []⟩))
          (main.inHand later) := by
        rw [inHand_some request]
        exact changed
      have same : r.received ++ [data] = [data] := by rw [stage.1, List.nil_append]
      show Main.Proper ctx _ (Function.update w (.socket r.client)
        (some ⟨.client, r.received ++ [data], []⟩))
      rw [same]
      split
      · exact ⟨later, kept, past, trivial⟩
      · next arrived =>
        have nonempty : data ≠ [] := by
          intro empty
          rw [empty] at arrived
          exact arrived (Or.inr rfl)
        refine ⟨later, kept, past, rfl, ⟨rfl, nonempty, fits⟩, ?_, rfl⟩
        show main.request ≠ none
        rw [request]
        exact Option.some_ne_none b

theorem keeps_terminate (proper : main.Proper ctx m) {bytesRead : Nat}
    (point : main.point = .terminate bytesRead) {answer : Unit}
    (moved : exec (.store main.request bytesRead 0) o m = some (answer, m')) :
    (main.goto .storeClientSocket).Proper ctx m' := by
  obtain ⟨r, exactly, past, stage⟩ := proper
  unfold Main.held at exactly
  unfold Main.Stage at stage
  rw [point] at exactly stage
  obtain ⟨rfl, arrived, address, contents⟩ := stage
  have entries : Exactly m (main.inHand r) := exactly
  obtain ⟨b, request⟩ := Option.ne_none_iff_exists'.mp address
  rw [inHand_some request] at entries
  rw [request] at moved
  have known : m (.block b) = some r.contents := entries.get
    (.tail _ (.tail _ (.tail _ (.tail _ (.head _)))))
  let later : Reception := { r with contents := requestTemp r.data }
  have changed := entries.put [_, _, _, _] (requestTemp r.data)
  refine ⟨later, ?_, past, ⟨arrived.single, arrived.arrived⟩, address, rfl⟩
  show Exactly m' (main.inHand later)
  rw [exec_store known moved, contents, requestTemp_stores arrived.arrived.nonempty,
    inHand_some request]
  exact changed

theorem keeps_freeRequest (proper : main.Proper ctx m) (point : main.point = .freeRequest)
    {answer : Unit} (moved : exec (.free main.request) o m = some (answer, m')) :
    (main.goto .closeClient).Proper ctx m' := by
  obtain ⟨r, exactly, past, stage⟩ := proper
  unfold Main.held at exactly
  rw [point] at exactly
  have entries : Exactly m (main.inHand r) := exactly
  rcases Option.eq_none_or_eq_some main.request with request | ⟨b, request⟩
  · rw [request] at moved
    rw [inHand_none request] at entries
    cases moved
    exact ⟨r, entries, past, trivial⟩
  · rw [request] at moved
    rw [inHand_some request] at entries
    cases moved
    exact ⟨r, entries.drop [_, _, _, _], past, trivial⟩

theorem keeps_closeClient (proper : main.Proper ctx m) (point : main.point = .closeClient)
    {answer : Unit} (moved : exec (.close main.clientSocket) o m = some (answer, m')) :
    (main.goto .accept).Proper ctx m' := by
  obtain ⟨r, exactly, past, stage⟩ := proper
  unfold Main.held at exactly
  rw [point] at exactly
  cases moved
  have idle : Idle ⟨.client, r.received, []⟩ := ⟨rfl, nofun⟩
  exact ⟨{ r with past := ⟨.socket r.client, ⟨.client, r.received, []⟩⟩ :: r.past },
    exactly.drop [_, _, _], past.cons r.client idle, trivial⟩

/-- **What `main` has at each point.** -/
theorem main_outline (ctx : Context) :
    Outline kernel Main.head Main.Allows (Main.Proper ctx) := by
  refine ⟨fun main m call k proper at_call => proper.safe at_call, ?_⟩
  intro main m call k o answer m' proper at_call allowed moved
  have at_point := at_call
  unfold Main.head at at_point
  cases point : main.point with
  | storeClientSocket | storeRequest | pthreadCreate | exited =>
    rw [point] at at_point
    cases at_point
  | socket =>
    rw [point] at at_point
    cases at_point
    cases answer with
    | none => exact keeps_serverSocket proper point moved
    | some fd => exact keeps_serverSocket proper point moved
  | bind =>
    rw [point] at at_point
    cases at_point
    obtain ⟨r, exactly, past, stage⟩ := proper
    unfold Main.held at exactly
    rw [point] at exactly
    obtain rfl := exec_bind moved
    cases answer with
    | true => exact ⟨r, exactly, past, trivial⟩
    | false => exact ⟨r, exactly, past, trivial⟩
  | listen =>
    rw [point] at at_point
    cases at_point
    exact keeps_listen proper point moved
  | closeServer =>
    rw [point] at at_point
    cases at_point
    have moved : exec (.close main.serverSocket) o m = some (answer, m') := moved
    exact keeps_closeServer proper point moved
  | accept =>
    rw [point] at at_point
    cases at_point
    cases answer with
    | none => exact keeps_accept proper point moved
    | some fd => exact keeps_accept proper point moved
  | calloc =>
    rw [point] at at_point
    cases at_point
    exact keeps_request proper point moved
  | recv =>
    rw [point] at at_point
    cases at_point
    exact keeps_recv proper point (allowed point) moved
  | terminate bytesRead =>
    rw [point] at at_point
    cases at_point
    exact keeps_terminate proper point moved
  | freeRequest =>
    rw [point] at at_point
    cases at_point
    exact keeps_freeRequest proper point moved
  | closeClient =>
    rw [point] at at_point
    cases at_point
    have moved : exec (.close main.clientSocket) o m = some (answer, m') := moved
    exact keeps_closeClient proper point moved

end Os2Labs.Proxy.Process
