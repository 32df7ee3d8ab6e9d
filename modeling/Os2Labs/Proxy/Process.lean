import Os2Labs.Conc.Runs
import Os2Labs.Proxy.Kernel

/-!
# The proxy as a process

`main` of `proxy/main.c`, from `create_server_socket` on, and the handlers it creates, which run
at the same time: every call, every access to the slot `ctx` and every creation of a thread is
one step of a `run`.  The functions `create_server_socket`, `read_request`, `connect_to_remote`
and `get_host` are part of the points of `main` and of `client_handler` that call them.

`printf` and `perror` of texts of the program are left out; `printf` of the request is a call.
-/

namespace Os2Labs.Proxy.Process

open Conc Bytes

/-- `context`. -/
structure Context where
  clientSocket : Fd
  request : Option Block
deriving DecidableEq

/-! ## `client_handler` -/

/-- How a handler returns: the request is too large, it names no host, `connect_to_remote` fails,
the request cannot be sent, the response cannot be sent, or the response is over. -/
inductive Exit where
  | tooLarge | noHost | unreachable | unsent | cut | served
deriving DecidableEq

/-- What a handler has to release: with `close` or `free`, or in `connect_to_remote`, with
`freeaddrinfo` and with `close` of the socket that it could not connect. -/
inductive Cleanup where
  | client | dest | buffer | request | addrinfo | unconnected
deriving DecidableEq

inductive Point where
  | loadClientSocket
  | loadRequest
  | printf
  | strlen
  | strcpy
  | getaddrinfo
  | socket
  | connect
  | freeaddrinfo
  | forward
  | calloc
  | read
  | write
  | closing (todo : List Cleanup) (exit : Exit)
deriving DecidableEq

/-- A handler with its local variables. `chunk` is what the last `read` has delivered, so that its
length is `bytes_read`; `log` is what it has done so far, for the record. -/
structure Handler where
  point : Point
  clientSocket : Fd
  requestTemp : Option Block
  request : List UInt8
  host : Memory
  res : AddrInfo
  destSocket : Fd
  buffer : Option Block
  chunk : List UInt8
  log : List Action

/-- The string in the array `host`. -/
def hostName (host : Memory) : List UInt8 := ((List.range hostLen).map host).takeWhile (· ≠ 0)

def Handler.goto (h : Handler) (point : Point) : Handler := { h with point := point }

def Handler.note (h : Handler) (action : Action) : Handler := { h with log := h.log ++ [action] }

/-- The next call of `client_handler`, and where it goes on. -/
def Handler.head (h : Handler) : Head Calls Unit Handler :=
  match h.point with
  | .loadClientSocket | .loadRequest => .ret ()
  | .printf => .op (.printf h.requestTemp) fun _ => h.goto .strlen
  | .strlen => .op (.string h.requestTemp) fun s =>
      if bufferSize ≤ Bytes.strlen s then h.goto (.closing [] .tooLarge) else h.goto .strcpy
  | .strcpy => .op (.string h.requestTemp) fun s =>
      match hostArray s h.host with
      | none => { h with request := s, point := .closing [] .noHost }
      | some host => { h with request := s, host := host, point := .getaddrinfo }
  | .getaddrinfo => .op (.getaddrinfo (hostName h.host)) fun
      | none => h.goto (.closing [.client] .unreachable)
      | some res => { h with res := res, point := .socket }
  | .socket => .op .socket fun
      | none => h.goto (.closing [.addrinfo, .client] .unreachable)
      | some destSocket => { h with destSocket := destSocket, point := .connect }
  | .connect => .op (.connect h.destSocket h.res) fun connected =>
      if connected then h.goto .freeaddrinfo
      else h.goto (.closing [.unconnected, .addrinfo, .client] .unreachable)
  | .freeaddrinfo => .op (.freeaddrinfo h.res) fun _ =>
      (h.note (.opens .destSocket)).goto .forward
  | .forward => .op (.write h.destSocket h.request) fun bytesSent =>
      (h.note (.sends .destSocket h.request)).goto
        (if bytesSent = -1 then .closing [.client, .dest] .unsent else .calloc)
  | .calloc => .op .calloc fun buffer =>
      { h.note (.opens .buffer) with buffer := buffer, point := .read }
  | .read => .op (.read h.destSocket h.buffer) fun reading =>
      if 0 < reading.count then { h with chunk := reading.data, point := .write }
      else h.goto (.closing [.client, .dest, .buffer, .request] .served)
  | .write => .op (.writeBlock h.clientSocket h.buffer h.chunk.length) fun bytesSent =>
      (h.note (.sends .clientSocket h.chunk)).goto
        (if bytesSent = -1 then .closing [.client, .dest, .buffer] .cut else .read)
  | .closing [] _ => .ret ()
  | .closing (.client :: todo) exit => .op (.close h.clientSocket) fun _ =>
      (h.note (.releases .clientSocket)).goto (.closing todo exit)
  | .closing (.dest :: todo) exit => .op (.close h.destSocket) fun _ =>
      (h.note (.releases .destSocket)).goto (.closing todo exit)
  | .closing (.buffer :: todo) exit => .op (.free h.buffer) fun _ =>
      (h.note (.releases .buffer)).goto (.closing todo exit)
  | .closing (.request :: todo) exit => .op (.free h.requestTemp) fun _ =>
      (h.note (.releases .requestTemp)).goto (.closing todo exit)
  | .closing (.addrinfo :: todo) exit => .op (.freeaddrinfo h.res) fun _ =>
      h.goto (.closing todo exit)
  | .closing (.unconnected :: todo) exit => .op (.close h.destSocket) fun _ =>
      h.goto (.closing todo exit)

/-! ## `main` -/

inductive MainPoint where
  | socket
  | bind
  | listen
  | closeServer
  | exited
  | accept
  | calloc
  | recv
  | terminate (bytesRead : Nat)
  | storeClientSocket
  | storeRequest
  | pthreadCreate
  | freeRequest
  | closeClient
deriving DecidableEq

/-- `main` with its local variables. -/
structure Main where
  point : MainPoint
  serverSocket : Fd
  clientSocket : Fd
  request : Option Block
deriving DecidableEq

def Main.goto (main : Main) (point : MainPoint) : Main := { main with point := point }

/-- The next call of `main`. -/
def Main.head (main : Main) : Head Calls Unit Main :=
  match main.point with
  | .socket => .op .socket fun
      | none => main.goto .exited
      | some serverSocket => { main with serverSocket := serverSocket, point := .bind }
  | .bind => .op (.bind main.serverSocket) fun bound =>
      main.goto (if bound then .listen else .closeServer)
  | .listen => .op (.listen main.serverSocket) fun listening =>
      main.goto (if listening then .accept else .closeServer)
  | .closeServer => .op (.close main.serverSocket) fun _ => main.goto .exited
  | .exited => .ret ()
  | .accept => .op (.accept main.serverSocket) fun
      | none => main
      | some clientSocket => { main with clientSocket := clientSocket, point := .calloc }
  | .calloc => .op .calloc fun request => { main with request := request, point := .recv }
  | .recv => .op (.read main.clientSocket main.request) fun reading =>
      if reading.count = -1 ∨ reading.count = 0 then main.goto .freeRequest
      else main.goto (.terminate reading.data.length)
  | .terminate bytesRead => .op (.store main.request bytesRead 0) fun _ =>
      main.goto .storeClientSocket
  | .storeClientSocket | .storeRequest | .pthreadCreate => .ret ()
  | .freeRequest => .op (.free main.request) fun _ => main.goto .closeClient
  | .closeClient => .op (.close main.clientSocket) fun _ => main.goto .accept

/-! ## The process -/

structure State where
  table : Table
  main : Main
  /-- The stack slot. -/
  ctx : Context
  handlers : List Handler

inductive Event where
  | main (outcome : Outcome)
  /-- `pthread_create` succeeds; the local variables of the thread are not initialised. -/
  | create (garbage : Handler)
  | handler (i : Nat) (outcome : Outcome)

/-- The next call of a thread. -/
def perform {α π : Type} (table : Table) (outcome : Outcome) : Head Calls α π → Option (π × Table)
  | .ret _ => none
  | .op call k => (exec call outcome table).map fun answered => (k answered.1, answered.2)

/-- A handler that accesses the slot. -/
def Handler.load (h : Handler) (ctx : Context) : Option Handler :=
  match h.point with
  | .loadClientSocket => some { h with clientSocket := ctx.clientSocket, point := .loadRequest }
  | .loadRequest => some { h with requestTemp := ctx.request, point := .printf }
  | _ => none

def step (s : State) : Event → Option State
  | .main outcome =>
      match s.main.point with
      | .storeClientSocket => some { s with
          ctx := { s.ctx with clientSocket := s.main.clientSocket }
          main := s.main.goto .storeRequest }
      | .storeRequest => some { s with
          ctx := { s.ctx with request := s.main.request }
          main := s.main.goto .pthreadCreate }
      | .pthreadCreate =>
          if outcome = .fails then some { s with main := s.main.goto .freeRequest } else none
      | _ => (perform s.table outcome s.main.head).map fun moved =>
          { s with main := moved.1, table := moved.2 }
  | .create garbage =>
      match s.main.point with
      | .pthreadCreate => some { s with
          main := s.main.goto .accept
          handlers := s.handlers ++ [{ garbage with point := .loadClientSocket, log := [] }] }
      | _ => none
  | .handler i outcome =>
      match s.handlers[i]? with
      | none => none
      | some h =>
          match h.load s.ctx with
          | some h' => some { s with handlers := s.handlers.set i h' }
          | none => (perform s.table outcome h.head).map fun moved =>
              { s with handlers := s.handlers.set i moved.1, table := moved.2 }

/-- When `main` starts, with what the process has from before. -/
def init (inherited : Table) (serverSocket clientSocket : Fd) (request : Option Block)
    (ctx : Context) : State where
  table := inherited
  main := ⟨.socket, serverSocket, clientSocket, request⟩
  ctx := ctx
  handlers := []

/-! ## Runs in which nothing is overwritten -/

/-- What was received leaves room for the NUL, its host leaves room for that in the array `host`,
and it has no conversion specification for `printf`. -/
def Fits (data : List UInt8) : Prop :=
  data.length < bufferSize ∧ (∀ w ∈ hostStores (requestOf data), w.1 < hostLen) ∧
    Plain (requestOf data)

instance (data : List UInt8) : Decidable (Fits data) :=
  inferInstanceAs (Decidable (_ ∧ (∀ w ∈ _, _) ∧ _))

/-- Whether a handler has still to copy a field of the slot. -/
def Handler.awaitsClientSocket (h : Handler) : Bool := h.point = .loadClientSocket

def Handler.awaitsRequest (h : Handler) : Bool :=
  h.point = .loadClientSocket ∨ h.point = .loadRequest

def Outcome.Fits : Outcome → Prop
  | .delivers data => Process.Fits data
  | _ => True

instance : (outcome : Outcome) → Decidable outcome.Fits
  | .delivers data => inferInstanceAs (Decidable (Process.Fits data))
  | .fails | .succeeds | .opens .. | .allocates _ | .accepts _ => inferInstanceAs (Decidable True)

/-- What `main` receives does not overwrite the end of a buffer. -/
def Main.Allows (main : Main) (outcome : Outcome) : Prop :=
  main.point = .recv → outcome.Fits

instance (main : Main) (outcome : Outcome) : Decidable (main.Allows outcome) :=
  inferInstanceAs (Decidable (main.point = .recv → outcome.Fits))

/-- `main` writes no field of the slot that a handler has still to copy, and receives nothing
that does not fit. -/
def Careful (s : State) : Event → Prop
  | .main outcome =>
      (s.main.point = .storeClientSocket → ∀ h ∈ s.handlers, h.awaitsClientSocket = false) ∧
      (s.main.point = .storeRequest → ∀ h ∈ s.handlers, h.awaitsRequest = false) ∧
      s.main.Allows outcome
  | _ => True

instance : (s : State) → (e : Event) → Decidable (Careful s e)
  | s, .main outcome => inferInstanceAs (Decidable
      ((s.main.point = .storeClientSocket → ∀ h ∈ s.handlers, h.awaitsClientSocket = false) ∧
      (s.main.point = .storeRequest → ∀ h ∈ s.handlers, h.awaitsRequest = false) ∧
      s.main.Allows outcome))
  | _, .create _ | _, .handler .. => inferInstanceAs (Decidable True)

/-! ## The steps -/

/-- The steps by what they do. -/
inductive Move (s : State) : Event → State → Prop
  | storeClientSocket {outcome : Outcome} (here : s.main.point = .storeClientSocket) :
    Move s (.main outcome) { s with
      ctx := { s.ctx with clientSocket := s.main.clientSocket }
      main := s.main.goto .storeRequest }
  | storeRequest {outcome : Outcome} (here : s.main.point = .storeRequest) :
    Move s (.main outcome) { s with
      ctx := { s.ctx with request := s.main.request }
      main := s.main.goto .pthreadCreate }
  | createFails (here : s.main.point = .pthreadCreate) :
    Move s (.main .fails) { s with main := s.main.goto .freeRequest }
  | main {outcome : Outcome} {call : Call} {k : call.Answer → Main} {r : call.Answer}
      {table : Table}
      (here : s.main.head = .op call k) (done : exec call outcome s.table = some (r, table)) :
    Move s (.main outcome) { s with main := k r, table := table }
  | create {garbage : Handler} (here : s.main.point = .pthreadCreate) :
    Move s (.create garbage) { s with
      main := s.main.goto .accept
      handlers := s.handlers ++ [{ garbage with point := .loadClientSocket, log := [] }] }
  | load {i : Nat} {outcome : Outcome} {h h' : Handler} (at_i : s.handlers[i]? = some h)
      (loaded : h.load s.ctx = some h') :
    Move s (.handler i outcome) { s with handlers := s.handlers.set i h' }
  | handler {i : Nat} {outcome : Outcome} {h : Handler} {call : Call} {k : call.Answer → Handler}
      {r : call.Answer} {table : Table} (at_i : s.handlers[i]? = some h)
      (here : h.head = .op call k) (done : exec call outcome s.table = some (r, table)) :
    Move s (.handler i outcome) { s with handlers := s.handlers.set i (k r), table := table }

theorem perform_eq_some {α π : Type} {table table' : Table} {outcome : Outcome}
    {head : Head Calls α π} {p : π} (moved : perform table outcome head = some (p, table')) :
    ∃ (call : Call) (k : call.Answer → π) (r : call.Answer),
      head = .op call k ∧ exec call outcome table = some (r, table') ∧ p = k r := by
  cases head with
  | ret a => cases moved
  | op call k =>
    obtain ⟨⟨r, w⟩, done, same⟩ := Option.map_eq_some_iff.mp moved
    obtain ⟨rfl, rfl⟩ := Prod.mk.inj same
    exact ⟨call, k, r, rfl, done, rfl⟩

/-- A call of `main`. -/
theorem move_main {s s' : State} {outcome : Outcome}
    (moved : ((perform s.table outcome s.main.head).map fun moved =>
      { s with main := moved.1, table := moved.2 }) = some s') :
    Move s (.main outcome) s' := by
  obtain ⟨⟨p, w⟩, performed, rfl⟩ := Option.map_eq_some_iff.mp moved
  obtain ⟨call, k, r, at_call, done, rfl⟩ := perform_eq_some performed
  exact .main at_call done

theorem step_move {s s' : State} {e : Event} (moved : step s e = some s') : Move s e s' := by
  cases e with
  | main outcome =>
    simp only [step] at moved
    split at moved
    · next here =>
      cases moved
      exact .storeClientSocket here
    · next here =>
      cases moved
      exact .storeRequest here
    · next here =>
      split at moved
      · next fails =>
        subst fails
        cases moved
        exact .createFails here
      · cases moved
    · exact move_main moved
  | create garbage =>
    simp only [step] at moved
    split at moved
    · next here =>
      cases moved
      exact .create here
    · cases moved
  | handler i outcome =>
    simp only [step] at moved
    split at moved
    · cases moved
    · next h at_i =>
      split at moved
      · next h' loaded =>
        cases moved
        exact .load at_i loaded
      · obtain ⟨⟨p, w⟩, performed, rfl⟩ := Option.map_eq_some_iff.mp moved
        obtain ⟨call, k, r, at_call, done, rfl⟩ := perform_eq_some performed
        exact .handler at_i at_call done

/-! ## A run with two connections -/

/-- Nothing from before. -/
def start : State := init Store.empty 0 0 none ⟨0, none⟩

/-- `create_server_socket`. -/
def serverSocket : List Event := [.main (.opens 3 0), .main .succeeds, .main .succeeds]

/-- A round of the loop of `main`. -/
def acceptLoop (fd : Fd) (socket : SocketId) (block : Block) (data : List UInt8) : List Event :=
  [.main (.opens fd socket), .main (.allocates block), .main (.delivers data), .main .succeeds,
    .main .succeeds, .main .succeeds,
    .create ⟨.loadClientSocket, 0, none, [], fun _ => 0, 0, 0, none, [], []⟩]

/-- A handler up to `get_host`. -/
def getsHost (i : Nat) : List Event := List.replicate 5 (.handler i .succeeds)

/-- A handler that fetches a response. -/
def fetches (i : Nat) (fd : Fd) (socket : SocketId) (block : Block) (response : List UInt8) :
    List Event :=
  [.handler i (.allocates 0), .handler i (.opens fd socket), .handler i .succeeds,
    .handler i .succeeds, .handler i (.accepts 13), .handler i (.allocates block),
    .handler i (.delivers response), .handler i (.accepts response.length),
    .handler i (.delivers [])] ++ List.replicate 4 (.handler i .succeeds)

/-- The second connection gets the descriptor and the block of the first one, and names no
host. -/
def twoConnections : List Event := List.flatten [serverSocket,
  acceptLoop 4 1 0 (ascii "GET http://a/"), getsHost 0, fetches 0 5 2 1 (ascii "x"),
  acceptLoop 4 3 0 (ascii "GET /"), getsHost 1]

end Os2Labs.Proxy.Process
