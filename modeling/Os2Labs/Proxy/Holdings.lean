import Os2Labs.Proxy.Process

/-!
# What a thread of the proxy holds

At each point `main` and a handler hold certain descriptors, blocks and sockets, and nothing else:
`Main.Proper` and `Handler.Proper`.  Their calls are about these only, and lead to what they hold
at the next point: `main_outline` and `handler_outline`.

A socket is held for ever by the thread that has worked with it, so that `Relayed`, which says
what a handler has sent where, holds for ever too.
-/

namespace Os2Labs.Proxy.Process

open Conc Bytes
open Conc.Store

abbrev Deed := (k : Key) × Entry k

/-! ## What a request says -/

/-- The host that a handler takes from a request. -/
def Names (request host : List UInt8) : Prop :=
  host ≠ [] ∧ (Field 0 request host ∨ (∀ h, Field 0 request h → h = []) ∧ Field 1 request host)

/-- What arrived and fits. -/
structure Arrived (data : List UInt8) : Prop where
  nonempty : data ≠ []
  fits : Fits data

/-- The string in the buffer of the request. -/
theorem Arrived.stringAt {data : List UInt8} (arrived : Arrived data) :
    stringAt (requestTemp data) = requestOf data :=
  stringAt_requestTemp arrived.nonempty arrived.fits.1

theorem Arrived.short {data : List UInt8} (arrived : Arrived data) :
    ¬ bufferSize ≤ strlen (requestOf data) :=
  Nat.not_le.mpr (Nat.lt_of_le_of_lt (requestOf_length_le data) arrived.fits.1)

/-- The string in the array `host`. -/
theorem Arrived.names {data : List UInt8} (arrived : Arrived data) {host b : Memory}
    (found : hostArray (requestOf data) host = some b) : Names (requestOf data) (hostName b) := by
  let request : CString := ⟨requestOf data, requestOf_noNul data⟩
  have within : ∀ w ∈ hostStores (requestOf data), w.1 < hostLen := arrived.fits.2.1
  rcases hostArray_cases request host with ⟨h, b', field, nonempty, done, string⟩ |
    ⟨nothing, ⟨h, b', field, nonempty, done, string⟩ | ⟨-, failed⟩⟩
  · have same : b' = b := Option.some.inj (done.symm.trans found)
    rw [hostStores, getHost_of_field field nonempty] at within
    have fits := (copied_within_iff h hostLen).mp within
    rw [← same, hostName, string.takeWhile_array fits]
    exact ⟨nonempty, Or.inl field⟩
  · have same : b' = b := Option.some.inj (done.symm.trans found)
    rw [hostStores, getHost_of_no_field nothing, getHost_of_field field nonempty] at within
    have fits := (copied_within_iff h hostLen).mp within
    rw [← same, hostName, string.takeWhile_array fits]
    exact ⟨nonempty, Or.inr ⟨nothing, field⟩⟩
  · cases failed.symm.trans found

/-! ## What is relayed -/

/-- The request of a client. -/
def Socket.request (client : Socket) : List UInt8 := requestOf client.received.flatten

/-- Of a single `recv`. -/
theorem request_single (peer : Peer) (data : List UInt8) (sent : List (List UInt8)) :
    (⟨peer, [data], sent⟩ : Socket).request = requestOf data := by
  rw [Socket.request, List.flatten_singleton]

/-- What a client and the server it wanted have to do with each other: the server is the one that
the request names, has been sent the beginning of the request, and each `write` to the client was
accepted for the beginning of what the `read` of the same number has delivered from the server.
At most the last `read` has not been written. -/
structure Relayed (client origin : Socket) : Prop where
  peer : origin.peer = .unconnected ∧ origin.received = [] ∧ origin.sent = [] ∨
    ∃ host, origin.peer = .server host ∧ Names client.request host
  forwarded : origin.sent.flatten <+: client.request
  relayed : ∃ written pending, origin.received = written ++ pending ∧ pending.length ≤ 1 ∧
    List.Forall₂ (· <+: ·) client.sent written

/-- What is known of the connection of a handler. -/
structure Visit where
  fd : Fd
  request : Block
  client : SocketId
  data : List UInt8
  sent : List (List UInt8)
  name : List UInt8
  origin : Option (SocketId × Socket)
  contents : Memory

def Visit.Relayed (v : Visit) : Prop :=
  match v.origin with
  | none => v.sent = []
  | some (_, origin) => Process.Relayed ⟨.client, [v.data], v.sent⟩ origin

/-! ## A handler -/

/-- What is not released. -/
def leaks : Exit → List Cleanup
  | .tooLarge | .noHost => [.client, .request]
  | .unreachable | .unsent | .cut => [.request]
  | .served => []

/-- What a handler holds at each point. -/
def holds : Point → List Cleanup
  | .loadClientSocket | .loadRequest | .printf | .strlen | .strcpy | .getaddrinfo =>
      [.client, .request]
  | .socket => [.addrinfo, .client, .request]
  | .connect | .freeaddrinfo => [.dest, .addrinfo, .client, .request]
  | .forward | .calloc => [.client, .dest, .request]
  | .read | .write => [.client, .dest, .buffer, .request]
  | .closing todo exit => todo ++ leaks exit

def deeds (h : Handler) (v : Visit) : Cleanup → List Deed
  | .client => [⟨.fd v.fd, v.client⟩]
  | .dest | .unconnected =>
      match v.origin with
      | none => []
      | some (o, _) => [⟨.fd h.destSocket, o⟩]
  | .buffer =>
      match h.buffer with
      | none => []
      | some b => [⟨.block b, v.contents⟩]
  | .request => [⟨.block v.request, requestTemp v.data⟩]
  | .addrinfo => [⟨.addrinfo h.res, v.name⟩]

def Visit.sockets (v : Visit) : List Deed :=
  ⟨.socket v.client, ⟨.client, [v.data], v.sent⟩⟩ ::
    match v.origin with
    | none => []
    | some (o, origin) => [⟨.socket o, origin⟩]

def held (h : Handler) (v : Visit) : List Deed :=
  v.sockets ++ (holds h.point).flatMap (deeds h v)

/-- Where the handler has its connection from. -/
def Handler.Has (ctx : Context) (h : Handler) (v : Visit) : Prop :=
  match h.point with
  | .loadClientSocket => ctx.clientSocket = v.fd ∧ ctx.request = some v.request
  | .loadRequest => h.clientSocket = v.fd ∧ ctx.request = some v.request
  | _ => h.clientSocket = v.fd ∧ h.requestTemp = some v.request

/-- How far it has got. -/
def Handler.Stage (h : Handler) (v : Visit) : Prop :=
  match h.point with
  | .loadClientSocket | .loadRequest | .printf | .strlen | .strcpy => v.origin = none
  | .getaddrinfo => v.origin = none ∧ h.request = requestOf v.data ∧
      Names h.request (hostName h.host)
  | .socket => v.origin = none ∧ h.request = requestOf v.data ∧ Names h.request v.name
  | .connect => h.request = requestOf v.data ∧ Names h.request v.name ∧
      ∃ o, v.origin = some (o, ⟨.unconnected, [], []⟩)
  | .freeaddrinfo | .forward => h.request = requestOf v.data ∧
      ∃ o host, v.origin = some (o, ⟨.server host, [], []⟩) ∧ Names h.request host
  | .calloc | .read => h.request = requestOf v.data ∧
      ∃ o origin, v.origin = some (o, origin) ∧ origin.peer ≠ .unconnected ∧
        List.Forall₂ (· <+: ·) v.sent origin.received
  | .write => h.request = requestOf v.data ∧
      ∃ o origin written, v.origin = some (o, origin) ∧ origin.peer ≠ .unconnected ∧
        origin.received = written ++ [h.chunk] ∧ List.Forall₂ (· <+: ·) v.sent written ∧
        h.buffer ≠ none ∧ ∀ i < h.chunk.length, v.contents i = h.chunk.getD i 0
  | .closing todo exit => exit ≠ .tooLarge ∧ h.request = requestOf v.data ∧
      (.dest ∈ todo ∨ .unconnected ∈ todo → v.origin ≠ none)

/-- What a handler has for its share. -/
def Handler.Proper (ctx : Context) (h : Handler) (m : Table) : Prop :=
  ∃ v, Exactly m (held h v) ∧ Arrived v.data ∧ v.Relayed ∧ h.Has ctx v ∧ h.Stage v

section Held

variable {h : Handler} {v : Visit} {m : Table}

theorem held_of_holds {c : Cleanup} (kept : c ∈ holds h.point) {d : Deed} (deed : d ∈ deeds h v c) :
    d ∈ held h v :=
  List.mem_append_right _ (List.mem_flatMap.mpr ⟨c, kept, deed⟩)

theorem client_socket (exactly : Exactly m (held h v)) :
    m (.socket v.client) = some ⟨.client, [v.data], v.sent⟩ :=
  exactly.get (List.mem_append_left _ List.mem_cons_self)

theorem origin_socket (exactly : Exactly m (held h v)) {o : SocketId} {origin : Socket}
    (opened : v.origin = some (o, origin)) : m (.socket o) = some origin := by
  refine exactly.get (List.mem_append_left _ (List.mem_cons_of_mem _ ?_))
  rw [opened]
  exact List.mem_singleton.mpr rfl

theorem client_open (exactly : Exactly m (held h v)) (kept : .client ∈ holds h.point) :
    Open v.fd m :=
  ⟨v.client, _, exactly.get (held_of_holds kept (List.mem_singleton.mpr rfl)),
    client_socket exactly⟩

theorem dest_fd (exactly : Exactly m (held h v))
    (kept : .dest ∈ holds h.point ∨ .unconnected ∈ holds h.point) {o : SocketId} {origin : Socket}
    (opened : v.origin = some (o, origin)) : m (.fd h.destSocket) = some o := by
  have deed : ⟨.fd h.destSocket, o⟩ ∈ deeds h v .dest := by
    simp only [deeds, opened]
    exact List.mem_singleton.mpr rfl
  rcases kept with kept | kept
  · exact exactly.get (held_of_holds kept deed)
  · exact exactly.get (held_of_holds kept deed)

theorem dest_open (exactly : Exactly m (held h v))
    (kept : .dest ∈ holds h.point ∨ .unconnected ∈ holds h.point) (opened : v.origin ≠ none) :
    Open h.destSocket m := by
  obtain ⟨⟨o, origin⟩, opened⟩ := Option.ne_none_iff_exists'.mp opened
  exact ⟨o, origin, dest_fd exactly kept opened, origin_socket exactly opened⟩

theorem request_block (exactly : Exactly m (held h v)) (kept : .request ∈ holds h.point) :
    m (.block v.request) = some (requestTemp v.data) :=
  exactly.get (held_of_holds kept (List.mem_singleton.mpr rfl))

theorem request_live (exactly : Exactly m (held h v)) (kept : .request ∈ holds h.point) :
    Live (some v.request) m := by
  intro b same
  cases same
  exact ⟨_, request_block exactly kept⟩

theorem buffer_live (exactly : Exactly m (held h v)) (kept : .buffer ∈ holds h.point) :
    Live h.buffer m := by
  intro b same
  refine ⟨v.contents, exactly.get (held_of_holds kept ?_)⟩
  simp only [deeds, same]
  exact List.mem_singleton.mpr rfl

theorem addrinfo_known (exactly : Exactly m (held h v)) (kept : .addrinfo ∈ holds h.point) :
    m (.addrinfo h.res) = some v.name :=
  exactly.get (held_of_holds kept (List.mem_singleton.mpr rfl))

end Held

end Os2Labs.Proxy.Process
