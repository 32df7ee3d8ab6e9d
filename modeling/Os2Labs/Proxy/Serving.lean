import Mathlib.Data.List.Forall2
import Os2Labs.Proxy.Holdings

/-!
# The calls of a handler

`handler_outline`: at every point of `client_handler` the next call is about what the handler
holds, and whatever it answers the handler holds afterwards what the next point needs.
-/

namespace Os2Labs.Proxy.Process

open Conc Bytes
open Conc.Store

variable {ctx : Context} {h : Handler} {v : Visit} {m m' : Table} {o : Outcome}

/-- After the two accesses to the slot. -/
theorem Handler.Has.copied (has : h.Has ctx v) (first : h.point ≠ .loadClientSocket)
    (second : h.point ≠ .loadRequest) :
    h.clientSocket = v.fd ∧ h.requestTemp = some v.request := by
  unfold Handler.Has at has
  split at has
  · next here => exact (first here).elim
  · next here => exact (second here).elim
  · exact has

/-- The calls are about what the handler holds. -/
theorem Handler.Proper.safe (proper : h.Proper ctx m) {call : Call} {k : call.Answer → Handler}
    (at_call : h.head = .op call k) : ¬ Faults call m := by
  obtain ⟨v, exactly, arrived, relayed, has, stage⟩ := proper
  unfold Handler.head at at_call
  cases point : h.point with
  | loadClientSocket | loadRequest =>
    rw [point] at at_call
    cases at_call
  | printf =>
    rw [point] at at_call
    cases at_call
    obtain ⟨-, request⟩ := has.copied (by rw [point]; nofun) (by rw [point]; nofun)
    refine not_not.mpr ⟨v.request, _, request, request_block exactly (by rw [point]; decide), ?_⟩
    rw [arrived.stringAt]
    exact arrived.fits.2.2
  | strlen | strcpy =>
    rw [point] at at_call
    cases at_call
    obtain ⟨-, request⟩ := has.copied (by rw [point]; nofun) (by rw [point]; nofun)
    rw [request]
    exact not_not.mpr ⟨Option.some_ne_none _, request_live exactly (by rw [point]; decide)⟩
  | getaddrinfo | socket | calloc =>
    rw [point] at at_call
    cases at_call
    exact id
  | connect =>
    rw [point] at at_call
    cases at_call
    unfold Handler.Stage at stage
    rw [point] at stage
    obtain ⟨-, -, o, opened⟩ := stage
    refine not_not.mpr ⟨dest_open exactly (Or.inl (by rw [point]; decide)) ?_, v.name,
      addrinfo_known exactly (by rw [point]; decide)⟩
    rw [opened]
    exact Option.some_ne_none _
  | freeaddrinfo =>
    rw [point] at at_call
    cases at_call
    exact not_not.mpr ⟨v.name, addrinfo_known exactly (by rw [point]; decide)⟩
  | forward =>
    rw [point] at at_call
    cases at_call
    unfold Handler.Stage at stage
    rw [point] at stage
    obtain ⟨-, o, host, opened, -⟩ := stage
    refine not_not.mpr (dest_open exactly (Or.inl (by rw [point]; decide)) ?_)
    rw [opened]
    exact Option.some_ne_none _
  | read =>
    rw [point] at at_call
    cases at_call
    unfold Handler.Stage at stage
    rw [point] at stage
    obtain ⟨-, o, origin, opened, -⟩ := stage
    refine not_not.mpr ⟨dest_open exactly (Or.inl (by rw [point]; decide)) ?_,
      buffer_live exactly (by rw [point]; decide)⟩
    rw [opened]
    exact Option.some_ne_none _
  | write =>
    rw [point] at at_call
    cases at_call
    unfold Handler.Stage at stage
    rw [point] at stage
    obtain ⟨-, o, origin, written, -, -, -, -, buffer, -⟩ := stage
    obtain ⟨client, -⟩ := has.copied (by rw [point]; nofun) (by rw [point]; nofun)
    rw [client]
    exact not_not.mpr ⟨client_open exactly (by rw [point]; decide), buffer,
      buffer_live exactly (by rw [point]; decide)⟩
  | closing todo exit =>
    rw [point] at at_call
    obtain ⟨client, request⟩ := has.copied (by rw [point]; nofun) (by rw [point]; nofun)
    unfold Handler.Stage at stage
    rw [point] at stage
    obtain ⟨-, -, stage⟩ := stage
    have kept : ∀ c ∈ todo, c ∈ holds h.point := by
      intro c member
      rw [point]
      exact List.mem_append_left _ member
    cases todo with
    | nil => cases at_call
    | cons c todo =>
      have first := kept c List.mem_cons_self
      cases c with
      | client =>
        cases at_call
        rw [client]
        exact not_not.mpr (client_open exactly first)
      | dest =>
        cases at_call
        exact not_not.mpr (dest_open exactly (Or.inl first) (stage (Or.inl List.mem_cons_self)))
      | unconnected =>
        cases at_call
        exact not_not.mpr (dest_open exactly (Or.inr first) (stage (Or.inr List.mem_cons_self)))
      | buffer =>
        cases at_call
        exact not_not.mpr (buffer_live exactly first)
      | request =>
        cases at_call
        rw [request]
        exact not_not.mpr (request_live exactly first)
      | addrinfo =>
        cases at_call
        exact not_not.mpr ⟨v.name, addrinfo_known exactly first⟩

/-! ## What the calls lead to -/

/-- After a call that changes nothing. -/
theorem exec_string_request (exactly : Exactly m (held h v)) (arrived : Arrived v.data)
    (kept : .request ∈ holds h.point) {r : List UInt8}
    (moved : exec (.string (some v.request)) o m = some (r, m')) :
    r = requestOf v.data ∧ m' = m := by
  have known := request_block exactly kept
  rw [← arrived.stringAt]
  exact exec_string known moved

/-- What is known when nothing was opened. -/
theorem Visit.Relayed.idle (relayed : v.Relayed) (nothing : v.origin = none) : v.sent = [] := by
  unfold Visit.Relayed at relayed
  rwa [nothing] at relayed

theorem keeps_printf (proper : h.Proper ctx m) (point : h.point = .printf) {r : Unit}
    (moved : exec (.printf h.requestTemp) o m = some (r, m')) : (h.goto .strlen).Proper ctx m' := by
  obtain ⟨v, exactly, arrived, relayed, has, stage⟩ := proper
  have copied := has.copied (by rw [point]; nofun) (by rw [point]; nofun)
  obtain rfl := exec_printf moved
  rw [held, point] at exactly
  unfold Handler.Stage at stage
  rw [point] at stage
  exact ⟨v, exactly, arrived, relayed, copied, stage⟩

theorem keeps_strlen (proper : h.Proper ctx m) (point : h.point = .strlen) {r : List UInt8}
    (moved : exec (.string h.requestTemp) o m = some (r, m')) :
    (if bufferSize ≤ strlen r then h.goto (.closing [] .tooLarge) else h.goto .strcpy).Proper
      ctx m' := by
  obtain ⟨v, exactly, arrived, relayed, has, stage⟩ := proper
  have copied := has.copied (by rw [point]; nofun) (by rw [point]; nofun)
  rw [copied.2] at moved
  obtain ⟨rfl, rfl⟩ := exec_string_request exactly arrived (by rw [point]; decide) moved
  rw [if_neg arrived.short]
  rw [held, point] at exactly
  unfold Handler.Stage at stage
  rw [point] at stage
  exact ⟨v, exactly, arrived, relayed, copied, stage⟩

theorem keeps_strcpy (proper : h.Proper ctx m) (point : h.point = .strcpy) {r : List UInt8}
    (moved : exec (.string h.requestTemp) o m = some (r, m')) :
    (match hostArray r h.host with
      | none => { h with request := r, point := .closing [] .noHost }
      | some host => { h with request := r, host := host, point := .getaddrinfo }).Proper ctx
      m' := by
  obtain ⟨v, exactly, arrived, relayed, has, stage⟩ := proper
  have copied := has.copied (by rw [point]; nofun) (by rw [point]; nofun)
  rw [copied.2] at moved
  obtain ⟨rfl, rfl⟩ := exec_string_request exactly arrived (by rw [point]; decide) moved
  rw [held, point] at exactly
  unfold Handler.Stage at stage
  rw [point] at stage
  split
  · exact ⟨v, exactly, arrived, relayed, copied, nofun, rfl, fun one => absurd one (by decide)⟩
  · next host found => exact ⟨v, exactly, arrived, relayed, copied, stage, rfl, arrived.names found⟩

theorem keeps_getaddrinfo (proper : h.Proper ctx m) (point : h.point = .getaddrinfo)
    {r : Option AddrInfo} (moved : exec (.getaddrinfo (hostName h.host)) o m = some (r, m')) :
    (match r with
      | none => h.goto (.closing [.client] .unreachable)
      | some res => { h with res := res, point := .socket }).Proper ctx m' := by
  obtain ⟨v, exactly, arrived, relayed, has, stage⟩ := proper
  have copied := has.copied (by rw [point]; nofun) (by rw [point]; nofun)
  rw [held, point] at exactly
  unfold Handler.Stage at stage
  rw [point] at stage
  obtain ⟨nothing, request, names⟩ := stage
  generalize hostName h.host = name at moved names
  rcases exec_getaddrinfo moved with ⟨rfl, rfl⟩ | ⟨res, rfl, unused, rfl⟩
  · exact ⟨v, exactly, arrived, relayed, copied, nofun, request, fun one => absurd one (by decide)⟩
  · refine ⟨{ v with name := name }, ?_, arrived, relayed, copied, nothing, request, names⟩
    exact exactly.new v.sockets unused name

theorem keeps_socket (proper : h.Proper ctx m) (point : h.point = .socket)
    {r : Option Fd} (moved : exec .socket o m = some (r, m')) :
    (match r with
      | none => h.goto (.closing [.addrinfo, .client] .unreachable)
      | some destSocket => { h with destSocket := destSocket, point := .connect }).Proper ctx
      m' := by
  obtain ⟨v, exactly, arrived, relayed, has, stage⟩ := proper
  have copied := has.copied (by rw [point]; nofun) (by rw [point]; nofun)
  rw [held, point] at exactly
  unfold Handler.Stage at stage
  rw [point] at stage
  obtain ⟨nothing, request, names⟩ := stage
  rcases exec_socket moved with ⟨rfl, rfl⟩ | ⟨fd, s, rfl, opened⟩
  · exact ⟨v, exactly, arrived, relayed, copied, nofun, request, fun one => absurd one (by decide)⟩
  · obtain ⟨free, new, rfl⟩ := newSocket_eq_some opened
    obtain ⟨fd', block, client, data, sent, name, origin, contents⟩ := v
    subst nothing
    have idle : sent = [] := relayed
    refine ⟨⟨fd', block, client, data, sent, name, some (s, ⟨.unconnected, [], []⟩), contents⟩,
      ?_, arrived, ⟨Or.inl ⟨rfl, rfl, rfl⟩, List.nil_prefix, [], [], rfl, Nat.zero_le 1, ?_⟩,
      copied,
      request, names, s, rfl⟩
    · have with_socket := exactly.new [_] new ⟨.unconnected, [], []⟩
      have unused :
          Function.update m (.socket s) (some ⟨.unconnected, [], []⟩) (.fd fd) = none := by
        rwa [Function.update_of_ne Key.noConfusion]
      exact with_socket.new [_, _] unused s
    · rw [idle]
      exact .nil

theorem keeps_connect (proper : h.Proper ctx m) (point : h.point = .connect) {r : Bool}
    (moved : exec (.connect h.destSocket h.res) o m = some (r, m')) :
    (if r then h.goto .freeaddrinfo
      else h.goto (.closing [.unconnected, .addrinfo, .client] .unreachable)).Proper ctx m' := by
  obtain ⟨v, exactly, arrived, relayed, has, stage⟩ := proper
  have copied := has.copied (by rw [point]; nofun) (by rw [point]; nofun)
  unfold Handler.Stage at stage
  rw [point] at stage
  obtain ⟨request, names, s, opened⟩ := stage
  have here := dest_fd exactly (Or.inl (by rw [point]; decide)) opened
  have there := origin_socket exactly opened
  have known := addrinfo_known exactly (by rw [point]; decide)
  rw [held, point] at exactly
  rcases exec_connect here there known moved with ⟨rfl, rfl⟩ | ⟨rfl, rfl⟩
  · refine ⟨v, exactly, arrived, relayed, copied, nofun, request, fun _ => ?_⟩
    rw [opened]
    exact Option.some_ne_none _
  · obtain ⟨fd, block, client, data, sent, name, origin, contents⟩ := v
    subst opened
    refine ⟨⟨fd, block, client, data, sent, name, some (s, ⟨.server name, [], []⟩), contents⟩,
      exactly.put [_] ⟨.server name, [], []⟩, arrived, ?_, copied, request, s, name, rfl, names⟩
    refine ⟨Or.inr ⟨name, rfl, ?_⟩, List.nil_prefix, relayed.relayed⟩
    rw [request_single, ← request]
    exact names

/-- Nothing has been written when nothing has been read. -/
theorem Relayed.unread {client origin : Socket} (relayed : Relayed client origin)
    (nothing : origin.received = []) : List.Forall₂ (· <+: ·) client.sent origin.received := by
  obtain ⟨written, pending, received, -, sent⟩ := relayed.relayed
  rw [nothing] at received ⊢
  rw [(List.append_eq_nil_iff.mp received.symm).1] at sent
  exact sent

theorem keeps_freeaddrinfo (proper : h.Proper ctx m) (point : h.point = .freeaddrinfo) {r : Unit}
    (moved : exec (.freeaddrinfo h.res) o m = some (r, m')) :
    ((h.note (.opens .destSocket)).goto .forward).Proper ctx m' := by
  obtain ⟨v, exactly, arrived, relayed, has, stage⟩ := proper
  have copied := has.copied (by rw [point]; nofun) (by rw [point]; nofun)
  unfold Handler.Stage at stage
  rw [point] at stage
  rw [held, point] at exactly
  cases moved
  refine ⟨v, ?_, arrived, relayed, copied, stage⟩
  obtain ⟨-, s, host, opened, -⟩ := stage
  obtain ⟨fd, block, client, data, sent, name, origin, contents⟩ := v
  subst opened
  exact (exactly.drop [_, _, _]).perm (.cons _ (.cons _ (.swap _ _ _)))

theorem keeps_forward (proper : h.Proper ctx m) (point : h.point = .forward) {r : Int}
    (moved : exec (.write h.destSocket h.request) o m = some (r, m')) :
    ((h.note (.sends .destSocket h.request)).goto
      (if r = -1 then .closing [.client, .dest] .unsent else .calloc)).Proper ctx m' := by
  obtain ⟨v, exactly, arrived, relayed, has, stage⟩ := proper
  have copied := has.copied (by rw [point]; nofun) (by rw [point]; nofun)
  unfold Handler.Stage at stage
  rw [point] at stage
  obtain ⟨request, s, host, opened, names⟩ := stage
  have here := dest_fd exactly (Or.inl (by rw [point]; decide)) opened
  have there := origin_socket exactly opened
  rw [held, point] at exactly
  rcases exec_write here there moved with ⟨rfl, rfl⟩ | ⟨n, rfl, fits, rfl⟩
  · rw [if_pos rfl]
    refine ⟨v, exactly, arrived, relayed, copied, nofun, request, fun _ => ?_⟩
    rw [opened]
    exact Option.some_ne_none _
  · rw [if_neg (by omega)]
    obtain ⟨fd, block, client, data, sent, name, origin, contents⟩ := v
    subst opened
    let written : Socket := ⟨.server host, [], [] ++ [h.request.take n]⟩
    refine ⟨⟨fd, block, client, data, sent, name, some (s, written), contents⟩,
      exactly.put [_] written, arrived, ?_, copied, request, s, written, rfl, Peer.noConfusion,
      relayed.unread rfl⟩
    refine ⟨Or.inr ⟨host, rfl, ?_⟩, ?_, relayed.relayed⟩
    · rw [request_single, ← request]
      exact names
    · rw [request_single, ← request]
      show [h.request.take n].flatten <+: _
      rw [List.flatten_singleton]
      exact List.take_prefix n _

theorem keeps_calloc (proper : h.Proper ctx m) (point : h.point = .calloc) {r : Option Block}
    (moved : exec .calloc o m = some (r, m')) :
    Handler.Proper ctx { h.note (.opens .buffer) with buffer := r, point := .read } m' := by
  obtain ⟨v, exactly, arrived, relayed, has, stage⟩ := proper
  have copied := has.copied (by rw [point]; nofun) (by rw [point]; nofun)
  unfold Handler.Stage at stage
  rw [point] at stage
  rw [held, point] at exactly
  rcases exec_calloc moved with ⟨rfl, rfl⟩ | ⟨b, rfl, unused, rfl⟩
  · exact ⟨v, exactly, arrived, relayed, copied, stage⟩
  · obtain ⟨request, s, origin, opened, connected, sent_of⟩ := stage
    obtain ⟨fd, block, client, data, sent, name, origin', contents⟩ := v
    subst opened
    exact ⟨⟨fd, block, client, data, sent, name, some (s, origin), fun _ => 0⟩,
      exactly.new [_, _, _, _] unused fun _ => 0, arrived, relayed, copied, request, s, origin, rfl,
      connected, sent_of⟩

/-- One more chunk has come from the server. -/
theorem Relayed.chunk {client origin : Socket} (relayed : Relayed client origin)
    (connected : origin.peer ≠ .unconnected)
    (sent : List.Forall₂ (· <+: ·) client.sent origin.received) (data : List UInt8) :
    Relayed client { origin with received := origin.received ++ [data] } :=
  ⟨Or.inr (relayed.peer.resolve_left fun idle => connected idle.1), relayed.forwarded,
    origin.received, [data], rfl, Nat.le_refl 1, sent⟩

/-- The beginning of a buffer that `read` has filled. -/
theorem contents_fill (contents : Memory) (data : List UInt8) :
    ∀ i < data.length, contents.stores (recv data) i = data.getD i 0 := by
  intro i within
  show contents.stores (strncpy data data.length) i = _
  rw [stores_strncpy, if_pos within]

theorem map_contents {contents : Memory} {chunk : List UInt8} {n : Nat} (within : n ≤ chunk.length)
    (holds : ∀ i < chunk.length, contents i = chunk.getD i 0) :
    (List.range n).map contents = chunk.take n := by
  apply List.ext_getElem
  · rw [List.length_map, List.length_range, List.length_take]
    omega
  · intro i left right
    rw [List.length_map, List.length_range] at left
    rw [List.getElem_map, List.getElem_range, List.getElem_take, holds i (by omega),
      List.getD_eq_getElem]

theorem keeps_read (proper : h.Proper ctx m) (point : h.point = .read) {r : Reading}
    (moved : exec (.read h.destSocket h.buffer) o m = some (r, m')) :
    (if 0 < r.count then { h with chunk := r.data, point := .write }
      else h.goto (.closing [.client, .dest, .buffer, .request] .served)).Proper ctx m' := by
  obtain ⟨v, exactly, arrived, relayed, has, stage⟩ := proper
  have copied := has.copied (by rw [point]; nofun) (by rw [point]; nofun)
  unfold Handler.Stage at stage
  rw [point] at stage
  obtain ⟨request, s, origin, opened, connected, sent_of⟩ := stage
  have here := dest_fd exactly (Or.inl (by rw [point]; decide)) opened
  have there := origin_socket exactly opened
  rw [held, point] at exactly
  obtain ⟨fd, block, client, data, sent, name, origin', contents⟩ := v
  subst opened
  rcases exec_read here there moved with ⟨rfl, rfl⟩ | ⟨chunk, w, -, rfl, short, filled, rfl⟩
  · exact ⟨_, exactly, arrived, relayed, copied, nofun, request, fun _ => Option.some_ne_none _⟩
  · let later : Socket := { origin with received := origin.received ++ [chunk] }
    have still : Relayed ⟨.client, [data], sent⟩ later :=
      Relayed.chunk relayed connected sent_of chunk
    rcases Option.eq_none_or_eq_some h.buffer with buffer | ⟨b, buffer⟩
    · -- nothing can be read to `NULL`
      rw [buffer] at filled
      obtain ⟨rfl, rfl⟩ := fill_null filled
      exact ⟨⟨fd, block, client, data, sent, name, some (s, later), contents⟩,
        exactly.put [_] later, arrived, still, copied, nofun, request,
        fun _ => Option.some_ne_none _⟩
    · have entries : Exactly m ([⟨.socket client, ⟨.client, [data], sent⟩⟩, ⟨.socket s, origin⟩,
          ⟨.fd fd, client⟩, ⟨.fd h.destSocket, s⟩, ⟨.block b, contents⟩,
          ⟨.block block, requestTemp data⟩] : List Deed) := by
        have deed : deeds h ⟨fd, block, client, data, sent, name, some (s, origin), contents⟩
            .buffer = [⟨.block b, contents⟩] := by
          simp only [deeds, buffer]
        simp only [holds, List.flatMap_cons, List.flatMap_nil, deed] at exactly
        exact exactly
      rw [buffer] at filled
      have known : m (.block b) = some contents := entries.get
        (.tail _ (.tail _ (.tail _ (.tail _ (.head _)))))
      have changed := (entries.put [_, _, _, _] (contents.stores (recv chunk))).put [_] later
      have kept : Exactly (Function.update w (.socket s) (some later))
          (held { h with chunk := chunk, point := .write }
            ⟨fd, block, client, data, sent, name, some (s, later),
              contents.stores (recv chunk)⟩) := by
        simp only [held, holds, List.flatMap_cons, List.flatMap_nil, deeds, buffer]
        rw [fill_block known filled]
        exact changed
      let v : Visit := ⟨fd, block, client, data, sent, name, some (s, later),
        contents.stores (recv chunk)⟩
      split
      · refine ⟨v, kept, arrived, still, copied, request, s, later, origin.received, rfl, connected,
          rfl, sent_of, ?_, contents_fill contents chunk⟩
        rw [buffer]
        exact Option.some_ne_none _
      · exact ⟨v, kept, arrived, still, copied, nofun, request, fun _ => Option.some_ne_none _⟩

theorem keeps_write (proper : h.Proper ctx m) (point : h.point = .write) {r : Int}
    (moved : exec (.writeBlock h.clientSocket h.buffer h.chunk.length) o m = some (r, m')) :
    ((h.note (.sends .clientSocket h.chunk)).goto
      (if r = -1 then .closing [.client, .dest, .buffer] .cut else .read)).Proper ctx m' := by
  obtain ⟨v, exactly, arrived, relayed, has, stage⟩ := proper
  have copied := has.copied (by rw [point]; exact Point.noConfusion)
    (by rw [point]; exact Point.noConfusion)
  unfold Handler.Stage at stage
  rw [point] at stage
  obtain ⟨request, s, origin, written, opened, connected, received, sent_of, address, filled⟩ :=
    stage
  obtain ⟨b, buffer⟩ := Option.ne_none_iff_exists'.mp address
  have here : m (.fd v.fd) = some v.client :=
    exactly.get (held_of_holds (c := .client) (by rw [point]; decide) (List.mem_singleton.mpr rfl))
  have there := client_socket exactly
  have known : m (.block b) = some v.contents := by
    refine exactly.get (held_of_holds (c := .buffer) (by rw [point]; decide) ?_)
    simp only [deeds, buffer]
    exact List.mem_singleton.mpr rfl
  rw [held, point] at exactly
  rw [copied.1, buffer] at moved
  rcases exec_writeBlock here there known moved with ⟨rfl, rfl⟩ | ⟨n, rfl, fits, rfl⟩
  · rw [if_pos rfl]
    refine ⟨v, exactly, arrived, relayed, copied, Exit.noConfusion, request, fun _ => ?_⟩
    rw [opened]
    exact Option.some_ne_none _
  · rw [if_neg (by omega), map_contents fits filled]
    obtain ⟨fd, block, client, data, sent, name, origin', contents⟩ := v
    subst opened
    have one_more : List.Forall₂ (· <+: ·) (sent ++ [h.chunk.take n]) origin.received := by
      rw [received]
      exact List.rel_append sent_of (.cons (List.take_prefix n _) .nil)
    refine ⟨⟨fd, block, client, data, sent ++ [h.chunk.take n], name, some (s, origin), contents⟩,
      exactly.put [] ⟨.client, [data], sent ++ [h.chunk.take n]⟩, arrived, ?_, copied, request, s,
      origin, rfl, connected, one_more⟩
    refine ⟨relayed.peer, relayed.forwarded, origin.received, [], ?_, Nat.zero_le 1, one_more⟩
    rw [List.append_nil]

theorem keeps_closing (proper : h.Proper ctx m) {todo : List Cleanup} {exit : Exit}
    (point : h.point = .closing todo exit) {call : Call} {k : call.Answer → Handler}
    (at_call : h.head = .op call k) {r : call.Answer} (moved : exec call o m = some (r, m')) :
    (k r).Proper ctx m' := by
  obtain ⟨v, exactly, arrived, relayed, has, stage⟩ := proper
  have copied := has.copied (by rw [point]; nofun) (by rw [point]; nofun)
  unfold Handler.Stage at stage
  rw [point] at stage
  rw [held, point] at exactly
  unfold Handler.head at at_call
  rw [point] at at_call
  cases todo with
  | nil => cases at_call
  | cons c todo =>
    obtain ⟨possible, request, stage⟩ := stage
    have later : exit ≠ .tooLarge ∧ h.request = requestOf v.data ∧
        (.dest ∈ todo ∨ .unconnected ∈ todo → v.origin ≠ none) := ⟨possible, request, fun known =>
      stage (known.imp (List.mem_cons_of_mem c) (List.mem_cons_of_mem c))⟩
    cases c with
    | client =>
      cases at_call
      rw [copied.1] at moved
      cases moved
      exact ⟨v, exactly.drop v.sockets, arrived, relayed, copied, later⟩
    | dest =>
      cases at_call
      cases moved
      obtain ⟨⟨s, origin⟩, opened⟩ := Option.ne_none_iff_exists'.mp (stage (Or.inl (.head _)))
      refine ⟨v, ?_, arrived, relayed, copied, later⟩
      obtain ⟨fd, block, client, data, sent, name, origin', contents⟩ := v
      subst opened
      exact exactly.drop [_, _]
    | unconnected =>
      cases at_call
      cases moved
      obtain ⟨⟨s, origin⟩, opened⟩ := Option.ne_none_iff_exists'.mp (stage (Or.inr (.head _)))
      refine ⟨v, ?_, arrived, relayed, copied, later⟩
      obtain ⟨fd, block, client, data, sent, name, origin', contents⟩ := v
      subst opened
      exact exactly.drop [_, _]
    | buffer =>
      cases at_call
      cases buffer : h.buffer with
      | none =>
        rw [buffer] at moved
        cases moved
        refine ⟨v, ?_, arrived, relayed, copied, later⟩
        simp only [holds, List.cons_append, List.flatMap_cons, deeds, buffer] at exactly
        exact exactly
      | some b =>
        rw [buffer] at moved
        cases moved
        refine ⟨v, ?_, arrived, relayed, copied, later⟩
        have entries : Exactly m (v.sockets ++
            (⟨.block b, v.contents⟩ : Deed) :: (todo ++ leaks exit).flatMap (deeds h v)) := by
          simp only [holds, List.cons_append, List.flatMap_cons] at exactly
          rw [show deeds h v .buffer = [⟨.block b, v.contents⟩] by simp only [deeds, buffer]]
            at exactly
          exact exactly
        exact entries.drop v.sockets
    | request =>
      cases at_call
      rw [copied.2] at moved
      cases moved
      exact ⟨v, exactly.drop v.sockets, arrived, relayed, copied, later⟩
    | addrinfo =>
      cases at_call
      cases moved
      exact ⟨v, exactly.drop v.sockets, arrived, relayed, copied, later⟩

/-- **What a handler has at each point.** -/
theorem handler_outline (ctx : Context) :
    Outline kernel Handler.head (fun _ _ => True) (Handler.Proper ctx) := by
  refine ⟨fun h m call k proper at_call => proper.safe at_call, ?_⟩
  intro h m call k o r m' proper at_call _ moved
  cases point : h.point with
  | closing todo exit => exact keeps_closing proper point at_call moved
  | loadClientSocket | loadRequest =>
    unfold Handler.head at at_call
    rw [point] at at_call
    cases at_call
  | printf =>
    unfold Handler.head at at_call
    rw [point] at at_call
    cases at_call
    exact keeps_printf proper point moved
  | strlen =>
    unfold Handler.head at at_call
    rw [point] at at_call
    cases at_call
    exact keeps_strlen proper point moved
  | strcpy =>
    unfold Handler.head at at_call
    rw [point] at at_call
    cases at_call
    exact keeps_strcpy proper point moved
  | getaddrinfo =>
    unfold Handler.head at at_call
    rw [point] at at_call
    cases at_call
    cases r with
    | none => exact keeps_getaddrinfo proper point moved
    | some res => exact keeps_getaddrinfo proper point moved
  | socket =>
    unfold Handler.head at at_call
    rw [point] at at_call
    cases at_call
    exact keeps_socket proper point moved
  | connect =>
    unfold Handler.head at at_call
    rw [point] at at_call
    cases at_call
    exact keeps_connect proper point moved
  | freeaddrinfo =>
    unfold Handler.head at at_call
    rw [point] at at_call
    cases at_call
    have moved : exec (.freeaddrinfo h.res) o m = some (r, m') := moved
    exact keeps_freeaddrinfo proper point moved
  | forward =>
    unfold Handler.head at at_call
    rw [point] at at_call
    cases at_call
    exact keeps_forward proper point moved
  | calloc =>
    unfold Handler.head at at_call
    rw [point] at at_call
    cases at_call
    exact keeps_calloc proper point moved
  | read =>
    unfold Handler.head at at_call
    rw [point] at at_call
    cases at_call
    exact keeps_read proper point moved
  | write =>
    unfold Handler.head at at_call
    rw [point] at at_call
    cases at_call
    exact keeps_write proper point moved

end Os2Labs.Proxy.Process
