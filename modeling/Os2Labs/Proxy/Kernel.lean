import Os2Labs.Conc.Shares
import Os2Labs.Proxy.Request

/-!
# The calls of the proxy

What the calls of `proxy/main.c` do to the descriptors, the sockets, the heap and the lists of
`getaddrinfo`, which all threads of the process share.  A descriptor that was closed and a
block that was freed can be given out again.  A socket is known by what each `read` has delivered
from its other end and what was accepted of each `write` for it, and goes on to be known when its
descriptor is closed.

`printf` of a request has the request for its format.  What it does when that has a conversion
specification, for which there is no argument, is undefined.

`framed`: a call does to a part of that what it does to the whole, if the part has what the call
is about.
-/

namespace Os2Labs.Proxy.Process

open Conc Bytes
open Conc.Store

abbrev Fd := Nat

abbrev SocketId := Nat

abbrev Block := Nat

abbrev AddrInfo := Nat

/-- The other end of a socket. -/
inductive Peer where
  | unconnected
  | listening
  | client
  | server (host : List UInt8)
deriving DecidableEq

/-- `received` has an entry for each `read`, and `sent` one for each `write` that did not fail. -/
structure Socket where
  peer : Peer
  received : List (List UInt8)
  sent : List (List UInt8)
deriving DecidableEq

inductive Key where
  | fd (n : Fd)
  | socket (n : SocketId)
  | block (n : Block)
  | addrinfo (n : AddrInfo)
deriving DecidableEq

/-- What there is under a key: the socket of a descriptor, a socket, the contents of a block of
`BUFFER_SIZE` bytes, the host of a list of addresses. -/
abbrev Entry : Key → Type
  | .fd _ => SocketId
  | .socket _ => Socket
  | .block _ => Memory
  | .addrinfo _ => List UInt8

abbrev Table := Store Entry

/-- The calls, with their arguments. `recv` without flags is `read`, `strlen` and `strcpy` get
the string at an address, and `printf` gets its format there. -/
inductive Call where
  | socket
  | bind (fd : Fd)
  | listen (fd : Fd)
  | accept (fd : Fd)
  | getaddrinfo (host : List UInt8)
  | connect (fd : Fd) (res : AddrInfo)
  | freeaddrinfo (res : AddrInfo)
  | close (fd : Fd)
  | read (fd : Fd) (buf : Option Block)
  | write (fd : Fd) (data : List UInt8)
  | writeBlock (fd : Fd) (buf : Option Block) (count : Nat)
  | calloc
  | free (p : Option Block)
  | store (p : Option Block) (i : Nat) (c : UInt8)
  | string (p : Option Block)
  | printf (p : Option Block)

/-- The answers: a descriptor or an address, `none` for -1 and for `NULL`; whether it succeeded;
how many bytes. -/
abbrev Call.Answer : Call → Type
  | .socket | .accept _ => Option Fd
  | .bind _ | .listen _ | .connect .. => Bool
  | .getaddrinfo _ => Option AddrInfo
  | .read .. => Reading
  | .write .. | .writeBlock .. => Int
  | .calloc => Option Block
  | .string _ => List UInt8
  | .freeaddrinfo _ | .close _ | .free _ | .store .. | .printf _ => Unit

abbrev Calls : Signature := ⟨Call, Call.Answer⟩

/-- What the environment decides. -/
inductive Outcome where
  | fails
  | succeeds
  | opens (fd : Fd) (socket : SocketId)
  | allocates (address : Nat)
  | delivers (data : List UInt8)
  | accepts (count : Nat)
deriving DecidableEq

/-- A change of the socket of a descriptor. -/
def alter (fd : Fd) (f : Socket → Socket) (w : Table) : Option Table :=
  match w (.fd fd) with
  | none => none
  | some s =>
      match w (.socket s) with
      | none => none
      | some socket => some (Function.update w (.socket s) (some (f socket)))

/-- A new socket with a descriptor that is not in use. -/
def newSocket (fd : Fd) (s : SocketId) (peer : Peer) (w : Table) : Option Table :=
  if w (.fd fd) = none ∧ w (.socket s) = none then
    some (Function.update (Function.update w (.socket s) (some ⟨peer, [], []⟩)) (.fd fd) (some s))
  else none

/-- The bytes that `read` puts into the buffer. -/
def fill (buf : Option Block) (data : List UInt8) (w : Table) : Option Table :=
  match buf with
  | none => if data = [] then some w else none
  | some b =>
      match w (.block b) with
      | none => none
      | some contents => some (Function.update w (.block b) (some (contents.stores (recv data))))

@[grind =] def exec : (call : Call) → Outcome → Table → Option (call.Answer × Table)
  | .socket, .fails, w => some (none, w)
  | .socket, .opens fd s, w => (newSocket fd s .unconnected w).map (some fd, ·)
  | .bind _, .fails, w => some (false, w)
  | .bind _, .succeeds, w => some (true, w)
  | .listen _, .fails, w => some (false, w)
  | .listen fd, .succeeds, w => (alter fd ({ · with peer := .listening }) w).map (true, ·)
  | .accept _, .fails, w => some (none, w)
  | .accept _, .opens fd s, w => (newSocket fd s .client w).map (some fd, ·)
  | .getaddrinfo _, .fails, w => some (none, w)
  | .getaddrinfo host, .allocates p, w =>
      if w (.addrinfo p) = none then some (some p, Function.update w (.addrinfo p) (some host))
      else none
  | .connect .., .fails, w => some (false, w)
  | .connect fd res, .succeeds, w =>
      match w (.addrinfo res) with
      | none => none
      | some host => (alter fd ({ · with peer := .server host }) w).map (true, ·)
  | .freeaddrinfo res, _, w => some ((), Function.update w (.addrinfo res) none)
  | .close fd, _, w => some ((), Function.update w (.fd fd) none)
  | .read .., .fails, w => some (.error, w)
  | .read fd buf, .delivers data, w =>
      if data.length ≤ bufferSize then
        match fill buf data w with
        | none => none
        | some w' =>
            (alter fd (fun s => { s with received := s.received ++ [data] }) w').map
              (.bytes data, ·)
      else none
  | .write .., .fails, w => some (-1, w)
  | .write fd data, .accepts n, w =>
      if n ≤ data.length then
        (alter fd (fun s => { s with sent := s.sent ++ [data.take n] }) w).map ((n : Int), ·)
      else none
  | .writeBlock .., .fails, w => some (-1, w)
  | .writeBlock fd buf count, .accepts n, w =>
      match buf with
      | none => none
      | some b =>
          match w (.block b) with
          | none => none
          | some contents =>
              if n ≤ count then
                (alter fd (fun s => { s with
                  sent := s.sent ++ [(List.range n).map contents] }) w).map ((n : Int), ·)
              else none
  | .calloc, .fails, w => some (none, w)
  | .calloc, .allocates b, w =>
      if w (.block b) = none then some (some b, Function.update w (.block b) (some fun _ => 0))
      else none
  | .free none, _, w => some ((), w)
  | .free (some b), _, w => some ((), Function.update w (.block b) none)
  | .store none .., _, _ => none
  | .store (some b) i c, _, w =>
      match w (.block b) with
      | none => none
      | some contents => some ((), Function.update w (.block b) (some (contents.stores [(i, c)])))
  | .string none, _, _ => none
  | .string (some b), _, w =>
      match w (.block b) with
      | none => none
      | some contents => some (stringAt contents, w)
  | .printf none, _, _ => none
  | .printf (some b), _, w =>
      match w (.block b) with
      | none => none
      | some contents => if Plain (stringAt contents) then some ((), w) else none
  | _, _, _ => none

/-- The descriptor is open. -/
def Open (fd : Fd) (w : Table) : Prop :=
  ∃ s socket, w (.fd fd) = some s ∧ w (.socket s) = some socket

/-- The address is `NULL` or one of a block. -/
def Live (p : Option Block) (w : Table) : Prop :=
  ∀ b, p = some b → ∃ contents, w (.block b) = some contents

/-- A call for a descriptor that is not open, an address that is not in use, a byte behind the end
of a block, or a format with a conversion specification. -/
def Faults : Call → Table → Prop
  | .socket, _ | .getaddrinfo _, _ | .calloc, _ => False
  | .bind fd, w | .listen fd, w | .accept fd, w | .close fd, w | .write fd _, w => ¬ Open fd w
  | .connect fd res, w => ¬ (Open fd w ∧ ∃ host, w (.addrinfo res) = some host)
  | .freeaddrinfo res, w => ¬ ∃ host, w (.addrinfo res) = some host
  | .read fd buf, w => ¬ (Open fd w ∧ Live buf w)
  | .writeBlock fd buf _, w => ¬ (Open fd w ∧ buf ≠ none ∧ Live buf w)
  | .free p, w => ¬ Live p w
  | .store p i _, w => ¬ (i < bufferSize ∧ p ≠ none ∧ Live p w)
  | .string p, w => ¬ (p ≠ none ∧ Live p w)
  | .printf p, w =>
      ¬ ∃ b contents, p = some b ∧ w (.block b) = some contents ∧ Plain (stringAt contents)

def kernel : Semantics Calls Table Outcome where
  exec := exec
  Faults := Faults

/-! ## A part of the table -/

variable {m n w : Table} {fd : Fd}

theorem Open.join (known : Open fd m) : Open fd (join m n) := by
  obtain ⟨s, socket, here, there⟩ := known
  exact ⟨s, socket, join_of_left here, join_of_left there⟩

theorem Live.join {p : Option Block} (live : Live p m) : Live p (join m n) := by
  intro b same
  obtain ⟨contents, here⟩ := live b same
  exact ⟨contents, join_of_left here⟩

theorem alter_eq {s : SocketId} {socket : Socket} (here : w (.fd fd) = some s)
    (there : w (.socket s) = some socket) (f : Socket → Socket) :
    alter fd f w = some (Function.update w (.socket s) (some (f socket))) := by
  simp only [alter, here, there]

/-- A change under keys of the part. -/
theorem Apart.change {k : Key} {v : Entry k} (apart : Apart m n) (here : m k = some v)
    (v' : Option (Entry k)) :
    Apart (Function.update m k v') n ∧
      Function.update (join m n) k v' = join (Function.update m k v') n :=
  ⟨apart.update (apart.right_none here) v', update_join (apart.right_none here) v'⟩

theorem alter_framed (apart : Apart m n) (known : Open fd m) {f : Socket → Socket}
    (moved : alter fd f (join m n) = some w) :
    ∃ m', alter fd f m = some m' ∧ Apart m' n ∧ w = join m' n := by
  obtain ⟨s, socket, here, there⟩ := known
  rw [alter_eq (join_of_left here) (join_of_left there)] at moved
  cases moved
  obtain ⟨apart', same⟩ := Apart.change apart there (some (f socket))
  exact ⟨_, alter_eq here there f, apart', same⟩

theorem newSocket_framed (apart : Apart m n) {s : SocketId} {peer : Peer}
    (moved : newSocket fd s peer (join m n) = some w) :
    ∃ m', newSocket fd s peer m = some m' ∧ Apart m' n ∧ w = join m' n := by
  unfold newSocket at moved
  split at moved
  · next unused =>
    obtain ⟨free, new⟩ := unused
    rw [join_eq_none] at free new
    cases moved
    refine ⟨_, if_pos ⟨free.1, new.1⟩, (apart.update new.2 _).update free.2 _, ?_⟩
    rw [update_join new.2, update_join free.2]
  · cases moved

theorem fill_framed (apart : Apart m n) {buf : Option Block} (live : Live buf m)
    {data : List UInt8} (moved : fill buf data (join m n) = some w) :
    ∃ m', fill buf data m = some m' ∧ Apart m' n ∧ w = join m' n := by
  cases buf with
  | none =>
    simp only [fill] at moved
    split at moved
    · next empty =>
      cases moved
      exact ⟨m, by simp only [fill, if_pos empty], apart, rfl⟩
    · cases moved
  | some b =>
    obtain ⟨contents, here⟩ := live b rfl
    simp only [fill, join_of_left here] at moved
    cases moved
    obtain ⟨apart', same⟩ := Apart.change apart here (some (contents.stores (recv data)))
    exact ⟨_, by simp only [fill, here], apart', same⟩

/-- Descriptors are not closed by `fill`. -/
theorem fill_open {buf : Option Block} {data : List UInt8} (filled : fill buf data m = some w)
    (known : Open fd m) : Open fd w := by
  obtain ⟨s, socket, here, there⟩ := known
  unfold fill at filled
  split at filled
  · split at filled
    · cases filled
      exact ⟨s, socket, here, there⟩
    · cases filled
  · split at filled
    · cases filled
    · cases filled
      refine ⟨s, socket, ?_, ?_⟩
      · rwa [Function.update_of_ne Key.noConfusion]
      · rwa [Function.update_of_ne Key.noConfusion]

theorem framed : Framed kernel := by
  constructor
  · intro call m n safe fault
    apply safe
    cases call with
    | socket | getaddrinfo | calloc => exact fault
    | bind fd | listen fd | accept fd | close fd | write fd => exact fun known => fault known.join
    | connect fd res =>
      rintro ⟨known, host, here⟩
      exact fault ⟨known.join, host, join_of_left here⟩
    | freeaddrinfo res =>
      rintro ⟨host, here⟩
      exact fault ⟨host, join_of_left here⟩
    | read fd buf => exact fun both => fault ⟨both.1.join, both.2.join⟩
    | writeBlock fd buf count =>
      rintro ⟨known, address, live⟩
      exact fault ⟨known.join, address, live.join⟩
    | free p => exact fun live => fault live.join
    | store p i c =>
      rintro ⟨within, address, live⟩
      exact fault ⟨within, address, live.join⟩
    | string p => exact fun both => fault ⟨both.1, both.2.join⟩
    | printf p =>
      rintro ⟨b, contents, rfl, here, plain⟩
      exact fault ⟨b, contents, rfl, join_of_left here, plain⟩
  · intro call o m n r w apart safe moved
    cases call with
    | socket =>
      cases o with
      | fails =>
        cases moved
        exact ⟨m, rfl, apart, rfl⟩
      | opens fd s =>
        obtain ⟨w', opened, same⟩ := Option.map_eq_some_iff.mp moved
        cases same
        obtain ⟨m', alone, apart', whole⟩ := newSocket_framed apart opened
        exact ⟨m', Option.map_eq_some_iff.mpr ⟨m', alone, rfl⟩, apart', whole⟩
      | _ => cases moved
    | accept fd =>
      cases o with
      | fails =>
        cases moved
        exact ⟨m, rfl, apart, rfl⟩
      | opens fd s =>
        obtain ⟨w', opened, same⟩ := Option.map_eq_some_iff.mp moved
        cases same
        obtain ⟨m', alone, apart', whole⟩ := newSocket_framed apart opened
        exact ⟨m', Option.map_eq_some_iff.mpr ⟨m', alone, rfl⟩, apart', whole⟩
      | _ => cases moved
    | bind fd =>
      cases o with
      | fails | succeeds =>
        cases moved
        exact ⟨m, rfl, apart, rfl⟩
      | _ => cases moved
    | listen fd =>
      cases o with
      | fails =>
        cases moved
        exact ⟨m, rfl, apart, rfl⟩
      | succeeds =>
        obtain ⟨w', altered, same⟩ := Option.map_eq_some_iff.mp moved
        cases same
        obtain ⟨m', alone, apart', whole⟩ := alter_framed apart (not_not.mp safe) altered
        exact ⟨m', Option.map_eq_some_iff.mpr ⟨m', alone, rfl⟩, apart', whole⟩
      | _ => cases moved
    | getaddrinfo host =>
      cases o with
      | fails =>
        cases moved
        exact ⟨m, rfl, apart, rfl⟩
      | allocates p =>
        simp only [kernel, exec] at moved
        split at moved
        · next unused =>
          cases moved
          rw [join_eq_none] at unused
          exact ⟨_, if_pos unused.1, apart.update unused.2 _, update_join unused.2 _⟩
        · cases moved
      | _ => cases moved
    | calloc =>
      cases o with
      | fails =>
        cases moved
        exact ⟨m, rfl, apart, rfl⟩
      | allocates b =>
        simp only [kernel, exec] at moved
        split at moved
        · next unused =>
          cases moved
          rw [join_eq_none] at unused
          exact ⟨_, if_pos unused.1, apart.update unused.2 _, update_join unused.2 _⟩
        · cases moved
      | _ => cases moved
    | connect fd res =>
      obtain ⟨known, host, here⟩ := not_not.mp safe
      cases o with
      | fails =>
        cases moved
        exact ⟨m, rfl, apart, rfl⟩
      | succeeds =>
        simp only [kernel, exec, join_of_left here] at moved
        obtain ⟨w', altered, same⟩ := Option.map_eq_some_iff.mp moved
        cases same
        obtain ⟨m', alone, apart', whole⟩ := alter_framed apart known altered
        refine ⟨m', ?_, apart', whole⟩
        simp only [kernel, exec, here]
        exact Option.map_eq_some_iff.mpr ⟨m', alone, rfl⟩
      | _ => cases moved
    | freeaddrinfo res =>
      obtain ⟨host, here⟩ := not_not.mp safe
      obtain ⟨apart', same⟩ := Apart.change apart here none
      cases moved
      exact ⟨_, rfl, apart', same⟩
    | close fd =>
      obtain ⟨s, socket, here, -⟩ := not_not.mp safe
      obtain ⟨apart', same⟩ := Apart.change apart here none
      cases moved
      exact ⟨_, rfl, apart', same⟩
    | read fd buf =>
      obtain ⟨known, live⟩ := not_not.mp safe
      cases o with
      | fails =>
        cases moved
        exact ⟨m, rfl, apart, rfl⟩
      | delivers data =>
        simp only [kernel, exec] at moved ⊢
        split at moved
        · next short =>
          split at moved
          · cases moved
          · next w₁ filled =>
            obtain ⟨m₁, filled', apart₁, rfl⟩ := fill_framed apart live filled
            obtain ⟨w', altered, same⟩ := Option.map_eq_some_iff.mp moved
            cases same
            obtain ⟨m', alone, apart', whole⟩ :=
              alter_framed apart₁ (fill_open filled' known) altered
            refine ⟨m', ?_, apart', whole⟩
            rw [if_pos short, filled']
            exact Option.map_eq_some_iff.mpr ⟨m', alone, rfl⟩
        · cases moved
      | _ => cases moved
    | write fd data =>
      cases o with
      | fails =>
        cases moved
        exact ⟨m, rfl, apart, rfl⟩
      | accepts count =>
        simp only [kernel, exec] at moved ⊢
        split at moved
        · next fits =>
          obtain ⟨w', altered, same⟩ := Option.map_eq_some_iff.mp moved
          cases same
          obtain ⟨m', alone, apart', whole⟩ := alter_framed apart (not_not.mp safe) altered
          refine ⟨m', ?_, apart', whole⟩
          rw [if_pos fits]
          exact Option.map_eq_some_iff.mpr ⟨m', alone, rfl⟩
        · cases moved
      | _ => cases moved
    | writeBlock fd buf count =>
      obtain ⟨known, address, live⟩ := not_not.mp safe
      cases o with
      | fails =>
        cases moved
        exact ⟨m, rfl, apart, rfl⟩
      | accepts accepted =>
        cases buf with
        | none => exact (address rfl).elim
        | some b =>
          obtain ⟨contents, here⟩ := live b rfl
          simp only [kernel, exec, join_of_left here, here] at moved ⊢
          split at moved
          · next fits =>
            obtain ⟨w', altered, same⟩ := Option.map_eq_some_iff.mp moved
            cases same
            obtain ⟨m', alone, apart', whole⟩ := alter_framed apart known altered
            refine ⟨m', ?_, apart', whole⟩
            rw [if_pos fits]
            exact Option.map_eq_some_iff.mpr ⟨m', alone, rfl⟩
          · cases moved
      | _ => cases moved
    | free p =>
      cases p with
      | none =>
        cases moved
        exact ⟨m, rfl, apart, rfl⟩
      | some b =>
        obtain ⟨contents, here⟩ := not_not.mp safe b rfl
        obtain ⟨apart', same⟩ := Apart.change apart here none
        cases moved
        exact ⟨_, rfl, apart', same⟩
    | store p i c =>
      have address := (not_not.mp safe).2.1
      have live := (not_not.mp safe).2.2
      cases p with
      | none => exact (address rfl).elim
      | some b =>
        obtain ⟨contents, here⟩ := live b rfl
        obtain ⟨apart', same⟩ := Apart.change apart here (some (contents.stores [(i, c)]))
        simp only [kernel, exec, join_of_left here] at moved
        cases moved
        exact ⟨_, by simp only [kernel, exec, here], apart', same⟩
    | string p =>
      obtain ⟨address, live⟩ := not_not.mp safe
      cases p with
      | none => exact (address rfl).elim
      | some b =>
        obtain ⟨contents, here⟩ := live b rfl
        simp only [kernel, exec, join_of_left here, Option.some.injEq, Prod.mk.injEq] at moved
        obtain ⟨rfl, rfl⟩ := moved
        exact ⟨m, by simp only [kernel, exec, here], apart, rfl⟩
    | printf p =>
      obtain ⟨b, contents, rfl, here, plain⟩ := not_not.mp safe
      simp only [kernel, exec, join_of_left here, if_pos plain] at moved
      cases moved
      exact ⟨m, by simp only [kernel, exec, here, if_pos plain], apart, rfl⟩

/-! ## What the calls do -/

section Exec

variable {m' : Table} {o : Outcome} {s : SocketId} {socket : Socket}

theorem newSocket_eq_some {peer : Peer} (opened : newSocket fd s peer m = some m') :
    m (.fd fd) = none ∧ m (.socket s) = none ∧
      m' = Function.update (Function.update m (.socket s) (some ⟨peer, [], []⟩)) (.fd fd)
        (some s) := by
  unfold newSocket at opened
  split at opened
  · next unused =>
    cases opened
    exact ⟨unused.1, unused.2, rfl⟩
  · cases opened

theorem exec_socket {r : Option Fd} (moved : exec .socket o m = some (r, m')) :
    r = none ∧ m' = m ∨ ∃ fd s, r = some fd ∧ newSocket fd s .unconnected m = some m' := by
  cases o with
  | fails =>
    cases moved
    exact Or.inl ⟨rfl, rfl⟩
  | opens fd s =>
    obtain ⟨w, opened, same⟩ := Option.map_eq_some_iff.mp moved
    cases same
    exact Or.inr ⟨fd, s, rfl, opened⟩
  | _ => cases moved

theorem exec_accept {r : Option Fd} (moved : exec (.accept fd) o m = some (r, m')) :
    r = none ∧ m' = m ∨ ∃ k s, r = some k ∧ newSocket k s .client m = some m' := by
  cases o with
  | fails =>
    cases moved
    exact Or.inl ⟨rfl, rfl⟩
  | opens k s =>
    obtain ⟨w, opened, same⟩ := Option.map_eq_some_iff.mp moved
    cases same
    exact Or.inr ⟨k, s, rfl, opened⟩
  | _ => cases moved

theorem exec_bind {r : Bool} (moved : exec (.bind fd) o m = some (r, m')) : m' = m := by
  cases o with
  | fails | succeeds =>
    cases moved
    rfl
  | _ => cases moved

theorem exec_listen (here : m (.fd fd) = some s) (there : m (.socket s) = some socket) {r : Bool}
    (moved : exec (.listen fd) o m = some (r, m')) :
    r = false ∧ m' = m ∨
      r = true ∧ m' = Function.update m (.socket s) (some { socket with peer := .listening }) := by
  cases o with
  | fails =>
    cases moved
    exact Or.inl ⟨rfl, rfl⟩
  | succeeds =>
    simp only [exec, alter_eq here there, Option.map_some] at moved
    cases moved
    exact Or.inr ⟨rfl, rfl⟩
  | _ => cases moved

theorem exec_getaddrinfo {host : List UInt8} {r : Option AddrInfo}
    (moved : exec (.getaddrinfo host) o m = some (r, m')) :
    r = none ∧ m' = m ∨ ∃ p, r = some p ∧ m (.addrinfo p) = none ∧
      m' = Function.update m (.addrinfo p) (some host) := by
  cases o with
  | fails =>
    cases moved
    exact Or.inl ⟨rfl, rfl⟩
  | allocates p =>
    simp only [exec] at moved
    split at moved
    · next unused =>
      cases moved
      exact Or.inr ⟨p, rfl, unused, rfl⟩
    · cases moved
  | _ => cases moved

theorem exec_calloc {r : Option Block} (moved : exec .calloc o m = some (r, m')) :
    r = none ∧ m' = m ∨ ∃ b, r = some b ∧ m (.block b) = none ∧
      m' = Function.update m (.block b) (some fun _ => 0) := by
  cases o with
  | fails =>
    cases moved
    exact Or.inl ⟨rfl, rfl⟩
  | allocates b =>
    simp only [exec] at moved
    split at moved
    · next unused =>
      cases moved
      exact Or.inr ⟨b, rfl, unused, rfl⟩
    · cases moved
  | _ => cases moved

theorem exec_connect (here : m (.fd fd) = some s) (there : m (.socket s) = some socket)
    {res : AddrInfo} {host : List UInt8} (known : m (.addrinfo res) = some host) {r : Bool}
    (moved : exec (.connect fd res) o m = some (r, m')) :
    r = false ∧ m' = m ∨
      r = true ∧
        m' = Function.update m (.socket s) (some { socket with peer := .server host }) := by
  cases o with
  | fails =>
    cases moved
    exact Or.inl ⟨rfl, rfl⟩
  | succeeds =>
    simp only [exec, known, alter_eq here there, Option.map_some] at moved
    cases moved
    exact Or.inr ⟨rfl, rfl⟩
  | _ => cases moved

/-- With what `fill` has put into the buffer. -/
theorem exec_read (here : m (.fd fd) = some s) (there : m (.socket s) = some socket)
    {buf : Option Block} {r : Reading} (moved : exec (.read fd buf) o m = some (r, m')) :
    r = .error ∧ m' = m ∨ ∃ data w, o = .delivers data ∧ r = .bytes data ∧
      data.length ≤ bufferSize ∧ fill buf data m = some w ∧
      m' = Function.update w (.socket s)
        (some { socket with received := socket.received ++ [data] }) := by
  cases o with
  | fails =>
    cases moved
    exact Or.inl ⟨rfl, rfl⟩
  | delivers data =>
    simp only [exec] at moved
    split at moved
    · next short =>
      split at moved
      · cases moved
      · next w filled =>
        have kept : w (.fd fd) = some s ∧ w (.socket s) = some socket := by
          unfold fill at filled
          split at filled
          · split at filled
            · cases filled
              exact ⟨here, there⟩
            · cases filled
          · split at filled
            · cases filled
            · cases filled
              rw [Function.update_of_ne Key.noConfusion, Function.update_of_ne Key.noConfusion]
              exact ⟨here, there⟩
        simp only [alter_eq kept.1 kept.2, Option.map_some] at moved
        cases moved
        exact Or.inr ⟨data, w, rfl, rfl, short, filled, rfl⟩
    · cases moved
  | _ => cases moved

theorem exec_write (here : m (.fd fd) = some s) (there : m (.socket s) = some socket)
    {data : List UInt8} {r : Int} (moved : exec (.write fd data) o m = some (r, m')) :
    r = -1 ∧ m' = m ∨ ∃ n : Nat, r = n ∧ n ≤ data.length ∧
      m' = Function.update m (.socket s)
        (some { socket with sent := socket.sent ++ [data.take n] }) := by
  cases o with
  | fails =>
    cases moved
    exact Or.inl ⟨rfl, rfl⟩
  | accepts n =>
    simp only [exec] at moved
    split at moved
    · next fits =>
      simp only [alter_eq here there, Option.map_some] at moved
      cases moved
      exact Or.inr ⟨n, rfl, fits, rfl⟩
    · cases moved
  | _ => cases moved

theorem exec_writeBlock (here : m (.fd fd) = some s) (there : m (.socket s) = some socket)
    {b : Block} {contents : Memory} (known : m (.block b) = some contents) {count : Nat} {r : Int}
    (moved : exec (.writeBlock fd (some b) count) o m = some (r, m')) :
    r = -1 ∧ m' = m ∨ ∃ n : Nat, r = n ∧ n ≤ count ∧ m' = Function.update m (.socket s)
      (some { socket with sent := socket.sent ++ [(List.range n).map contents] }) := by
  cases o with
  | fails =>
    cases moved
    exact Or.inl ⟨rfl, rfl⟩
  | accepts n =>
    simp only [exec, known] at moved
    split at moved
    · next fits =>
      simp only [alter_eq here there, Option.map_some] at moved
      cases moved
      exact Or.inr ⟨n, rfl, fits, rfl⟩
    · cases moved
  | _ => cases moved

theorem exec_store {b : Block} {contents : Memory} (known : m (.block b) = some contents) {i : Nat}
    {c : UInt8} {r : Unit} (moved : exec (.store (some b) i c) o m = some (r, m')) :
    m' = Function.update m (.block b) (some (contents.stores [(i, c)])) := by
  grind

theorem exec_string {b : Block} {contents : Memory} (known : m (.block b) = some contents)
    {r : List UInt8} (moved : exec (.string (some b)) o m = some (r, m')) :
    r = stringAt contents ∧ m' = m := by
  grind

theorem exec_printf {p : Option Block} {r : Unit} (moved : exec (.printf p) o m = some (r, m')) :
    m' = m := by
  cases p with
  | none => cases moved
  | some b =>
    simp only [exec] at moved
    split at moved
    · cases moved
    · split at moved
      · cases moved
        rfl
      · cases moved

/-- What `fill` puts into a block. -/
theorem fill_block {b : Block} {contents : Memory} (known : m (.block b) = some contents)
    {data : List UInt8} (filled : fill (some b) data m = some w) :
    w = Function.update m (.block b) (some (contents.stores (recv data))) := by
  simp only [fill, known] at filled
  cases filled
  rfl

theorem fill_null {data : List UInt8} (filled : fill none data m = some w) : data = [] ∧ w = m := by
  simp only [fill] at filled
  split at filled
  · next empty =>
    cases filled
    exact ⟨empty, rfl⟩
  · cases filled

end Exec

end Os2Labs.Proxy.Process
