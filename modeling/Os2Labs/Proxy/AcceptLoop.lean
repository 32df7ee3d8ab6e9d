import Os2Labs.Conc.Runs

/-!
# The accept loop of the proxy

`main` of `proxy/main.c` hands each connection to a new thread through the address of
the block-local `ctx`, which is the same stack slot in every iteration; the thread
copies the two fields when it gets to run.

A socket or a buffer stands for itself for the whole run: the number of a socket that
was closed may be given out again, but that is another socket.  So `accept` and
`calloc` return any one that was not returned before.

`separate_iff_careful`: handlers and connections correspond as long as `main` does not
write a field of the slot that a created handler has still to read; and the first time
it does, a handler can end up with a connection that is not its own.
-/

namespace Os2Labs.Proxy

open Conc

abbrev Socket := Nat

abbrev Buffer := Nat

/-- `context`. -/
structure Context where
  clientSocket : Socket
  request : Buffer
deriving DecidableEq

/-- Where `main` is, with its local variables `client_socket` and `request`. -/
inductive MainPc where
  | accept
  | calloc (clientSocket : Socket)
  | readRequest (clientSocket : Socket) (request : Buffer)
  | storeClientSocket (clientSocket : Socket) (request : Buffer)
  | storeRequest (clientSocket : Socket) (request : Buffer)
  | pthreadCreate (clientSocket : Socket) (request : Buffer)
deriving DecidableEq

/-- Where a `client_handler` is, with the locals it has copied. -/
inductive HandlerPc where
  | loadClientSocket
  | loadRequest (clientSocket : Socket)
  | serving (clientSocket : Socket) (request : Buffer)
deriving DecidableEq

structure State where
  main : MainPc
  /-- The stack slot. -/
  ctx : Context
  handlers : List HandlerPc
  /-- The connections for which a handler was created, in order. -/
  created : List Context
  /-- All sockets and buffers there have been. -/
  sockets : List Socket
  buffers : List Buffer
deriving DecidableEq

inductive Event where
  | accept (clientSocket : Socket)
  | acceptFails
  | calloc (request : Buffer)
  | readRequest (ok : Bool)
  | storeClientSocket
  | storeRequest
  | pthreadCreate (ok : Bool)
  | load (handler : Nat)
deriving DecidableEq

/-- One access of a handler to the slot. -/
def handlerStep (ctx : Context) : HandlerPc → Option HandlerPc
  | .loadClientSocket => some (.loadRequest ctx.clientSocket)
  | .loadRequest clientSocket => some (.serving clientSocket ctx.request)
  | .serving .. => none

/-- One step of `main` or of a handler. -/
def step (s : State) : Event → Option State
  | .accept clientSocket =>
      match s.main with
      | .accept =>
          if clientSocket ∉ s.sockets then
            some { s with main := .calloc clientSocket, sockets := clientSocket :: s.sockets }
          else none
      | _ => none
  | .acceptFails =>
      match s.main with
      | .accept => some s
      | _ => none
  | .calloc request =>
      match s.main with
      | .calloc clientSocket =>
          if request ∉ s.buffers then
            some { s with
              main := .readRequest clientSocket request
              buffers := request :: s.buffers }
          else none
      | _ => none
  | .readRequest ok =>
      match s.main with
      | .readRequest clientSocket request =>
          some { s with main := if ok then .storeClientSocket clientSocket request else .accept }
      | _ => none
  | .storeClientSocket =>
      match s.main with
      | .storeClientSocket clientSocket request =>
          some { s with
            main := .storeRequest clientSocket request
            ctx := { s.ctx with clientSocket := clientSocket } }
      | _ => none
  | .storeRequest =>
      match s.main with
      | .storeRequest clientSocket request =>
          some { s with
            main := .pthreadCreate clientSocket request
            ctx := { s.ctx with request := request } }
      | _ => none
  | .pthreadCreate ok =>
      match s.main with
      | .pthreadCreate clientSocket request =>
          if ok then
            some { s with
              main := .accept
              handlers := s.handlers ++ [.loadClientSocket]
              created := s.created ++ [⟨clientSocket, request⟩] }
          else some { s with main := .accept }
      | _ => none
  | .load i =>
      match s.handlers[i]? with
      | some h => (handlerStep s.ctx h).map fun h' => { s with handlers := s.handlers.set i h' }
      | none => none

/-- At the start of the loop, with whatever is in the slot. -/
def init (garbage : Context) : State where
  main := .accept
  ctx := garbage
  handlers := []
  created := []
  sockets := []
  buffers := []

/-- What a handler has copied is what belongs to the connection. -/
def HandlerPc.Matches : HandlerPc → Context → Prop
  | .loadClientSocket, _ => True
  | .loadRequest clientSocket, c => clientSocket = c.clientSocket
  | .serving clientSocket request, c => clientSocket = c.clientSocket ∧ request = c.request

/-- Whether a handler has copied a field of the slot. -/
def HandlerPc.copiedClientSocket : HandlerPc → Bool
  | .loadClientSocket => false
  | .loadRequest _ | .serving .. => true

def HandlerPc.copiedRequest : HandlerPc → Bool
  | .loadClientSocket | .loadRequest _ => false
  | .serving .. => true

/-- The `i`-th handler works with the `i`-th connection, and no two handlers work with the same
socket or buffer. -/
structure Separate (s : State) : Prop where
  handled : s.handlers.length = s.created.length
  own : ∀ (i : Nat) h, s.handlers[i]? = some h → ∃ c, s.created[i]? = some c ∧ h.Matches c
  unshared : ∀ (i j : Nat) k r k' r', s.handlers[i]? = some (.serving k r) →
    s.handlers[j]? = some (.serving k' r') → i ≠ j → k ≠ k' ∧ r ≠ r'

/-- `main` does not write a field that a created handler has still to read. -/
def Careful (s : State) : Event → Prop
  | .storeClientSocket => ∀ h ∈ s.handlers, h.copiedClientSocket = true
  | .storeRequest => ∀ h ∈ s.handlers, h.copiedRequest = true
  | _ => True

instance : (s : State) → (e : Event) → Decidable (Careful s e)
  | s, .storeClientSocket =>
      inferInstanceAs (Decidable (∀ h ∈ s.handlers, h.copiedClientSocket = true))
  | s, .storeRequest => inferInstanceAs (Decidable (∀ h ∈ s.handlers, h.copiedRequest = true))
  | _, .accept _ | _, .acceptFails | _, .calloc _ | _, .readRequest _ | _, .pthreadCreate _
  | _, .load _ => inferInstanceAs (Decidable True)

/-! ## The steps -/

/-- The steps by what they do. -/
inductive Move (s : State) : Event → State → Prop
  | accept {k : Socket} (here : s.main = .accept) (fresh : k ∉ s.sockets) :
    Move s (.accept k) { s with main := .calloc k, sockets := k :: s.sockets }
  | acceptFails : Move s .acceptFails s
  | calloc {k : Socket} {r : Buffer} (here : s.main = .calloc k) (fresh : r ∉ s.buffers) :
    Move s (.calloc r) { s with main := .readRequest k r, buffers := r :: s.buffers }
  | readRequest {k : Socket} {r : Buffer} (here : s.main = .readRequest k r) :
    Move s (.readRequest true) { s with main := .storeClientSocket k r }
  | readFails : Move s (.readRequest false) { s with main := .accept }
  | storeClientSocket {k : Socket} {r : Buffer} (here : s.main = .storeClientSocket k r) :
    Move s .storeClientSocket
      { s with main := .storeRequest k r, ctx := { s.ctx with clientSocket := k } }
  | storeRequest {k : Socket} {r : Buffer} (here : s.main = .storeRequest k r) :
    Move s .storeRequest
      { s with main := .pthreadCreate k r, ctx := { s.ctx with request := r } }
  | pthreadCreate {k : Socket} {r : Buffer} (here : s.main = .pthreadCreate k r) :
    Move s (.pthreadCreate true) { s with
      main := .accept
      handlers := s.handlers ++ [.loadClientSocket]
      created := s.created ++ [⟨k, r⟩] }
  | createFails : Move s (.pthreadCreate false) { s with main := .accept }
  | load {i : Nat} {h h' : HandlerPc} (here : s.handlers[i]? = some h)
      (loaded : handlerStep s.ctx h = some h') :
    Move s (.load i) { s with handlers := s.handlers.set i h' }

theorem step_move {s s' : State} {e : Event} (moved : step s e = some s') : Move s e s' := by
  cases e with
  | accept k =>
    simp only [step] at moved
    split at moved
    · next here =>
      split at moved
      · next fresh =>
        cases moved
        exact .accept here fresh
      · cases moved
    · cases moved
  | acceptFails =>
    simp only [step] at moved
    split at moved
    · cases moved
      exact .acceptFails
    · cases moved
  | calloc r =>
    simp only [step] at moved
    split at moved
    · next k here =>
      split at moved
      · next fresh =>
        cases moved
        exact .calloc here fresh
      · cases moved
    · cases moved
  | readRequest ok =>
    simp only [step] at moved
    split at moved
    · next k r here =>
      cases moved
      cases ok with
      | true => exact .readRequest here
      | false => exact .readFails
    · cases moved
  | storeClientSocket =>
    simp only [step] at moved
    split at moved
    · next k r here =>
      cases moved
      exact .storeClientSocket here
    · cases moved
  | storeRequest =>
    simp only [step] at moved
    split at moved
    · next k r here =>
      cases moved
      exact .storeRequest here
    · cases moved
  | pthreadCreate ok =>
    simp only [step] at moved
    split at moved
    · next k r here =>
      cases ok with
      | true =>
        cases moved
        exact .pthreadCreate here
      | false =>
        cases moved
        exact .createFails
    · cases moved
  | load i =>
    simp only [step] at moved
    split at moved
    · next h here =>
      rcases Option.map_eq_some_iff.mp moved with ⟨h', loaded, rfl⟩
      exact .load here loaded
    · cases moved

/-! ## Every connection is another one -/

/-- The socket and the buffer `main` is dealing with. -/
def MainPc.clientSocket? : MainPc → Option Socket
  | .accept => none
  | .calloc k | .readRequest k _ | .storeClientSocket k _ | .storeRequest k _
  | .pthreadCreate k _ => some k

def MainPc.request? : MainPc → Option Buffer
  | .accept | .calloc _ => none
  | .readRequest _ r | .storeClientSocket _ r | .storeRequest _ r | .pthreadCreate _ r => some r

/-- A resource of the connections: those in use so far are distinct, and the one `main` is
dealing with is none of them. -/
structure Fresh (old : List Nat) (used : List Nat) (current : Option Nat) : Prop where
  distinct : old.Nodup
  known : ∀ x ∈ old, x ∈ used
  new : ∀ x, current = some x → x ∈ used ∧ x ∉ old

theorem Fresh.acquire {old used : List Nat} {x : Nat} {current : Option Nat}
    (fresh : Fresh old used current) (unused : x ∉ used) : Fresh old (x :: used) (some x) := by
  refine ⟨fresh.distinct, fun y member => List.mem_cons_of_mem x (fresh.known y member), ?_⟩
  intro _ known
  cases known
  exact ⟨List.mem_cons_self, fun member => unused (fresh.known x member)⟩

theorem Fresh.drop {old used : List Nat} {current : Option Nat} (fresh : Fresh old used current) :
    Fresh old used none := ⟨fresh.distinct, fresh.known, nofun⟩

theorem Fresh.hand {old used : List Nat} {x : Nat} (fresh : Fresh old used (some x)) :
    Fresh (old ++ [x]) used none := by
  rcases fresh.new x rfl with ⟨known, new⟩
  refine ⟨?_, ?_, nofun⟩
  · rw [List.nodup_append]
    refine ⟨fresh.distinct, List.nodup_cons.mpr ⟨nofun, List.nodup_nil⟩, ?_⟩
    intro y member z single same
    subst same
    rw [List.mem_singleton.mp single] at member
    exact new member
  · intro y member
    rcases List.mem_append.mp member with before | single
    · exact fresh.known y before
    · rw [List.mem_singleton.mp single]
      exact known

/-- What holds of every run. -/
structure Distinct (s : State) : Prop where
  handled : s.handlers.length = s.created.length
  sockets : Fresh (s.created.map Context.clientSocket) s.sockets s.main.clientSocket?
  buffers : Fresh (s.created.map Context.request) s.buffers s.main.request?

theorem Distinct.step {s s' : State} {e : Event} (distinct : Distinct s) (move : Move s e s') :
    Distinct s' := by
  have sockets := distinct.sockets
  have buffers := distinct.buffers
  cases move with
  | accept here fresh => exact ⟨distinct.handled, sockets.acquire fresh, buffers.drop⟩
  | acceptFails => exact distinct
  | calloc here fresh =>
    rw [here] at sockets
    exact ⟨distinct.handled, sockets, buffers.acquire fresh⟩
  | readRequest here =>
    rw [here] at sockets buffers
    exact ⟨distinct.handled, sockets, buffers⟩
  | storeClientSocket here =>
    rw [here] at sockets buffers
    exact ⟨distinct.handled, sockets, buffers⟩
  | storeRequest here =>
    rw [here] at sockets buffers
    exact ⟨distinct.handled, sockets, buffers⟩
  | pthreadCreate here =>
    rw [here] at sockets buffers
    refine ⟨?_, ?_, ?_⟩
    · simp only [List.length_append, distinct.handled, List.length_singleton]
    · rw [List.map_append]
      exact sockets.hand
    · rw [List.map_append]
      exact buffers.hand
  | readFails => exact ⟨distinct.handled, sockets.drop, buffers.drop⟩
  | createFails => exact ⟨distinct.handled, sockets.drop, buffers.drop⟩
  | load here loaded =>
    refine ⟨?_, sockets, buffers⟩
    simp only [List.length_set, distinct.handled]

theorem distinct {garbage : Context} {s : State} (reached : Reachable step (init garbage) s) :
    Distinct s := by
  refine reached.invariant (P := Distinct) ?_
    fun _ _ _ before moved => before.step (step_move moved)
  have nothing : Fresh [] [] none := ⟨List.nodup_nil, nofun, nofun⟩
  exact ⟨rfl, nothing, nothing⟩

/-! ## Careful runs -/

/-- What a handler has still to copy is in the slot. -/
structure Pending (ctx : Context) (h : HandlerPc) (c : Context) : Prop where
  copied : h.Matches c
  clientSocket : h.copiedClientSocket = false → ctx.clientSocket = c.clientSocket
  request : h.copiedRequest = false → ctx.request = c.request

/-- One access of a handler to the slot. -/
theorem Pending.load {ctx c : Context} {h h' : HandlerPc} (pending : Pending ctx h c)
    (loaded : handlerStep ctx h = some h') : Pending ctx h' c := by
  cases h with
  | loadClientSocket =>
    cases loaded
    exact ⟨pending.clientSocket rfl, nofun, fun _ => pending.request rfl⟩
  | loadRequest k =>
    cases loaded
    exact ⟨⟨pending.copied, pending.request rfl⟩, nofun, nofun⟩
  | serving k r => cases loaded

/-- Every handler has its own connection in hand or in the slot, and `main` has in the slot what
it has written there. -/
structure Handed (s : State) : Prop where
  pending : ∀ (i : Nat) h, s.handlers[i]? = some h →
    ∃ c, s.created[i]? = some c ∧ Pending s.ctx h c
  stored : ∀ k r, s.main = .storeRequest k r ∨ s.main = .pthreadCreate k r → s.ctx.clientSocket = k
  storedBoth : ∀ k r, s.main = .pthreadCreate k r → s.ctx.request = r

/-- A step of `main` that leaves the handlers and the slot alone. -/
theorem Handed.keep {s s' : State} (handed : Handed s) (handlers : s'.handlers = s.handlers)
    (created : s'.created = s.created) (ctx : s'.ctx = s.ctx)
    (before : ∀ k r, s'.main ≠ .storeRequest k r) (before' : ∀ k r, s'.main ≠ .pthreadCreate k r) :
    Handed s' := by
  refine ⟨?_, ?_, fun k r here => (before' k r here).elim⟩
  · rw [handlers, created, ctx]
    exact handed.pending
  · intro k r known
    rcases known with here | here
    · exact (before k r here).elim
    · exact (before' k r here).elim

/-- A write to the slot that no handler has to wait for. -/
theorem Handed.write {s : State} (handed : Handed s) {ctx : Context}
    (same : ∀ h ∈ s.handlers,
      (h.copiedClientSocket = false → ctx.clientSocket = s.ctx.clientSocket) ∧
      (h.copiedRequest = false → ctx.request = s.ctx.request)) (i : Nat) (h : HandlerPc)
    (here : s.handlers[i]? = some h) : ∃ c, s.created[i]? = some c ∧ Pending ctx h c := by
  rcases handed.pending i h here with ⟨c, at_i, pending⟩
  obtain ⟨sameSocket, sameRequest⟩ := same h (List.mem_of_getElem? here)
  exact ⟨c, at_i, pending.copied,
    fun waits => (sameSocket waits).trans (pending.clientSocket waits),
    fun waits => (sameRequest waits).trans (pending.request waits)⟩

theorem Handed.create {s : State} (handed : Handed s)
    (handled : s.handlers.length = s.created.length) {k : Socket} {r : Buffer}
    (here : s.main = .pthreadCreate k r) : Handed { s with
      main := .accept
      handlers := s.handlers ++ [.loadClientSocket]
      created := s.created ++ [⟨k, r⟩] } := by
  refine ⟨?_, nofun, nofun⟩
  intro i h there
  rcases Nat.lt_trichotomy i s.handlers.length with before | rfl | beyond
  · simp only [List.getElem?_append_left before] at there
    simp only [List.getElem?_append_left (handled ▸ before)]
    exact handed.pending i h there
  · simp only [List.getElem?_concat_length, Option.some.injEq] at there
    subst there
    rw [handled]
    refine ⟨⟨k, r⟩, List.getElem?_concat_length, trivial, fun _ => ?_, fun _ => ?_⟩
    · exact handed.stored k r (Or.inr here)
    · exact handed.storedBoth k r here
  · rw [List.getElem?_eq_none (by simp; omega)] at there
    cases there

theorem Handed.load {s : State} (handed : Handed s) {i : Nat} {h h' : HandlerPc}
    (here : s.handlers[i]? = some h) (loaded : handlerStep s.ctx h = some h') :
    Handed { s with handlers := s.handlers.set i h' } := by
  refine ⟨?_, handed.stored, handed.storedBoth⟩
  intro j g there
  simp only at there
  by_cases same : i = j
  · subst same
    rcases handed.pending i h here with ⟨c, created, pending⟩
    have within : i < s.handlers.length := (List.getElem?_eq_some_iff.mp here).1
    rw [List.getElem?_set_self within] at there
    cases there
    exact ⟨c, created, pending.load loaded⟩
  · rw [List.getElem?_set_ne same] at there
    exact handed.pending j g there

theorem Handed.step {s s' : State} {e : Event} (handed : Handed s)
    (handled : s.handlers.length = s.created.length) (careful : Careful s e)
    (move : Move s e s') : Handed s' := by
  cases move with
  | accept here fresh => exact handed.keep rfl rfl rfl nofun nofun
  | acceptFails => exact handed
  | calloc here fresh => exact handed.keep rfl rfl rfl nofun nofun
  | readRequest here => exact handed.keep rfl rfl rfl nofun nofun
  | readFails => exact handed.keep rfl rfl rfl nofun nofun
  | storeClientSocket here =>
    refine ⟨handed.write fun h member => ⟨fun waits => ?_, fun _ => rfl⟩, ?_, nofun⟩
    · rw [careful h member] at waits
      cases waits
    · intro _ _ known
      rcases known with ⟨⟨⟩⟩ | ⟨⟨⟩⟩
      rfl
  | storeRequest here =>
    refine ⟨handed.write fun h member => ⟨fun _ => rfl, fun waits => ?_⟩, ?_, ?_⟩
    · rw [careful h member] at waits
      cases waits
    · intro _ _ known
      rcases known with ⟨⟨⟩⟩ | ⟨⟨⟩⟩
      exact handed.stored _ _ (Or.inl here)
    · intro _ _ known
      rcases known with ⟨⟨⟩⟩
      rfl
  | pthreadCreate here => exact handed.create handled here
  | createFails => exact handed.keep rfl rfl rfl nofun nofun
  | load here loaded => exact handed.load here loaded

theorem Handed.separate {s : State} (handed : Handed s) (distinct : Distinct s) : Separate s := by
  refine ⟨distinct.handled, ?_, ?_⟩
  · intro i h here
    rcases handed.pending i h here with ⟨c, at_i, pending⟩
    exact ⟨c, at_i, pending.copied⟩
  · intro i j k r k' r' at_i at_j apart
    rcases handed.pending i _ at_i with ⟨c, created, pending⟩
    rcases handed.pending j _ at_j with ⟨c', created', pending'⟩
    obtain ⟨rfl, rfl⟩ := pending.copied
    obtain ⟨rfl, rfl⟩ := pending'.copied
    have within : i < s.created.length := (List.getElem?_eq_some_iff.mp created).1
    have differ : ∀ f : Context → Nat, (s.created.map f).Nodup → f c ≠ f c' := by
      intro f nodup same
      refine apart ((List.getElem?_inj (by rwa [List.length_map]) nodup).mp ?_)
      rw [List.getElem?_map, List.getElem?_map, created, created']
      exact congrArg some same
    exact ⟨differ _ distinct.sockets.distinct, differ _ distinct.buffers.distinct⟩

/-- In a careful run every handler works with its own connection. -/
theorem careful_handed {garbage : Context} {s : State}
    (reached : Reachable (restrict Careful step) (init garbage) s) : Handed s := by
  apply reached.induction (motive := Handed)
  · exact ⟨by simp [init], by simp [init], by simp [init]⟩
  · intro a b e before ih moved
    rcases restrict_eq_some.mp moved with ⟨careful, moved⟩
    exact ih.step (distinct before.of_restrict).handled careful (step_move moved)

/-- A handler that has copied what belongs to no created connection. -/
theorem Separate.own_field {s : State} (separate : Separate s) {i : Nat} {k : Socket}
    (here : s.handlers[i]? = some (.loadRequest k)) : k ∈ s.created.map Context.clientSocket := by
  rcases separate.own i _ here with ⟨c, created, same⟩
  exact List.mem_map.mpr ⟨c, List.mem_of_getElem? created, same.symm⟩

theorem Separate.own_request {s : State} (separate : Separate s) {i : Nat} {k : Socket} {r : Buffer}
    (here : s.handlers[i]? = some (.serving k r)) : r ∈ s.created.map Context.request := by
  rcases separate.own i _ here with ⟨c, created, same⟩
  exact List.mem_map.mpr ⟨c, List.mem_of_getElem? created, same.2.symm⟩

/-- A handler that has not copied the socket yet copies the one in the slot. -/
theorem wrong_socket {s : State} {i : Nat} (here : s.handlers[i]? = some .loadClientSocket)
    (foreign : s.ctx.clientSocket ∉ s.created.map Context.clientSocket) :
    ∃ s', Reachable step s s' ∧ ¬ Separate s' := by
  have loaded : step s (.load i) = some { s with
      handlers := s.handlers.set i (.loadRequest s.ctx.clientSocket) } := by
    simp only [step, here, handlerStep, Option.map_some]
  refine ⟨_, .one loaded, fun separate => foreign ?_⟩
  have within : i < s.handlers.length := (List.getElem?_eq_some_iff.mp here).1
  exact separate.own_field (i := i) (List.getElem?_set_self within)

theorem wrong_request {s : State} {i : Nat} {k : Socket}
    (here : s.handlers[i]? = some (.loadRequest k))
    (foreign : s.ctx.request ∉ s.created.map Context.request) :
    ∃ s', Reachable step s s' ∧ ¬ Separate s' := by
  have loaded : step s (.load i) = some { s with
      handlers := s.handlers.set i (.serving k s.ctx.request) } := by
    simp only [step, here, handlerStep, Option.map_some]
  refine ⟨_, .one loaded, fun separate => foreign ?_⟩
  have within : i < s.handlers.length := (List.getElem?_eq_some_iff.mp here).1
  exact separate.own_request (i := i) (List.getElem?_set_self within)

/-- After a careless write some continuation goes wrong. -/
theorem careless {s s' : State} {e : Event} (distinct : Distinct s) (handed : Handed s)
    (careless : ¬ Careful s e) (move : Move s e s') :
    ∃ s'', Reachable step s' s'' ∧ ¬ Separate s'' := by
  have sockets := distinct.sockets
  have buffers := distinct.buffers
  cases move with
  | storeClientSocket here =>
    obtain ⟨h, member, waits⟩ : ∃ h ∈ s.handlers, h.copiedClientSocket = false := by
      simpa [Careful] using careless
    rcases List.mem_iff_getElem?.mp member with ⟨i, at_i⟩
    rw [here] at sockets
    cases h with
    | loadClientSocket => exact wrong_socket (i := i) at_i (sockets.new _ rfl).2
    | loadRequest k => cases waits
    | serving k r => cases waits
  | storeRequest here =>
    obtain ⟨h, member, waits⟩ : ∃ h ∈ s.handlers, h.copiedRequest = false := by
      simpa [Careful] using careless
    rcases List.mem_iff_getElem?.mp member with ⟨i, at_i⟩
    rw [here] at sockets buffers
    cases h with
    | loadClientSocket =>
      have stored := handed.stored _ _ (Or.inl here)
      refine wrong_socket (i := i) at_i ?_
      rw [show s.ctx.clientSocket = _ from stored]
      exact (sockets.new _ rfl).2
    | loadRequest k => exact wrong_request (i := i) at_i (buffers.new _ rfl).2
    | serving k r => cases waits
  | _ => exact (careless trivial).elim

/-- **When the accept loop keeps the connections apart.**  In every run whose writes to the slot
come after the reads of the handlers created before, the `i`-th handler works with the
`i`-th connection and no two handlers share a socket or a buffer; and after the first
write that does not, some continuation violates this. -/
theorem separate_iff_careful (garbage : Context) :
    (∀ s, Reachable (restrict Careful step) (init garbage) s → Separate s) ∧
      ∀ s e s', Reachable (restrict Careful step) (init garbage) s → step s e = some s' →
        ((∀ s'', Reachable step s' s'' → Separate s'') → Careful s e) := by
  refine ⟨fun s reached => ?_, fun s e s' reached moved always => ?_⟩
  · exact (careful_handed reached).separate (distinct reached.of_restrict)
  · by_contra fails
    obtain ⟨s'', further, broken⟩ :=
      careless (distinct reached.of_restrict) (careful_handed reached) fails (step_move moved)
    exact broken (always s'' further)

/-- One iteration of `main` up to the creation of the handler. -/
def serve (k : Socket) (r : Buffer) : List Event :=
  [.accept k, .calloc r, .readRequest true, .storeClientSocket, .storeRequest, .pthreadCreate true]

/-- Two connections, and both handlers run after the second one was accepted: both work with
it, and nobody with the first one. -/
theorem both_serve_second : ∃ s, Reachable step (init ⟨0, 0⟩) s ∧ s.created = [⟨1, 1⟩, ⟨2, 2⟩] ∧
    s.handlers = [.serving 2 2, .serving 2 2] ∧ ¬ Separate s := by
  have reached : Reachable step (init ⟨0, 0⟩) _ :=
    ⟨serve 1 1 ++ serve 2 2 ++ [.load 0, .load 0, .load 1, .load 1], rfl⟩
  refine ⟨_, reached, rfl, rfl, fun separate => ?_⟩
  exact (separate.unshared 0 1 2 2 2 2 rfl rfl (by decide)).1 rfl

end Os2Labs.Proxy
