import Os2Labs.Proxy.Isolation

/-!
# What the proxy does with what it has opened

In careful runs no call is about a descriptor or an address that is not the thread's own
(`within_shares`), so nothing is closed or freed twice, or used after that; and what is never
closed or freed is known exactly (`leaked_iff`).
-/

namespace Os2Labs.Proxy.Process

open Conc Bytes
open Conc.Store

variable {inherited : Table} {s : State} {serverSocket clientSocket : Fd} {request : Option Block}
  {ctx : Context}

/-- What `main` has open at the start of a round of its loop. -/
theorem main_holds {main : Main} {m : Table} (proper : main.Proper ctx m)
    (here : main.point = .accept) {k : Key} {v : Entry k} (known : m k = some v) :
    k = .fd main.serverSocket ∨ ∃ c, k = .socket c := by
  obtain ⟨r, exactly, past, -⟩ := proper
  unfold Main.held at exactly
  rw [here] at exactly
  rcases List.mem_append.mp (exactly.member known) with heard | before
  · rcases heard with _ | ⟨_, _ | ⟨_, ⟨⟩⟩⟩
    · exact Or.inr ⟨_, rfl⟩
    · exact Or.inl rfl
  · obtain ⟨c, socket, same, -⟩ := past _ before
    cases same
    exact Or.inr ⟨c, rfl⟩

theorem main_server {main : Main} {m : Table} (proper : main.Proper ctx m)
    (here : main.point = .accept) : m (.fd main.serverSocket) ≠ none := by
  obtain ⟨r, exactly, -, -⟩ := proper
  unfold Main.held at exactly
  rw [here] at exactly
  rw [exactly.get (.tail _ (.head _))]
  exact Option.some_ne_none _

/-- What a handler that has returned has not released. -/
structure Left (h : Handler) (m : Table) : Prop where
  fd : ∀ k, m (.fd k) ≠ none ↔ h.point = .closing [] .noHost ∧ h.clientSocket = k
  block : ∀ b, m (.block b) ≠ none ↔ h.point ≠ .closing [] .served ∧ h.requestTemp = some b
  addrinfo : ∀ p, m (.addrinfo p) = none

/-- A key is there exactly if it is one of the entries. -/
theorem ne_none_iff {m : Table} {entries : List Deed} (exactly : Exactly m entries) {k : Key} :
    m k ≠ none ↔ k ∈ entries.map Sigma.fst := by
  rw [Option.ne_none_iff_exists', List.mem_map]
  constructor
  · rintro ⟨v, known⟩
    exact ⟨⟨k, v⟩, exactly.member known, rfl⟩
  · rintro ⟨⟨k', v⟩, member, rfl⟩
    exact ⟨v, exactly.get member⟩

theorem Handler.Proper.left {h : Handler} {m : Table} (proper : h.Proper ctx m) {exit : Exit}
    (here : h.point = .closing [] exit) : Left h m := by
  obtain ⟨v, exactly, -, -, has, stage⟩ := proper
  obtain ⟨client, temp⟩ := has.copied (by rw [here]; nofun) (by rw [here]; nofun)
  unfold Handler.Stage at stage
  rw [here] at stage
  have sockets : ∀ k ∈ v.sockets.map Sigma.fst, ∃ c, k = .socket c := by
    intro k member
    unfold Visit.sockets at member
    rcases List.mem_cons.mp member with rfl | member
    · exact ⟨v.client, rfl⟩
    · split at member
      · cases member
      · cases List.mem_singleton.mp member
        exact ⟨_, rfl⟩
  have keys : ∀ k, m k ≠ none ↔
      k ∈ v.sockets.map Sigma.fst ∨ k ∈ ((leaks exit).flatMap (deeds h v)).map Sigma.fst := by
    intro k
    rw [ne_none_iff exactly, held, here, List.map_append, List.mem_append]
    rfl
  have outside : ∀ k, (∀ c, k ≠ .socket c) →
      (m k ≠ none ↔ k ∈ ((leaks exit).flatMap (deeds h v)).map Sigma.fst) := by
    intro k other
    rw [keys]
    refine or_iff_right fun member => ?_
    obtain ⟨c, same⟩ := sockets k member
    exact other c same
  constructor
  · intro k
    rw [outside _ fun c => Key.noConfusion, here, client]
    cases exit with
    | tooLarge => exact (stage.1 rfl).elim
    | noHost => simp [leaks, deeds, eq_comm]
    | unreachable | unsent | cut => simp [leaks, deeds]
    | served => simp [leaks]
  · intro b
    rw [outside _ fun c => Key.noConfusion, here, temp]
    cases exit with
    | tooLarge => exact (stage.1 rfl).elim
    | noHost | unreachable | unsent | cut => simp [leaks, deeds, eq_comm]
    | served => simp [leaks]
  · intro p
    by_contra known
    rw [← ne_eq, outside _ fun c => Key.noConfusion] at known
    cases exit <;> simp [leaks, deeds] at known

/-- **What leaks.**  In every careful run, when `main` waits for a connection and all handlers
have returned: besides the listening socket, the open descriptors are the client sockets of the
handlers that have found no host, the blocks in use are the requests of the handlers that have not
reached the last exit, one for each of them, and no list of addresses is left. -/
theorem leaked_iff
    (reached : Reachable (restrict Careful step)
      (init inherited serverSocket clientSocket request ctx) s)
    (here : s.main.point = .accept)
    (returned : ∀ h ∈ s.handlers, ∃ exit, h.point = .closing [] exit) :
    (∀ k, inherited (.fd k) = none → (s.table (.fd k) ≠ none ↔ k = s.main.serverSocket ∨
      ∃ h ∈ s.handlers, h.point = .closing [] .noHost ∧ h.clientSocket = k)) ∧
    (∀ b, inherited (.block b) = none → (s.table (.block b) ≠ none ↔
      ∃ h ∈ s.handlers, h.point ≠ .closing [] .served ∧ h.requestTemp = some b)) ∧
    (∀ p, inherited (.addrinfo p) = none → s.table (.addrinfo p) = none) ∧
    ∀ (i j : Nat) h h', s.handlers[i]? = some h → s.handlers[j]? = some h' →
      h.point ≠ .closing [] .served → h'.point ≠ .closing [] .served →
      h.requestTemp = h'.requestTemp → i = j := by
  obtain ⟨share, holds⟩ := holding reached
  have left : ∀ (i : Nat) h, s.handlers[i]? = some h → Left h (share (.handler i)) := by
    intro i h at_i
    obtain ⟨exit, point⟩ := returned h (List.mem_of_getElem? at_i)
    exact (holds.handlers i h at_i).left point
  -- who holds a key that was not there from the beginning
  have holder : ∀ k, inherited k = none → (s.table k ≠ none ↔ share .main k ≠ none ∨
      ∃ (i : Nat) (h : Handler), s.handlers[i]? = some h ∧ share (.handler i) k ≠ none) := by
    intro k new
    constructor
    · intro known
      obtain ⟨v, known⟩ := Option.ne_none_iff_exists'.mp known
      obtain ⟨agent, held_by⟩ := (holds.shared.whole k v).mp known
      have there : share agent k ≠ none := by
        rw [held_by]
        exact Option.some_ne_none v
      cases agent with
      | outside =>
        rw [holds.outside, new] at held_by
        cases held_by
      | main => exact Or.inl there
      | handler i =>
        cases at_i : s.handlers[i]? with
        | none =>
          rw [holds.others i (List.getElem?_eq_none_iff.mp at_i)] at held_by
          cases held_by
        | some h => exact Or.inr ⟨i, h, at_i, there⟩
    · intro known
      rcases known with known | ⟨i, h, -, known⟩
      · obtain ⟨v, known⟩ := Option.ne_none_iff_exists'.mp known
        rw [holds.shared.get known]
        exact Option.some_ne_none v
      · obtain ⟨v, known⟩ := Option.ne_none_iff_exists'.mp known
        rw [holds.shared.get known]
        exact Option.some_ne_none v
  refine ⟨?_, ?_, ?_, ?_⟩
  · intro k new
    rw [holder _ new]
    constructor
    · intro known
      rcases known with known | ⟨i, h, at_i, known⟩
      · obtain ⟨v, known⟩ := Option.ne_none_iff_exists'.mp known
        rcases main_holds holds.main here known with same | ⟨c, ⟨⟩⟩
        cases same
        exact Or.inl rfl
      · exact Or.inr ⟨h, List.mem_of_getElem? at_i, ((left i h at_i).fd k).mp known⟩
    · intro known
      rcases known with rfl | ⟨h, member, leaked⟩
      · exact Or.inl (main_server holds.main here)
      · obtain ⟨i, at_i⟩ := List.mem_iff_getElem?.mp member
        exact Or.inr ⟨i, h, at_i, ((left i h at_i).fd k).mpr leaked⟩
  · intro b new
    rw [holder _ new]
    constructor
    · intro known
      rcases known with known | ⟨i, h, at_i, known⟩
      · obtain ⟨v, known⟩ := Option.ne_none_iff_exists'.mp known
        rcases main_holds holds.main here known with ⟨⟨⟩⟩ | ⟨c, ⟨⟩⟩
      · exact ⟨h, List.mem_of_getElem? at_i, ((left i h at_i).block b).mp known⟩
    · rintro ⟨h, member, leaked⟩
      obtain ⟨i, at_i⟩ := List.mem_iff_getElem?.mp member
      exact Or.inr ⟨i, h, at_i, ((left i h at_i).block b).mpr leaked⟩
  · intro p new
    by_contra known
    rw [← ne_eq, holder _ new] at known
    rcases known with known | ⟨i, h, at_i, known⟩
    · obtain ⟨v, known⟩ := Option.ne_none_iff_exists'.mp known
      rcases main_holds holds.main here known with ⟨⟨⟩⟩ | ⟨c, ⟨⟩⟩
    · exact known ((left i h at_i).addrinfo p)
  · intro i j h h' at_i at_j unserved unserved' same
    obtain ⟨v, exactly, -, -, has, -⟩ := holds.handlers i h at_i
    obtain ⟨exit, point⟩ := returned h (List.mem_of_getElem? at_i)
    have temp := (has.copied (by rw [point]; nofun) (by rw [point]; nofun)).2
    have mine := ((left i h at_i).block v.request).mpr ⟨unserved, temp⟩
    have theirs := ((left j h' at_j).block v.request).mpr ⟨unserved', same ▸ temp⟩
    obtain ⟨x, mine⟩ := Option.ne_none_iff_exists'.mp mine
    obtain ⟨y, theirs⟩ := Option.ne_none_iff_exists'.mp theirs
    exact Agent.handler.inj (holds.shared.unique mine theirs)

set_option maxRecDepth 20000 in
/-- The second one leaks the descriptor and the block. -/
theorem leaked_twoConnections : ∃ s, Reachable (restrict Careful step) start s ∧
    s.table (.fd 4) ≠ none ∧ s.table (.block 0) ≠ none ∧ s.table (.fd 5) = none := by
  have reached : Reachable (restrict Careful step) start _ := ⟨twoConnections, rfl⟩
  obtain ⟨fds, blocks, -, -⟩ := leaked_iff reached rfl (by
    intro h member
    rcases member with _ | ⟨_, _ | ⟨_, ⟨⟩⟩⟩
    · exact ⟨.served, rfl⟩
    · exact ⟨.noHost, rfl⟩)
  refine ⟨_, reached, (fds 4 rfl).mpr (Or.inr ⟨_, .tail _ (.head _), rfl, rfl⟩),
    (blocks 0 rfl).mpr ⟨_, .tail _ (.head _), nofun, rfl⟩, rfl⟩

end Os2Labs.Proxy.Process
