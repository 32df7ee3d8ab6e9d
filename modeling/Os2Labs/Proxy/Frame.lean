import Os2Labs.Proxy.Transfer

/-!
# What arrives at the origin server

`client_handler` has the arrays `request` and `host` in one frame, and `get_host` knows no bound:
what it stores behind the end of `host` goes to whatever stands there, perhaps to the request that
is still to be sent.  `clientHandlerIn` is the handler with its frame, and with the `printf` that
has the request for its format.

* `clientHandlerIn_eq`: when the host fits, the handler does what `clientHandler` does, for which
  `host` is an array of its own.
* `forwards_iff`: then the origin server receives what was sent unless it has a zero byte, as the
  length of the request is its `strlen`.
-/

namespace Os2Labs.Proxy

open Bytes

/-- Where the arrays of `client_handler` stand in its frame. -/
structure Layout where
  request : Nat
  host : Nat
  apart : request + bufferSize ≤ host ∨ host + hostLen ≤ request

variable {layout : Layout} {frame : Memory} {request : List UInt8}

/-- The string in the array `request`. -/
def Layout.requestIn (layout : Layout) (frame : Memory) : List UInt8 :=
  stringAt fun i => frame (layout.request + i)

/-- The calls of `get_host`: the frame after them, when one of them succeeds. -/
def Layout.getHosts (layout : Layout) (frame : Memory) : Option Memory :=
  let (err, stores) := getHost (layout.requestIn frame) 0
  let frame := frame.stores (shift layout.host stores)
  if err ≠ 0 then
    let (err', stores') := getHost (layout.requestIn frame) 1
    if err' ≠ 0 then none else some (frame.stores (shift layout.host stores'))
  else some frame

/-- `client_handler`, with what `printf` of a format makes of the memory behind the request, with
the frame as it is to begin with, and with the buffer of the request. -/
def clientHandlerIn (printf : List UInt8 → Memory → Memory) (layout : Layout) (frame : Memory)
    (requestTemp : Memory) (answers : Answers) : Option (List Action) :=
  let requestTemp := printf (stringAt requestTemp) requestTemp
  match requestStores (stringAt requestTemp) with
  | none => some []
  | some copy =>
      match layout.getHosts (frame.stores (shift layout.request copy)) with
      | none => some []
      | some frame =>
          let request := layout.requestIn frame
          if answers.connectToRemote = -1 then some [.releases .clientSocket]
          else if answers.forward = -1 then
            some [.opens .destSocket, .sends .destSocket request, .releases .clientSocket,
              .releases .destSocket]
          else
            (relay answers.relay).map
              ([.opens .destSocket, .sends .destSocket request, .opens .buffer] ++ ·)

/-! ## The frame -/

/-- After `strcpy`. -/
theorem Layout.requestIn_copy (layout : Layout) (frame : Memory) (noNul : 0 ∉ request)
    (short : request.length < bufferSize) :
    layout.requestIn (frame.stores (shift layout.request (strcpy request))) = request := by
  have behind : (fun i => frame.stores (shift layout.request (strcpy request))
      (layout.request + i)) =
      Memory.stores (fun i => frame (layout.request + i)) (strcpy request) := by
    funext i
    exact stores_shift ..
  rw [Layout.requestIn, behind]
  exact (isString_copy _ noNul).takeWhile_array short

/-- Stores that stay inside the array `host` leave the request alone. -/
theorem Layout.requestIn_host (layout : Layout) (frame : Memory) {ws : List (Nat × UInt8)}
    (fits : ∀ w ∈ ws, w.1 < hostLen) :
    layout.requestIn (frame.stores (shift layout.host ws)) = layout.requestIn frame := by
  apply stringAt_congr
  intro i within
  apply stores_of_ne
  intro w member
  obtain ⟨v, inside, rfl⟩ := List.mem_map.mp member
  have lt := fits v inside
  rcases layout.apart with behind | before
  · show layout.request + i ≠ layout.host + v.1
    omega
  · show layout.request + i ≠ layout.host + v.1
    omega

/-- A host that fits is found in the frame as in an array of its own, and the request stays. -/
theorem Layout.getHosts_cases (here : layout.requestIn frame = request)
    (fits : ∀ w ∈ hostStores request, w.1 < hostLen) (host : Memory) :
    (hostArray request host = none ∧ layout.getHosts frame = none) ∨
      ∃ b frame', hostArray request host = some b ∧ layout.getHosts frame = some frame' ∧
        layout.requestIn frame' = request := by
  rcases getHost_cases request 0 with ⟨h, -, -, done⟩ | ⟨-, failed⟩
  · rw [hostStores, done] at fits
    have within : ∀ w ∈ copied h, w.1 < hostLen := fits
    refine Or.inr ⟨host.stores (copied h), frame.stores (shift layout.host (copied h)), ?_, ?_, ?_⟩
    · simp only [hostArray, done, ne_eq, not_true_eq_false, ↓reduceIte]
    · simp only [Layout.getHosts, here, done, ne_eq, not_true_eq_false, ↓reduceIte]
    · rw [layout.requestIn_host frame within, here]
  · rcases getHost_cases request 1 with ⟨h, -, -, done⟩ | ⟨-, failed'⟩
    · rw [hostStores, failed, done] at fits
      have within : ∀ w ∈ copied h, w.1 < hostLen := fits
      have same : frame.stores (shift layout.host []) = frame := rfl
      refine Or.inr ⟨host.stores (copied h), frame.stores (shift layout.host (copied h)), ?_, ?_,
        ?_⟩
      · simp only [hostArray, failed, done, ne_eq, not_true_eq_false, ↓reduceIte]
        rfl
      · simp only [Layout.getHosts, here, failed, same, done, ne_eq, not_true_eq_false, ↓reduceIte]
        rfl
      · rw [layout.requestIn_host frame within, here]
    · have same : frame.stores (shift layout.host []) = frame := rfl
      refine Or.inl ⟨?_, ?_⟩
      · simp only [hostArray, failed, failed']
        rfl
      · simp only [Layout.getHosts, here, failed, same, failed']
        rfl

/-- **When an array of its own stands for the array `host`.**  When the host fits, the handler does
what it does when nothing stands behind `host`. -/
theorem clientHandlerIn_eq {printf : List UInt8 → Memory → Memory} {requestTemp : Memory}
    (printed : stringAt (printf (stringAt requestTemp) requestTemp) = request)
    (noNul : 0 ∉ request) (fits : ∀ w ∈ hostStores request, w.1 < hostLen) (layout : Layout)
    (frame host : Memory) (answers : Answers) :
    clientHandlerIn printf layout frame requestTemp answers =
      clientHandler request host answers := by
  unfold clientHandlerIn clientHandler requestStores
  simp only [printed]
  by_cases large : bufferSize ≤ strlen request
  · simp only [if_pos large]
  · simp only [if_neg large]
    have copied := layout.requestIn_copy frame noNul (Nat.not_le.mp large)
    rcases layout.getHosts_cases copied fits host with ⟨alone, nothing⟩ |
      ⟨b, after, alone, found, kept⟩
    · simp only [alone, nothing]
    · simp only [alone, found, kept]

/-! ## What is sent -/

/-- The relay loop writes nothing to the origin server. -/
theorem relay_sends_dest {rounds : List (Reading × Int)} {actions : List Action}
    (returned : relay rounds = some actions) : sends .destSocket actions = [] := by
  induction rounds generalizing actions with
  | nil => cases returned
  | cons round rest ih =>
    obtain ⟨reading, bytesSent⟩ := round
    unfold relay at returned
    split at returned
    · split at returned
      · cases returned
        rfl
      · obtain ⟨later, looped, rfl⟩ := Option.map_eq_some_iff.mp returned
        have rest := ih looped
        exact rest
    · cases returned
      rfl

/-- **When the origin server receives what was sent.**  For any bytes that one `recv` delivers, with
a NUL to spare: when `printf` finds no conversion specification in the request, the host fits,
resolves and connects, and `write` accepts everything, what is written to the origin server is what
was received if and only if that has no zero byte. -/
theorem forwards_iff {sent : List UInt8} (some_sent : sent ≠ []) (short : sent.length < bufferSize)
    {printf : List UInt8 → Memory → Memory}
    (prints : ∀ format b, Plain format → printf format b = b) (plain : Plain (requestOf sent))
    (fits : ∀ w ∈ hostStores (requestOf sent), w.1 < hostLen) {host : Memory} {answers : Answers}
    (resolved : (hostArray (requestOf sent) host).isSome = true)
    (connected : answers.connectToRemote ≠ -1) (all : answers.forward = (requestOf sent).length)
    (layout : Layout) (frame : Memory) :
    clientHandlerIn printf layout frame (requestTemp sent) answers =
        (relay answers.relay).map (forwarding (requestOf sent) ++ ·) ∧
      (∀ rest, relay answers.relay = some rest → sends .destSocket rest = []) ∧
      (accepted (sends .destSocket (forwarding (requestOf sent))) [answers.forward] = sent ↔
        0 ∉ sent) := by
  have string := stringAt_requestTemp some_sent short
  have printed : stringAt (printf (stringAt (requestTemp sent)) (requestTemp sent)) =
      requestOf sent := by
    rw [string, prints _ _ plain, string]
  refine ⟨?_, fun _ => relay_sends_dest, ?_⟩
  · rw [clientHandlerIn_eq printed (requestOf_noNul sent) fits layout frame host answers]
    refine clientHandler_forwards ?_ resolved connected ?_
    · exact Nat.lt_of_le_of_lt (requestOf_length_le sent) short
    · rw [all]
      omega
  · have written : accepted (sends .destSocket (forwarding (requestOf sent))) [answers.forward] =
        requestOf sent := by
      rw [all]
      simp [accepted, sends, forwarding]
    rw [written, requestOf, List.takeWhile_eq_self_iff]
    constructor
    · intro clear zero
      simpa using clear 0 zero
    · intro clear c member
      refine decide_eq_true fun zero => clear ?_
      rw [← zero]
      exact member

/-- `host` directly below `request`. -/
def hostBelow : Layout where
  request := hostLen
  host := 0
  apart := Or.inr (Nat.le_of_eq (Nat.zero_add hostLen))

/-- A `printf` that only prints, for formats without a conversion specification. -/
def prints (_format : List UInt8) (b : Memory) : Memory := b

theorem forwards_iff_text : ∃ actions,
    clientHandlerIn prints hostBelow (fun _ => 0) (requestTemp farHost.bytes) oneByte =
      some actions ∧
    accepted (sends .destSocket (forwarding farHost.bytes)) [oneByte.forward] = farHost.bytes := by
  have resolved : (hostArray (requestOf farHost.bytes) fun _ => 0).isSome = true := rfl
  have connected : oneByte.connectToRemote ≠ -1 := by decide
  have some_sent : farHost.bytes ≠ [] := by decide
  have only_prints : ∀ format b, Plain format → prints format b = b := fun _ _ _ => rfl
  have forwards := forwards_iff some_sent (by decide) only_prints (by decide) (by decide) resolved
    connected rfl hostBelow fun _ => 0
  exact ⟨_, forwards.1, forwards.2.2.mpr (by decide)⟩

/-- A request with a body of two bytes, of which the first is zero. -/
def binaryBody : List UInt8 := ascii "POST http://a/ HTTP/1.1\r\n\r\n" ++ [0, 1]

/-- Answers with which all that is left of it is accepted. -/
def acceptsText : Answers := { oneByte with forward := 27 }

/-- The body is cut off where it has a zero. -/
theorem binary_body_is_cut : ∃ actions,
    clientHandlerIn prints hostBelow (fun _ => 0) (requestTemp binaryBody) acceptsText =
      some actions ∧
    sends .destSocket actions = [ascii "POST http://a/ HTTP/1.1\r\n\r\n"] ∧
    (ascii "POST http://a/ HTTP/1.1\r\n\r\n").length = acceptsText.forward ∧
    accepted (sends .destSocket actions) [acceptsText.forward] ≠ binaryBody := by
  have printed : stringAt (prints (stringAt (requestTemp binaryBody)) (requestTemp binaryBody)) =
      requestOf binaryBody := stringAt_requestTemp (by decide) (by decide)
  have alone := clientHandlerIn_eq printed (requestOf_noNul binaryBody) (by decide) hostBelow
    (fun _ => 0) (fun _ => 0) acceptsText
  exact ⟨_, alone.trans rfl, by decide, by decide, by decide⟩

end Os2Labs.Proxy
