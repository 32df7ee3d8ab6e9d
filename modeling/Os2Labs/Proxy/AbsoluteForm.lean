import Os2Labs.Proxy.GetHost

/-!
# Requests in absolute form

What a browser sends to a proxy: `METHOD http://host:port/path HTTP/1.1` and the rest of the
request, where the port and the path may be missing.

`get_host` takes everything behind `http://` up to the next slash.  That is the host when a slash
follows it at once; but the port is taken for a part of it, and without a path the next slash is
the one of `HTTP/1.1`: `resolves_iff`.
-/

namespace Os2Labs.Proxy

open Bytes

/-- The parts of a request. -/
structure AbsoluteParts where
  method : List UInt8
  host : List UInt8
  port : Option (List UInt8)
  path : List UInt8
  /-- What follows the request line. -/
  rest : List UInt8

/-- The host and the port of the target. -/
def AbsoluteParts.authority (r : AbsoluteParts) : List UInt8 :=
  r.host ++ r.port.elim [] (ascii ":" ++ ·)

/-- What follows `http://`. -/
def AbsoluteParts.behind (r : AbsoluteParts) : List UInt8 :=
  r.authority ++ r.path ++ ascii " HTTP/1.1\r\n" ++ r.rest

def AbsoluteParts.text (r : AbsoluteParts) : List UInt8 :=
  r.method ++ ascii " " ++ (ascii "http://" ++ r.behind)

/-- A request in absolute form that `client_handler` lets through. -/
structure AbsoluteForm extends AbsoluteParts where
  letters : method ≠ [] ∧ ∀ c ∈ method,
    ('A'.toNat ≤ c.toNat ∧ c.toNat ≤ 'Z'.toNat) ∨ ('a'.toNat ≤ c.toNat ∧ c.toNat ≤ 'z'.toNat)
  /-- Without slash, colon, space or control character. -/
  name : host ≠ [] ∧ (∀ c ∈ host, c ∉ ascii "/:" ∧ ' '.toNat < c.toNat ∧ c.toNat ≠ 127) ∧
    host.length < hostLen
  digits : ∀ p ∈ port, ∀ c ∈ p, c ∈ ascii "0123456789"
  target : path = [] ∨ (∃ segments, path = ascii "/" ++ segments) ∧ ∀ c ∈ path, c ∉ ascii " "
  noNul : 0 ∉ toAbsoluteParts.text
  short : toAbsoluteParts.text.length < bufferSize

def AbsoluteForm.cString (r : AbsoluteForm) : CString := ⟨r.text, r.noNul⟩

/-- The `http://` of the target is the first one, as a method has no colon. -/
theorem absolute_first (r : AbsoluteForm) :
    First (ascii "http://") r.text (r.method ++ ascii " ") r.behind := by
  have text : r.text = r.method ++ ' '.toNat.toUInt8 :: (ascii "http://" ++ r.behind) := by
    unfold AbsoluteParts.text
    rw [List.append_assoc]
    rfl
  rw [text]
  refine first_behind (c := ':'.toNat.toUInt8) (by decide) (fun colon => ?_) (by decide)
  rcases r.letters.2 _ colon with upper | lower
  · exact absurd upper (by decide)
  · exact absurd lower (by decide)

/-- Neither the host nor the port has a slash. -/
theorem authority_clear (r : AbsoluteForm) : ∀ c ∈ r.authority, c ∉ delimiters 0 := by
  intro c member slash
  rw [show c = '/'.toNat.toUInt8 from List.mem_singleton.mp slash] at member
  rcases List.mem_append.mp member with in_host | in_port
  · exact (r.name.2.1 _ in_host).1 (by decide)
  · cases port : r.port with
    | none =>
      rw [port] at in_port
      cases in_port
    | some digits =>
      rw [port] at in_port
      rcases List.mem_append.mp in_port with colon | digit
      · exact absurd colon (by decide)
      · exact absurd (r.digits digits port _ digit) (by decide)

/-- What `get_host` takes for the host. -/
def AbsoluteForm.found (r : AbsoluteForm) : List UInt8 :=
  r.authority ++ if r.path = [] then ascii " HTTP" else []

theorem absolute_field (r : AbsoluteForm) : Field 0 r.text r.found := by
  have upto : ∃ d rest, Upto (delimiters 0) r.behind r.found d rest := by
    rcases r.target with empty | ⟨⟨segments, path⟩, -⟩
    · refine ⟨_, ascii "1.1\r\n" ++ r.rest, ?_, ?_, show '/'.toNat.toUInt8 ∈ _ by decide⟩
      · simp only [AbsoluteParts.behind, AbsoluteForm.found, empty, ↓reduceIte, List.append_nil,
          List.append_assoc, List.append_cancel_left_eq]
        rfl
      · intro c member
        simp only [AbsoluteForm.found, empty, ↓reduceIte] at member
        rcases List.mem_append.mp member with authority | word
        · exact authority_clear r c authority
        · have clear : (ascii " HTTP").all (fun c => decide (c ∉ delimiters 0)) = true := by decide
          exact of_decide_eq_true (List.all_eq_true.mp clear c word)
    · have some_path : r.path ≠ [] := by
        rw [path]
        exact List.cons_ne_nil _ _
      refine ⟨_, segments ++ ascii " HTTP/1.1\r\n" ++ r.rest, ?_, ?_,
        show '/'.toNat.toUInt8 ∈ _ by decide⟩
      · simp only [AbsoluteParts.behind, AbsoluteForm.found, if_neg some_path, List.append_nil]
        rw [path]
        simp only [List.append_assoc, List.append_cancel_left_eq]
        rfl
      · intro c member
        simp only [AbsoluteForm.found, if_neg some_path, List.append_nil] at member
        exact authority_clear r c member
  obtain ⟨d, rest, upto⟩ := upto
  exact ⟨_, r.behind, d, rest, absolute_first r, upto⟩

/-- It is the host when there is a path and no port. -/
theorem found_eq_host_iff (r : AbsoluteForm) : r.found = r.host ↔ r.port = none ∧ r.path ≠ [] := by
  unfold AbsoluteForm.found AbsoluteParts.authority
  cases r.port with
  | none =>
    by_cases empty : r.path = []
    · simp [empty, ascii]
    · simp [empty]
  | some digits =>
    simp [ascii]

/-- **Which requests in absolute form resolve to their host.**  `get_host` returns 0 with exactly
the host of the target in the buffer if and only if the target has a path and no port. -/
theorem resolves_iff (r : AbsoluteForm) (host : Memory) :
    ((getHost r.text 0).1 = 0 ∧ IsString (host.stores (getHost r.text 0).2) r.host) ↔
      r.port = none ∧ r.path ≠ [] := by
  have nonempty : r.found ≠ [] := by
    unfold AbsoluteForm.found AbsoluteParts.authority
    simp [r.name.1]
  have noNul : 0 ∉ r.found := (absolute_field r).noNul r.noNul
  rw [← found_eq_host_iff, getHost_of_field (absolute_field r) nonempty]
  constructor
  · intro returned
    exact (isString_copy host noNul).unique returned.2
  · intro same
    rw [← same]
    exact ⟨rfl, isString_copy host noNul⟩

/-- `GET http://a:8080/ HTTP/1.1`. -/
def withPort : AbsoluteForm where
  method := ascii "GET"
  host := ascii "a"
  port := some (ascii "8080")
  path := ascii "/"
  rest := ascii "\r\n"
  letters := by simp [ascii]
  name := by simp [ascii, hostLen]
  digits := by simp [ascii]
  target := Or.inr ⟨⟨[], rfl⟩, by simp [ascii]⟩
  noNul := by decide
  short := by decide

/-- The port is taken for a part of the host. -/
theorem port_is_taken_for_host :
    (getHost withPort.text 0).1 = 0 ∧
      IsString (Memory.stores (fun _ => 0) (getHost withPort.text 0).2) (ascii "a:8080") ∧
      ¬ ((getHost withPort.text 0).1 = 0 ∧
        IsString (Memory.stores (fun _ => 0) (getHost withPort.text 0).2) withPort.host) := by
  have found : IsString (Memory.stores (fun _ => 0) (getHost withPort.text 0).2) (ascii "a:8080") :=
    isString_copy _ (show 0 ∉ ascii "a:8080" by decide)
  refine ⟨rfl, found, ?_⟩
  intro returned
  have same : ascii "a" = ascii "a:8080" := returned.2.unique found
  exact absurd same (by decide)

end Os2Labs.Proxy
