import Os2Labs.Proxy.GetHost

/-!
# Requests in origin form

What a browser sends to a server: a request line with a path, header lines, one of them
`Host:` with the name of the server, and a body.  `OriginForm` are those requests, with any
other lines and any body.

`reaches_host_iff` says for which of them `client_handler` connects to the host they name.  A
usual request, with a space after `Host:`, is not one of them.
-/

namespace Os2Labs.Proxy

open Bytes

/-- The parts of a request. -/
structure Parts where
  method : List UInt8
  /-- What follows the leading slash of the target. -/
  path : List UInt8
  before : List (List UInt8)
  /-- The spaces between `Host:` and the name of the host. -/
  spaces : Nat
  host : List UInt8
  port : Option (List UInt8)
  after : List (List UInt8)
  body : List UInt8

def headerLines (lines : List (List UInt8)) : List UInt8 := lines.flatMap (· ++ ascii "\r\n")

/-- What stands in front of the line `Host:`. -/
def Parts.front (r : Parts) : List UInt8 :=
  r.method ++ ascii " /" ++ r.path ++ ascii " HTTP/1.1\r\n" ++ headerLines r.before

/-- What follows the name of the host. -/
def Parts.behind (r : Parts) : List UInt8 :=
  r.port.elim [] (ascii ":" ++ ·) ++ ascii "\r\n" ++ headerLines r.after ++ ascii "\r\n" ++ r.body

/-- What follows `Host:`. -/
def Parts.named (r : Parts) : List UInt8 :=
  List.replicate r.spaces ' '.toNat.toUInt8 ++ (r.host ++ r.behind)

def Parts.text (r : Parts) : List UInt8 := r.front ++ ascii "Host:" ++ r.named

/-- A request in origin form, with one line `Host:`, that `client_handler` lets through. -/
structure OriginForm extends Parts where
  token : method ≠ [] ∧ ∀ c ∈ method, c ∉ ascii " \r\n"
  target : ∀ c ∈ path, c ∉ ascii " \r\n"
  others : ∀ line ∈ before ++ after,
    line ≠ [] ∧ (∀ c ∈ line, c ∉ ascii "\r\n") ∧ ¬ ascii "Host:" <+: line
  name : host ≠ [] ∧ (∀ c ∈ host, c ∉ ascii " \r\n:") ∧ host.length < hostLen
  digits : ∀ p ∈ port, ∀ c ∈ p, c ∈ ascii "0123456789"
  noNul : 0 ∉ toParts.text
  short : toParts.text.length < bufferSize

def OriginForm.cString (r : OriginForm) : CString := ⟨r.text, r.noNul⟩

/-- The line `Host:` is the first occurrence of that word, and the name follows at once. -/
def Direct (r : OriginForm) : Prop :=
  r.spaces = 0 ∧ ∀ pre post, r.text = pre ++ ascii "Host:" ++ post → r.front.length ≤ pre.length

/-- When the request reaches the host it names: the first `http://` of the request is followed
by that name and a slash; or no `http://` is followed by any name, and the first `Host:` is
followed by the name, be it the one of the line `Host:` or an earlier one. -/
def Reaches (r : OriginForm) : Prop :=
  Field 0 r.text r.host ∨
    ((∀ h, Field 0 r.text h → h = []) ∧
      (Direct r ∨ ∃ pre, FieldAt 1 r.text pre r.host ∧ pre.length < r.front.length))

/-- The name ends where the port or the line ends. -/
theorem upto_behind (r : OriginForm) :
    ∃ d rest, Upto (delimiters 1) (r.host ++ r.behind) r.host d rest := by
  have ends : ∃ d rest, r.behind = d :: rest ∧ d ∈ delimiters 1 := by
    unfold Parts.behind
    cases r.port with
    | none => exact ⟨_, _, rfl, by decide⟩
    | some p => exact ⟨_, _, rfl, by decide⟩
  rcases ends with ⟨d, rest, split, stop⟩
  exact ⟨d, rest, congrArg (r.host ++ ·) split, r.name.2.1, stop⟩

/-- The second search finds the name in the line `Host:` when that is the first one and has no
space. -/
theorem direct_iff (r : OriginForm) : Direct r ↔ FieldAt 1 r.text r.front r.host := by
  constructor
  · intro direct
    rcases direct with ⟨no_space, first⟩
    rcases upto_behind r with ⟨d, rest, upto⟩
    refine ⟨r.named, d, rest, ⟨rfl, first⟩, ?_⟩
    unfold Parts.named
    rw [no_space]
    exact upto
  · intro field
    rcases field with ⟨post, d, rest, first, upto⟩
    have same : post = r.named := List.append_cancel_left (first.split.symm.trans rfl)
    refine ⟨?_, first.first⟩
    cases spaces : r.spaces with
    | zero => rfl
    | succ n =>
      -- the name does not start with a space
      exfalso
      have starts := upto.split
      rw [same, Parts.named, spaces] at starts
      cases name : r.host with
      | nil => exact r.name.1 name
      | cons c h =>
        rw [name] at starts
        have space := (List.cons.inj starts).1
        apply r.name.2.1 c (by rw [name]; exact List.mem_cons_self)
        rw [← space]
        decide

/-- The first `Host:` is at the latest that of the line. -/
theorem FieldAt.early {r : OriginForm} {pre h : List UInt8} (field : FieldAt 1 r.text pre h) :
    pre.length ≤ r.front.length := by
  rcases field with ⟨post, d, rest, first, -⟩
  exact first.first r.front r.named rfl

/-- The second search finds the name in the line `Host:`, or earlier. -/
theorem field_iff (r : OriginForm) : Field 1 r.text r.host ↔
    Direct r ∨ ∃ pre, FieldAt 1 r.text pre r.host ∧ pre.length < r.front.length := by
  constructor
  · intro field
    rcases field with ⟨pre, field⟩
    rcases Nat.lt_or_eq_of_le field.early with earlier | there
    · exact Or.inr ⟨pre, field, earlier⟩
    · left
      have same : pre = r.front := by
        rcases field with ⟨post, d, rest, first, -⟩
        have split := first.split
        rw [List.append_assoc] at split
        exact (List.append_inj (split.symm.trans (List.append_assoc ..)) there).1
      rw [direct_iff, ← same]
      exact field
  · intro found
    rcases found with direct | ⟨pre, field, -⟩
    · exact ⟨r.front, (direct_iff r).mp direct⟩
    · exact ⟨pre, field⟩

/-- **Which requests reach the host they name.**  `client_handler` passes the name in the line
`Host:` to `connect_to_remote` exactly when the first `http://` of the request is followed by
that name and a slash; or no `http://` by any name, and the first `Host:` by the name. -/
theorem reaches_host_iff (r : OriginForm) (host : Memory) :
    (∃ b, hostArray r.text host = some b ∧ IsString b r.host) ↔ Reaches r := by
  unfold Reaches
  rw [← field_iff]
  -- what is passed is one string
  have passed : ∀ {h b}, hostArray r.text host = some b → IsString b h →
      ((∃ b, hostArray r.text host = some b ∧ IsString b r.host) ↔ r.host = h) := by
    intro h b done isString
    constructor
    · intro other
      rcases other with ⟨b', done', isString'⟩
      rw [done] at done'
      cases done'
      exact isString'.unique isString
    · intro same
      exact ⟨b, done, same ▸ isString⟩
  rcases hostArray_cases r.cString host with ⟨h, b, field, nonempty, done, isString⟩ |
    ⟨nothing, ⟨h, b, field, nonempty, done, isString⟩ | ⟨nothing', failed⟩⟩
  · rw [passed done isString]
    constructor
    · intro same
      exact Or.inl (same ▸ field)
    · intro found
      rcases found with found | ⟨nothing, -⟩
      · exact found.unique field
      · exact (nonempty (nothing h field)).elim
  · rw [passed done isString]
    constructor
    · intro same
      exact Or.inr ⟨nothing, same ▸ field⟩
    · intro found
      rcases found with found | ⟨-, found⟩
      · exact (r.name.1 (nothing r.host found)).elim
      · exact found.unique field
  · constructor
    · intro found
      rcases found with ⟨b, done, -⟩
      rw [show hostArray r.text host = none from failed] at done
      cases done
    · intro found
      rcases found with found | ⟨-, found⟩
      · exact (r.name.1 (nothing r.host found)).elim
      · exact (r.name.1 (nothing' r.host found)).elim

/-- `GET / HTTP/1.1` with `Host: example.com`. -/
def usualRequest : OriginForm where
  method := ascii "GET"
  path := []
  before := []
  spaces := 1
  host := ascii "example.com"
  port := none
  after := []
  body := []
  token := ⟨by decide, by simp [ascii]⟩
  target := nofun
  others := nofun
  name := ⟨by decide, by simp [ascii], by decide⟩
  digits := nofun
  noNul := by decide
  short := by decide

/-- The space ends the search for the host where it starts. -/
theorem usual_request_has_no_host :
    usualRequest.text = ascii "GET / HTTP/1.1\r\nHost: example.com\r\n\r\n" ∧
      ∀ host, hostArray usualRequest.text host = none ∧
        ¬ ∃ b, hostArray usualRequest.text host = some b ∧ IsString b usualRequest.host := by
  refine ⟨rfl, fun host => ?_⟩
  have failed : hostArray usualRequest.text host = none := rfl
  refine ⟨failed, ?_⟩
  intro found
  rcases found with ⟨b, done, -⟩
  rw [failed] at done
  cases done

end Os2Labs.Proxy
