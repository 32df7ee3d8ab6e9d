import Os2Labs.Bytes.CString

/-!
# `get_host`

`proxy/main.c` looks for the host in the text of a request: behind the first `http://` up to
a slash, or behind the first `Host:` up to a space, a line break or a colon.  `getHost`
returns the result and the stores to `resolved_host`.

`getHost_cases` is what it does in terms of the text (`Field`).  The length of what it copies
is bounded by nothing: `host_fits_iff`.
-/

namespace Os2Labs.Proxy

open Bytes

/-- `HOST_LEN`, the size of the array `host` of `client_handler`. -/
def hostLen : Nat := 1024

/-- `BUFFER_SIZE`. -/
def bufferSize : Nat := 4096

/-- `get_host`. -/
def getHost (request : List UInt8) (beforeHostFlag : Int) : Int × List (Nat × UInt8) :=
  let marker := if beforeHostFlag = 0 then ascii "http://" else ascii "Host:"
  match strstr request marker with
  | none => (-1, [])
  | some found =>
      let hostStart := request.drop (found + strlen marker)
      let hostEnd :=
        if beforeHostFlag = 0 then strchr hostStart '/'.toNat.toUInt8
        else strpbrk hostStart (ascii " \r\n:")
      match hostEnd with
      | none => (-1, [])
      | some hostLength =>
          if hostLength ≤ 0 then (-1, [])
          else (0, strncpy hostStart hostLength ++ [(hostLength, 0)])

/-! ## What it finds -/

/-- What it looks for, and where the host ends. -/
def marker (beforeHostFlag : Int) : List UInt8 :=
  if beforeHostFlag = 0 then ascii "http://" else ascii "Host:"

def delimiters (beforeHostFlag : Int) : List UInt8 :=
  if beforeHostFlag = 0 then ascii "/" else ascii " \r\n:"

/-- The text between the first marker, which stands behind `pre`, and the next delimiter. -/
def FieldAt (beforeHostFlag : Int) (request pre host : List UInt8) : Prop :=
  ∃ post d rest, First (marker beforeHostFlag) request pre post ∧
    Upto (delimiters beforeHostFlag) post host d rest

/-- The text between the first marker and the next delimiter. -/
def Field (beforeHostFlag : Int) (request host : List UInt8) : Prop :=
  ∃ pre, FieldAt beforeHostFlag request pre host

variable {beforeHostFlag : Int} {request host : List UInt8}

theorem Field.unique {host' : List UInt8} (left : Field beforeHostFlag request host)
    (right : Field beforeHostFlag request host') : host = host' := by
  rcases left with ⟨pre, post, d, rest, first, upto⟩
  rcases right with ⟨pre', post', d', rest', first', upto'⟩
  rcases first.unique first' with ⟨rfl, rfl⟩
  exact (upto.unique upto').1

/-- The stores of a string and its terminator. -/
def copied (host : List UInt8) : List (Nat × UInt8) :=
  strncpy host host.length ++ [(host.length, 0)]

/-- Both searches alike. -/
theorem getHost_eq (request : List UInt8) (beforeHostFlag : Int) :
    getHost request beforeHostFlag =
      match strstr request (marker beforeHostFlag) with
      | none => (-1, [])
      | some found =>
          match strpbrk (request.drop (found + (marker beforeHostFlag).length))
              (delimiters beforeHostFlag) with
          | none => (-1, [])
          | some n =>
              if n ≤ 0 then (-1, [])
              else (0, strncpy (request.drop (found + (marker beforeHostFlag).length)) n ++
                [(n, 0)]) := by
  unfold getHost marker delimiters strlen
  by_cases absolute : beforeHostFlag = 0
  · simp only [absolute, ↓reduceIte, strchr_eq_strpbrk]
    rfl
  · simp only [absolute, ↓reduceIte]

/-- **What `get_host` does.**  It copies the text between the first marker and the next delimiter,
if there is one and it is not empty. -/
theorem getHost_cases (request : List UInt8) (beforeHostFlag : Int) :
    (∃ host, Field beforeHostFlag request host ∧ host ≠ [] ∧
      getHost request beforeHostFlag = (0, copied host)) ∨
    ((∀ host, Field beforeHostFlag request host → host = []) ∧
      getHost request beforeHostFlag = (-1, [])) := by
  rw [getHost_eq]
  split
  · next no_marker =>
    refine Or.inr ⟨?_, rfl⟩
    intro host field
    rcases field with ⟨pre, post, d, rest, first, -⟩
    exact (strstr_eq_none no_marker pre post first.split).elim
  · next found at_marker =>
    rcases strstr_eq_some at_marker with ⟨pre, post, first, rfl⟩
    have behind : request.drop (pre.length + (marker beforeHostFlag).length) = post := by
      rw [← List.length_append, first.split]
      exact List.drop_left
    rw [behind]
    split
    · next no_delimiter =>
      refine Or.inr ⟨?_, rfl⟩
      intro host field
      rcases field with ⟨pre', post', d, rest, first', upto⟩
      rcases first.unique first' with ⟨rfl, rfl⟩
      exact (strpbrk_eq_none no_delimiter host d rest upto).elim
    · next n at_delimiter =>
      rcases strpbrk_eq_some at_delimiter with ⟨host, d, rest, upto, rfl⟩
      have field : Field beforeHostFlag request host := ⟨pre, post, d, rest, first, upto⟩
      split
      · next empty =>
        refine Or.inr ⟨?_, rfl⟩
        intro host' field'
        rw [field'.unique field]
        exact List.eq_nil_of_length_eq_zero (by omega)
      · next nonempty =>
        refine Or.inl ⟨host, field, ?_, ?_⟩
        · intro empty
          rw [empty] at nonempty
          exact nonempty (Nat.le_refl 0)
        · rw [upto.split, strncpy_append]
          rfl

/-- With a host to copy. -/
theorem getHost_of_field (field : Field beforeHostFlag request host) (nonempty : host ≠ []) :
    getHost request beforeHostFlag = (0, copied host) := by
  rcases getHost_cases request beforeHostFlag with ⟨host', field', -, done⟩ | ⟨nothing, -⟩
  · rw [done, field.unique field']
  · exact (nonempty (nothing host field)).elim

/-- Without one. -/
theorem getHost_of_no_field (nothing : ∀ host, Field beforeHostFlag request host → host = []) :
    getHost request beforeHostFlag = (-1, []) := by
  rcases getHost_cases request beforeHostFlag with ⟨host, field, nonempty, -⟩ | ⟨-, failed⟩
  · exact (nonempty (nothing host field)).elim
  · exact failed

/-- The array `host` of `client_handler` after its calls of `get_host`, when one of them
succeeds. -/
def hostArray (request : List UInt8) (host : Memory) : Option Memory :=
  let (err, stores) := getHost request 0
  if err ≠ 0 then
    let (err', stores') := getHost request 1
    if err' ≠ 0 then none else some ((host.stores stores).stores stores')
  else some (host.stores stores)

/-- The stores of these calls to it. -/
def hostStores (request : List UInt8) : List (Nat × UInt8) :=
  if (getHost request 0).1 ≠ 0 then (getHost request 1).2 else (getHost request 0).2

theorem Field.noNul (field : Field beforeHostFlag request host) (noNul : 0 ∉ request) :
    0 ∉ host := by
  rcases field with ⟨pre, post, d, rest, first, upto⟩
  intro inside
  apply noNul
  rw [first.split, upto.split]
  simp [inside]

/-- The host that is used: the one of the first search, or else the one of the second. -/
theorem hostArray_cases (request : CString) (host : Memory) :
    (∃ h b, Field 0 request.bytes h ∧ h ≠ [] ∧ hostArray request.bytes host = some b ∧
      IsString b h) ∨
    ((∀ h, Field 0 request.bytes h → h = []) ∧
      ((∃ h b, Field 1 request.bytes h ∧ h ≠ [] ∧ hostArray request.bytes host = some b ∧
        IsString b h) ∨
      ((∀ h, Field 1 request.bytes h → h = []) ∧ hostArray request.bytes host = none))) := by
  rcases getHost_cases request.bytes 0 with ⟨h, field, nonempty, done⟩ | ⟨nothing, failed⟩
  · refine Or.inl ⟨h, _, field, nonempty, ?_, isString_copy host (field.noNul request.noNul)⟩
    simp only [hostArray, done, ne_eq, not_true_eq_false, ↓reduceIte]
    rfl
  · refine Or.inr ⟨nothing, ?_⟩
    rcases getHost_cases request.bytes 1 with ⟨h, field, nonempty, done⟩ | ⟨nothing', failed'⟩
    · refine Or.inl ⟨h, _, field, nonempty, ?_, isString_copy host (field.noNul request.noNul)⟩
      simp only [hostArray, failed, done, ne_eq, not_true_eq_false, ↓reduceIte]
      rfl
    · refine Or.inr ⟨nothing', ?_⟩
      simp only [hostArray, failed, failed']
      rfl

/-- The stores reach just behind the host. -/
theorem copied_within_iff (host : List UInt8) (size : Nat) :
    (∀ w ∈ copied host, w.1 < size) ↔ host.length < size := by
  constructor
  · intro within
    exact within (host.length, 0) (List.mem_append_right _ (List.mem_singleton.mpr rfl))
  · intro fits w member
    rcases List.mem_append.mp member with copy | terminator
    · exact (strncpy_lt copy).trans fits
    · rw [List.mem_singleton.mp terminator]
      exact fits

/-- **When the host buffer is not overrun.**  `get_host` stores only below `HOST_LEN` exactly when
the text between the first marker and the next delimiter is shorter than that, or there is
no such text. -/
theorem host_fits_iff (request : CString) (beforeHostFlag : Int) :
    (∀ w ∈ (getHost request.bytes beforeHostFlag).2, w.1 < hostLen) ↔
      ∀ host, Field beforeHostFlag request.bytes host → host.length < hostLen := by
  rcases getHost_cases request.bytes beforeHostFlag with ⟨host, field, -, done⟩ | ⟨nothing, failed⟩
  · rw [done, copied_within_iff]
    constructor
    · intro fits host' field'
      rw [field'.unique field]
      exact fits
    · intro fits
      exact fits host field
  · rw [failed]
    constructor
    · intro _ host field
      rw [nothing host field]
      exact Nat.zero_lt_succ _
    · intro _ w member
      cases member

/-- `http://aaa…a/` with as many letters as the array `host` has elements. -/
def longHost : CString where
  bytes := ascii "http://" ++ (List.replicate hostLen 'a'.toNat.toUInt8 ++ ascii "/")
  noNul := by
    simp only [List.mem_append, List.mem_replicate, not_or, not_and]
    exact ⟨by decide, fun _ => by decide, by decide⟩

/-- Its terminator is stored behind the array. -/
theorem overruns_host_buffer : longHost.bytes.length < bufferSize ∧
    (hostLen, 0) ∈ (getHost longHost.bytes 0).2 ∧
    ¬ ∀ w ∈ (getHost longHost.bytes 0).2, w.1 < hostLen := by
  have upto : Upto (delimiters 0) (List.replicate hostLen 'a'.toNat.toUInt8 ++ ascii "/")
      (List.replicate hostLen 'a'.toNat.toUInt8) '/'.toNat.toUInt8 [] := by
    refine ⟨rfl, fun c member => ?_, by decide⟩
    rw [(List.mem_replicate.mp member).2]
    decide
  have field : Field 0 longHost.bytes (List.replicate hostLen 'a'.toNat.toUInt8) :=
    ⟨[], _, _, _, ⟨rfl, fun _ _ _ => Nat.zero_le _⟩, upto⟩
  have stored : (hostLen, 0) ∈ (getHost longHost.bytes 0).2 := by
    rw [getHost_of_field field (List.cons_ne_nil _ _), copied, List.length_replicate]
    exact List.mem_append_right _ (List.mem_singleton.mpr rfl)
  refine ⟨?_, stored, fun within => Nat.lt_irrefl _ (within _ stored)⟩
  unfold longHost
  rw [List.length_append, List.length_append, List.length_replicate]
  decide

end Os2Labs.Proxy
