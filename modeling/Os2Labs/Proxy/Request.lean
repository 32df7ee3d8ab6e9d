import Os2Labs.Proxy.Handler

/-!
# The request between `recv` and the handler

`main` allocates a buffer, `read_request` receives into it and puts a NUL behind what it has
received, and `client_handler` goes by that NUL: it measures the request with `strlen` and copies
it with `strcpy`.

`never_overrun_iff`: no access is out of bounds unless `recv` fills the whole buffer, which leaves
no room for the NUL.
-/

namespace Os2Labs.Proxy

open Bytes

/-- The stores of `recv`. -/
def recv (data : List UInt8) : List (Nat × UInt8) :=
  (List.range data.length).map fun i => (i, data.getD i 0)

/-- `read_request`: its result, and its stores to `request`.  What `recv` delivers is `none`
for an error. -/
def readRequest : Option (List UInt8) → Int × List (Nat × UInt8)
  | none => (-1, [])
  | some data =>
      if data.length = 0 then (-1, [])
      else (0, recv data ++ [(data.length, 0)])

/-- The buffer `main` allocates with `calloc`, after `read_request`. -/
def requestTemp (data : List UInt8) : Memory :=
  Memory.stores (fun _ => 0) (readRequest (some data)).2

/-- The stores of `client_handler` to its array `request`, unless it finds the request too
large. -/
def requestStores (requestTemp : List UInt8) : Option (List (Nat × UInt8)) :=
  if bufferSize ≤ strlen requestTemp then none else some (strcpy requestTemp)

/-- The string at the address of a buffer, as far as the buffer goes. -/
def stringAt (b : Memory) : List UInt8 := ((List.range bufferSize).map b).takeWhile (· ≠ 0)

/-- What arrived from a client, up to its first zero. -/
def requestOf (data : List UInt8) : List UInt8 := data.takeWhile (· ≠ 0)

/-- A format without a conversion specification. -/
def Plain (format : List UInt8) : Prop := '%'.toNat.toUInt8 ∉ format

instance (format : List UInt8) : Decidable (Plain format) :=
  inferInstanceAs (Decidable (_ ∉ format))

theorem stringAt_congr {b b' : Memory} (agree : ∀ i < bufferSize, b i = b' i) :
    stringAt b = stringAt b' := by
  have same : (List.range bufferSize).map b = (List.range bufferSize).map b' :=
    List.map_congr_left fun i within => agree i (List.mem_range.mp within)
  rw [stringAt, stringAt, same]

theorem requestOf_noNul (data : List UInt8) : 0 ∉ requestOf data := by
  intro zero
  have clear := List.mem_takeWhile_imp zero
  simp at clear

theorem requestOf_length_le (data : List UInt8) : (requestOf data).length ≤ data.length :=
  (List.takeWhile_prefix _).length_le

/-- What is in the buffer. -/
theorem requestTemp_apply {data : List UInt8} (some_data : data ≠ []) (i : Nat) :
    requestTemp data i = data.getD i 0 := by
  have length : data.length ≠ 0 := fun empty => some_data (List.eq_nil_of_length_eq_zero empty)
  have stored : requestTemp data = Function.update
      (Memory.stores (fun _ => 0) (strncpy data data.length)) data.length 0 := by
    simp only [requestTemp, readRequest, if_neg length]
    exact stores_append ..
  rw [stored, Function.update_apply, stores_strncpy]
  split
  · next last =>
    rw [last, List.getD_eq_default _ _ (Nat.le_refl _)]
  · split
    · rfl
    · next beyond => rw [List.getD_eq_default _ _ (by omega)]

/-- The string there: what was received up to the first zero. -/
theorem requestTemp_isString {data : List UInt8} (some_data : data ≠ []) :
    IsString (requestTemp data) (requestOf data) :=
  isString_takeWhile (requestTemp_apply some_data)

/-- What the handler takes for the request. -/
theorem stringAt_requestTemp {data : List UInt8} (some_data : data ≠ [])
    (short : data.length < bufferSize) : stringAt (requestTemp data) = requestOf data :=
  (requestTemp_isString some_data).takeWhile_array
    (Nat.lt_of_le_of_lt (requestOf_length_le data) short)

/-! ## No overrun -/

/-- No access of the way is out of bounds. -/
structure WithinBounds (data : List UInt8) : Prop where
  terminator : ∀ w ∈ (readRequest (some data)).2, w.1 < bufferSize
  terminated : ∃ i < bufferSize, requestTemp data i = 0
  copy : ∀ request stores, IsString (requestTemp data) request →
    requestStores request = some stores → ∀ w ∈ stores, w.1 < bufferSize

/-- **When no buffer is overrun.**  Whatever `recv` delivers: the terminator lies inside the buffer,
the buffer has a NUL when `client_handler` takes its length, and the copy stays inside the
array if and only if `recv` has not filled the whole buffer. -/
theorem never_overrun_iff {data : List UInt8} (some_data : data ≠ []) :
    WithinBounds data ↔ data.length < bufferSize := by
  have length : data.length ≠ 0 := fun empty => some_data (List.eq_nil_of_length_eq_zero empty)
  constructor
  · intro within
    apply within.terminator (data.length, 0)
    simp only [readRequest, if_neg length]
    exact List.mem_append_right _ (List.mem_singleton.mpr rfl)
  · intro short
    refine ⟨?_, ⟨data.length, short, ?_⟩, ?_⟩
    · intro w member
      simp only [readRequest, if_neg length] at member
      rcases List.mem_append.mp member with byte | terminator
      · exact Nat.lt_trans (strncpy_lt byte) short
      · rw [List.mem_singleton.mp terminator]
        exact short
    · rw [requestTemp_apply some_data, List.getD_eq_default _ _ (Nat.le_refl _)]
    · intro request stores _ reached w member
      unfold requestStores at reached
      split at reached
      · cases reached
      · next fits =>
        cases reached
        exact (copied_within_iff request bufferSize).mpr (Nat.not_le.mp fits) w member

theorem never_overrun_iff_short : WithinBounds (ascii "GET http://a/") :=
  (never_overrun_iff (by decide)).mpr (by decide)

/-- As many bytes as the buffer has. -/
def fullBuffer : List UInt8 := List.replicate bufferSize 'a'.toNat.toUInt8

/-- The terminator is stored behind the buffer. -/
theorem overruns_request_buffer : fullBuffer.length = bufferSize ∧
    (bufferSize, 0) ∈ (readRequest (some fullBuffer)).2 ∧ ¬ WithinBounds fullBuffer := by
  have length : fullBuffer.length = bufferSize := List.length_replicate
  have stored : (bufferSize, 0) ∈ (readRequest (some fullBuffer)).2 := by
    rw [readRequest, length, if_neg (by decide)]
    exact List.mem_append_right _ (List.mem_singleton.mpr rfl)
  exact ⟨length, stored, fun within => Nat.lt_irrefl _ (within.terminator _ stored)⟩

end Os2Labs.Proxy
