import Os2Labs.Proxy.GetHost

/-!
# The grammar of `get_host`

What `get_host` accepts, as a decomposition of the request: `p ++ marker ++ h ++ [c] ++ s` with the
first occurrence of the marker, and a name `h` up to the next delimiter `c`.

`accepts_iff`: it succeeds exactly on these requests, with `h` as the result, and leaves its buffer
alone on all others.
-/

namespace Os2Labs.Proxy

open Bytes

/-- The marker is `http://` and the delimiter a slash, or the marker `Host:` and the delimiter a
space, a line break or a colon. -/
structure Decomposes (beforeHostFlag : Int) (request p h : List UInt8) (c : UInt8)
    (s : List UInt8) : Prop where
  split : request = p ++ marker beforeHostFlag ++ h ++ c :: s
  first : ∀ p' s', request = p' ++ marker beforeHostFlag ++ s' → p.length ≤ p'.length
  nonempty : h ≠ []
  clear : ∀ x ∈ h, x ∉ delimiters beforeHostFlag
  delimiter : c ∈ delimiters beforeHostFlag

variable {beforeHostFlag : Int} {request p h s : List UInt8} {c : UInt8}

theorem Decomposes.first' (decomposes : Decomposes beforeHostFlag request p h c s) :
    First (marker beforeHostFlag) request p (h ++ c :: s) := by
  refine ⟨?_, decomposes.first⟩
  rw [decomposes.split, List.append_assoc _ h]

theorem Decomposes.upto (decomposes : Decomposes beforeHostFlag request p h c s) :
    Upto (delimiters beforeHostFlag) (h ++ c :: s) h c s :=
  ⟨rfl, decomposes.clear, decomposes.delimiter⟩

theorem Decomposes.field (decomposes : Decomposes beforeHostFlag request p h c s) :
    Field beforeHostFlag request h :=
  ⟨p, h ++ c :: s, c, s, decomposes.first', decomposes.upto⟩

theorem Field.decomposes (field : Field beforeHostFlag request h) (nonempty : h ≠ []) :
    ∃ p c s, Decomposes beforeHostFlag request p h c s := by
  obtain ⟨p, post, c, s, first, upto⟩ := field
  refine ⟨p, c, s, ?_, first.first, nonempty, upto.clear, upto.stop⟩
  rw [first.split, upto.split, List.append_assoc _ h]

theorem Decomposes.unique {p' h' s' : List UInt8} {c' : UInt8}
    (left : Decomposes beforeHostFlag request p h c s)
    (right : Decomposes beforeHostFlag request p' h' c' s') :
    p = p' ∧ h = h' ∧ c = c' ∧ s = s' := by
  obtain ⟨rfl, same⟩ := left.first'.unique right.first'
  have upto := right.upto
  rw [← same] at upto
  exact ⟨rfl, left.upto.unique upto⟩

/-- **`get_host` accepts exactly its grammar.**  It returns 0 with the string `h` in the buffer if
and only if the request decomposes with the name `h`; the decomposition is unique; a buffer that
is larger than the name is not overrun; and without a decomposition it returns -1 and stores
nothing. -/
theorem accepts_iff (request : CString) (out : Memory) (beforeHostFlag : Int) :
    (∀ h, ((getHost request.bytes beforeHostFlag).1 = 0 ∧
        IsString (out.stores (getHost request.bytes beforeHostFlag).2) h) ↔
      ∃ p c s, Decomposes beforeHostFlag request.bytes p h c s) ∧
    (∀ p h c s p' h' c' s', Decomposes beforeHostFlag request.bytes p h c s →
      Decomposes beforeHostFlag request.bytes p' h' c' s' →
        p = p' ∧ h = h' ∧ c = c' ∧ s = s') ∧
    (∀ p h c s size, Decomposes beforeHostFlag request.bytes p h c s → h.length < size →
      ∀ w ∈ (getHost request.bytes beforeHostFlag).2, w.1 < size) ∧
    ((∀ p h c s, ¬ Decomposes beforeHostFlag request.bytes p h c s) →
      (getHost request.bytes beforeHostFlag).1 = -1 ∧
        out.stores (getHost request.bytes beforeHostFlag).2 = out) := by
  refine ⟨fun h => ⟨?_, ?_⟩, fun p h c s p' h' c' s' => Decomposes.unique, ?_, ?_⟩
  · intro returned
    obtain ⟨zero, isString⟩ := returned
    rcases getHost_cases request.bytes beforeHostFlag with ⟨h', field, nonempty, done⟩ |
      ⟨-, failed⟩
    · rw [done] at isString
      have same : h = h' := isString.unique (isString_copy out (field.noNul request.noNul))
      subst same
      exact field.decomposes nonempty
    · rw [failed] at zero
      cases zero
  · intro found
    obtain ⟨p, c, s, decomposes⟩ := found
    rw [getHost_of_field decomposes.field decomposes.nonempty]
    exact ⟨rfl, isString_copy out (decomposes.field.noNul request.noNul)⟩
  · intro p h c s size decomposes fits
    rw [getHost_of_field decomposes.field decomposes.nonempty]
    exact (copied_within_iff h size).mpr fits
  · intro none_decomposes
    have nothing : ∀ h, Field beforeHostFlag request.bytes h → h = [] := by
      intro h field
      by_contra nonempty
      obtain ⟨p, c, s, decomposes⟩ := field.decomposes nonempty
      exact none_decomposes p h c s decomposes
    rw [getHost_of_no_field nothing]
    exact ⟨rfl, rfl⟩

end Os2Labs.Proxy
