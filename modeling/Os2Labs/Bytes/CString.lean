import Mathlib.Data.List.GetD
import Mathlib.Data.List.Infix
import Mathlib.Data.List.TakeWhile
import Mathlib.Logic.Function.Basic

/-!
# C strings

A string is the list of its bytes in front of the terminating NUL, and a pointer into it
an offset.  `strstr`, `strchr` and `strpbrk` return the offset of what they find, and
`strncpy` returns its stores, in order, as offsets and bytes; `IsString b s` says that the
memory `b` starts with the string `s`.

* `First pat s pre post`: the first occurrence of `pat` in `s` stands between `pre` and `post`.
  `strstr_eq_some` and `strstr_eq_none` say that this is what `strstr` looks for.
* `Upto stops s front d rest`: `front` is what stands in `s` before its first byte `d` out of
  `stops`, which is what `strpbrk` looks for (`strpbrk_eq_some`, `strpbrk_eq_none`).
-/

namespace Bytes

/-- The bytes of a literal. -/
def ascii (s : String) : List UInt8 := s.toList.map fun c => c.toNat.toUInt8

/-- What a C string can hold. -/
structure CString where
  bytes : List UInt8
  noNul : 0 ∉ bytes

/-- `strlen`. -/
def strlen (s : List UInt8) : Nat := s.length

/-- `strstr`. -/
def strstr : List UInt8 → List UInt8 → Option Nat
  | [], pat => if pat <+: [] then some 0 else none
  | c :: s, pat => if pat <+: c :: s then some 0 else (strstr s pat).map (· + 1)

/-- `strchr`. -/
def strchr (s : List UInt8) (c : UInt8) : Option Nat := s.findIdx? (· = c)

/-- `strpbrk`. -/
def strpbrk (s accept : List UInt8) : Option Nat := s.findIdx? (· ∈ accept)

/-- The stores of `strncpy`, which fills up with NULs behind the end of the source. -/
def strncpy (src : List UInt8) (n : Nat) : List (Nat × UInt8) :=
  (List.range n).map fun i => (i, src.getD i 0)

/-- The stores of `strcpy`. -/
def strcpy (src : List UInt8) : List (Nat × UInt8) := strncpy src src.length ++ [(src.length, 0)]

/-- Memory, from a pointer on. -/
abbrev Memory := Nat → UInt8

/-- The memory after some stores. -/
def Memory.stores (b : Memory) (ws : List (Nat × UInt8)) : Memory :=
  ws.foldl (fun b w => Function.update b w.1 w.2) b

/-- Stores through a pointer that points `base` further. -/
def shift (base : Nat) (ws : List (Nat × UInt8)) : List (Nat × UInt8) :=
  ws.map fun w => (base + w.1, w.2)

/-- The memory starts with a string. -/
structure IsString (b : Memory) (s : List UInt8) : Prop where
  bytes : ∀ i (lt : i < s.length), b i = s[i]
  terminated : b s.length = 0
  noNul : 0 ∉ s

/-- The string at a pointer is unique. -/
theorem IsString.unique {b : Memory} {s s' : List UInt8} (left : IsString b s)
    (right : IsString b s') : s = s' := by
  -- neither can be longer, as there it has a byte where the other one ends
  have no_longer : ∀ {s s' : List UInt8}, IsString b s → IsString b s' → s.length ≤ s'.length := by
    intro s s' left right
    by_contra longer
    have byte := left.bytes s'.length (by omega)
    rw [right.terminated] at byte
    apply left.noNul
    rw [byte]
    exact List.getElem_mem _
  have same : s.length = s'.length := Nat.le_antisymm (no_longer left right) (no_longer right left)
  apply List.ext_getElem same
  intro i lt lt'
  rw [← left.bytes i lt, ← right.bytes i lt']

/-- The string in a memory that holds some data is what stands before its first zero. -/
theorem isString_takeWhile {b : Memory} {data : List UInt8} (holds : ∀ i, b i = data.getD i 0) :
    IsString b (data.takeWhile (· ≠ 0)) := by
  have split : data.takeWhile (· ≠ 0) ++ data.dropWhile (· ≠ 0) = data :=
    List.takeWhile_append_dropWhile
  refine ⟨fun i lt => ?_, ?_, fun zero => ?_⟩
  · rw [holds]
    nth_rewrite 1 [← split]
    rw [List.getD_append _ _ _ _ lt, List.getD_eq_getElem _ _ lt]
  · rw [holds]
    nth_rewrite 1 [← split]
    rw [List.getD_append_right _ _ _ _ (Nat.le_refl _), Nat.sub_self]
    have stop := List.head?_dropWhile_not (fun c : UInt8 => decide (c ≠ 0)) data
    cases rest : data.dropWhile (· ≠ 0) with
    | nil => rfl
    | cons c rest' =>
      rw [rest] at stop
      simpa using stop
  · have clear := List.mem_takeWhile_imp zero
    simp at clear

/-- Only the bytes of a string and its terminator matter. -/
theorem IsString.congr {b b' : Memory} {s : List UInt8} (string : IsString b s)
    (agree : ∀ i ≤ s.length, b' i = b i) : IsString b' s where
  bytes i lt := by
    rw [agree i (Nat.le_of_lt lt)]
    exact string.bytes i lt
  terminated := by
    rw [agree s.length (Nat.le_refl _)]
    exact string.terminated
  noNul := string.noNul

/-- The string in an array that its terminator lies in. -/
theorem IsString.takeWhile_array {b : Memory} {s : List UInt8} {n : Nat} (string : IsString b s)
    (fits : s.length < n) : ((List.range n).map b).takeWhile (· ≠ 0) = s := by
  refine IsString.unique (isString_takeWhile fun _ => rfl) (string.congr ?_)
  intro i within
  have lt : i < ((List.range n).map b).length := by
    rw [List.length_map, List.length_range]
    omega
  rw [List.getD_eq_getElem _ _ lt, List.getElem_map, List.getElem_range]

/-! ## `strstr` -/

variable {pat s pre post : List UInt8}

/-- The first occurrence of `pat` in `s`. -/
structure First (pat s pre post : List UInt8) : Prop where
  split : s = pre ++ pat ++ post
  first : ∀ pre' post', s = pre' ++ pat ++ post' → pre.length ≤ pre'.length

theorem First.unique {pre' post' : List UInt8} (left : First pat s pre post)
    (right : First pat s pre' post') : pre = pre' ∧ post = post' := by
  have same : pre.length = pre'.length :=
    Nat.le_antisymm (left.first _ _ right.split) (right.first _ _ left.split)
  have both := left.split.symm.trans right.split
  rw [List.append_assoc, List.append_assoc] at both
  rcases List.append_inj both same with ⟨front, back⟩
  exact ⟨front, List.append_cancel_left back⟩

theorem strstr_eq_none (none_found : strstr s pat = none) :
    ∀ pre post, s ≠ pre ++ pat ++ post := by
  induction s with
  | nil =>
    intro pre post split
    have empty : pat = [] := by
      have parts := congrArg List.length split
      simp only [List.length_nil, List.length_append] at parts
      exact List.eq_nil_of_length_eq_zero (by omega)
    rw [empty] at none_found
    cases none_found
  | cons c s ih =>
    intro pre post split
    unfold strstr at none_found
    split at none_found
    · cases none_found
    · next not_here =>
      cases pre with
      | nil => exact not_here ⟨post, split.symm⟩
      | cons c' pre =>
        apply ih (Option.map_eq_none_iff.mp none_found) pre post
        exact (List.cons.inj split).2

theorem strstr_eq_some {i : Nat} (found : strstr s pat = some i) :
    ∃ pre post, First pat s pre post ∧ pre.length = i := by
  induction s generalizing i with
  | nil =>
    unfold strstr at found
    split at found
    · next here =>
      cases found
      rcases here with ⟨post, split⟩
      exact ⟨[], post, ⟨split.symm, fun _ _ _ => Nat.zero_le _⟩, rfl⟩
    · cases found
  | cons c s ih =>
    unfold strstr at found
    split at found
    · next here =>
      cases found
      rcases here with ⟨post, split⟩
      exact ⟨[], post, ⟨split.symm, fun _ _ _ => Nat.zero_le _⟩, rfl⟩
    · next not_here =>
      rcases Option.map_eq_some_iff.mp found with ⟨j, later, rfl⟩
      rcases ih later with ⟨pre, post, ⟨split, first⟩, length⟩
      refine ⟨c :: pre, post, ⟨congrArg (c :: ·) split, ?_⟩, congrArg (· + 1) length⟩
      intro pre' post' split'
      cases pre' with
      | nil => exact (not_here ⟨post', split'.symm⟩).elim
      | cons c' pre' =>
        have rest := first pre' post' (List.cons.inj split').2
        simp only [List.length_cons]
        omega

/-- A word that can neither lie in `front`, as it has a byte which `front` has not, nor reach
across the byte `d` behind it. -/
theorem first_behind {front : List UInt8} {c d : UInt8} (inside : c ∈ pat) (clear : c ∉ front)
    (foreign : d ∉ pat) : First pat (front ++ d :: (pat ++ post)) (front ++ [d]) post := by
  refine ⟨by simp, fun pre' post' split => ?_⟩
  by_contra early
  rw [List.length_append, List.length_singleton] at early
  rcases List.getElem_of_mem inside with ⟨j, lt, here⟩
  have bytes : ∀ i : Nat, (front ++ d :: (pat ++ post))[i]? = (pre' ++ pat ++ post')[i]? := by
    intro i
    rw [split]
  by_cases reach : pre'.length + j < front.length
  · -- the byte `c` of the word lies in `front`
    have byte := bytes (pre'.length + j)
    rw [List.getElem?_append_left reach, List.append_assoc,
      List.getElem?_append_right (by omega), Nat.add_sub_cancel_left,
      List.getElem?_append_left lt, List.getElem?_eq_getElem lt, here] at byte
    exact clear (List.mem_of_getElem? byte)
  · -- the word covers the byte `d`
    have byte := bytes front.length
    rw [List.getElem?_append_right (Nat.le_refl _), Nat.sub_self, List.getElem?_cons_zero,
      List.append_assoc, List.getElem?_append_right (by omega),
      List.getElem?_append_left (by omega)] at byte
    exact foreign (List.mem_of_getElem? byte.symm)

/-! ## `strpbrk` -/

variable {stops front rest : List UInt8} {d : UInt8}

/-- What stands in `s` before its first byte out of `stops`. -/
structure Upto (stops s front : List UInt8) (d : UInt8) (rest : List UInt8) : Prop where
  split : s = front ++ d :: rest
  clear : ∀ c ∈ front, c ∉ stops
  stop : d ∈ stops

theorem Upto.unique {front' rest' : List UInt8} {d' : UInt8} (left : Upto stops s front d rest)
    (right : Upto stops s front' d' rest') : front = front' ∧ d = d' ∧ rest = rest' := by
  induction front generalizing s front' with
  | nil =>
    cases front' with
    | nil =>
      have both := left.split.symm.trans right.split
      rcases List.cons.inj both with ⟨same, same'⟩
      exact ⟨rfl, same, same'⟩
    | cons c front' =>
      have both := left.split.symm.trans right.split
      rcases List.cons.inj both with ⟨same, -⟩
      exact (right.clear c List.mem_cons_self (same ▸ left.stop)).elim
  | cons c front ih =>
    cases front' with
    | nil =>
      have both := right.split.symm.trans left.split
      rcases List.cons.inj both with ⟨same, -⟩
      exact (left.clear c List.mem_cons_self (same ▸ right.stop)).elim
    | cons c' front' =>
      have both := left.split.symm.trans right.split
      rcases List.cons.inj both with ⟨rfl, tails⟩
      have shorter : Upto stops (front ++ d :: rest) front d rest :=
        ⟨rfl, fun x member => left.clear x (List.mem_cons_of_mem c member), left.stop⟩
      have shorter' : Upto stops (front ++ d :: rest) front' d' rest' :=
        ⟨tails, fun x member => right.clear x (List.mem_cons_of_mem c member), right.stop⟩
      rcases ih shorter shorter' with ⟨rfl, rfl, rfl⟩
      exact ⟨rfl, rfl, rfl⟩

theorem strpbrk_eq_some {n : Nat} (found : strpbrk s stops = some n) :
    ∃ front d rest, Upto stops s front d rest ∧ front.length = n := by
  induction s generalizing n with
  | nil => cases found
  | cons c s ih =>
    unfold strpbrk at found
    rw [List.findIdx?_cons] at found
    split at found
    · next here =>
      cases found
      exact ⟨[], c, s, ⟨rfl, nofun, of_decide_eq_true here⟩, rfl⟩
    · next not_here =>
      rcases Option.map_eq_some_iff.mp found with ⟨m, later, rfl⟩
      rcases ih later with ⟨front, d, rest, ⟨split, clear, stop⟩, length⟩
      refine ⟨c :: front, d, rest, ⟨congrArg (c :: ·) split, ?_, stop⟩, congrArg (· + 1) length⟩
      intro x member
      rcases List.mem_cons.mp member with rfl | member
      · simpa using not_here
      · exact clear x member

theorem strpbrk_eq_none (none_found : strpbrk s stops = none) :
    ∀ front d rest, ¬ Upto stops s front d rest := by
  intro front d rest upto
  have clear := List.findIdx?_eq_none_iff.mp none_found d (by rw [upto.split]; simp)
  simp [upto.stop] at clear

/-- `strchr` looks for one byte. -/
theorem strchr_eq_strpbrk (s : List UInt8) (c : UInt8) : strchr s c = strpbrk s [c] := by
  simp [strchr, strpbrk]

/-! ## `strncpy` -/

/-- The stores stay below the length. -/
theorem strncpy_lt {src : List UInt8} {n : Nat} {w : Nat × UInt8} (member : w ∈ strncpy src n) :
    w.1 < n := by
  rcases List.mem_map.mp member with ⟨i, lt, rfl⟩
  exact List.mem_range.mp lt

/-- Only the first bytes of the source are copied. -/
theorem strncpy_append (src rest : List UInt8) :
    strncpy (src ++ rest) src.length = strncpy src src.length := by
  apply List.map_congr_left
  intro i lt
  rw [List.getD_append _ _ _ _ (List.mem_range.mp lt)]

theorem stores_append (b : Memory) (ws vs : List (Nat × UInt8)) :
    b.stores (ws ++ vs) = (b.stores ws).stores vs := List.foldl_append

/-- The memory after `strncpy` of the first bytes of a string. -/
theorem stores_strncpy (b : Memory) (src : List UInt8) (n i : Nat) :
    b.stores (strncpy src n) i = if i < n then src.getD i 0 else b i := by
  induction n with
  | zero => rfl
  | succ n ih =>
    have last : strncpy src (n + 1) = strncpy src n ++ [(n, src.getD n 0)] := by
      simp [strncpy, List.range_succ]
    rw [last, stores_append]
    show Function.update (b.stores (strncpy src n)) n (src.getD n 0) i = _
    by_cases here : i = n
    · rw [here, Function.update_self, if_pos (Nat.lt_succ_self n)]
    · rw [Function.update_of_ne here, ih]
      split
      · rw [if_pos (by omega)]
      · rw [if_neg (by omega)]

/-- Stores leave alone what they do not meet. -/
theorem stores_of_ne (b : Memory) {ws : List (Nat × UInt8)} {i : Nat}
    (elsewhere : ∀ w ∈ ws, i ≠ w.1) : b.stores ws i = b i := by
  induction ws generalizing b with
  | nil => rfl
  | cons w ws ih =>
    show Memory.stores (Function.update b w.1 w.2) ws i = b i
    rw [ih _ fun v member => elsewhere v (List.mem_cons_of_mem w member),
      Function.update_of_ne (elsewhere w List.mem_cons_self)]

/-- The memory behind a pointer after stores through this pointer. -/
theorem stores_shift (b : Memory) (base : Nat) (ws : List (Nat × UInt8)) (i : Nat) :
    b.stores (shift base ws) (base + i) = Memory.stores (fun j => b (base + j)) ws i := by
  induction ws generalizing b with
  | nil => rfl
  | cons w ws ih =>
    have here : (fun j => Function.update b (base + w.1) w.2 (base + j)) =
        Function.update (fun j => b (base + j)) w.1 w.2 := by
      funext j
      simp only [Function.update_apply, Nat.add_left_cancel_iff]
    show Memory.stores (Function.update b (base + w.1) w.2) (shift base ws) (base + i) = _
    rw [ih, here]
    rfl

/-- A copy with its terminator. -/
theorem isString_copy (b : Memory) {src : List UInt8} (noNul : 0 ∉ src) :
    IsString (b.stores (strncpy src src.length ++ [(src.length, 0)])) src := by
  have memory : ∀ i, b.stores (strncpy src src.length ++ [(src.length, 0)]) i =
      if i = src.length then 0 else if i < src.length then src.getD i 0 else b i := by
    intro i
    rw [stores_append]
    show Function.update (b.stores (strncpy src src.length)) src.length 0 i = _
    rw [Function.update_apply, stores_strncpy]
  refine ⟨fun i lt => ?_, ?_, noNul⟩
  · rw [memory, if_neg (by omega), if_pos lt, List.getD_eq_getElem _ _ lt]
  · rw [memory, if_pos rfl]

end Bytes
