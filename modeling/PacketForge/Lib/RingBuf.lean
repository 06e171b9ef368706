import Mathlib.Tactic

/-!
A byte ring kept in a flat buffer and accessed with block copies. A transfer
that crosses the end of the buffer is done in two copies, the second one at
index zero. The contents of the ring are a list, and the lemmas say that
writing after the last element appends, that moving the head drops a prefix,
and that a wrapped read returns a slice of that list. The element type and the
capacity are arbitrary.
-/

namespace RingBuf

variable {α : Type*}

/-- Copy a block into the buffer at index `start`. -/
def copyIn (buf : Nat → α) (start : Nat) (xs : List α) : Nat → α := fun i =>
  if start ≤ i then (xs[i - start]?).getD (buf i) else buf i

/-- Copy `n` elements out of the buffer from index `start`. -/
def copyOut (buf : Nat → α) (start n : Nat) : List α :=
  (List.range n).map fun i => buf (start + i)

/-- Write a block at index `w` of a ring, wrapping once at the capacity. -/
def write (cap : Nat) (buf : Nat → α) (w : Nat) (xs : List α) : Nat → α :=
  let first := min xs.length (cap - w)
  copyIn (copyIn buf w (xs.take first)) 0 (xs.drop first)

/-- Read `n` elements from index `start` of a ring, wrapping once. -/
def read (cap : Nat) (buf : Nat → α) (start n : Nat) : List α :=
  let first := min n (cap - start)
  copyOut buf start first ++ copyOut buf 0 (n - first)

/-- The `len` elements of a ring in order, the first one at `head`. -/
def contents (cap : Nat) (buf : Nat → α) (head len : Nat) : List α :=
  (List.range len).map fun i => buf ((head + i) % cap)

variable (cap : Nat) (buf : Nat → α)

theorem copyIn_nil (start : Nat) : copyIn buf start [] = buf := by
  funext i
  simp [copyIn]

theorem write_nil (w : Nat) : write cap buf w [] = buf := by
  simp [write, copyIn_nil]

theorem copyOut_length (start n : Nat) : (copyOut buf start n).length = n := by
  simp [copyOut]

theorem read_length (start n : Nat) : (read cap buf start n).length = n := by
  simp only [read, List.length_append, copyOut_length]
  omega

theorem contents_length (head len : Nat) : (contents cap buf head len).length = len := by
  simp [contents]

theorem contents_get? (head len i : Nat) :
    (contents cap buf head len)[i]? =
      if i < len then some (buf ((head + i) % cap)) else none := by
  by_cases h : i < len
  · simp [contents, h]
  · simp [contents, h]

theorem contents_zero (head : Nat) : contents cap buf head 0 = [] := rfl

theorem mod_of_lt_two {cap i : Nat} (h : i < 2 * cap) :
    i % cap = if i < cap then i else i - cap := by
  split
  · rename_i hlt
    exact Nat.mod_eq_of_lt hlt
  · rename_i hge
    rw [Nat.mod_eq_sub_mod (by omega), Nat.mod_eq_of_lt (by omega)]

/-- A wrapped read returns the elements in ring order. -/
theorem read_eq_contents {cap start n : Nat} (buf : Nat → α)
    (hs : start < cap) (hn : n ≤ cap) :
    read cap buf start n = contents cap buf start n := by
  apply List.ext_getElem
  · rw [read_length, contents_length]
  · intro i h1 h2
    rw [read_length] at h1
    simp only [read, contents, List.getElem_map, List.getElem_range]
    rw [mod_of_lt_two (by omega)]
    by_cases hi : i < min n (cap - start)
    · rw [List.getElem_append_left (by rw [copyOut_length]; exact hi)]
      have hlt : start + i < cap := by omega
      simp [copyOut, hlt]
    · rw [List.getElem_append_right (by rw [copyOut_length]; omega)]
      have hge : ¬ start + i < cap := by omega
      simp only [copyOut, List.getElem_map, List.getElem_range, hge, if_false,
        List.length_map, List.length_range]
      congr 1
      omega

/-- What a buffer index holds after a block was written at `w`. -/
theorem write_apply {cap w : Nat} (buf : Nat → α) (xs : List α)
    (hw : w < cap) (hxs : xs.length ≤ cap) (i : Nat) (hi : i < cap) :
    write cap buf w xs i =
      (xs[if w ≤ i then i - w else cap - w + i]?).getD (buf i) := by
  simp only [write, copyIn, Nat.zero_le, if_true, Nat.sub_zero, List.getElem?_drop,
    List.getElem?_take]
  by_cases hwi : w ≤ i
  · have hnone : xs[min xs.length (cap - w) + i]? = none := by
      apply List.getElem?_eq_none
      omega
    simp only [hwi, if_true, hnone, Option.getD_none]
    by_cases hin : i - w < min xs.length (cap - w)
    · simp [hin]
    · have hout : xs[i - w]? = none := List.getElem?_eq_none (by omega)
      simp [hin, hout]
  · simp only [hwi, if_false]
    by_cases hlen : cap - w ≤ xs.length
    · rw [Nat.min_eq_right hlen]
    · have h1 : xs[min xs.length (cap - w) + i]? = none := List.getElem?_eq_none (by omega)
      have h2 : xs[cap - w + i]? = none := List.getElem?_eq_none (by omega)
      rw [h1, h2]

/-- Writing a block right after the last element appends it. -/
theorem contents_write {cap head len : Nat} (buf : Nat → α) (xs : List α)
    (hh : head < cap) (hl : len + xs.length ≤ cap) :
    contents cap (write cap buf ((head + len) % cap) xs) head (len + xs.length) =
      contents cap buf head len ++ xs := by
  have hw : (head + len) % cap < cap := Nat.mod_lt _ (by omega)
  apply List.ext_getElem?
  intro i
  rw [contents_get?]
  by_cases hi : i < len + xs.length
  · have hpos : (head + i) % cap < cap := Nat.mod_lt _ (by omega)
    rw [if_pos hi, write_apply buf xs hw (by omega) _ hpos]
    by_cases hil : i < len
    · -- an old element: the block lies outside its index
      rw [List.getElem?_append_left (by rw [contents_length]; exact hil), contents_get?,
        if_pos hil]
      have hnone : xs[if (head + len) % cap ≤ (head + i) % cap
          then (head + i) % cap - (head + len) % cap
          else cap - (head + len) % cap + (head + i) % cap]? = none := by
        apply List.getElem?_eq_none
        rw [mod_of_lt_two (i := head + i) (by omega)]
        by_cases hle : head + len < 2 * cap
        · rw [mod_of_lt_two hle]
          split_ifs <;> omega
        · omega
      rw [hnone, Option.getD_none]
    · rw [List.getElem?_append_right (by rw [contents_length]; omega), contents_length]
      have hidx : (if (head + len) % cap ≤ (head + i) % cap
          then (head + i) % cap - (head + len) % cap
          else cap - (head + len) % cap + (head + i) % cap) = i - len := by
        rw [mod_of_lt_two (i := head + i) (by omega), mod_of_lt_two (i := head + len) (by omega)]
        split_ifs <;> omega
      rw [hidx]
      have hx : i - len < xs.length := by omega
      simp [hx]
  · rw [if_neg hi]
    symm
    apply List.getElem?_eq_none
    rw [List.length_append, contents_length]
    omega

/-- A slice of the contents is the contents from a later index. -/
theorem contents_slice {cap head len off n : Nat} (buf : Nat → α)
    (hn : off + n ≤ len) :
    contents cap buf ((head + off) % cap) n =
      ((contents cap buf head len).drop off).take n := by
  apply List.ext_getElem?
  intro i
  rw [contents_get?, List.getElem?_take, List.getElem?_drop, contents_get?]
  by_cases hi : i < n
  · have hlt : off + i < len := by omega
    simp only [hi, if_true, hlt, Nat.mod_add_mod]
    rw [Nat.add_assoc]
  · simp [hi]

/-- Moving the head over `k` elements drops them. -/
theorem contents_advance {cap head len k : Nat} (buf : Nat → α) (hk : k ≤ len) :
    contents cap buf ((head + k) % cap) (len - k) = (contents cap buf head len).drop k := by
  rw [contents_slice buf (show k + (len - k) ≤ len by omega)]
  apply List.take_of_length_le
  rw [List.length_drop, contents_length]

theorem contents_take {cap head len n : Nat} (buf : Nat → α) (hn : n ≤ len) :
    contents cap buf head n = (contents cap buf head len).take n := by
  apply List.ext_getElem?
  intro i
  rw [contents_get?, List.getElem?_take, contents_get?]
  by_cases hi : i < n
  · have hlt : i < len := by omega
    simp [hi, hlt]
  · simp [hi]

end RingBuf
