import Mathlib.Data.List.Basic
import Mathlib.Tactic.Common

/-!
Pieces of a stream. A stream is a list, and a piece of it is named by the
position of its first element and its length. A receiver that holds a prefix of
the stream and appends the piece that starts where the prefix ends holds a
longer prefix; cutting a piece at either end leaves a piece.
-/

namespace Stream

variable {α : Type*}

/-- The `n` elements of a stream from position `k` on. -/
def slice (xs : List α) (k n : Nat) : List α := (xs.drop k).take n

theorem slice_length {xs : List α} {k n : Nat} (h : k + n ≤ xs.length) :
    (slice xs k n).length = n := by
  rw [slice, List.length_take, List.length_drop]
  omega

theorem slice_append {xs : List α} {k n : Nat} (h : k + n ≤ xs.length) (ys : List α) :
    slice (xs ++ ys) k n = slice xs k n := by
  unfold slice
  rw [List.drop_append_of_le_length (by omega), List.take_append_of_le_length]
  rw [List.length_drop]
  omega

theorem drop_slice (xs : List α) (k n d : Nat) :
    (slice xs k n).drop d = slice xs (k + d) (n - d) := by
  rw [slice, slice, List.drop_take, List.drop_drop]

theorem take_slice (xs : List α) (k n m : Nat) : (slice xs k n).take m = slice xs k (min m n) := by
  rw [slice, slice, List.take_take]

/-- A prefix continued by the piece behind it is a prefix. -/
theorem prefix_append_slice {xs ys : List α} (hp : ys <+: xs) (n : Nat) :
    ys ++ slice xs ys.length n <+: xs := by
  obtain ⟨zs, rfl⟩ := hp
  rw [slice, List.drop_left]
  exact (List.prefix_append_right_inj ys).mpr (List.take_prefix n zs)

end Stream
