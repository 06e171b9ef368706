import Mathlib.Data.List.OfFn
import Mathlib.Tactic.Common

/-!
Arrays of a fixed size whose accesses are checked, and the lists they start
with. `move` is `memmove` inside the array: with it an element is put between
two others, or taken out. The size, the elements and the faults are arbitrary.
-/

namespace FixedArray

variable {N : Nat} {β φ : Type}

def get (e : φ) (a : Fin N → β) (i : Nat) : Except φ β :=
  if h : i < N then .ok (a ⟨i, h⟩) else .error e

def set (e : φ) (a : Fin N → β) (i : Nat) (x : β) : Except φ (Fin N → β) :=
  if h : i < N then .ok (Function.update a ⟨i, h⟩ x) else .error e

/-- `memmove` of `n` elements. Where `n` is 0 a pointer may stand right behind the array. -/
def move (e : φ) (a : Fin N → β) (dst src : Nat) (n : Int) : Except φ (Fin N → β) :=
  if h : 0 ≤ n ∧ dst + n ≤ N ∧ src + n ≤ N then
    .ok fun k =>
      if hk : dst ≤ k.val ∧ k.val < dst + n then a ⟨src + (k.val - dst), by omega⟩ else a k
  else .error e

/-- The elements of the list are the first ones of the array. -/
def Starts (a : Fin N → β) (l : List β) : Prop :=
  ∀ i x, l[i]? = some x → ∃ h : i < N, a ⟨i, h⟩ = x

variable {e : φ} {a : Fin N → β} {l m : List β} {x y : β}

theorem starts_take (a : Fin N → β) (n : Nat) : Starts a ((List.ofFn a).take n) := by
  intro i x hx
  rw [List.getElem?_take] at hx
  split at hx
  · obtain ⟨h, hget⟩ := List.getElem?_eq_some_iff.mp hx
    rw [List.getElem_ofFn] at hget
    exact ⟨List.length_ofFn (f := a) ▸ h, hget⟩
  · cases hx

theorem Starts.length_le (h : Starts a l) : l.length ≤ N := by
  cases hl : l.length with
  | zero => exact Nat.zero_le N
  | succ n =>
    have hn : n < l.length := by omega
    obtain ⟨hlt, -⟩ := h n l[n] (List.getElem?_eq_getElem hn)
    exact hlt

theorem Starts.eq_take (h : Starts a l) : (List.ofFn a).take l.length = l := by
  have hle := h.length_le
  refine List.ext_getElem ?_ ?_
  · rw [List.length_take, List.length_ofFn]
    omega
  · intro i _ hi
    obtain ⟨_, hget⟩ := h i l[i] (List.getElem?_eq_getElem hi)
    rw [List.getElem_take, List.getElem_ofFn]
    exact hget

theorem Starts.get (h : Starts a (l ++ x :: m)) : get e a l.length = .ok x := by
  obtain ⟨hlt, hget⟩ := h l.length x (by simp)
  rw [FixedArray.get, dif_pos hlt, hget]

theorem Starts.set (h : Starts a (l ++ y :: m)) :
    ∃ b, set e a l.length x = .ok b ∧ Starts b (l ++ x :: m) := by
  obtain ⟨hlt, -⟩ := h l.length y (by simp)
  refine ⟨_, dif_pos hlt, ?_⟩
  intro i z hz
  by_cases hi : i = l.length
  · subst hi
    obtain rfl : x = z := by simpa using hz
    exact ⟨hlt, Function.update_self _ _ _⟩
  · have hold : (l ++ y :: m)[i]? = some z := by
      rw [← hz]
      simp only [List.getElem?_append, List.getElem?_cons]
      split
      · rfl
      · rw [if_neg (by omega), if_neg (by omega)]
    obtain ⟨hiN, hget⟩ := h i z hold
    refine ⟨hiN, ?_⟩
    rw [Function.update_of_ne fun heq => hi (congrArg Fin.val heq), hget]

theorem Starts.move_right (h : Starts a (l ++ m)) (hroom : l.length + m.length < N) :
    ∃ b y, move e a (l.length + 1) l.length m.length = .ok b ∧ Starts b (l ++ y :: m) := by
  refine ⟨_, a ⟨l.length, by omega⟩, dif_pos ⟨by omega, by omega, by omega⟩, ?_⟩
  intro i z hz
  have hi : i < l.length + (m.length + 1) := by
    simpa using (List.getElem?_eq_some_iff.mp hz).1
  refine ⟨by omega, ?_⟩
  simp only
  split
  · rename_i hk
    have hold : (l ++ m)[i - 1]? = some z := by
      rw [← hz, List.getElem?_append_right (by omega), List.getElem?_append_right (by omega),
        List.getElem?_cons, if_neg (by omega)]
      exact congrArg (m[·]?) (by omega)
    obtain ⟨_, hget⟩ := h _ _ hold
    rw [← hget]
    exact congrArg a (Fin.ext (by simp only; omega))
  · rename_i hk
    by_cases heq : i = l.length
    · subst heq
      simpa using hz
    · have hold : (l ++ m)[i]? = some z := by
        rw [← hz, List.getElem?_append_left (by omega), List.getElem?_append_left (by omega)]
      exact (h _ _ hold).2

theorem Starts.move_left (h : Starts a (l ++ y :: m)) :
    ∃ b, move e a l.length (l.length + 1) m.length = .ok b ∧ Starts b (l ++ m) := by
  have hlen := h.length_le
  rw [List.length_append, List.length_cons] at hlen
  refine ⟨_, dif_pos ⟨by omega, by omega, by omega⟩, ?_⟩
  intro i z hz
  have hi : i < l.length + m.length := by
    simpa using (List.getElem?_eq_some_iff.mp hz).1
  refine ⟨by omega, ?_⟩
  simp only
  split
  · rename_i hk
    have hold : (l ++ y :: m)[i + 1]? = some z := by
      rw [← hz, List.getElem?_append_right (by omega), List.getElem?_append_right (by omega),
        List.getElem?_cons, if_neg (by omega)]
      exact congrArg (m[·]?) (by omega)
    obtain ⟨_, hget⟩ := h _ _ hold
    rw [← hget]
    exact congrArg a (Fin.ext (by simp only; omega))
  · rename_i hk
    have hold : (l ++ y :: m)[i]? = some z := by
      rw [← hz, List.getElem?_append_left (by omega), List.getElem?_append_left (by omega)]
    exact (h _ _ hold).2

end FixedArray
