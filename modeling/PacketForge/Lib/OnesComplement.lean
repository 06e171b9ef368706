import Mathlib.Algebra.BigOperators.Group.List.Basic
import Mathlib.Data.Nat.ModEq

/-!
One's complement sums in a base `b`: a carry out of the top digit is added back
at the bottom. This keeps the value modulo `b - 1`, and it never turns a
positive number into zero, so that the digit that is left over is `b - 1` for
the positive multiples of `b - 1`. A digit is determined by its value modulo
`b - 1` and by whether it is zero: it does not matter when carries are added.
-/

namespace OnesComplement

variable {b s : Nat}

def carry (b s : Nat) : Nat := s % b + s / b

theorem carry_modEq (hb : 0 < b) : carry b s ≡ s [MOD b - 1] := by
  have hone : b ≡ 1 [MOD b - 1] := by
    have h := Nat.add_modEq_left (n := b - 1) (a := 1)
    rwa [Nat.sub_add_cancel hb] at h
  have hmul : b * (s / b) ≡ s / b [MOD b - 1] := by
    have h := hone.mul_right (s / b)
    rwa [Nat.one_mul] at h
  calc carry b s ≡ s % b + b * (s / b) [MOD b - 1] := (hmul.symm).add_left (s % b)
    _ = s := Nat.mod_add_div s b

theorem carry_pos (hb : 0 < b) (hs : 0 < s) : 0 < carry b s := by
  rcases Nat.lt_or_ge s b with hlt | hge
  · rw [carry, Nat.mod_eq_of_lt hlt]
    exact Nat.add_pos_left hs _
  · exact Nat.add_pos_right _ (Nat.div_pos hge hb)

theorem carry_of_lt (hs : s < b) : carry b s = s := by
  rw [carry, Nat.mod_eq_of_lt hs, Nat.div_eq_of_lt hs, Nat.add_zero]

/-- The only positive digit that vanishes modulo `b - 1`. -/
theorem eq_top (hs : 0 < s) (hlt : s < b) (hmod : s ≡ 0 [MOD b - 1]) : s = b - 1 := by
  obtain ⟨k, hk⟩ := (Nat.modEq_zero_iff_dvd).mp hmod
  rcases k with _ | _ | k
  · omega
  · omega
  · have htwo : (b - 1) * (k + 1 + 1) = (b - 1) * k + (b - 1) + (b - 1) := by
      rw [Nat.mul_succ, Nat.mul_succ]
    omega

/-- Digits of the same value are equal unless one of them is zero. -/
theorem eq_of_modEq {t : Nat} (hs : s < b) (ht : t < b) (hpos : 0 < s ↔ 0 < t)
    (hmod : s ≡ t [MOD b - 1]) : s = t := by
  wlog hle : s ≤ t generalizing s t with h
  · exact (h ht hs hpos.symm hmod.symm (Nat.le_of_not_le hle)).symm
  obtain ⟨k, hk⟩ := (Nat.modEq_iff_dvd' hle).mp hmod
  rcases k with _ | k
  · omega
  · rw [Nat.mul_succ] at hk
    omega

/-! ### Sums of digits -/

/-- The sum of two numbers, with one carry added back. -/
def add (b x y : Nat) : Nat := carry b (x + y)

/-- The one's complement sum of a list, carry by carry. -/
def sum (b : Nat) (l : List Nat) : Nat := l.foldl (add b) 0

theorem add_lt {x y : Nat} (hx : x < b) (hy : y < b) : add b x y < b := by
  unfold add
  rcases Nat.lt_or_ge (x + y) b with hlt | hge
  · rw [carry_of_lt hlt]
    exact hlt
  · have hdiv : (x + y) / b = 1 := Nat.div_eq_of_lt_le (by omega) (by omega)
    have hmod := Nat.mod_add_div (x + y) b
    rw [hdiv, Nat.mul_one] at hmod
    rw [carry, hdiv]
    omega

/-- What the carries keep of the sum. -/
theorem foldl_add (hb : 0 < b) (l : List Nat) (acc : Nat) (hacc : acc < b) (hl : ∀ x ∈ l, x < b) :
    l.foldl (add b) acc < b ∧ (0 < l.foldl (add b) acc ↔ 0 < acc + l.sum) ∧
      l.foldl (add b) acc ≡ acc + l.sum [MOD b - 1] := by
  induction l generalizing acc with
  | nil => exact ⟨hacc, Iff.rfl, Nat.ModEq.refl _⟩
  | cons x l ih =>
    have hx := hl x List.mem_cons_self
    obtain ⟨hlt, hpos, hmod⟩ := ih (add b acc x) (add_lt hacc hx)
      (fun y hy => hl y (List.mem_cons_of_mem _ hy))
    have hadd : 0 < add b acc x ↔ 0 < acc + x := by
      refine ⟨fun h => ?_, carry_pos hb⟩
      by_contra hzero
      have hz : acc + x = 0 := by omega
      rw [add, hz, carry, Nat.zero_mod, Nat.zero_div] at h
      exact Nat.lt_irrefl 0 h
    rw [List.foldl_cons, List.sum_cons, ← Nat.add_assoc]
    refine ⟨hlt, hpos.trans (by omega), hmod.trans ?_⟩
    exact (carry_modEq hb).add_right l.sum

theorem sum_lt (hb : 0 < b) {l : List Nat} (hl : ∀ x ∈ l, x < b) : sum b l < b :=
  (foldl_add hb l 0 hb hl).1

theorem sum_pos (hb : 0 < b) {l : List Nat} (hl : ∀ x ∈ l, x < b) : 0 < sum b l ↔ 0 < l.sum := by
  have h := (foldl_add hb l 0 hb hl).2.1
  rwa [Nat.zero_add] at h

theorem sum_modEq (hb : 0 < b) {l : List Nat} (hl : ∀ x ∈ l, x < b) :
    sum b l ≡ l.sum [MOD b - 1] := by
  have h := (foldl_add hb l 0 hb hl).2.2
  rwa [Nat.zero_add] at h

end OnesComplement
