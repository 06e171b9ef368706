import Mathlib.Tactic

/-!
Numbers of a 32-bit sequence space, seen as positions on an unbounded line.
A counter that wraps is compared through the sign of a 32-bit difference. The
comparison is meaningful only for two numbers less than half the space apart,
so every lemma below names both numbers by their positions after one base and
asks for a bound on the distance of these positions. Nothing here knows what
is being numbered.
-/

namespace SeqSpace

/-- The number reached `k` steps after `base`. -/
def pos (base : UInt32) (k : Nat) : UInt32 := base + UInt32.ofNat k

variable (base : UInt32)

theorem pos_zero : pos base 0 = base := by
  simp [pos]

theorem pos_add (k n : Nat) : pos base k + UInt32.ofNat n = pos base (k + n) := by
  simp only [pos, UInt32.ofNat_add]
  grind

theorem pos_succ (k : Nat) : pos base k + 1 = pos base (k + 1) :=
  pos_add base k 1

theorem pos_pos (k n : Nat) : pos (pos base k) n = pos base (k + n) :=
  pos_add base k n

/-- Every number is a position after every other. -/
theorem eq_pos (a b : UInt32) : a = pos b (a - b).toNat := by
  simp only [pos, UInt32.ofNat_toNat]
  grind

theorem pos_sub {i j : Nat} (h : j ≤ i) : pos base i - pos base j = UInt32.ofNat (i - j) := by
  obtain ⟨d, rfl⟩ := Nat.exists_eq_add_of_le h
  rw [← pos_add, Nat.add_sub_cancel_left]
  grind

theorem pos_sub_toNat {i j : Nat} (h : j ≤ i) (hd : i - j < 2 ^ 32) :
    (pos base i - pos base j).toNat = i - j := by
  rw [pos_sub base h, UInt32.toNat_ofNat']
  exact Nat.mod_eq_of_lt hd

/-- A difference is negative as a signed number exactly when its top bit is
set. -/
theorem toInt32_neg_iff (x : UInt32) : x.toInt32 < 0 ↔ 2 ^ 31 ≤ x.toNat := by
  rw [Int32.lt_iff_toInt_lt]
  have hx := x.toNat_lt
  have h : x.toInt32.toInt = (x.toNat : Int).bmod (2 ^ 32) := by
    rw [← Int32.toInt_toBitVec, UInt32.toBitVec_toInt32, BitVec.toInt_eq_toNat_bmod]
    rfl
  rw [h]
  simp only [Int32.toInt_zero, Int.bmod_def]
  omega

theorem toInt32_eq_zero_iff (x : UInt32) : x.toInt32 = 0 ↔ x.toNat = 0 := by
  constructor
  · intro h
    have hb := congrArg Int32.toUInt32 h
    rw [UInt32.toUInt32_toInt32] at hb
    rw [hb]
    rfl
  · intro h
    have hx : x = 0 := UInt32.toNat_inj.mp h
    rw [hx]
    rfl

theorem toNat_sub_eq_zero_iff (a b : UInt32) : (a - b).toNat = 0 ↔ a = b := by
  constructor
  · intro h
    have hz : a - b = 0 := UInt32.toNat_inj.mp h
    grind
  · rintro rfl
    rw [UInt32.sub_self]
    rfl

/-- For positions less than half the space apart the signed comparison is the
comparison of positions. -/
theorem pos_sub_neg_iff {i j : Nat} (hi : i < j + 2 ^ 31) (hj : j ≤ i + 2 ^ 31) :
    (pos base i - pos base j).toInt32 < 0 ↔ i < j := by
  rw [toInt32_neg_iff]
  rcases Nat.lt_or_ge i j with hlt | hge
  · have hneg : pos base i - pos base j = 0 - UInt32.ofNat (j - i) := by
      rw [← pos_sub base (Nat.le_of_lt hlt)]
      grind
    rw [hneg, UInt32.toNat_sub, UInt32.toNat_ofNat', UInt32.toNat_zero]
    have hsmall : j - i ≤ 2 ^ 31 := by omega
    omega
  · rw [pos_sub_toNat base hge (by omega)]
    omega

theorem pos_inj {i j : Nat} (hi : i < j + 2 ^ 32) (hj : j < i + 2 ^ 32) :
    pos base i = pos base j ↔ i = j := by
  constructor
  · intro h
    rcases Nat.le_total i j with hle | hle
    · have hd := pos_sub_toNat base hle (by omega)
      rw [h, UInt32.sub_self, UInt32.toNat_zero] at hd
      omega
    · have hd := pos_sub_toNat base hle (by omega)
      rw [h, UInt32.sub_self, UInt32.toNat_zero] at hd
      omega
  · rintro rfl
    rfl

/-! ### Numbered items -/

section Number

variable {α : Type*}

/-- The items of a list with their numbers, from `seq` on. -/
def number (seq : UInt32) : List α → List (UInt32 × α)
  | [] => []
  | x :: xs => (seq, x) :: number (seq + 1) xs

theorem number_append (seq : UInt32) (l m : List α) :
    number seq (l ++ m) = number seq l ++ number (pos seq l.length) m := by
  induction l generalizing seq with
  | nil => rw [List.length_nil, pos_zero, List.nil_append, number, List.nil_append]
  | cons x l ih =>
    have hpos : pos (seq + 1) l.length = pos seq (l.length + 1) := by
      rw [← pos_zero seq, pos_succ, pos_pos, pos_zero, Nat.zero_add, Nat.add_comm]
    rw [List.cons_append, number, ih, hpos, number, List.cons_append, List.length_cons]

/-- Of numbered items at offsets that do not wrap, those below a bound are the first. -/
theorem filter_number (base : UInt32) (w : Nat) {o : Nat} (l : List α) (h : o + l.length ≤ 2 ^ 32) :
    (number (pos base o) l).filter (fun p => (p.1 - base).toNat < w) =
      number (pos base o) (l.take (w - o)) := by
  induction l generalizing o with
  | nil => rw [List.take_nil, number, List.filter_nil]
  | cons x l ih =>
    rw [List.length_cons] at h
    have hoff : (pos base o - base).toNat = o := by
      conv_lhs => rw [← pos_zero base, pos_pos, Nat.zero_add]
      exact pos_sub_toNat base (Nat.zero_le o) (by omega)
    rw [number, List.filter_cons, hoff, pos_succ, ih (by omega)]
    by_cases hlt : o < w
    · obtain ⟨k, hk⟩ : ∃ k, w - o = k + 1 := ⟨w - o - 1, by omega⟩
      rw [if_pos (decide_eq_true hlt), hk, List.take_succ_cons, number, pos_succ,
        show w - (o + 1) = k by omega]
    · rw [if_neg (by simpa using hlt), Nat.sub_eq_zero_of_le (by omega),
        Nat.sub_eq_zero_of_le (by omega), List.take_zero, List.take_zero, number, number]

end Number

end SeqSpace
