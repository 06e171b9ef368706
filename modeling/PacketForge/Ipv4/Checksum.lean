import PacketForge.Lib.OnesComplement
import Mathlib.Tactic

/-!
The Internet checksum (`checksum.c`) and the fields of a header in network
byte order. A header whose checksum field holds the checksum over the header
with that field zero verifies.
-/

namespace PacketForge

/-! ### Bytes in network order -/

def be16 (l : List UInt8) (i : Nat) : UInt16 :=
  (l.getD i 0).toUInt16 <<< 8 ||| (l.getD (i + 1) 0).toUInt16

def be32 (l : List UInt8) (i : Nat) : UInt32 :=
  (be16 l i).toUInt32 <<< 16 ||| (be16 l (i + 2)).toUInt32

def putBe16 (l : List UInt8) (i : Nat) (x : UInt16) : List UInt8 :=
  (l.set i (x >>> 8).toUInt8).set (i + 1) x.toUInt8

/-! ### The code -/

def csumPartial : List UInt8 → UInt32 → UInt32
  | a :: b :: rest, sum => csumPartial rest (sum + (a.toUInt32 <<< 8 ||| b.toUInt32))
  | [a], sum => sum + a.toUInt32 <<< 8
  | [], sum => sum

def csumFoldLoop : Nat → UInt32 → UInt32
  | 0, sum => sum
  | fuel + 1, sum =>
    if sum >>> 16 ≠ 0 then csumFoldLoop fuel ((sum &&& (0xffff : UInt32)) + sum >>> 16) else sum

/-- Fold the carries and complement. Two rounds leave no carry. -/
def csumFold (sum : UInt32) : UInt16 := (~~~(csumFoldLoop 2 sum)).toUInt16

def inetCsum (data : List UInt8) : UInt16 := csumFold (csumPartial data 0)

/-! ### Sums of words -/

/-- The sum of the big-endian 16-bit words, an odd byte padded on the right. -/
def wordSum : List UInt8 → Nat
  | a :: b :: rest => a.toNat * 256 + b.toNat + wordSum rest
  | [a] => a.toNat * 256
  | [] => 0

theorem be16_word (a b : UInt8) :
    (a.toUInt32 <<< 8 ||| b.toUInt32).toNat = a.toNat * 256 + b.toNat := by
  have ha := a.toNat_lt
  have hb := b.toNat_lt
  have hshift : (a.toUInt32 <<< 8).toNat = a.toNat <<< 8 := by
    rw [UInt32.toNat_shiftLeft, UInt8.toNat_toUInt32]
    change (a.toNat <<< 8) % 2 ^ 32 = _
    rw [Nat.shiftLeft_eq]
    omega
  rw [UInt32.toNat_or, hshift, UInt8.toNat_toUInt32, ← Nat.shiftLeft_add_eq_or_of_lt hb,
    Nat.shiftLeft_eq]

variable (l : List UInt8) (sum : UInt32)

theorem csumPartial_toNat : (csumPartial l sum).toNat = (sum.toNat + wordSum l) % 2 ^ 32 := by
  induction l, sum using csumPartial.induct with
  | case1 sum a b rest ih =>
    rw [csumPartial, ih, UInt32.toNat_add, be16_word, wordSum]
    omega
  | case2 a sum =>
    have h := be16_word a 0
    have hz : (0 : UInt8).toUInt32 = 0 := rfl
    rw [hz, UInt32.or_zero, UInt8.toNat_zero, Nat.add_zero] at h
    rw [csumPartial, UInt32.toNat_add, h, wordSum]
  | case3 sum =>
    rw [csumPartial, wordSum, Nat.add_zero]
    exact (Nat.mod_eq_of_lt sum.toNat_lt).symm

/-- Each word is at most 65535, and an odd byte makes one more. -/
theorem wordSum_le : wordSum l ≤ (l.length + 1) / 2 * 65535 := by
  induction l using wordSum.induct with
  | case1 a b rest ih =>
    have ha := a.toNat_lt
    have hb := b.toNat_lt
    simp only [wordSum, List.length_cons]
    omega
  | case2 a =>
    have ha := a.toNat_lt
    simp only [wordSum, List.length_singleton]
    omega
  | case3 => simp [wordSum]

theorem wordSum_lt : wordSum l ≤ l.length * 65536 := by
  have hhalf : (l.length + 1) / 2 ≤ l.length := by omega
  exact (wordSum_le l).trans (Nat.mul_le_mul hhalf (Nat.le_succ 65535))

/-! ### Folding -/

/-- One round of the loop is an end-around carry. -/
theorem csumRound_toNat :
    ((sum &&& (0xffff : UInt32)) + sum >>> 16).toNat = OnesComplement.carry 65536 sum.toNat := by
  have hlt := sum.toNat_lt
  have hmask : (sum &&& (0xffff : UInt32)).toNat = sum.toNat % 65536 := by
    rw [UInt32.toNat_and]
    exact Nat.and_two_pow_sub_one_eq_mod sum.toNat 16
  have hshift : (sum >>> 16).toNat = sum.toNat / 65536 := by
    rw [UInt32.toNat_shiftRight]
    change sum.toNat >>> 16 = _
    rw [Nat.shiftRight_eq_div_pow]
  rw [UInt32.toNat_add, hmask, hshift, OnesComplement.carry]
  omega

theorem csumFoldLoop_toNat (fuel : Nat) (sum : UInt32) :
    (csumFoldLoop fuel sum).toNat = (OnesComplement.carry 65536)^[fuel] sum.toNat := by
  induction fuel generalizing sum with
  | zero => rfl
  | succ fuel ih =>
    unfold csumFoldLoop
    rw [Function.iterate_succ_apply]
    split
    · rw [ih, csumRound_toNat]
    · rename_i hz
      have hlt : sum.toNat < 65536 := by
        have h := congrArg UInt32.toNat (not_not.mp hz)
        rw [UInt32.toNat_shiftRight] at h
        change sum.toNat >>> 16 = 0 at h
        rw [Nat.shiftRight_eq_div_pow] at h
        omega
      have hsame : (OnesComplement.carry 65536)^[fuel] sum.toNat = sum.toNat :=
        Function.iterate_fixed (OnesComplement.carry_of_lt hlt) fuel
      rw [OnesComplement.carry_of_lt hlt, hsame]

/-- Two rounds leave no carry, for every 32-bit sum. -/
theorem csumFoldLoop_lt : (csumFoldLoop 2 sum).toNat < 65536 := by
  have hlt := sum.toNat_lt
  rw [csumFoldLoop_toNat]
  simp only [Function.iterate_succ, Function.iterate_zero, Function.comp, id, OnesComplement.carry]
  omega

/-- The carries keep the sum modulo 65535, -/
theorem csumFoldLoop_modEq : (csumFoldLoop 2 sum).toNat ≡ sum.toNat [MOD 65535] := by
  rw [csumFoldLoop_toNat]
  exact (OnesComplement.carry_modEq (by decide)).trans (OnesComplement.carry_modEq (by decide))

/-- and leave zero only of zero. -/
theorem csumFoldLoop_pos : 0 < (csumFoldLoop 2 sum).toNat ↔ 0 < sum.toNat := by
  rw [csumFoldLoop_toNat]
  constructor
  · intro h
    by_contra hzero
    have hs : sum.toNat = 0 := by omega
    rw [hs] at h
    exact absurd h (by decide)
  · intro h
    exact OnesComplement.carry_pos (by decide) (OnesComplement.carry_pos (by decide) h)

theorem csumFold_toNat : (csumFold sum).toNat = 65535 - (csumFoldLoop 2 sum).toNat := by
  have hlt := csumFoldLoop_lt sum
  have hsize : UInt32.size = 4294967296 := rfl
  rw [csumFold, UInt32.toNat_toUInt16, UInt32.toNat_not, hsize]
  omega

/-- A sum whose words add up to a positive multiple of 65535 checks. -/
theorem csumFold_zero {sum : UInt32} (hpos : 0 < sum.toNat) (hmod : sum.toNat ≡ 0 [MOD 65535]) :
    csumFold sum = 0 := by
  have hfold : (csumFoldLoop 2 sum).toNat = 65535 :=
    OnesComplement.eq_top ((csumFoldLoop_pos sum).mpr hpos) (csumFoldLoop_lt sum)
      ((csumFoldLoop_modEq sum).trans hmod)
  apply UInt16.toNat_inj.mp
  rw [csumFold_toNat, hfold]
  rfl

/-- The complement of a folded sum makes up the sum to a multiple of 65535. -/
theorem csumFold_completes :
    sum.toNat + (csumFold sum).toNat ≡ 0 [MOD 65535] ∧ 0 < sum.toNat + (csumFold sum).toNat := by
  have hlt := csumFoldLoop_lt sum
  have hfold := csumFold_toNat sum
  have hpos := csumFoldLoop_pos sum
  constructor
  · have hsum := (csumFoldLoop_modEq sum).symm.add_right (csumFold sum).toNat
    have htop : (csumFoldLoop 2 sum).toNat + (csumFold sum).toNat = 65535 := by omega
    rw [htop] at hsum
    exact hsum.trans (Nat.modEq_zero_iff_dvd.mpr dvd_rfl)
  · omega

/-! ### The checksum field -/

theorem be16_toNat (i : Nat) :
    (be16 l i).toNat = (l.getD i 0).toNat * 256 + (l.getD (i + 1) 0).toNat := by
  have h := be16_word (l.getD i 0) (l.getD (i + 1) 0)
  have ha := (l.getD i 0).toNat_lt
  have hb := (l.getD (i + 1) 0).toNat_lt
  have hshift : ((l.getD i 0).toUInt16 <<< 8).toNat = (l.getD i 0).toNat <<< 8 := by
    rw [UInt16.toNat_shiftLeft, UInt8.toNat_toUInt16]
    change ((l.getD i 0).toNat <<< 8) % 2 ^ 16 = _
    rw [Nat.shiftLeft_eq]
    omega
  rw [be16, UInt16.toNat_or, hshift, UInt8.toNat_toUInt16, ← Nat.shiftLeft_add_eq_or_of_lt hb,
    Nat.shiftLeft_eq]

theorem bytes_of_word (x : UInt16) : (x >>> 8).toUInt8.toNat * 256 + x.toUInt8.toNat = x.toNat := by
  have hx := x.toNat_lt
  rw [UInt16.toNat_toUInt8, UInt16.toNat_toUInt8, UInt16.toNat_shiftRight]
  change x.toNat >>> 8 % 2 ^ 8 * 256 + _ = _
  rw [Nat.shiftRight_eq_div_pow]
  omega

section Fields

variable {l : List UInt8} {i j : Nat} {x y : UInt16}

theorem getD_putBe16 (hi : j ≠ i) (hi' : j ≠ i + 1) : (putBe16 l i x).getD j 0 = l.getD j 0 := by
  simp only [putBe16, List.getD_eq_getElem?_getD]
  rw [List.getElem?_set_ne (Ne.symm hi'), List.getElem?_set_ne (Ne.symm hi)]

theorem be16_putBe16_other (h : j + 1 < i ∨ i + 1 < j) : be16 (putBe16 l i x) j = be16 l j := by
  unfold be16
  rw [getD_putBe16 (by omega) (by omega), getD_putBe16 (by omega) (by omega)]

theorem be16_putBe16 (h : i + 1 < l.length) : be16 (putBe16 l i x) i = x := by
  have hhigh : (putBe16 l i x).getD i 0 = (x >>> 8).toUInt8 := by
    simp only [putBe16, List.getD_eq_getElem?_getD]
    rw [List.getElem?_set_ne (by omega), List.getElem?_set_self (by omega)]
    rfl
  have hlow : (putBe16 l i x).getD (i + 1) 0 = x.toUInt8 := by
    simp only [putBe16, List.getD_eq_getElem?_getD]
    rw [List.getElem?_set_self (by rw [List.length_set]; exact h)]
    rfl
  apply UInt16.toNat_inj.mp
  rw [be16_toNat, hhigh, hlow]
  exact bytes_of_word x

theorem putBe16_putBe16 : putBe16 (putBe16 l i x) i y = putBe16 l i y := by
  unfold putBe16
  rw [List.set_comm _ _ (by omega : i + 1 ≠ i), List.set_set, List.set_set]

end Fields

/-- Writing a word at an even offset changes the sum by that word. -/
theorem wordSum_putBe16 (l : List UInt8) (k : Nat) (x : UInt16) (hk : 2 * k + 1 < l.length) :
    wordSum (putBe16 l (2 * k) x) + (be16 l (2 * k)).toNat = wordSum l + x.toNat := by
  induction k generalizing l with
  | zero =>
    match l, hk with
    | a :: b :: rest, _ =>
      have hput : putBe16 (a :: b :: rest) 0 x = (x >>> 8).toUInt8 :: x.toUInt8 :: rest := rfl
      have hold : (be16 (a :: b :: rest) 0).toNat = a.toNat * 256 + b.toNat := be16_toNat _ 0
      rw [Nat.mul_zero, hput, hold, wordSum, wordSum, bytes_of_word]
      omega
  | succ k ih =>
    match l, hk with
    | a :: b :: rest, hk =>
      have hput : putBe16 (a :: b :: rest) (2 * k + 2) x = a :: b :: putBe16 rest (2 * k) x := rfl
      have hold : be16 (a :: b :: rest) (2 * k + 2) = be16 rest (2 * k) := rfl
      have hlen : 2 * k + 1 < rest.length := by
        simp only [List.length_cons] at hk
        omega
      rw [Nat.mul_succ, hput, hold, wordSum, wordSum]
      have hrest := ih rest hlen
      omega

theorem putBe16_length (l : List UInt8) (i : Nat) (x : UInt16) :
    (putBe16 l i x).length = l.length := by
  rw [putBe16, List.length_set, List.length_set]

/-- The checksum of a header with the field zero, written into the field,
verifies. -/
theorem inetCsum_putBe16 (l : List UInt8) (k : Nat) (hk : 2 * k + 1 < l.length)
    (hle : l.length ≤ 60) (hzero : be16 l (2 * k) = 0) :
    inetCsum (putBe16 l (2 * k) (inetCsum l)) = 0 := by
  have hsum := wordSum_putBe16 l k (inetCsum l) hk
  rw [hzero] at hsum
  change _ + 0 = _ at hsum
  have hlt := wordSum_lt l
  have hx := (inetCsum l).toNat_lt
  have hl : (csumPartial l 0).toNat = wordSum l := by
    rw [csumPartial_toNat]
    change (0 + wordSum l) % 2 ^ 32 = _
    omega
  have hl' : (csumPartial (putBe16 l (2 * k) (inetCsum l)) 0).toNat =
      wordSum l + (inetCsum l).toNat := by
    rw [csumPartial_toNat]
    change (0 + _) % 2 ^ 32 = _
    omega
  obtain ⟨hmod, hpos⟩ := csumFold_completes (csumPartial l 0)
  rw [hl] at hmod hpos
  apply csumFold_zero
  · rw [hl']
    exact hpos
  · rw [hl']
    exact hmod

end PacketForge
