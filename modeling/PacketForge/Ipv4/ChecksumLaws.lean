import PacketForge.Ipv4.Header

/-!
What the checksums of the protocols have in common. The accumulator holds the
plain sum of the words, whatever a packet can hold, so that the folded sum is
the one's complement sum of RFC 1071: it may be taken in pieces, it may start
with the sum of the pseudo header, and it is completed by its own complement.
The incremental update of RFC 1624 computes what a recomputation does, since a
sum that is not zero folds to the digit that its value modulo 65535 determines.
-/

namespace PacketForge

/-! ### Words -/

def words : List UInt8 → List Nat
  | a :: b :: rest => (a.toNat * 256 + b.toNat) :: words rest
  | [a] => [a.toNat * 256]
  | [] => []

theorem sum_words (l : List UInt8) : (words l).sum = wordSum l := by
  induction l using words.induct with
  | case1 a b rest ih => rw [words, wordSum, List.sum_cons, ih]
  | case2 a => rw [words, wordSum, List.sum_singleton]
  | case3 => rfl

theorem words_lt (l : List UInt8) : ∀ x ∈ words l, x < 65536 := by
  induction l using words.induct with
  | case1 a b rest ih =>
    have ha := a.toNat_lt
    have hb := b.toNat_lt
    intro x hx
    rw [words] at hx
    rcases List.mem_cons.mp hx with rfl | hx
    · omega
    · exact ih x hx
  | case2 a =>
    have ha := a.toNat_lt
    intro x hx
    rw [words] at hx
    rw [List.mem_singleton.mp hx]
    omega
  | case3 =>
    intro x hx
    cases hx

variable (sum : UInt32) {l : List UInt8}

/-- Sums are taken in pieces of even length. -/
theorem csumPartial_append (h : l.length % 2 = 0) (m : List UInt8) (sum : UInt32) :
    csumPartial (l ++ m) sum = csumPartial m (csumPartial l sum) := by
  induction l using words.induct generalizing sum with
  | case1 a b rest ih =>
    have hrest : rest.length % 2 = 0 := by
      simp only [List.length_cons] at h
      omega
    rw [List.cons_append, List.cons_append, csumPartial, csumPartial, ih hrest]
  | case2 a => simp at h
  | case3 => rfl

theorem wordSum_append (h : l.length % 2 = 0) (m : List UInt8) :
    wordSum (l ++ m) = wordSum l + wordSum m := by
  induction l using words.induct with
  | case1 a b rest ih =>
    have hrest : rest.length % 2 = 0 := by
      simp only [List.length_cons] at h
      omega
    rw [List.cons_append, List.cons_append, wordSum, wordSum, ih hrest]
    exact (Nat.add_assoc _ _ _).symm
  | case2 a => simp at h
  | case3 => rw [List.nil_append, wordSum, Nat.zero_add]

theorem csumPartial_zero_toNat (hlen : l.length ≤ 65547) : (csumPartial l 0).toNat = wordSum l := by
  have hle := wordSum_le l
  rw [csumPartial_toNat, UInt32.toNat_zero, Nat.zero_add]
  omega

/-! ### The pseudo header -/

def addrSum (addr : UInt32) : Nat :=
  addr.toNat / 65536 + addr.toNat % 65536

/-- What the pseudo header adds to the sum. -/
def pseudoSum (src dst : UInt32) (proto : UInt8) (len : Nat) : Nat :=
  addrSum src + addrSum dst + proto.toNat + len

/-- The pseudo header in bytes: addresses, a zero, protocol and length. -/
def pseudoHdr (src dst : UInt32) (proto : UInt8) (l4len : UInt16) : List UInt8 :=
  toBe32 src ++ toBe32 dst ++ [0, proto] ++ toBe16 l4len

theorem pseudoHdr_length (src dst : UInt32) (proto : UInt8) (l4len : UInt16) :
    (pseudoHdr src dst proto l4len).length = 12 := rfl

theorem addrSum_lt (addr : UInt32) : addrSum addr < 131072 := by
  have h := addr.toNat_lt
  unfold addrSum
  omega

theorem pseudoSum_lt (src dst : UInt32) (proto : UInt8) (l4len : UInt16) :
    pseudoSum src dst proto l4len.toNat < 327936 := by
  have hsrc := addrSum_lt src
  have hdst := addrSum_lt dst
  have hproto := proto.toNat_lt
  have hlen := l4len.toNat_lt
  unfold pseudoSum
  omega

theorem csumPseudo_toNat (src dst : UInt32) (proto : UInt8) (l4len : UInt16) :
    (csumPseudo src dst proto l4len).toNat = pseudoSum src dst proto l4len.toNat := by
  have hhi (x : UInt32) : (x >>> 16).toNat = x.toNat / 65536 := by
    rw [UInt32.toNat_shiftRight]
    change x.toNat >>> 16 = _
    rw [Nat.shiftRight_eq_div_pow]
  have hlo (x : UInt32) : (x &&& (0xffff : UInt32)).toNat = x.toNat % 65536 := by
    rw [UInt32.toNat_and]
    exact Nat.and_two_pow_sub_one_eq_mod x.toNat 16
  have hsrc := src.toNat_lt
  have hdst := dst.toNat_lt
  have hproto := proto.toNat_lt
  have hl := l4len.toNat_lt
  simp only [csumPseudo, UInt32.toNat_add, hhi, hlo, UInt8.toNat_toUInt32, UInt16.toNat_toUInt32,
    pseudoSum, addrSum]
  omega

theorem csumPartial_pseudo_toNat (src dst : UInt32) (proto : UInt8) (l4len : UInt16)
    {l : List UInt8} (hlen : l.length ≤ 65535) :
    (csumPartial l (csumPseudo src dst proto l4len)).toNat =
      pseudoSum src dst proto l4len.toNat + wordSum l := by
  have hle := wordSum_le l
  have hlt := pseudoSum_lt src dst proto l4len
  rw [csumPartial_toNat, csumPseudo_toNat]
  exact Nat.mod_eq_of_lt (by omega)

theorem toBe32_words (x : UInt32) : wordSum (toBe32 x) = addrSum x := by
  have hbyte (k : UInt32) (n : Nat) (hk : k.toNat % 32 = n) :
      ((x >>> k).toUInt8).toNat = x.toNat / 2 ^ n % 256 := by
    rw [UInt32.toNat_toUInt8, UInt32.toNat_shiftRight, hk, Nat.shiftRight_eq_div_pow]
  have hlow : x.toUInt8.toNat = x.toNat % 256 := UInt32.toNat_toUInt8 x
  have hx := x.toNat_lt
  simp only [toBe32, wordSum]
  rw [hbyte 24 24 rfl, hbyte 16 16 rfl, hbyte 8 8 rfl, hlow, addrSum]
  omega

theorem wordSum_pseudoHdr (src dst : UInt32) (proto : UInt8) (l4len : UInt16) :
    wordSum (pseudoHdr src dst proto l4len) = pseudoSum src dst proto l4len.toNat := by
  have hlen : wordSum (toBe16 l4len) = l4len.toNat := by
    rw [toBe16, wordSum, wordSum, Nat.add_zero, bytes_of_word]
  have hproto : wordSum [0, proto] = proto.toNat := by
    simp only [wordSum, UInt8.toNat_zero, Nat.zero_mul, Nat.zero_add, Nat.add_zero]
  unfold pseudoHdr
  rw [wordSum_append (by simp [toBe32]), wordSum_append (by simp [toBe32]),
    wordSum_append (by simp [toBe32]), toBe32_words, toBe32_words, hproto, hlen, pseudoSum]

/-- `csum_pseudo` is the sum over the pseudo header in bytes. -/
theorem csumPartial_pseudoHdr (src dst : UInt32) (proto : UInt8) (l4len : UInt16) :
    csumPartial (pseudoHdr src dst proto l4len) 0 = csumPseudo src dst proto l4len := by
  have hlen := pseudoHdr_length src dst proto l4len
  apply UInt32.toNat_inj.mp
  rw [csumPartial_zero_toNat (hlen.trans_le (by decide)), wordSum_pseudoHdr, csumPseudo_toNat]

/-! ### Folding -/

/-- Once the carries are gone, further rounds do nothing. -/
theorem csumFoldLoop_stops {fuel : Nat} (h : 2 ≤ fuel) :
    csumFoldLoop fuel sum = csumFoldLoop 2 sum ∧ csumFoldLoop 2 sum >>> 16 = 0 := by
  have hlt := csumFoldLoop_lt sum
  obtain ⟨k, rfl⟩ := Nat.exists_eq_add_of_le h
  constructor
  · apply UInt32.toNat_inj.mp
    rw [csumFoldLoop_toNat, Nat.add_comm, Function.iterate_add_apply, ← csumFoldLoop_toNat]
    exact Function.iterate_fixed (OnesComplement.carry_of_lt hlt) k
  · apply UInt32.toNat_inj.mp
    rw [UInt32.toNat_shiftRight]
    change _ >>> 16 = 0
    rw [Nat.shiftRight_eq_div_pow]
    omega

theorem csumFold_eq_zero_iff : csumFold sum = 0 ↔ 0 < sum.toNat ∧ sum.toNat ≡ 0 [MOD 65535] := by
  constructor
  · intro hzero
    obtain ⟨hmod, hpos⟩ := csumFold_completes sum
    rw [hzero] at hmod hpos
    exact ⟨hpos, hmod⟩
  · rintro ⟨hpos, hmod⟩
    exact csumFold_zero hpos hmod

/-- Sums that agree modulo 65535 fold to the same unless one of them is zero. -/
theorem csumFold_congr {x y : UInt32} (hpos : 0 < x.toNat ↔ 0 < y.toNat)
    (hmod : x.toNat ≡ y.toNat [MOD 65535]) : csumFold x = csumFold y := by
  have hfold : (csumFoldLoop 2 x).toNat = (csumFoldLoop 2 y).toNat := by
    apply OnesComplement.eq_of_modEq (csumFoldLoop_lt x) (csumFoldLoop_lt y)
    · rw [csumFoldLoop_pos, csumFoldLoop_pos, hpos]
    · exact (csumFoldLoop_modEq x).trans (hmod.trans (csumFoldLoop_modEq y).symm)
  apply UInt16.toNat_inj.mp
  rw [csumFold_toNat, csumFold_toNat, hfold]

/-- The fold of a sum of digits is the complement of their one's complement sum. -/
theorem csumFold_eq_onesSum {x : UInt32} {l : List Nat} (hl : ∀ y ∈ l, y < 65536)
    (hx : x.toNat = l.sum) : (csumFold x).toNat = 65535 - OnesComplement.sum 65536 l := by
  have hfold : (csumFoldLoop 2 x).toNat = OnesComplement.sum 65536 l := by
    apply OnesComplement.eq_of_modEq (csumFoldLoop_lt x) (OnesComplement.sum_lt (by decide) hl)
    · rw [csumFoldLoop_pos, OnesComplement.sum_pos (by decide) hl, hx]
    · exact (csumFoldLoop_modEq x).trans (hx ▸ (OnesComplement.sum_modEq (by decide) hl).symm)
  rw [csumFold_toNat, hfold]

/-- A checksum that verifies says that the words add up to a multiple of 65535. -/
theorem inetCsum_eq_zero_iff (hlen : l.length ≤ 65547) :
    inetCsum l = 0 ↔ 0 < wordSum l ∧ wordSum l ≡ 0 [MOD 65535] := by
  rw [inetCsum, csumFold_eq_zero_iff, csumPartial_zero_toNat hlen]

/-- The checksum over data with a zero field, stored in the field, completes the sum. -/
theorem csumFold_putBe16 {k n : Nat} {sum : UInt32} (hk : 2 * k + 1 < l.length)
    (hzero : be16 l (2 * k) = 0)
    (hsum : ∀ m : List UInt8, m.length = l.length → (csumPartial m sum).toNat = n + wordSum m) :
    csumFold (csumPartial (putBe16 l (2 * k) (csumFold (csumPartial l sum))) sum) = 0 := by
  have hput := wordSum_putBe16 l k (csumFold (csumPartial l sum)) hk
  rw [hzero, UInt16.toNat_zero, Nat.add_zero] at hput
  have hcompletes := csumFold_completes (csumPartial l sum)
  rw [hsum l rfl, Nat.add_assoc] at hcompletes
  rw [csumFold_eq_zero_iff, hsum _ (putBe16_length _ _ _), hput]
  exact ⟨hcompletes.2, hcompletes.1⟩

/-- Generation and verification agree. The accumulator does not overflow, the loop of
`csum_fold` ends, and its result is the complement of the one's complement sum of the words;
data may be split at an even offset, and the pseudo header may be given in bytes. The checksum
of a string with a zero field makes the string verify once it is stored in the field. -/
theorem checksum_agrees (src dst : UInt32) (proto : UInt8) (l4len : UInt16) (data : List UInt8)
    (hlen : data.length ≤ 65535) :
    (csumPartial data 0).toNat = wordSum data ∧
    (csumPartial data (csumPseudo src dst proto l4len)).toNat =
      pseudoSum src dst proto l4len.toNat + wordSum data ∧
    (∀ sum fuel, 2 ≤ fuel →
      csumFoldLoop fuel sum = csumFoldLoop 2 sum ∧ csumFoldLoop 2 sum >>> 16 = 0) ∧
    (inetCsum data).toNat = 65535 - OnesComplement.sum 65536 (words data) ∧
    (csumFold (csumPartial data (csumPseudo src dst proto l4len))).toNat =
      65535 - OnesComplement.sum 65536 (words (pseudoHdr src dst proto l4len ++ data)) ∧
    (∀ k sum, 2 * k ≤ data.length →
      csumPartial (data.drop (2 * k)) (csumPartial (data.take (2 * k)) sum) =
        csumPartial data sum) ∧
    csumPartial (pseudoHdr src dst proto l4len ++ data) 0 =
      csumPartial data (csumPseudo src dst proto l4len) ∧
    ∀ k, 2 * k + 1 < data.length → be16 data (2 * k) = 0 →
      inetCsum (putBe16 data (2 * k) (inetCsum data)) = 0 ∧
      csumFold (csumPartial
        (putBe16 data (2 * k) (csumFold (csumPartial data (csumPseudo src dst proto l4len))))
        (csumPseudo src dst proto l4len)) = 0 := by
  have hplain : (csumPartial data 0).toNat = wordSum data := csumPartial_zero_toNat (by omega)
  have hpseudo := csumPartial_pseudo_toNat src dst proto l4len hlen
  have hhdr : (pseudoHdr src dst proto l4len).length % 2 = 0 := by rw [pseudoHdr_length]
  have hbytes : csumPartial (pseudoHdr src dst proto l4len ++ data) 0 =
      csumPartial data (csumPseudo src dst proto l4len) := by
    rw [csumPartial_append hhdr, csumPartial_pseudoHdr]
  refine ⟨hplain, hpseudo, fun sum fuel h => csumFoldLoop_stops sum h, ?_, ?_, ?_, hbytes, ?_⟩
  · exact csumFold_eq_onesSum (words_lt data) (hplain.trans (sum_words data).symm)
  · refine csumFold_eq_onesSum (words_lt _) ?_
    rw [hpseudo, sum_words, wordSum_append hhdr, wordSum_pseudoHdr]
  · intro k sum hk
    have htake : (data.take (2 * k)).length % 2 = 0 := by
      rw [List.length_take, Nat.min_eq_left hk]
      exact Nat.mul_mod_right 2 k
    rw [← csumPartial_append htake, List.take_append_drop]
  · intro k hk hzero
    constructor
    · refine csumFold_putBe16 (n := 0) hk hzero fun m hm => ?_
      rw [csumPartial_zero_toNat (by omega), Nat.zero_add]
    · exact csumFold_putBe16 hk hzero fun m hm =>
        csumPartial_pseudo_toNat src dst proto l4len (by omega)

/-- A segment of five bytes whose first word is the field. -/
theorem checksum_agrees_five_bytes :
    [0, 0, 1, 2, 3].length ≤ 65535 ∧
      (inetCsum [0, 0, 1, 2, 3]).toNat = 65535 - OnesComplement.sum 65536 (words [0, 0, 1, 2, 3]) ∧
      words [0, 0, 1, 2, 3] = [0, 258, 768] ∧
      inetCsum (putBe16 [0, 0, 1, 2, 3] 0 (inetCsum [0, 0, 1, 2, 3])) = 0 := by
  have h := checksum_agrees 0 0 17 5 [0, 0, 1, 2, 3] (by decide)
  exact ⟨by decide, h.2.2.2.1, by decide, (h.2.2.2.2.2.2.2 0 (by decide) (by decide)).1⟩

/-! ### The incremental update -/

/-- A word is at most the sum of all. -/
theorem be16_le_wordSum {k : Nat} (hk : 2 * k + 1 < l.length) :
    (be16 l (2 * k)).toNat ≤ wordSum l := by
  have hclear := wordSum_putBe16 l k 0 hk
  rw [UInt16.toNat_zero, Nat.add_zero] at hclear
  exact hclear ▸ Nat.le_add_left _ _

theorem csumUpdate16_sum (hc m m' : UInt16) :
    ((~~~hc).toUInt32 + (~~~m).toUInt32 + m'.toUInt32).toNat =
      (65535 - hc.toNat) + (65535 - m.toNat) + m'.toNat := by
  have hnot (x : UInt16) : (~~~x).toUInt32.toNat = 65535 - x.toNat := by
    rw [UInt16.toNat_toUInt32, UInt16.toNat_not]
    rfl
  have hlt := m'.toNat_lt
  rw [UInt32.toNat_add, UInt32.toNat_add, hnot, hnot, UInt16.toNat_toUInt32]
  omega

/-- Equation 3 of RFC 1624: the new checksum makes up for the old one and the
change of the word, also where one of them is 0 or 0xffff. -/
theorem csumUpdate16_completes (hc m m' : UInt16) :
    (65535 - hc.toNat) + (65535 - m.toNat) + m'.toNat + (csumUpdate16 hc m m').toNat ≡
      0 [MOD 65535] := by
  have hcompletes :=
    (csumFold_completes ((~~~hc).toUInt32 + (~~~m).toUInt32 + m'.toUInt32)).1
  rw [csumUpdate16_sum] at hcompletes
  exact hcompletes

/-- The incremental update is the recomputation: where the buffer verified and the new word is
not zero, it gives the checksum of the changed buffer, which verifies again with it. -/
theorem csumUpdate16_eq_recompute (l : List UInt8) (hlen : l.length ≤ 60) (k j : Nat)
    (hk : 2 * k + 1 < l.length) (hj : 2 * j + 1 < l.length) (hne : j ≠ k) (h : inetCsum l = 0)
    (m' : UInt16) (hm' : m' ≠ 0) :
    csumUpdate16 (be16 l (2 * k)) (be16 l (2 * j)) m' =
      inetCsum (putBe16 (putBe16 l (2 * j) m') (2 * k) 0) ∧
    inetCsum (putBe16 (putBe16 l (2 * j) m') (2 * k)
      (csumUpdate16 (be16 l (2 * k)) (be16 l (2 * j)) m')) = 0 := by
  have hk' : 2 * k + 1 < (putBe16 l (2 * j) m').length := by
    rw [putBe16_length]
    exact hk
  have hfield : be16 (putBe16 l (2 * j) m') (2 * k) = be16 l (2 * k) :=
    be16_putBe16_other (by omega)
  -- the words of the buffer, of the changed buffer and of the one without checksum
  have hchange := wordSum_putBe16 l j m' hj
  have hclear := wordSum_putBe16 (putBe16 l (2 * j) m') k 0 hk'
  rw [hfield, UInt16.toNat_zero, Nat.add_zero] at hclear
  have hold := ((inetCsum_eq_zero_iff (by omega)).mp h).2
  have hpos : 0 < m'.toNat := Nat.pos_of_ne_zero fun hz => hm' (UInt16.toNat_inj.mp hz)
  have hcsum := (be16 l (2 * k)).toNat_lt
  have hword := (be16 l (2 * j)).toNat_lt
  have hsum : (csumPartial (putBe16 (putBe16 l (2 * j) m') (2 * k) 0) 0).toNat =
      wordSum (putBe16 (putBe16 l (2 * j) m') (2 * k) 0) :=
    csumPartial_zero_toNat (by rw [putBe16_length, putBe16_length]; omega)
  have hnonzero : 0 < wordSum (putBe16 (putBe16 l (2 * j) m') (2 * k) 0) := by
    have hnew : be16 (putBe16 (putBe16 l (2 * j) m') (2 * k) 0) (2 * j) = m' := by
      rw [be16_putBe16_other (by omega), be16_putBe16 hj]
    have hle := be16_le_wordSum (l := putBe16 (putBe16 l (2 * j) m') (2 * k) 0) (k := j)
      (by rw [putBe16_length, putBe16_length]; exact hj)
    rw [hnew] at hle
    omega
  have heq : csumUpdate16 (be16 l (2 * k)) (be16 l (2 * j)) m' =
      inetCsum (putBe16 (putBe16 l (2 * j) m') (2 * k) 0) := by
    apply csumFold_congr
    · rw [csumUpdate16_sum, hsum]
      omega
    · rw [csumUpdate16_sum, hsum]
      unfold Nat.ModEq at hold ⊢
      omega
  refine ⟨heq, ?_⟩
  have hzero : be16 (putBe16 (putBe16 l (2 * j) m') (2 * k) 0) (2 * k) = 0 := be16_putBe16 hk'
  have hplain (m : List UInt8)
      (hm : m.length = (putBe16 (putBe16 l (2 * j) m') (2 * k) 0).length) :
      (csumPartial m 0).toNat = 0 + wordSum m := by
    rw [putBe16_length, putBe16_length] at hm
    rw [csumPartial_zero_toNat (by omega), Nat.zero_add]
  have hroom : 2 * k + 1 < (putBe16 (putBe16 l (2 * j) m') (2 * k) 0).length := by
    rw [putBe16_length]
    exact hk'
  have hverify := csumFold_putBe16 hroom hzero hplain
  rw [putBe16_putBe16] at hverify
  rw [heq]
  exact hverify

/-- The words 0xffff and a checksum of 0, where the first word becomes 1. -/
theorem csumUpdate16_eq_recompute_zero :
    inetCsum [0xff, 0xff, 0, 0] = 0 ∧
      csumUpdate16 0 0xffff 1 = inetCsum [0, 1, 0, 0] ∧ csumUpdate16 0 0xffff 1 = 0xfffe ∧
      inetCsum [0, 1, 0xff, 0xfe] = 0 := by
  have h := csumUpdate16_eq_recompute [0xff, 0xff, 0, 0] (by decide) 1 0 (by decide) (by decide)
    (by decide) (by decide) 1 (by decide)
  exact ⟨by decide, h.1, by decide, h.2⟩

end PacketForge
