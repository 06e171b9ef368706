import PacketForge.Ipv4.ChecksumLaws
import PacketForge.Stack.Action

/-!
What is written into a packet and read back at the other end: numbers in network
order, the checksum under the pseudo header, and the IP header.
-/

namespace PacketForge

open Checked

/-! ### Numbers in network order -/

theorem be16_toBe16 (x : UInt16) (l : List UInt8) : be16 (toBe16 x ++ l) 0 = x := by
  apply UInt16.toNat_inj.mp
  rw [be16_toNat]
  exact bytes_of_word x

theorem be32_toNat (l : List UInt8) (i : Nat) :
    (be32 l i).toNat = (be16 l i).toNat * 65536 + (be16 l (i + 2)).toNat := by
  have hhi := (be16 l i).toNat_lt
  have hlo := (be16 l (i + 2)).toNat_lt
  have hshift : ((be16 l i).toUInt32 <<< 16).toNat = (be16 l i).toNat <<< 16 := by
    rw [UInt32.toNat_shiftLeft, UInt16.toNat_toUInt32]
    change ((be16 l i).toNat <<< 16) % 2 ^ 32 = _
    rw [Nat.shiftLeft_eq]
    omega
  rw [be32, UInt32.toNat_or, hshift, UInt16.toNat_toUInt32, ← Nat.shiftLeft_add_eq_or_of_lt hlo,
    Nat.shiftLeft_eq]

theorem be32_toBe32 (x : UInt32) (l : List UInt8) : be32 (toBe32 x ++ l) 0 = x := by
  have hx := x.toNat_lt
  have hbyte (k : UInt32) (n : Nat) (hk : k.toNat % 32 = n) :
      ((x >>> k).toUInt8).toNat = x.toNat / 2 ^ n % 256 := by
    rw [UInt32.toNat_toUInt8, UInt32.toNat_shiftRight, hk, Nat.shiftRight_eq_div_pow]
  have hlow : x.toUInt8.toNat = x.toNat % 256 := UInt32.toNat_toUInt8 x
  apply UInt32.toNat_inj.mp
  rw [be32_toNat, be16_toNat, be16_toNat]
  change ((x >>> 24).toUInt8.toNat * 256 + (x >>> 16).toUInt8.toNat) * 65536 +
    ((x >>> 8).toUInt8.toNat * 256 + x.toUInt8.toNat) = x.toNat
  rw [hbyte 24 24 rfl, hbyte 16 16 rfl, hbyte 8 8 rfl, hlow]
  omega

/-! ### The checksum under the pseudo header -/

theorem l4Sum_toNat (src dst : UInt32) (proto : UInt8) {seg : List UInt8}
    (hlen : seg.length ≤ 4096) :
    (csumPartial seg (csumPseudo src dst proto (UInt16.ofNat seg.length))).toNat =
      pseudoSum src dst proto seg.length + wordSum seg := by
  have hl : (UInt16.ofNat seg.length).toNat = seg.length :=
    UInt16.toNat_ofNat_of_lt' (Nat.lt_of_le_of_lt hlen (by decide))
  rw [csumPartial_pseudo_toNat _ _ _ _ (hlen.trans (by decide)), hl]

/-- A segment whose checksum field holds `x`, which is the checksum for `src` up to the
two zeros of one's complement, passes the test of a receiver that sees `src'` if the
words of the two addresses add up to the same. -/
theorem l4Csum_putBe16 (src src' dst : UInt32) (proto : UInt8) (hproto : proto ≠ 0)
    {seg : List UInt8} {k : Nat} (hk : 2 * k + 1 < seg.length) (hlen : seg.length ≤ 4096)
    (hzero : be16 seg (2 * k) = 0) {x : UInt16}
    (hx : x.toNat ≡ (l4Csum src dst proto seg).toNat [MOD 65535]) :
    l4Csum src' dst proto (putBe16 seg (2 * k) x) = 0 ↔
      addrSum src' ≡ addrSum src [MOD 65535] := by
  have hput := wordSum_putBe16 seg k x hk
  rw [hzero] at hput
  change _ + 0 = _ at hput
  have hlen' : (putBe16 seg (2 * k) x).length = seg.length := putBe16_length _ _ _
  have hsum : (csumPartial (putBe16 seg (2 * k) x) (csumPseudo src' dst proto
      (UInt16.ofNat (putBe16 seg (2 * k) x).length))).toNat =
      pseudoSum src' dst proto seg.length + wordSum seg + x.toNat := by
    rw [l4Sum_toNat src' dst proto (hlen'.trans_le hlen), hlen']
    omega
  have hpos : 0 < proto.toNat := Nat.pos_of_ne_zero fun h => hproto (UInt8.toNat_inj.mp h)
  obtain ⟨hmod, -⟩ := csumFold_completes
    (csumPartial seg (csumPseudo src dst proto (UInt16.ofNat seg.length)))
  rw [l4Sum_toNat src dst proto hlen] at hmod
  have hgood : pseudoSum src dst proto seg.length + wordSum seg + x.toNat ≡ 0 [MOD 65535] :=
    (hx.add_left _).trans hmod
  rw [l4Csum, csumFold_eq_zero_iff, hsum]
  unfold pseudoSum Nat.ModEq at *
  omega

/-! ### The IP header -/

/-- The datagram has these addresses and this protocol in its header, and the message
behind it. -/
structure Datagram.Carries (d : Datagram) (src dst : UInt32) (proto : UInt8) (m : List UInt8) :
    Prop where
  saddr : ipSaddr d.bytes = src
  daddr : ipDaddr d.bytes = dst
  proto : ipProto d.bytes = proto
  payload : d.payload = m

section Header

variable {l m : List UInt8} {i j : Nat} {x : UInt16}

theorem putBe16_append (h : i + 1 < l.length) : putBe16 l i x ++ m = putBe16 (l ++ m) i x := by
  have hi : i < l.length := Nat.lt_of_succ_lt h
  have hset : i + 1 < (l.set i (x >>> 8).toUInt8).length := by rwa [List.length_set]
  rw [putBe16, putBe16, List.set_append_left _ _ hi, List.set_append_left _ _ hset]

theorem be32_putBe16_other (h : j + 3 < i ∨ i + 1 < j) : be32 (putBe16 l i x) j = be32 l j := by
  unfold be32
  rw [be16_putBe16_other (by omega), be16_putBe16_other (by omega)]

variable {d : Datagram} {len : Nat} {id frag : UInt16} {ttl proto : UInt8} {src dst : UInt32}

theorem ipHdrLen_ipv4Hdr : ipHdrLen (ipv4Hdr len id frag ttl proto src dst ++ m) = ipv4HdrMin := by
  unfold ipv4Hdr
  simp only
  rw [putBe16_append (show 10 + 1 < 20 by decide), ipHdrLen_putBe16 (by decide)]
  change ipHdrLen [0x45] = ipv4HdrMin
  decide

theorem carries_ipv4Hdr (h : d.bytes = ipv4Hdr len id frag ttl proto src dst ++ m) :
    d.Carries src dst proto m := by
  have hlen := ipv4Hdr_length len id frag ttl proto src dst
  have hpayload : d.payload = m := by
    rw [Datagram.payload, Datagram.hdrLen, h, ipHdrLen_ipv4Hdr]
    exact List.drop_left' hlen
  unfold ipv4Hdr at h
  simp only at h
  rw [putBe16_append (show 10 + 1 < 20 by decide)] at h
  refine ⟨?_, ?_, ?_, hpayload⟩
  · rw [ipSaddr, h, be32_putBe16_other (Or.inr (by decide))]
    exact be32_toBe32 src []
  · rw [ipDaddr, h, be32_putBe16_other (Or.inr (by decide))]
    exact be32_toBe32 dst []
  · rw [ipProto, h, getD_putBe16 (by decide) (by decide)]
    rfl

theorem pktPush_ipv4Hdr {p : Pkt} (hp : ipv4HdrMin ≤ p.head) (len : Nat) (id frag : UInt16)
    (ttl proto : UInt8) (src dst : UInt32) :
    ∃ x : IpPkt, pktPush p (ipv4Hdr len id frag ttl proto src dst) = .ok x.pkt ∧
      x.pkt.head = p.head - ipv4HdrMin ∧
      x.datagram.bytes = ipv4Hdr len id frag ttl proto src dst ++ p.data := by
  have hlen := ipv4Hdr_length len id frag ttl proto src dst
  obtain ⟨q, hq, hhead, hdata⟩ := (pktPush_post (hlen.trans_le hp) fun _ => False).exists_ok
  have hihl : ipHdrLen q.data = ipv4HdrMin := by
    rw [hdata]
    exact ipHdrLen_ipv4Hdr
  have hle : ipHdrLen q.data ≤ q.len := by
    rw [hihl, Pkt.len, hdata, List.length_append, hlen]
    exact Nat.le_add_right _ _
  exact ⟨⟨q, hihl.ge, hle⟩, hq, hhead.trans (congrArg _ hlen), hdata⟩

theorem pktPush_carries {p : Pkt} (hp : ipv4HdrMin ≤ p.head) (len : Nat) (id frag : UInt16)
    (ttl proto : UInt8) (src dst : UInt32) :
    ∃ x : IpPkt, pktPush p (ipv4Hdr len id frag ttl proto src dst) = .ok x.pkt ∧
      x.datagram.Carries src dst proto p.data := by
  obtain ⟨x, hx, -, hbytes⟩ := pktPush_ipv4Hdr hp len id frag ttl proto src dst
  exact ⟨x, hx, carries_ipv4Hdr hbytes⟩

end Header

end PacketForge
