import PacketForge.Arp.Book
import PacketForge.Stack.Wire

/-!
Fragmentation by the sender. `ip_output` cuts a payload that does not fit the
MTU into datagrams, and hands each to the link as soon as it is made. The
fragments tile the payload, and a receiver finds in every one the same key, its
offset and whether more are to come.
-/

namespace PacketForge

open Checked

/-! ### The link -/

/-- The end of `ip_output_one`: the datagram is broadcast, or goes to the next hop. -/
def linkOutput (s : Stack) (now : Nat) (dev : DevIdx) (nextHop dst : UInt32) (q : Pkt) :
    Except Fault Stack :=
  if (s.devs dev).broadcasts dst then s.putArp <$> s.arp.ethOutput s.devs dev ethBcast ethTypeIp4 q
  else arpOutput s now dev nextHop q

section Link

variable {p : Pkt} (devs : Devs) (now : Nat) (dev : DevIdx)

theorem ethOutput_total (a : Arp) (dst : Mac) (type : UInt16) (hp : ethHdrLen ≤ p.head) :
    Post (fun _ => False) (fun _ => True) (a.ethOutput devs dev dst type p) := by
  unfold Arp.ethOutput
  rw [ethFrame_eq, if_pos hp]
  trivial

theorem arpSendRequest_total (a : Arp) (ip : UInt32) :
    Post (fun _ => False) (fun _ => True) (arpSendRequest devs dev ip a) := by
  refine Post.bind (pktTx_post (by rw [arpBytes_length]; decide) _) fun p hp => ?_
  have hroom : ethHdrLen ≤ p.head := hp.1 ▸ by decide
  exact Post.bind (ethOutput_total devs dev _ _ _ hroom) fun _ _ => trivial

/-- A packet that is to be resolved waits; none of those that wait is sent. -/
theorem arpResolve_total (a : Arp) (nextHop : UInt32) (p : Option Pkt) :
    Post (fun _ => False) (fun _ => True) (arpResolve devs now dev nextHop p a) := by
  unfold arpResolve
  split
  · simp only
    split
    · trivial
    · trivial
  · unfold arpOpen
    simp only [bind_assoc]
    exact Post.bind (arpSendRequest_total devs dev _ _) fun _ _ => trivial

theorem linkOutput_total (s : Stack) (nextHop dst : UInt32) (hp : ethHdrLen ≤ p.head) :
    Post (fun _ => False) (fun _ => True) (linkOutput s now dev nextHop dst p) := by
  unfold linkOutput
  split
  · exact Post.bind (ethOutput_total _ dev _ _ _ hp) fun _ _ => trivial
  refine Post.bind (arpResolve_total _ now dev _ _ _) fun r _ => ?_
  obtain ⟨a, mac⟩ := r
  cases mac with
  | none => trivial
  | some mac => exact Post.bind (ethOutput_total _ dev _ _ _ hp) fun _ _ => trivial

end Link

/-! ### One fragment -/

/-- What every fragment has: the key and a header that verifies, in a datagram that
fits the link. -/
structure FragmentOf (k : ReassKey) (mtu : UInt16) (d : Datagram) : Prop where
  key : d.key = k
  hdrLen : d.hdrLen = ipv4HdrMin
  totalLen : ipTotalLen d.bytes = d.bytes.length
  fits : d.bytes.length ≤ mtu.toNat
  aligned : 8 ∣ d.off
  verifies : inetCsum d.hdr = 0

section Header

variable {d : Datagram} {m : List UInt8} {len : Nat} {id frag : UInt16} {ttl proto : UInt8}
  {src dst : UInt32}

theorem fields_ipv4Hdr (h : d.bytes = ipv4Hdr len id frag ttl proto src dst ++ m) :
    d.key = ⟨src, dst, id, proto⟩ ∧ ipTotalLen d.bytes = len % 65536 ∧ d.frag = frag ∧
      d.hdr = ipv4Hdr len id frag ttl proto src dst := by
  have hcarries := carries_ipv4Hdr h
  have hhdr : d.hdr = ipv4Hdr len id frag ttl proto src dst := by
    rw [Datagram.hdr, Datagram.hdrLen, h, ipHdrLen_ipv4Hdr]
    exact List.take_left' (ipv4Hdr_length len id frag ttl proto src dst)
  unfold ipv4Hdr at h
  simp only at h
  rw [putBe16_append (show 10 + 1 < 20 by decide)] at h
  have hid : be16 d.bytes 4 = id := by
    rw [h, be16_putBe16_other (Or.inl (by decide))]
    exact be16_toBe16 id []
  refine ⟨?_, ?_, ?_, hhdr⟩
  · rw [Datagram.key, ipKey, hid, show be32 d.bytes 12 = src from hcarries.saddr,
      show be32 d.bytes 16 = dst from hcarries.daddr,
      show d.bytes.getD 9 0 = proto from hcarries.proto]
  · rw [ipTotalLen, h, be16_putBe16_other (Or.inl (by decide))]
    exact congrArg UInt16.toNat (be16_toBe16 (UInt16.ofNat len) [])
  · rw [Datagram.frag, h, be16_putBe16_other (Or.inl (by decide))]
    exact be16_toBe16 frag []

theorem inetCsum_ipv4Hdr : inetCsum (ipv4Hdr len id frag ttl proto src dst) = 0 :=
  inetCsum_putBe16 _ 5 (show 11 < 20 by decide) (show 20 ≤ 60 by decide) (be16_toBe16 0 [])

end Header

/-! ### The field of offset and flag -/

section Field

variable (x : UInt16)

theorem offset_with_mf :
    (x &&& ipFragOffmask ||| ipFragMf) &&& ipFragOffmask = x &&& ipFragOffmask := by
  apply UInt16.eq_of_toBitVec_eq
  ext i hi
  interval_cases i <;> simp

theorem flag_with_mf : (x &&& ipFragOffmask ||| ipFragMf) &&& ipFragMf = ipFragMf := by
  apply UInt16.eq_of_toBitVec_eq
  ext i hi
  interval_cases i <;> simp

theorem flag_of_offset : x &&& ipFragOffmask &&& ipFragMf = 0 := by
  rw [UInt16.and_assoc]
  exact UInt16.and_zero

end Field

/-- What a receiver makes of the field of the fragment at an offset. -/
theorem Datagram.off_mf {d : Datagram} {off : Nat} (hoff : off < 65536) (h8 : 8 ∣ off) {last : Prop}
    [Decidable last] (h : d.frag = if last then UInt16.ofNat (off / 8) &&& ipFragOffmask
      else UInt16.ofNat (off / 8) &&& ipFragOffmask ||| ipFragMf) :
    d.off = off ∧ (d.mf = true ↔ ¬ last) := by
  have hunits : (UInt16.ofNat (off / 8) &&& ipFragOffmask).toNat = off / 8 := by
    rw [UInt16.toNat_and]
    change off / 8 % 65536 &&& 2 ^ 13 - 1 = _
    rw [Nat.and_two_pow_sub_one_eq_mod]
    omega
  have hmask : d.frag &&& ipFragOffmask = UInt16.ofNat (off / 8) &&& ipFragOffmask := by
    rw [h]
    split
    · rw [UInt16.and_assoc, UInt16.and_self]
    · exact offset_with_mf _
  constructor
  · rw [Datagram.off, hmask, UInt16.toNat_mul, hunits]
    change off / 8 * 8 % 65536 = off
    omega
  · rw [Datagram.mf, h, decide_eq_true_eq]
    split
    · rename_i hlast
      rw [flag_of_offset]
      exact iff_of_false (absurd rfl) (absurd hlast)
    · rename_i hlast
      rw [flag_with_mf]
      exact iff_of_true (by decide) hlast

theorem toNat_and_not_seven (x : UInt32) : (x &&& ~~~(7 : UInt32)).toNat = x.toNat / 8 * 8 := by
  have h : x &&& ~~~(7 : UInt32) = x >>> 3 <<< 3 := by
    apply UInt32.eq_of_toBitVec_eq
    ext i hi
    interval_cases i <;> simp
  have hx := x.toNat_lt
  rw [h, UInt32.toNat_shiftLeft, UInt32.toNat_shiftRight]
  change x.toNat >>> 3 <<< 3 % 2 ^ 32 = _
  rw [Nat.shiftLeft_eq, Nat.shiftRight_eq_div_pow]
  omega

theorem maxChunk_eq {d : NetDev} (h : 20 ≤ d.mtu.toNat) :
    maxChunk d = (d.mtu.toNat - 20) / 8 * 8 := by
  have hlt := d.mtu.toNat_lt
  have hle : (20 : UInt32) ≤ d.mtu.toUInt32 := UInt32.le_iff_toNat_le.mpr h
  rw [maxChunk, UInt32.toNat_toUInt16, toNat_and_not_seven, UInt32.toNat_sub_of_le _ _ hle,
    UInt16.toNat_toUInt32]
  change (d.mtu.toNat - 20) / 8 * 8 % 65536 = _
  omega

/-! ### The loop -/

/-- The fragments carry a payload from an offset on, in order and to its end. -/
def Tiles (payload : List UInt8) : Nat → List Datagram → Prop
  | off, [] => off = payload.length
  | off, d :: ds => d.off = off ∧ 0 < d.paylen ∧ d.payload = (payload.drop off).take d.paylen ∧
      (d.mf = true ↔ ds ≠ []) ∧ Tiles payload d.stop ds

section Loop

variable (now : Nat) (dev : DevIdx) (nextHop src dst : UInt32) (proto ttl : UInt8) (id : UInt16)

/-- A fragment on its way to the link. -/
def fragOutput (s : Stack) (f : IpPkt) : Except Fault Stack :=
  linkOutput ((s.count .ipTxFrags).count .ipTx) now dev nextHop dst f.pkt

variable {payload : List UInt8} {chunk : Nat} {mtu : UInt16}

/-- One round of the loop makes a fragment and hands it out. -/
theorem ipFragLoop_round (hpayload : payload.length ≤ 3976) (hmtu : chunk + 20 ≤ mtu.toNat)
    (hbuf : chunk ≤ 3968) {off : Nat} (hoff : off < payload.length) (hoff8 : 8 ∣ off) :
    ∃ f : IpPkt, ethHdrLen ≤ f.pkt.head ∧ FragmentOf ⟨src, dst, id, proto⟩ mtu f.datagram ∧
      f.datagram.off = off ∧ f.datagram.paylen = min chunk (payload.length - off) ∧
      f.datagram.payload = (payload.drop off).take f.datagram.paylen ∧
      (f.datagram.mf = true ↔ f.datagram.stop ≠ payload.length) ∧
      ∀ fuel s, ipFragLoop (fun s => ipOutputOne s now dev nextHop src dst proto ttl id) payload
        chunk (fuel + 1) off s = fragOutput now dev nextHop dst s f >>=
          ipFragLoop (fun s => ipOutputOne s now dev nextHop src dst proto ttl id) payload chunk
            fuel f.datagram.stop := by
  let n := min chunk (payload.length - off)
  let field := UInt16.ofNat (off / 8) &&& ipFragOffmask
  let frag := if off + n = payload.length then field else field ||| ipFragMf
  have hlen : ((payload.drop off).take n).length = n := by
    rw [List.length_take, List.length_drop]
    exact Nat.min_eq_left (Nat.min_le_right _ _)
  have hfits : ((payload.drop off).take n).length ≤ pktBufSize - pktTxHeadroom :=
    hlen.trans_le ((Nat.min_le_left _ _).trans hbuf)
  obtain ⟨fp, hfp, hhead, hdata⟩ := (pktTx_post hfits fun _ => False).exists_ok
  have hroom : ipv4HdrMin ≤ fp.head := hhead ▸ by decide
  obtain ⟨f, hf, hfhead, hbytes⟩ :=
    pktPush_ipv4Hdr hroom (fp.len + ipv4HdrMin) id frag ttl proto src dst
  obtain ⟨hkey, htotal, hfrag, hhdr⟩ := fields_ipv4Hdr hbytes
  have hpay : f.datagram.payload = (payload.drop off).take n :=
    (carries_ipv4Hdr hbytes).payload.trans hdata
  have hpaylen : f.datagram.paylen = n := by rw [Datagram.paylen, hpay, hlen]
  have hsize : f.datagram.bytes.length = n + 20 := by
    rw [hbytes, List.length_append, ipv4Hdr_length, hdata, hlen, Nat.add_comm]
  have hn : n ≤ chunk := Nat.min_le_left _ _
  obtain ⟨hfoff, hmf⟩ := f.datagram.off_mf (by omega) hoff8 hfrag
  have hstop : f.datagram.stop = off + n := by rw [Datagram.stop, hfoff, hpaylen]
  have hsend (s : Stack) : ipOutputOne s now dev nextHop src dst proto ttl id frag fp =
      linkOutput (s.count .ipTx) now dev nextHop dst f.pkt := by
    rw [ipOutputOne, hf]
    rfl
  refine ⟨f, ?_, ⟨hkey, ?_, ?_, ?_, ?_, ?_⟩, hfoff, hpaylen, hpaylen.symm ▸ hpay, ?_, ?_⟩
  · rw [hfhead, hhead]
    decide
  · rw [Datagram.hdrLen, hbytes, ipHdrLen_ipv4Hdr]
  · rw [htotal, hsize, Pkt.len, hdata, hlen]
    exact Nat.mod_eq_of_lt (show n + 20 < 65536 by omega)
  · omega
  · exact hfoff.symm ▸ hoff8
  · rw [hhdr, inetCsum_ipv4Hdr]
  · rw [hstop]
    exact hmf
  · intro fuel s
    rw [ipFragLoop, if_pos hoff, hstop]
    simp only
    rw [hfp, ok_bind]
    exact congrArg (· >>= _) (hsend (s.count .ipTxFrags))

/-- The loop sends every byte, whatever the link does with the fragments. -/
theorem ipFragLoop_tiles (hpayload : payload.length ≤ 3976) (h8 : 8 ∣ chunk) (hpos : 0 < chunk)
    (hmtu : chunk + 20 ≤ mtu.toNat) (hbuf : chunk ≤ 3968)
    (fuel : Nat) {off : Nat} (hoff : off ≤ payload.length) (hfuel : payload.length ≤ off + fuel)
    (hoff8 : off = payload.length ∨ 8 ∣ off) (s : Stack) :
    ∃ (fs : List IpPkt) (s' : Stack),
      ipFragLoop (fun s => ipOutputOne s now dev nextHop src dst proto ttl id) payload chunk fuel
        off s = .ok s' ∧
      fs.foldlM (fragOutput now dev nextHop dst) s = .ok s' ∧
      (∀ f ∈ fs, FragmentOf ⟨src, dst, id, proto⟩ mtu f.datagram) ∧
      Tiles payload off (fs.map IpPkt.datagram) ∧ (fs = [] ↔ off = payload.length) := by
  induction fuel generalizing off s with
  | zero =>
    have hend : off = payload.length := by omega
    refine ⟨[], s, ?_, rfl, nofun, hend, iff_of_true rfl hend⟩
    rw [ipFragLoop, if_neg (by omega)]
  | succ fuel ih =>
    rcases hoff8 with hend | hoff8
    · refine ⟨[], s, ?_, rfl, nofun, hend, iff_of_true rfl hend⟩
      rw [ipFragLoop, if_neg (by omega)]
    rcases hoff.eq_or_lt with hend | hlt
    · refine ⟨[], s, ?_, rfl, nofun, hend, iff_of_true rfl hend⟩
      rw [ipFragLoop, if_neg (by omega)]
    obtain ⟨f, hroom, hfrag, hfoff, hlen, hpay, hmf, hround⟩ :=
      ipFragLoop_round now dev nextHop src dst proto ttl id hpayload hmtu hbuf hlt hoff8
    have hstop : f.datagram.stop = off + min chunk (payload.length - off) := by
      rw [Datagram.stop, hfoff, hlen]
    obtain ⟨t, ht, -⟩ :=
      (linkOutput_total now dev ((s.count .ipTxFrags).count .ipTx) nextHop dst hroom).exists_ok
    obtain ⟨fs, s', hloop, hfold, hfs, htiles, hnil⟩ :=
      ih (show f.datagram.stop ≤ payload.length by omega) (by omega) (by omega) t
    refine ⟨f :: fs, s', ?_, ?_, ?_, ?_, ?_⟩
    · rw [hround, fragOutput, ht, ok_bind, hloop]
    · rw [List.foldlM_cons, fragOutput, ht, ok_bind, hfold]
    · exact List.forall_mem_cons.mpr ⟨hfrag, hfs⟩
    · refine ⟨hfoff, ?_, hpay, ?_, htiles⟩
      · omega
      · rw [hmf, ne_eq, ne_eq, List.map_eq_nil_iff, hnil]
    · exact iff_of_false (List.cons_ne_nil _ _) hlt.ne

end Loop

/-- A payload that does not fit the link leaves in fragments: `ip_output` returns, and
has handed the link datagrams under one key, none longer than the MTU, whose headers
verify and whose payloads tile the one it was given. No caller gives it more than 3976
bytes. -/
theorem fragments_tile {s : Stack} {dev : DevIdx} {src dst nextHop : UInt32} {p : Pkt}
    (hroute : ipRouteLookup s dst = some (dev, nextHop)) (hself : dst ≠ (s.devs dev).ip)
    (hle : p.len ≤ 3976) (hmtu : 28 ≤ (s.devs dev).mtu.toNat)
    (hbig : (s.devs dev).mtu.toNat < p.len + 20) (now : Nat) (proto ttl : UInt8) :
    ∃ (fs : List IpPkt) (s' : Stack),
      ipOutput s now src dst proto ttl p = .ok s' ∧
      fs.foldlM (fragOutput now dev nextHop dst) { s with ipId := s.ipId + 1 } = .ok s' ∧
      (∀ f ∈ fs, FragmentOf ⟨if src = 0 then (s.devs dev).ip else src, dst, s.ipId, proto⟩
        (s.devs dev).mtu f.datagram) ∧
      Tiles p.data 0 (fs.map IpPkt.datagram) := by
  have hchunk := maxChunk_eq (d := s.devs dev) (by omega)
  have hlen : p.len = p.data.length := rfl
  have hwide : ¬ p.len + ipv4HdrMin ≤ (s.devs dev).mtu.toNat := Nat.not_le_of_lt hbig
  obtain ⟨fs, s', hloop, hfold, hfs, htiles, -⟩ :=
    ipFragLoop_tiles now dev nextHop (if src = 0 then (s.devs dev).ip else src) dst proto ttl s.ipId
      hle (by omega) (by omega) (show maxChunk (s.devs dev) + 20 ≤ (s.devs dev).mtu.toNat by omega)
      (by omega) p.len (Nat.zero_le _) (by omega) (Or.inr (by omega)) { s with ipId := s.ipId + 1 }
  refine ⟨fs, s', ?_, hfold, hfs, htiles⟩
  rw [ipOutput, hroute]
  simp only
  rw [if_neg hself, if_neg hwide]
  exact hloop

/-- The least MTU that the loop can work with. -/
def slimStack : Stack := pfStackInit (fun _ => { lanDevs lanDev with mtu := 28 }) 1 false lanFib.fib

theorem ninePkt_fits :
    pktTxHeadroom + ([1, 2, 3, 4, 5, 6, 7, 8, 9] : List UInt8).length ≤ pktBufSize := by
  decide

def ninePkt : Pkt := ⟨pktTxHeadroom, [1, 2, 3, 4, 5, 6, 7, 8, 9], ninePkt_fits⟩

theorem fragments_tile_nine :
    ipRouteLookup slimStack 0x0a000002 = some (lanDev, 0x0a000002) ∧
      ∃ (fs : List IpPkt) (s' : Stack),
        ipOutput slimStack 0 0 0x0a000002 ipProtoUdp ipDefaultTtl ninePkt = .ok s' ∧
        fs.foldlM (fragOutput 0 lanDev 0x0a000002 0x0a000002)
          { slimStack with ipId := slimStack.ipId + 1 } = .ok s' ∧
        (∀ f ∈ fs, FragmentOf ⟨0x0a000001, 0x0a000002, 0, ipProtoUdp⟩ 28 f.datagram) ∧
        Tiles ninePkt.data 0 (fs.map IpPkt.datagram) := by
  have hroute : ipRouteLookup slimStack 0x0a000002 = some (lanDev, 0x0a000002) := by decide
  have hself : (0x0a000002 : UInt32) ≠ (slimStack.devs lanDev).ip := by decide
  exact ⟨hroute, fragments_tile hroute hself (by decide) (by decide) (by decide) 0 _ _⟩

end PacketForge
