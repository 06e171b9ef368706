import PacketForge.Host.Connect
import PacketForge.Stack.Segments
import PacketForge.Stack.Sockets
import PacketForge.Stack.Wire

/-!
Encoding and decoding (`udp.c`, `tcp_out.c`, `tcp.c`). What `udp_output` and
`tcp_send_segment` build goes under an IP header, and the input functions of the
peer read it. The checksum covers the source address, which `ip_output` fills in
where the caller has none: `udp_output` asks for it beforehand, and
`tcp_send_segment` does not.
-/

namespace PacketForge

open Checked

/-- The source address that `ip_output` puts into the header. -/
def wireSrc (s : Stack) (src dst : UInt32) : UInt32 :=
  if src = 0 then (routeAddr s dst).getD 0 else src

/-! ### UDP -/

section Udp

/-- The source address that `udp_output` puts under the checksum. -/
def udpSrc (s : Stack) (srcIp dstIp : UInt32) : Option UInt32 :=
  if srcIp = 0 then routeAddr s dstIp else some srcIp

/-- It is the one that `ip_output` puts into the header. -/
theorem wireSrc_udpSrc {s : Stack} {srcIp dstIp src : UInt32}
    (h : udpSrc s srcIp dstIp = some src) : wireSrc s src dstIp = src := by
  unfold udpSrc at h
  unfold wireSrc
  split
  · rename_i hzero
    split at h
    · rw [h]
      rfl
    · rename_i hsrc
      exact absurd ((Option.some.inj h).trans hzero) hsrc
  · rfl

/-- The header of a datagram with the checksum field zero, and the payload. -/
def udpPlain (sport dport : UInt16) (buf : List UInt8) : List UInt8 :=
  toBe16 sport ++ toBe16 dport ++ toBe16 (UInt16.ofNat (buf.length + udpHdrLen)) ++ toBe16 0 ++ buf

/-- The checksum as it is transmitted: all ones for zero. -/
def udpCsum (src dst : UInt32) (seg : List UInt8) : UInt16 :=
  if l4Csum src dst ipProtoUdp seg = 0 then 0xffff else l4Csum src dst ipProtoUdp seg

def udpBytes (src dst : UInt32) (sport dport : UInt16) (buf : List UInt8) : List UInt8 :=
  putBe16 (udpPlain sport dport buf) 6 (udpCsum src dst (udpPlain sport dport buf))

theorem udpCsum_ne_zero (src dst : UInt32) (seg : List UInt8) : udpCsum src dst seg ≠ 0 := by
  unfold udpCsum
  split
  · decide
  · rename_i hne
    exact hne

theorem udpCsum_mod (src dst : UInt32) (seg : List UInt8) :
    (udpCsum src dst seg).toNat ≡ (l4Csum src dst ipProtoUdp seg).toNat [MOD 65535] := by
  unfold udpCsum
  split
  · rename_i hzero
    rw [hzero]
    rfl
  · rfl

variable {src dst : UInt32} {sport dport : UInt16} {buf : List UInt8}

theorem udpPlain_length : (udpPlain sport dport buf).length = buf.length + udpHdrLen := by
  simp only [udpPlain, List.length_append]
  exact Nat.add_comm 8 buf.length

theorem udpBytes_length : (udpBytes src dst sport dport buf).length = buf.length + udpHdrLen := by
  rw [udpBytes, putBe16_length, udpPlain_length]

theorem be16_udpBytes_csum : be16 (udpBytes src dst sport dport buf) 6 ≠ 0 := by
  have hlen : 6 + 1 < (udpPlain sport dport buf).length := by
    rw [udpPlain_length]
    change 7 < buf.length + 8
    omega
  rw [udpBytes, be16_putBe16 hlen]
  exact udpCsum_ne_zero _ _ _

theorem udpOutput_eq {s : Stack} {srcIp : UInt32} {p : Pkt} (hp : pktTxHeadroom ≤ p.head)
    (hsrc : udpSrc s srcIp dst = some src) (now : Nat) (sport dport : UInt16) :
    ∃ q, q.data = udpBytes src dst sport dport p.data ∧ ipv4HdrMin ≤ q.head ∧
      udpOutput s now srcIp sport dst dport p =
        ipOutput (s.count .udpTx) now src dst ipProtoUdp ipDefaultTtl q := by
  let hdr := toBe16 sport ++ toBe16 dport ++ toBe16 (UInt16.ofNat (p.len + udpHdrLen)) ++ toBe16 0
  have hlen : hdr.length = udpHdrLen := rfl
  have hfits : hdr.length ≤ p.head := le_trans (by decide : udpHdrLen ≤ pktTxHeadroom) hp
  obtain ⟨p', hpush, hhead, hdata⟩ := (pktPush_post hfits fun _ => False).exists_ok
  refine ⟨p'.edit (putBe16 p'.data 6 (udpCsum src dst p'.data)) (putBe16_length _ _ _), ?_, ?_, ?_⟩
  · change putBe16 p'.data 6 _ = _
    rw [hdata]
    rfl
  · change 20 ≤ p'.head
    change 128 ≤ p.head at hp
    rw [hhead, hlen]
    change 20 ≤ p.head - 8
    omega
  · unfold udpOutput
    have hroute : (if srcIp = 0 then (ipRouteLookup s dst).map fun r => (s.devs r.1).ip
        else some srcIp) = some src := hsrc
    simp only [hdr] at hpush
    simp only [hpush, ok_bind, hroute]
    rfl

variable {d : Datagram}

theorem be16_udpBytes_len (hbuf : buf.length ≤ pktBufSize - pktTxHeadroom) :
    (be16 (udpBytes src dst sport dport buf) 4).toNat = buf.length + udpHdrLen := by
  have hread :
      be16 (udpBytes src dst sport dport buf) 4 = UInt16.ofNat (buf.length + udpHdrLen) := by
    rw [udpBytes, be16_putBe16_other (Or.inl (by decide))]
    exact be16_toBe16 _ []
  rw [hread]
  refine UInt16.toNat_ofNat_of_lt' ?_
  change buf.length ≤ 3968 at hbuf
  change buf.length + 8 < 65536
  omega

theorem Datagram.Carries.udpAccepts (hbuf : buf.length ≤ pktBufSize - pktTxHeadroom)
    (hd : d.Carries src dst ipProtoUdp (udpBytes src dst sport dport buf)) : UdpAccepts d := by
  have hlen : (be16 d.payload 4).toNat = d.payload.length := by
    rw [hd.payload, be16_udpBytes_len hbuf, udpBytes_length]
  have hmin : udpHdrLen ≤ d.payload.length := by
    rw [hd.payload, udpBytes_length]
    exact Nat.le_add_left _ _
  refine ⟨hmin, hlen ▸ hmin, le_of_eq hlen, Or.inr ?_⟩
  rw [hlen, List.take_length, hd.saddr, hd.daddr, hd.payload]
  have hplain : (udpPlain sport dport buf).length = buf.length + 8 := udpPlain_length
  have hzero : be16 (udpPlain sport dport buf) (2 * 3) = 0 := be16_toBe16 0 []
  change buf.length ≤ 3968 at hbuf
  have hiff := l4Csum_putBe16 src src dst ipProtoUdp (by decide) (by omega) (by omega) hzero
    (udpCsum_mod src dst _)
  exact hiff.mpr rfl

theorem Datagram.Carries.udpRx (hbuf : buf.length ≤ pktBufSize - pktTxHeadroom)
    (hd : d.Carries src dst ipProtoUdp (udpBytes src dst sport dport buf)) :
    udpRx d = ⟨src, sport, buf⟩ := by
  have hport : be16 (udpBytes src dst sport dport buf) 0 = sport := by
    rw [udpBytes, be16_putBe16_other (Or.inl (by decide))]
    exact be16_toBe16 _ []
  have hdata : (udpBytes src dst sport dport buf).drop udpHdrLen = buf := by
    rw [udpBytes, putBe16, List.drop_set_of_lt (by decide), List.drop_set_of_lt (by decide)]
    rfl
  rw [PacketForge.udpRx, hd.payload, hd.saddr, hport, hdata, be16_udpBytes_len hbuf,
    Nat.add_sub_cancel, List.take_length]

theorem be16_udpBytes_dport : be16 (udpBytes src dst sport dport buf) 2 = dport := by
  rw [udpBytes, be16_putBe16_other (Or.inl (by decide))]
  exact be16_toBe16 _ []

theorem Stack.pushRx_rxq (s : Stack) (i : SockIdx) (x : RxPkt) :
    ((s.pushRx i x).socks i).rxq = (s.socks i).rxq ++ [x] :=
  congrArg PfSock.rxq (Function.update_self i _ s.socks)

/-- Every payload that fits a packet arrives: the datagram `udp_output` builds has a
checksum, the tests of `udp_input` accept it, and the socket it is for gets what was
sent. -/
theorem udp_round_trip {s : Stack} {srcIp : UInt32} (hbuf : buf.length ≤ pktBufSize - pktTxHeadroom)
    (hsrc : udpSrc s srcIp dst = some src) (now : Nat) (sport dport : UInt16) :
    ∃ p q, pktTx buf = .ok p ∧
      udpOutput s now srcIp sport dst dport p =
        ipOutput (s.count .udpTx) now src dst ipProtoUdp ipDefaultTtl q ∧
      ipv4HdrMin ≤ q.head ∧ be16 q.data 6 ≠ 0 ∧
      ∀ x : IpPkt, x.datagram.Carries (wireSrc s src dst) dst ipProtoUdp q.data →
        UdpAccepts x.datagram ∧
        ∀ (r : Stack) (later : Nat) (i : SockIdx), pfSockLookupUdp r.host dst dport = some i →
          (r.socks i).rxq.length < pfSockRxqCap →
          ∃ r', udpInput r later x.pkt = .ok r' ∧
            (r'.socks i).rxq = (r.socks i).rxq ++ [⟨src, sport, buf⟩] := by
  obtain ⟨p, hp, hhead, hdata⟩ := (pktTx_post hbuf fun _ => False).exists_ok
  obtain ⟨q, hq, hroom, hout⟩ := udpOutput_eq hhead.ge hsrc now sport dport
  rw [hdata] at hq
  refine ⟨p, q, hp, hout, hroom, hq ▸ be16_udpBytes_csum, fun x hx => ?_⟩
  rw [wireSrc_udpSrc hsrc, hq] at hx
  refine ⟨hx.udpAccepts hbuf, fun r later i hfind hfree => ?_⟩
  have hact : (udpAct r x.datagram).2 = .queue i ⟨src, sport, buf⟩ := by
    refine udpAct_queue_iff.mpr ⟨hx.udpAccepts hbuf, ?_, hfree, (hx.udpRx hbuf).symm⟩
    rw [hx.daddr, hx.payload, be16_udpBytes_dport]
    exact hfind
  have hcounts : ((r.count .udpRx).counts (udpAct r x.datagram).1).socks = r.socks := by
    rw [Stack.counts_eq]
    rfl
  rw [udpInput_eq, hact]
  generalize (r.count .udpRx).counts (udpAct r x.datagram).1 = t at hcounts
  refine ⟨t.pushRx i _, rfl, ?_⟩
  rw [← hcounts]
  exact Stack.pushRx_rxq t i _

/-- A datagram of one byte reaches a server on port 7. -/
theorem udp_round_trip_byte : ∃ p q x r r',
    pktTx [0x2a] = .ok p ∧
      udpOutput lanStack 5 0 9000 0x0a000002 7 p =
        ipOutput (lanStack.count .udpTx) 5 0x0a000001 0x0a000002 ipProtoUdp ipDefaultTtl q ∧
      pktPush q (ipv4Hdr 29 0 0 ipDefaultTtl ipProtoUdp 0x0a000001 0x0a000002) = .ok x ∧
      [.call 0 (.socket .udp), .call 0 (.bind 0 0 7)].foldlM stackStep lanStack = .ok r ∧
      udpInput r 6 x = .ok r' ∧ (r'.socks 0).rxq = [⟨0x0a000001, 9000, [0x2a]⟩] := by
  have hbuf : ([0x2a] : List UInt8).length ≤ pktBufSize - pktTxHeadroom := by decide
  have hsrc : udpSrc lanStack 0 0x0a000002 = some 0x0a000001 := rfl
  obtain ⟨p, q, hp, hout, hroom, -, harrives⟩ := udp_round_trip hbuf hsrc 5 9000 7
  obtain ⟨x, hx, hcarries⟩ :=
    pktPush_carries hroom 29 0 0 ipDefaultTtl ipProtoUdp 0x0a000001 0x0a000002
  obtain ⟨r, hr, hfind, hrxq⟩ : ∃ r,
      [.call 0 (.socket .udp), .call 0 (.bind 0 0 7)].foldlM stackStep lanStack = .ok r ∧
        pfSockLookupUdp r.host 0x0a000002 7 = some 0 ∧ (r.socks 0).rxq = [] := ⟨_, rfl, rfl, rfl⟩
  obtain ⟨r', hr', hrx⟩ := (harrives x hcarries).2 r 6 0 hfind (hrxq ▸ by decide)
  rw [hrxq] at hrx
  exact ⟨p, q, x.pkt, r, r', hp, hout, hx, hr, hr', hrx⟩

end Udp

/-! ### TCP -/

section Tcp

def tcpPlain (g : Seg) : List UInt8 :=
  toBe16 g.sport ++ toBe16 g.dport ++ toBe32 g.seq ++ toBe32 g.ack ++
    [UInt8.ofNat ((tcpHdrMin + g.opts.length) / 4) <<< 4, g.flags] ++ toBe16 g.wnd ++ toBe16 0 ++
    toBe16 0 ++ g.opts ++ g.payload

theorem tcpBytes_eq (g : Seg) :
    tcpBytes g = putBe16 (tcpPlain g) 16 (l4Csum g.src g.dst ipProtoTcp (tcpPlain g)) := rfl

theorem tcpPlain_length (g : Seg) :
    (tcpPlain g).length = tcpHdrMin + g.opts.length + g.payload.length := by
  rw [← tcpBytes_length, tcpBytes_eq, putBe16_length]

/-- No options, or the MSS option. -/
def Seg.MssOnly (g : Seg) : Prop := g.opts.length = 0 ∨ g.opts.length = 4

variable {g : Seg} {d : Datagram} {src : UInt32}

theorem tcpHdrLen_tcpBytes (hg : g.MssOnly) :
    tcpHdrLen (tcpBytes g) = tcpHdrMin + g.opts.length := by
  have hbyte : (tcpBytes g).getD 12 0 = UInt8.ofNat ((tcpHdrMin + g.opts.length) / 4) <<< 4 := by
    rw [tcpBytes_eq, getD_putBe16 (by decide) (by decide)]
    rfl
  rw [tcpHdrLen, hbyte]
  rcases hg with h | h <;> rw [h] <;> decide

theorem drop_tcpBytes : (tcpBytes g).drop tcpHdrMin = g.opts ++ g.payload := by
  rw [tcpBytes_eq, putBe16, List.drop_set_of_lt (by decide), List.drop_set_of_lt (by decide)]
  rfl

/-- The peer reads the segment that was sent, with the source address that the IP
header has. -/
theorem tcpSeg_of_carries (hg : g.MssOnly) (hd : d.Carries src g.dst ipProtoTcp (tcpBytes g)) :
    tcpSeg d = { g with src := src } := by
  have hhalf (j : Nat) (hj : j + 1 < 16) : be16 (tcpBytes g) j = be16 (tcpPlain g) j := by
    rw [tcpBytes_eq, be16_putBe16_other (Or.inl hj)]
  have hword (j : Nat) (hj : j + 3 < 16) : be32 (tcpBytes g) j = be32 (tcpPlain g) j := by
    rw [tcpBytes_eq, be32_putBe16_other (Or.inl hj)]
  have hsport : be16 (tcpBytes g) 0 = g.sport :=
    (hhalf 0 (by decide)).trans (be16_toBe16 g.sport [])
  have hdport : be16 (tcpBytes g) 2 = g.dport :=
    (hhalf 2 (by decide)).trans (be16_toBe16 g.dport [])
  have hseq : be32 (tcpBytes g) 4 = g.seq := (hword 4 (by decide)).trans (be32_toBe32 g.seq [])
  have hack : be32 (tcpBytes g) 8 = g.ack := (hword 8 (by decide)).trans (be32_toBe32 g.ack [])
  have hwnd : be16 (tcpBytes g) 14 = g.wnd := (hhalf 14 (by decide)).trans (be16_toBe16 g.wnd [])
  have hflags : (tcpBytes g).getD 13 0 = g.flags := by
    rw [tcpBytes_eq, getD_putBe16 (by decide) (by decide)]
    rfl
  have hopts :
      ((tcpBytes g).drop tcpHdrMin).take (tcpHdrLen (tcpBytes g) - tcpHdrMin) = g.opts := by
    rw [drop_tcpBytes, tcpHdrLen_tcpBytes hg, Nat.add_sub_cancel_left, List.take_left]
  have hpayload : (tcpBytes g).drop (tcpHdrLen (tcpBytes g)) = g.payload := by
    rw [tcpHdrLen_tcpBytes hg, ← List.drop_drop, drop_tcpBytes, List.drop_left]
  cases g
  simp only [tcpSeg, Seg.mk.injEq, hd.payload]
  exact ⟨hd.saddr, hd.daddr, hsport, hdport, hseq, hack, hflags, hwnd, hopts, hpayload⟩

/-- The tests of `tcp_input` pass if the address that the IP header has adds up to
what the one under the checksum does. -/
theorem tcpRejects_iff (hg : g.MssOnly)
    (hlen : tcpHdrMin + g.opts.length + g.payload.length ≤ pktBufSize - pktTxHeadroom)
    (hd : d.Carries src g.dst ipProtoTcp (tcpBytes g)) :
    ¬ TcpRejects d ↔ addrSum src ≡ addrSum g.src [MOD 65535] := by
  have hplain := tcpPlain_length g
  have hbytes := tcpBytes_length g
  have hhdr := tcpHdrLen_tcpBytes hg
  have hzero : be16 (tcpPlain g) (2 * 8) = 0 := be16_toBe16 0 []
  change _ ≤ 3968 at hlen
  change _ = 20 + _ + _ at hplain hbytes
  change _ = 20 + _ at hhdr
  have hcsum := l4Csum_putBe16 g.src src g.dst ipProtoTcp (by decide) (by omega) (by omega)
    hzero (Nat.ModEq.refl _)
  rw [← hcsum, TcpRejects, hd.payload, hd.saddr, hd.daddr, hhdr, hbytes,
    show tcpHdrMin = 20 from rfl]
  constructor
  · intro h
    exact not_not.mp fun hne => h (Or.inr (Or.inr (Or.inr hne)))
  · rintro hgood (h | h | h | h)
    · omega
    · omega
    · omega
    · exact h hgood

/-- What the peer has to find in a segment it reads. -/
structure Seg.Reads (g' g : Seg) : Prop where
  sport : g'.sport = g.sport
  dport : g'.dport = g.dport
  seq : g'.seq = g.seq
  flags : g'.flags = g.flags
  wnd : g'.wnd = g.wnd
  payload : g'.payload = g.payload
  ack : g.has tcpAck → g'.ack = g.ack
  mss : g.has tcpSyn → tcpParseMss g'.opts = (tcpOurMss, false)

variable {s : Stack} {t : Tcb} {flags : UInt8} {seq off : UInt32} {n : UInt16}

theorem tcpSegment_mssOnly (t : Tcb) (flags : UInt8) (seq off : UInt32) (n : UInt16) :
    (tcpSegment t flags seq off n).MssOnly := by
  change (if flags &&& tcpSyn != 0 then mssOption else []).length = 0 ∨
    (if flags &&& tcpSyn != 0 then mssOption else []).length = 4
  split
  · exact Or.inr rfl
  · exact Or.inl rfl

theorem tcpSegment_fits (t : Tcb) (flags : UInt8) (seq off : UInt32) {n : UInt16}
    (hn : tcpHdrMin + 4 + n.toNat ≤ pktBufSize - pktTxHeadroom) :
    tcpHdrMin + (tcpSegment t flags seq off n).opts.length +
      (tcpSegment t flags seq off n).payload.length ≤ pktBufSize - pktTxHeadroom := by
  have hpay : (tcpSegment t flags seq off n).payload.length = n.toNat := RingBuf.read_length _ _ _ _
  rcases tcpSegment_mssOnly t flags seq off n with h | h <;> omega

theorem tcpSegment_mss (hsyn : (tcpSegment t flags seq off n).has tcpSyn) :
    tcpParseMss (tcpSegment t flags seq off n).opts = (tcpOurMss, false) := by
  change (flags &&& tcpSyn != 0) = true at hsyn
  change tcpParseMss (if flags &&& tcpSyn != 0 then mssOption else []) = _
  rw [if_pos hsyn]
  decide

/-- The peer accepts a segment and reads what was sent, unless the connection has no
local address and `ip_output` fills in one that the checksum does not cover. The
payload is bounded by the packet; the MSS is less. -/
theorem segment_survives_wire_iff
    (hn : tcpHdrMin + 4 + n.toNat ≤ pktBufSize - pktTxHeadroom)
    (hd : d.Carries (wireSrc s t.localIp t.remoteIp) t.remoteIp ipProtoTcp
      (tcpBytes (tcpSegment t flags seq off n))) :
    (∃ g, tcpAct d = ([], .segment g) ∧ g.Reads (tcpSegment t flags seq off n)) ↔
      t.localIp ≠ 0 ∨ addrSum (wireSrc s t.localIp t.remoteIp) ≡ 0 [MOD 65535] := by
  have hmss := tcpSegment_mssOnly t flags seq off n
  have hseg := tcpSeg_of_carries hmss hd
  have hiff := tcpRejects_iff hmss (tcpSegment_fits t flags seq off hn) hd
  have haddr : addrSum (wireSrc s t.localIp t.remoteIp) ≡ addrSum t.localIp [MOD 65535] ↔
      t.localIp ≠ 0 ∨ addrSum (wireSrc s t.localIp t.remoteIp) ≡ 0 [MOD 65535] := by
    by_cases hzero : t.localIp = 0
    · rw [hzero]
      exact ⟨Or.inr, fun h => h.resolve_left (not_not.mpr rfl)⟩
    · rw [wireSrc, if_neg hzero]
      exact ⟨fun _ => Or.inl hzero, fun _ => rfl⟩
  refine Iff.trans ?_ (hiff.trans haddr)
  constructor
  · rintro ⟨g, hact, -⟩ hrejects
    have hquiet := tcpAct_of_rejects hrejects
    rw [hact] at hquiet
    cases hquiet
  · intro haccepts
    refine ⟨tcpSeg d, tcpAct_of_accepts haccepts, ?_⟩
    rw [hseg]
    exact ⟨rfl, rfl, rfl, rfl, rfl, rfl, fun _ => rfl, tcpSegment_mss⟩

end Tcp

/-! ### A connection without an address -/

/-- One interface that has no address yet. -/
def bareDevs : Devs := fun _ => ⟨⟨2, 0, 0, 0, 0, 1⟩, 0, 0, 1500⟩

def bareStack : Stack := pfStackInit bareDevs 1 false lanFib.fib

theorem bareStack_fresh : Fresh bareStack := ⟨bareDevs, 1, false, lanFib, lanFib_reach, rfl⟩

/-- A connection is opened, and the interface gets its address afterwards. -/
def bareEvents : List StackEvent :=
  [.call 0 (.socket .tcp), .call 0 (.connect 0 0x0a000002 80 none),
    .config (.addr lanDev 0x0a000001 0xffffff00)]

/-- The SYN as it is retransmitted then is not accepted. -/
theorem segment_lost_without_address : ∃ s t, Fresh bareStack ∧
    bareEvents.foldlM stackStep bareStack = .ok s ∧ s.tcbs ⟨0, tcpMaxConns_pos⟩ = t ∧
      t.state = .synSent ∧ t.localIp = 0 ∧
      ∃ d : Datagram, d.Carries (wireSrc s t.localIp t.remoteIp) t.remoteIp ipProtoTcp
        (tcpBytes (tcpSegment t tcpSyn t.iss 0 0)) ∧ (tcpAct d).2 = .quiet := by
  obtain ⟨s, hs, hstate, hlocal, hwire⟩ : ∃ s, bareEvents.foldlM stackStep bareStack = .ok s ∧
      (s.tcbs ⟨0, tcpMaxConns_pos⟩).state = .synSent ∧ (s.tcbs ⟨0, tcpMaxConns_pos⟩).localIp = 0 ∧
      wireSrc s 0 (s.tcbs ⟨0, tcpMaxConns_pos⟩).remoteIp = 0x0a000001 := ⟨_, rfl, rfl, rfl, rfl⟩
  generalize ht : s.tcbs ⟨0, tcpMaxConns_pos⟩ = t at hstate hlocal hwire
  have hn : tcpHdrMin + 4 + (0 : UInt16).toNat ≤ pktBufSize - pktTxHeadroom := by decide
  have hfits := tcpSegment_fits t tcpSyn t.iss 0 hn
  have hlen := (tcpBytes_length _).trans_le hfits
  obtain ⟨p, -, hhead, hdata⟩ := (pktTx_post hlen fun _ => False).exists_ok
  have hroom : ipv4HdrMin ≤ p.head := hhead ▸ by decide
  obtain ⟨x, -, hx⟩ := pktPush_carries hroom 44 0 0 ipDefaultTtl ipProtoTcp 0x0a000001 t.remoteIp
  rw [hdata] at hx
  refine ⟨s, t, bareStack_fresh, hs, ht, hstate, hlocal, x.datagram, ?_, ?_⟩
  · rw [hlocal, hwire]
    exact hx
  · refine tcpAct_of_rejects (not_not.mp fun h => ?_)
    have hmod := (tcpRejects_iff (tcpSegment_mssOnly t tcpSyn t.iss 0 0) hfits hx).mp h
    change addrSum 0x0a000001 ≡ addrSum t.localIp [MOD 65535] at hmod
    rw [hlocal] at hmod
    revert hmod
    decide

/-- With an address it is. -/
theorem segment_survives_wire_iff_syn : ∃ s t,
    [.call 0 (.socket .tcp), .call 0 (.connect 0 0x0a000002 80 none)].foldlM stackStep lanStack =
      .ok s ∧ s.tcbs ⟨0, tcpMaxConns_pos⟩ = t ∧ t.state = .synSent ∧
      ∃ d : Datagram, d.Carries 0x0a000001 0x0a000002 ipProtoTcp
          (tcpBytes (tcpSegment t tcpSyn t.iss 0 0)) ∧
        ∃ g, tcpAct d = ([], .segment g) ∧ g.Reads (tcpSegment t tcpSyn t.iss 0 0) := by
  obtain ⟨s, hs, hstate, hlocal, hremote⟩ : ∃ s,
      [.call 0 (.socket .tcp), .call 0 (.connect 0 0x0a000002 80 none)].foldlM stackStep lanStack =
        .ok s ∧ (s.tcbs ⟨0, tcpMaxConns_pos⟩).state = .synSent ∧
      (s.tcbs ⟨0, tcpMaxConns_pos⟩).localIp = 0x0a000001 ∧
      (s.tcbs ⟨0, tcpMaxConns_pos⟩).remoteIp = 0x0a000002 := ⟨_, rfl, rfl, rfl, rfl⟩
  generalize ht : s.tcbs ⟨0, tcpMaxConns_pos⟩ = t at hstate hlocal hremote
  have hn : tcpHdrMin + 4 + (0 : UInt16).toNat ≤ pktBufSize - pktTxHeadroom := by decide
  have hlen := (tcpBytes_length _).trans_le (tcpSegment_fits t tcpSyn t.iss 0 hn)
  obtain ⟨p, -, hhead, hdata⟩ := (pktTx_post hlen fun _ => False).exists_ok
  have hroom : ipv4HdrMin ≤ p.head := hhead ▸ by decide
  obtain ⟨x, -, hx⟩ := pktPush_carries hroom 44 0 0 ipDefaultTtl ipProtoTcp 0x0a000001 0x0a000002
  rw [hdata] at hx
  have hne : t.localIp ≠ 0 := hlocal ▸ by decide
  have hcarries : x.datagram.Carries (wireSrc s t.localIp t.remoteIp) t.remoteIp ipProtoTcp
      (tcpBytes (tcpSegment t tcpSyn t.iss 0 0)) := by
    rw [wireSrc, if_neg hne, hlocal, hremote]
    exact hx
  exact ⟨s, t, hs, ht, hstate, x.datagram, hx,
    (segment_survives_wire_iff hn hcarries).mpr (Or.inl hne)⟩

end PacketForge
