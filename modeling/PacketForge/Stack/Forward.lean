import PacketForge.Arp.Book
import PacketForge.Ipv4.ChecksumLaws
import PacketForge.Stack.Config

/-!
The forwarding plane. A packet that `ip_input` hands to `ip_forward` is dropped,
or it goes on to the next hop of the longest matching prefix; then its TTL is one
less, its checksum is that of the new header, and every other byte is as it was
received.
-/

namespace PacketForge

open Checked

/-! ### The header -/

section Header

variable {l : List UInt8}

theorem byteWord_toNat (a b : UInt8) :
    (a.toUInt16 <<< 8 ||| b.toUInt16).toNat = a.toNat * 256 + b.toNat := be16_toNat [a, b] 0

theorem byteWord_bytes (a b : UInt8) : ((a.toUInt16 <<< 8 ||| b.toUInt16) >>> 8).toUInt8 = a ∧
    (a.toUInt16 <<< 8 ||| b.toUInt16).toUInt8 = b := by
  have hw := byteWord_toNat a b
  have ha := a.toNat_lt
  have hb := b.toNat_lt
  constructor
  · apply UInt8.toNat_inj.mp
    rw [UInt16.toNat_toUInt8, UInt16.toNat_shiftRight]
    change _ >>> 8 % 2 ^ 8 = _
    rw [hw, Nat.shiftRight_eq_div_pow]
    omega
  · apply UInt8.toNat_inj.mp
    rw [UInt16.toNat_toUInt8, hw]
    omega

theorem getD_set_self {i : Nat} (x : UInt8) (h : i < l.length) : (l.set i x).getD i 0 = x := by
  rw [List.getD_eq_getElem?_getD, List.getElem?_set_self h, Option.getD_some]

theorem getD_set_ne {i j : Nat} (x : UInt8) (h : i ≠ j) : (l.set i x).getD j 0 = l.getD j 0 := by
  rw [List.getD_eq_getElem?_getD, List.getElem?_set_ne h, List.getD_eq_getElem?_getD]

theorem set_getD_self {i : Nat} (h : i < l.length) : l.set i (l.getD i 0) = l := by
  rw [List.getD_eq_getElem?_getD, List.getElem?_eq_getElem h, Option.getD_some,
    List.set_getElem_self]

theorem set_ttl (t : UInt8) (h : 9 < l.length) :
    l.set 8 t = putBe16 l 8 (t.toUInt16 <<< 8 ||| (ipProto l).toUInt16) := by
  have hproto : (l.set 8 t).getD 9 0 = ipProto l := getD_set_ne t (by decide)
  rw [putBe16, (byteWord_bytes _ _).1, (byteWord_bytes _ _).2, ← hproto]
  exact (set_getD_self (by rw [List.length_set]; exact h)).symm

/-- The bytes that are not the TTL or the checksum stay. -/
theorem decTtl_getD {i : Nat} (httl : i ≠ 8) (hhi : i ≠ 10) (hlo : i ≠ 11) :
    (decTtl l).getD i 0 = l.getD i 0 := by
  rw [decTtl, putBe16, getD_set_ne _ (Ne.symm hlo), getD_set_ne _ (Ne.symm hhi),
    getD_set_ne _ (Ne.symm httl)]

theorem ipTtl_decTtl (h : 8 < l.length) : ipTtl (decTtl l) = ipTtl l - 1 := by
  rw [decTtl, ipTtl, putBe16, getD_set_ne _ (by decide), getD_set_ne _ (by decide),
    getD_set_self _ h]

theorem ipHdrLen_decTtl : ipHdrLen (decTtl l) = ipHdrLen l := by
  rw [ipHdrLen, ipHdrLen, decTtl_getD (by decide) (by decide) (by decide)]

/-- The update looks at the first twelve bytes only. -/
theorem decTtl_take {n : Nat} (h : 12 ≤ n) : (decTtl l).take n = decTtl (l.take n) := by
  have httl : ipTtl (l.take n) = ipTtl l := getD_take (by omega)
  have hproto : ipProto (l.take n) = ipProto l := getD_take (by omega)
  have hcsum : be16 (l.take n) 10 = be16 l 10 := be16_take (by omega)
  rw [decTtl, decTtl, httl, hproto, hcsum, putBe16, putBe16, List.take_set, List.take_set,
    List.take_set]

theorem wordSum_pos (h : 0 < (l.getD 0 0).toNat) : 0 < wordSum l := by
  match l with
  | [] => exact absurd h (Nat.lt_irrefl 0)
  | [a] =>
    change 0 < a.toNat at h
    rw [wordSum]
    omega
  | a :: b :: rest =>
    change 0 < a.toNat at h
    rw [wordSum]
    omega

/-- A header that verified still verifies after the update. -/
theorem inetCsum_decTtl (hmin : 20 ≤ l.length) (hmax : l.length ≤ 60)
    (hver : 0 < (l.getD 0 0).toNat) (h : inetCsum l = 0) : inetCsum (decTtl l) = 0 := by
  have hlen : (decTtl l).length ≤ 60 := (decTtl_length l).trans_le hmax
  have hpos : 0 < wordSum (decTtl l) :=
    wordSum_pos (by rw [decTtl_getD (by decide) (by decide) (by decide)]; exact hver)
  refine (inetCsum_eq_zero_iff (hlen.trans (by decide))).mpr ⟨hpos, ?_⟩
  have hold := ((inetCsum_eq_zero_iff (hmax.trans (by decide))).mp h).2
  -- the words of the old header, of the TTL and of the checksum
  have hword : (ipTtl l).toUInt16 <<< 8 ||| (ipProto l).toUInt16 = be16 l 8 := rfl
  have hset := set_ttl (ipTtl l - 1) (show 9 < l.length by omega)
  have hdec : decTtl l = putBe16
      (putBe16 l 8 ((ipTtl l - 1).toUInt16 <<< 8 ||| (ipProto l).toUInt16)) 10
      (csumUpdate16 (be16 l 10) (be16 l 8)
        ((ipTtl l - 1).toUInt16 <<< 8 ||| (ipProto l).toUInt16)) := by
    rw [decTtl, hset, hword]
  rw [hdec]
  generalize (ipTtl l - 1).toUInt16 <<< 8 ||| (ipProto l).toUInt16 = m'
  have hcsum : be16 (putBe16 l 8 m') 10 = be16 l 10 := by
    rw [be16, be16, putBe16, getD_set_ne _ (by decide), getD_set_ne _ (by decide),
      getD_set_ne _ (by decide), getD_set_ne _ (by decide)]
  have hfirst := wordSum_putBe16 l 4 m' (by omega)
  have hsecond := wordSum_putBe16 (putBe16 l 8 m') 5 (csumUpdate16 (be16 l 10) (be16 l 8) m')
    (by rw [putBe16_length]; omega)
  rw [hcsum] at hsecond
  have hupdate := csumUpdate16_completes (be16 l 10) (be16 l 8) m'
  have hm := (be16 l 8).toNat_lt
  have hhc := (be16 l 10).toNat_lt
  change wordSum (putBe16 l 8 m') + (be16 l 8).toNat = wordSum l + m'.toNat at hfirst
  change wordSum (putBe16 (putBe16 l 8 m') 10 _) + (be16 l 10).toNat = _ at hsecond
  unfold Nat.ModEq at hold hupdate ⊢
  omega

end Header

/-! ### Handing a packet on -/

/-- The packet left in a frame for the address that the next hop is resolved to. -/
def Transmitted (s s' : Stack) (out : DevIdx) (nextHop : UInt32) (p : Pkt) : Prop :=
  ∃ i, (s.cache i).state = .resolved ∧ (s.cache i).ip = nextHop ∧
    s'.tx = s.tx ++ [⟨out, (s.cache i).mac, (s.devs out).mac, ethTypeIp4, p.data⟩]

/-- The packet is the newest behind the next hop, which is being resolved; at most
requests for it were transmitted. -/
def ParkedBehind (s s' : Stack) (out : DevIdx) (nextHop : UInt32) (p : Pkt) : Prop :=
  (∃ i, (s'.cache i).state = .pending ∧ (s'.cache i).ip = nextHop ∧
    (s'.cache i).waitq.getLast? = some ⟨out, p⟩) ∧
  ∃ fs, s'.tx = s.tx ++ fs ∧ ∀ f ∈ fs, f.type = ethTypeArp

section Relay

variable {s : Stack} {now : Nat} {out : DevIdx} {nextHop : UInt32} {p : Pkt}

theorem arpSendRequest_ok (devs : Devs) (dev : DevIdx) (ip : UInt32) (a : Arp) :
    ∃ b f, arpSendRequest devs dev ip a = .ok b ∧ b.entries = a.entries ∧ b.tx = a.tx ++ [f] ∧
      f.type = ethTypeArp := by
  have hfits : (arpBytes arpOpRequest (devs dev).mac (devs dev).ip .zero ip).length ≤
      pktBufSize - pktTxHeadroom := by
    rw [arpBytes_length]
    decide
  obtain ⟨p, hp, hhead, -⟩ := (pktTx_post hfits fun _ => False).exists_ok
  have hroom : ethHdrLen ≤ p.head := by
    rw [hhead]
    decide
  unfold arpSendRequest Arp.ethOutput
  rw [hp, ok_bind, ethFrame_eq, if_pos hroom]
  exact ⟨_, _, rfl, rfl, rfl, rfl⟩

/-- A parked packet is the newest of its queue. -/
theorem arpPark_last (i : ArpIdx) (q : WaitPkt) (a : Arp) :
    ((arpPark i q a).entries i).waitq.getLast? = some q ∧
      ((arpPark i q a).entries i).state = (a.entries i).state ∧
      ((arpPark i q a).entries i).ip = (a.entries i).ip ∧ (arpPark i q a).tx = a.tx := by
  unfold arpPark
  simp only
  split
  · simp [Arp.note, Arp.count, Arp.setEntry]
  · simp [Arp.note, Arp.count, Arp.setEntry]

/-- A packet with room for an Ethernet header is transmitted or parked. -/
theorem arpOutput_relays (hroom : ethHdrLen ≤ p.head) :
    ∃ s', arpOutput s now out nextHop p = .ok s' ∧
      (Transmitted s s' out nextHop p ∨ ParkedBehind s s' out nextHop p) := by
  unfold arpOutput arpResolve
  cases hfind : arpLookup s.arp.entries nextHop with
  | some i =>
    obtain ⟨hfree, hip⟩ := arpLookup_spec hfind
    simp only
    split
    · rename_i hst
      rw [ok_bind]
      simp only
      unfold Arp.ethOutput
      rw [ethFrame_eq, if_pos hroom]
      exact ⟨_, rfl, Or.inl ⟨i, hst, hip, rfl⟩⟩
    · rename_i hst
      have hpend : (s.arp.entries i).state = .pending := by
        cases h : (s.arp.entries i).state with
        | free => exact absurd h hfree
        | resolved => exact absurd h hst
        | pending => rfl
      obtain ⟨hlast, hstate, haddr, htx⟩ := arpPark_last i ⟨out, p⟩ s.arp
      refine ⟨_, rfl, Or.inr ⟨⟨i, hstate.trans hpend, haddr.trans hip, hlast⟩, [], ?_, ?_⟩⟩
      · rw [List.append_nil]
        exact htx
      · intro f hf
        cases hf
  | none =>
    unfold arpOpen
    have htx : (arpAllocEntry s.arp).2.tx = s.tx := by
      unfold arpAllocEntry
      split <;> rfl
    generalize arpAllocEntry s.arp = r at htx
    obtain ⟨i, a⟩ := r
    simp only
    obtain ⟨b, f, hb, hentries, hbtx, hf⟩ := arpSendRequest_ok s.devs out nextHop
      ((a.setEntry i
        { a.entries i with
          state := .pending
          ip := nextHop
          dev := some out
          tries := 1
          deadlineMs := now + arpPendingRetryMs }).note (.opened nextHop))
    rw [hb, ok_bind]
    obtain ⟨hlast, hstate, haddr, hptx⟩ := arpPark_last i ⟨out, p⟩ b
    have hi : b.entries i = { a.entries i with
        state := .pending
        ip := nextHop
        dev := some out
        tries := 1
        deadlineMs := now + arpPendingRetryMs } := by
      rw [hentries]
      exact Function.update_self i _ _
    rw [hi] at hstate haddr
    refine ⟨_, rfl, Or.inr ⟨⟨i, hstate, haddr, hlast⟩, [f], ?_, ?_⟩⟩
    · change (arpPark i ⟨out, p⟩ b).tx = _
      rw [hptx, hbtx]
      change a.tx ++ [f] = _
      rw [htx]
    · intro f' hf'
      rw [List.mem_singleton.mp hf']
      exact hf

end Relay

/-! ### What `ip_input` accepts -/

structure Accepted (p : Pkt) (q : IpPkt) : Prop where
  head : q.pkt.head = p.head
  data : q.pkt.data = p.data.take (ipTotalLen p.data)
  version : ipVersion q.pkt.data = 4
  csum : inetCsum (q.pkt.data.take (ipHdrLen q.pkt.data)) = 0
  src : ip4BadSrc (ipSaddr q.pkt.data) = false

theorem ipParse_accepted {p : Pkt} {q : IpPkt} (h : ipParse p = .ok q) : Accepted p q := by
  unfold ipParse at h
  simp only at h
  split at h
  · cases h
  split at h
  · cases h
  rename_i hver
  split at h
  · cases h
  rename_i hmin
  split at h
  · cases h
  split at h
  · cases h
  rename_i htot
  split at h
  · cases h
  rename_i hle
  split at h
  · cases h
  rename_i hcsum
  split at h
  · cases h
  rename_i hsrc
  cases h
  have htwenty : 20 ≤ ipTotalLen p.data := (Nat.not_lt.mp hmin).trans (Nat.not_lt.mp htot)
  have hihl : ipHdrLen (p.data.take (ipTotalLen p.data)) = ipHdrLen p.data :=
    ipHdrLen_take (by omega)
  refine ⟨rfl, rfl, ?_, ?_, ?_⟩
  · change (p.data.take _).getD 0 0 >>> 4 = 4
    rw [getD_take (by omega)]
    exact not_not.mp hver
  · change inetCsum ((p.data.take _).take (ipHdrLen (p.data.take _))) = 0
    rw [hihl, List.take_take, Nat.min_eq_left (Nat.not_lt.mp htot)]
    exact not_not.mp hcsum
  · change ip4BadSrc (be32 (p.data.take _) 12) = false
    rw [be32_take (by omega)]
    exact Bool.not_eq_true _ ▸ hsrc

theorem Accepted.csum_decTtl {p : Pkt} {q : IpPkt} (h : Accepted p q) :
    inetCsum ((decTtl q.pkt.data).take (ipHdrLen (decTtl q.pkt.data))) = 0 := by
  have hmin : 20 ≤ ipHdrLen q.pkt.data := q.hdr_min
  have hle : ipHdrLen q.pkt.data ≤ q.pkt.data.length := q.hdr_le
  have hlen : (q.pkt.data.take (ipHdrLen q.pkt.data)).length = ipHdrLen q.pkt.data := by
    rw [List.length_take]
    exact Nat.min_eq_left hle
  have hver : 0 < (q.pkt.data.getD 0 0).toNat := by
    rw [Nat.pos_iff_ne_zero]
    intro hzero
    have hbyte : q.pkt.data.getD 0 0 = 0 := UInt8.toNat_inj.mp hzero
    have hfour := h.version
    rw [ipVersion, hbyte] at hfour
    exact absurd hfour (by decide)
  rw [ipHdrLen_decTtl, decTtl_take (by omega)]
  refine inetCsum_decTtl (by omega) (by rw [hlen]; exact ipHdrLen_le q.pkt.data) ?_ h.csum
  rw [getD_take (by omega)]
  exact hver

/-! ### Forwarding -/

/-- With forwarding on, `ip_input` hands the packet in a frame to `ip_forward`. -/
structure HandsToForward (s : Stack) (dev : DevIdx) (f : RxFrame) (q : IpPkt) : Prop where
  forwarding : s.forwarding = true
  hdr : ethHdrLen ≤ f.pkt.len
  forUs : Mac.read f.bytes 0 = (s.devs dev).mac ∨ (Mac.read f.bytes 0).group = true
  type : be16 f.bytes 12 = ethTypeIp4
  parse : ipParse (f.pkt.skip ethHdrLen hdr) = .ok q
  foreign : stackOwnsIp s (ipDaddr q.pkt.data) = false
  unicast : ip4IsMulticast (ipDaddr q.pkt.data) = false ∧
    (s.devs dev).broadcasts (ipDaddr q.pkt.data) = false

/-- What the forwarding plane may do to a packet, and where it may send it. -/
structure Relayed (s : Stack) (routes : RouteMap) (q : IpPkt) (out : DevIdx) (nextHop : UInt32)
    (p : Pkt) : Prop where
  length : p.data.length = q.pkt.data.length
  bytes : ∀ i, i ≠ 8 → i ≠ 10 → i ≠ 11 → p.data.getD i 0 = q.pkt.data.getD i 0
  ttl : (ipTtl p.data).toNat + 1 = (ipTtl q.pkt.data).toNat
  alive : 1 ≤ (ipTtl p.data).toNat
  csum : inetCsum (p.data.take (ipHdrLen p.data)) = 0
  route : ∃ k r, routes k = some r ∧ k.Covers (ipDaddr q.pkt.data) ∧
    (∀ k' r', routes k' = some r' → k'.Covers (ipDaddr q.pkt.data) → k'.plen ≤ k.plen) ∧
    out = r.dev ∧ nextHop = if r.connected then ipDaddr q.pkt.data else r.nextHop
  mtu : q.pkt.len ≤ (s.devs out).mtu.toNat
  dst : ip4IsLoopback (ipDaddr q.pkt.data) = false ∧ ip4IsMulticast (ipDaddr q.pkt.data) = false ∧
    ip4IsExperimental (ipDaddr q.pkt.data) = false
  foreign : ∀ i : DevIdx, i.val < s.ndevs → (s.devs i).ip ≠ 0 → ipDaddr q.pkt.data ≠ (s.devs i).ip
  directed : ∀ i : DevIdx, i.val < s.ndevs → (s.devs i).ip ≠ 0 →
    ipDaddr q.pkt.data ≠ (s.devs i).subnetBcast

/-- The packet is counted and freed; at most an error about it is sent. -/
def Dropped (t : Stack) (now : Nat) (q : IpPkt) (m : Except Fault Stack) : Prop :=
  ∃ c ∈ [Stat.ipFwdBadDst, .ipFwdTtlExceeded, .ipFwdNoRoute, .ipFwdMtuDrop],
    m = .ok (t.count c) ∨ ∃ type code, m = icmpSendError (t.count c) now q.pkt.data type code

section Forward

variable {s : Stack} {dev : DevIdx} {f : RxFrame} {q : IpPkt}

theorem HandsToForward.eq (h : HandsToForward s dev f q) (now : Nat) (heap : Nat → UInt8) :
    ethInput s now heap dev f.pkt = ipForward (s.counts [.ethRxFrames, .ipRx]) now dev q.pkt := by
  have hmac :
      ¬ (Mac.read f.pkt.data 0 ≠ (s.devs dev).mac ∧ (!(Mac.read f.pkt.data 0).group) = true) := by
    rintro ⟨hne, hgroup⟩
    rcases h.forUs with heq | heq
    · exact hne heq
    · have hpkt : f.pkt.data = f.bytes := rfl
      rw [hpkt, heq] at hgroup
      cases hgroup
  have htype : be16 f.pkt.data 12 = ethTypeIp4 := h.type
  have harp : be16 f.pkt.data 12 ≠ ethTypeArp := by
    rw [htype]
    decide
  have hip : ipVerdict s dev (f.pkt.skip ethHdrLen h.hdr) =
      tally .ipRx ((forwardAct s dev q).1, .act (forwardAct s dev q).2) := by
    unfold ipVerdict
    rw [h.parse]
    simp only [routeVerdict, h.foreign, h.unicast.1, h.unicast.2, h.forwarding, Bool.not_false,
      Bool.or_self, if_true, Bool.false_eq_true, if_false]
  have hverdict : ethVerdict s dev f.pkt =
      (.ethRxFrames :: .ipRx :: (forwardAct s dev q).1, .act (forwardAct s dev q).2) := by
    unfold ethVerdict
    rw [dif_pos h.hdr]
    simp only
    rw [if_neg hmac, if_neg harp, if_pos htype, hip]
    rfl
  rw [ethInput_eq, hverdict, ipForward_eq]
  rfl

theorem anyDev_eq_false {test : NetDev → Bool} (h : s.anyDev test = false) {i : DevIdx}
    (hi : i.val < s.ndevs) : test (s.devs i) = false := by
  unfold Stack.anyDev at h
  rw [List.any_eq_false] at h
  have hdev := h i (List.mem_finRange i)
  simpa [hi] using hdev

theorem stackOwnsIp_eq_false {dst : UInt32} (h : stackOwnsIp s dst = false) {i : DevIdx}
    (hi : i.val < s.ndevs) (hip : (s.devs i).ip ≠ 0) : dst ≠ (s.devs i).ip := by
  have hdev := anyDev_eq_false h hi
  rintro rfl
  simp [hip] at hdev

theorem forwardAct_cases {routes : RouteMap} (hfib : FibRepresents s.fib routes) {p : Pkt}
    (hacc : Accepted p q) (hforeign : stackOwnsIp s (ipDaddr q.pkt.data) = false) :
    (∃ c a, forwardAct s dev q = ([c], a) ∧
      c ∈ [Stat.ipFwdBadDst, .ipFwdTtlExceeded, .ipFwdNoRoute, .ipFwdMtuDrop] ∧
      (a = .quiet ∨ ∃ type code, a = .error q.pkt.data type code)) ∨
    ∃ cs out nextHop p', forwardAct s dev q = (cs, .hop out nextHop p') ∧ p'.head = q.pkt.head ∧
      Relayed s routes q out nextHop p' := by
  unfold forwardAct
  simp only
  split
  · exact Or.inl ⟨_, _, rfl, by decide, Or.inl rfl⟩
  rename_i hdst
  simp only [not_or, Bool.not_eq_true] at hdst
  split
  · exact Or.inl ⟨_, _, rfl, by decide, Or.inl rfl⟩
  rename_i hbcast
  split
  · exact Or.inl ⟨_, _, rfl, by decide, Or.inr ⟨_, _, rfl⟩⟩
  rename_i httl
  rcases hfib.lookup (ipDaddr q.pkt.data) with ⟨i, k, r, hfind, hr, hpool, hcov, hlong⟩ | ⟨hfind, -⟩
  · have hdev : (s.fib.pool i).dev = some r.dev := by rw [hpool]; rfl
    have hconn : (s.fib.pool i).connected = r.connected := by rw [hpool]; rfl
    have hhop : (s.fib.pool i).nextHop = r.nextHop := by rw [hpool]; rfl
    simp only [hfind, hdev, hconn, hhop]
    split
    · refine Or.inl ⟨_, _, rfl, by decide, ?_⟩
      split
      · exact Or.inr ⟨_, _, rfl⟩
      · exact Or.inl rfl
    · rename_i hmtu
      refine Or.inr ⟨_, _, _, _, rfl, rfl, ?_⟩
      have hlen : 8 < q.pkt.data.length :=
        Nat.lt_of_lt_of_le (show 8 < ipv4HdrMin by decide) q.len_ge
      have hone : 1 < (ipTtl q.pkt.data).toNat := UInt8.lt_iff_toNat_lt.mp (UInt8.not_le.mp httl)
      have hsub : (ipTtl q.pkt.data - 1).toNat = (ipTtl q.pkt.data).toNat - 1 :=
        UInt8.toNat_sub_of_le _ _ (UInt8.le_iff_toNat_le.mpr hone.le)
      have httl' : (ipTtl (decTtl q.pkt.data)).toNat = (ipTtl q.pkt.data).toNat - 1 := by
        rw [ipTtl_decTtl hlen, hsub]
      exact
        { length := decTtl_length _
          bytes := fun _ => decTtl_getD
          ttl := by
            change (ipTtl (decTtl q.pkt.data)).toNat + 1 = _
            omega
          alive := by
            change 1 ≤ (ipTtl (decTtl q.pkt.data)).toNat
            omega
          csum := hacc.csum_decTtl
          route := ⟨k, r, hr, hcov, hlong, rfl, rfl⟩
          mtu := Nat.not_lt.mp hmtu
          dst := hdst
          foreign := fun _ => stackOwnsIp_eq_false hforeign
          directed := by
            intro j hj hip heq
            have hdev := anyDev_eq_false (Bool.not_eq_true _ ▸ hbcast) hj
            simp [hip, heq] at hdev }
  · simp only [hfind]
    exact Or.inl ⟨_, _, rfl, by decide, Or.inr ⟨_, _, rfl⟩⟩

/-- With forwarding on, a packet for another host is dropped, or it is transmitted
or parked, with nothing but its TTL and checksum changed, for the interface and the
next hop of the longest prefix that covers its destination. -/
theorem forwarding_changes_ttl_only {routes : RouteMap} (hfib : FibRepresents s.fib routes)
    (h : HandsToForward s dev f q) (now : Nat) (heap : Nat → UInt8) :
    Dropped (s.counts [.ethRxFrames, .ipRx]) now q (ethInput s now heap dev f.pkt) ∨
      ∃ out nextHop p s', ethInput s now heap dev f.pkt = .ok s' ∧
        Relayed s routes q out nextHop p ∧
        (Transmitted s s' out nextHop p ∨ ParkedBehind s s' out nextHop p) := by
  have hacc := ipParse_accepted h.parse
  have hcount : forwardAct (s.counts [.ethRxFrames, .ipRx]) dev q = forwardAct s dev q := rfl
  rw [h.eq, ipForward_eq, hcount]
  rcases forwardAct_cases hfib hacc h.foreign with
    ⟨c, a, hact, hc, rfl | ⟨type, code, rfl⟩⟩ | ⟨cs, out, nextHop, p, hact, hhead, hrelayed⟩
  · rw [hact]
    exact Or.inl ⟨c, hc, Or.inl rfl⟩
  · rw [hact]
    exact Or.inl ⟨c, hc, Or.inr ⟨type, code, rfl⟩⟩
  · rw [hact]
    have hroom : ethHdrLen ≤ p.head := by
      rw [hhead, hacc.head]
      exact Nat.le_add_left _ _
    have hcounts :
        (s.counts [.ethRxFrames, .ipRx]).counts cs = s.counts (.ethRxFrames :: .ipRx :: cs) :=
      rfl
    rw [hcounts]
    obtain ⟨s', hs', hout⟩ := arpOutput_relays hroom
    refine Or.inr ⟨out, nextHop, p, s', hs', hrelayed, ?_⟩
    -- counting left the cache and the frames alone
    rw [Stack.counts_eq] at hout
    exact hout

end Forward

def lanRouter : Stack := pfStackInit lanDevs 1 true lanFib.fib

/-- A later fragment from 10.0.0.77 for 10.0.0.9 with a TTL of 64. -/
def transitBytes : List UInt8 :=
  [0x45, 0, 0, 20, 0, 0, 0, 1, 64, 17, 0x66, 0x83, 10, 0, 0, 77, 10, 0, 0, 9]

theorem transitFrame_fits : (lanEthHdr ++ transitBytes).length ≤ pktBufSize - pktRxOffset := by
  decide

def transitFrame : RxFrame := ⟨lanEthHdr ++ transitBytes, transitFrame_fits⟩

theorem transitFrame_hdr : ethHdrLen ≤ transitFrame.pkt.len := by decide

theorem transitPkt_hdr :
    ipv4HdrMin ≤ ipHdrLen ((transitFrame.pkt.skip ethHdrLen transitFrame_hdr).keep 20).data ∧
      ipHdrLen ((transitFrame.pkt.skip ethHdrLen transitFrame_hdr).keep 20).data ≤
        ((transitFrame.pkt.skip ethHdrLen transitFrame_hdr).keep 20).len := by decide

def transitPkt : IpPkt :=
  ⟨(transitFrame.pkt.skip ethHdrLen transitFrame_hdr).keep 20, transitPkt_hdr.1, transitPkt_hdr.2⟩

/-- The router once the host 10.0.0.9 has asked for its address. -/
theorem transit_router :
    ∃ s s', stackStep lanRouter (.frame 0 (fun _ => 0) lanDev hostArp) = .ok s ∧
      ethInput s 1 (fun _ => 0) lanDev transitFrame.pkt = .ok s' ∧
      s'.stats .ipFwdForwarded = 1 ∧ (∀ i, (s'.cache i).state ≠ .pending) ∧
      HandsToForward s lanDev transitFrame transitPkt ∧ FibRepresents s.fib lanFib.routes ∧
      ∀ c ∈ [Stat.ipFwdBadDst, .ipFwdTtlExceeded, .ipFwdNoRoute, .ipFwdMtuDrop],
        ((s.counts [.ethRxFrames, .ipRx]).count c).stats .ipFwdForwarded = 0 ∧ ∀ type code,
          (icmpSendError ((s.counts [.ethRxFrames, .ipRx]).count c) 1 transitPkt.pkt.data type
            code).toOption.map (fun t => t.stats .ipFwdForwarded) = some 0 := by
  refine ⟨_, _, rfl, rfl, rfl, by decide +kernel, ?_, lanFib_reach.represents, ?_⟩
  · exact ⟨rfl, transitFrame_hdr, by decide, by decide, by rfl, by decide, by decide⟩
  · intro c hc
    simp only [List.mem_cons, List.not_mem_nil, or_false] at hc
    rcases hc with rfl | rfl | rfl | rfl <;> exact ⟨rfl, fun _ _ => rfl⟩

theorem forwarding_changes_ttl_only_transit :
    ∃ s s' out nextHop p, stackStep lanRouter (.frame 0 (fun _ => 0) lanDev hostArp) = .ok s ∧
      ethInput s 1 (fun _ => 0) lanDev transitFrame.pkt = .ok s' ∧
      Relayed s lanFib.routes transitPkt out nextHop p ∧ Transmitted s s' out nextHop p := by
  obtain ⟨s, s', hs, hrun, hsent, hidle, hhands, hfib, hdrop⟩ := transit_router
  rcases forwarding_changes_ttl_only hfib hhands 1 (fun _ => 0) with
    ⟨c, hc, hm⟩ | ⟨out, nextHop, p, t, ht, hrelayed, hout⟩
  · rw [hrun] at hm
    obtain ⟨hzero, herr⟩ := hdrop c hc
    rcases hm with hm | ⟨type, code, hm⟩
    · cases hm
      cases hzero.symm.trans hsent
    · have hnone := herr type code
      rw [← hm] at hnone
      cases (Option.some.inj hnone).symm.trans hsent
  · cases hrun.symm.trans ht
    refine ⟨s, s', out, nextHop, p, hs, hrun, hrelayed, hout.resolve_right ?_⟩
    rintro ⟨⟨i, hpend, -⟩, -⟩
    exact hidle i hpend

end PacketForge
