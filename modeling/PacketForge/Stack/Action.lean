import PacketForge.Ipv4.ReassSound
import PacketForge.Stack.Step

/-!
What a frame asks of the stack. The functions here decide, from the bytes of a
received packet and without changing anything, which counters it adds to and
what is then to be done; `Action` lists all that can be. The input path of the
source does exactly this, and on its way reads only what it may.
-/

namespace PacketForge

open Checked

/-! ### Fields seen through the first bytes -/

section Take

variable {l : List UInt8} {n i : Nat}

theorem getD_take (h : i < n) : (l.take n).getD i 0 = l.getD i 0 := by
  rw [List.getD_eq_getElem?_getD, List.getD_eq_getElem?_getD, List.getElem?_take_of_lt h]

theorem be16_take (h : i + 1 < n) : be16 (l.take n) i = be16 l i := by
  rw [be16, be16, getD_take (by omega), getD_take h]

theorem be32_take (h : i + 3 < n) : be32 (l.take n) i = be32 l i := by
  rw [be32, be32, be16_take (by omega), be16_take h]

theorem ipHdrLen_take (h : 0 < n) : ipHdrLen (l.take n) = ipHdrLen l := by
  rw [ipHdrLen, ipHdrLen, getD_take h]

end Take

section Header

variable (l : List UInt8)

@[simp] theorem ipHdrLen_hdr : ipHdrLen (l.take ipv4HdrMin) = ipHdrLen l :=
  ipHdrLen_take (by decide)

@[simp] theorem ipVersion_hdr : ipVersion (l.take ipv4HdrMin) = ipVersion l := by
  rw [ipVersion, ipVersion, getD_take (by decide)]

@[simp] theorem ipTotalLen_hdr : ipTotalLen (l.take ipv4HdrMin) = ipTotalLen l := by
  rw [ipTotalLen, ipTotalLen, be16_take (by decide)]

@[simp] theorem ipFragOff_hdr : ipFragOff (l.take ipv4HdrMin) = ipFragOff l := be16_take (by decide)

@[simp] theorem ipTtl_hdr : ipTtl (l.take ipv4HdrMin) = ipTtl l := getD_take (by decide)

@[simp] theorem ipProto_hdr : ipProto (l.take ipv4HdrMin) = ipProto l := getD_take (by decide)

@[simp] theorem ipSaddr_hdr : ipSaddr (l.take ipv4HdrMin) = ipSaddr l := be32_take (by decide)

@[simp] theorem ipDaddr_hdr : ipDaddr (l.take ipv4HdrMin) = ipDaddr l := be32_take (by decide)

end Header

/-! ### Packets with a header -/

/-- A packet that starts with an IP header of which all bytes are there. -/
structure IpPkt where
  pkt : Pkt
  hdr_min : ipv4HdrMin ≤ ipHdrLen pkt.data
  hdr_le : ipHdrLen pkt.data ≤ pkt.len

theorem Pkt.len_lt (p : Pkt) : p.data.length < 65536 :=
  Nat.lt_of_le_of_lt p.len_le (by decide)

def IpPkt.datagram (q : IpPkt) : Datagram := ⟨q.pkt.data, q.hdr_min, q.hdr_le, q.pkt.len_lt⟩

inductive Action where
  /-- The packet is dropped, or nothing more than counted. -/
  | quiet
  /-- An echo request is answered. -/
  | echo (d : Datagram)
  /-- ICMP is asked for an error about a datagram. -/
  | error (orig : List UInt8) (type code : UInt8)
  /-- A packet is forwarded. -/
  | hop (out : DevIdx) (nextHop : UInt32) (p : Pkt)
  /-- A datagram goes to the receive queue of a socket. -/
  | queue (sk : SockIdx) (x : RxPkt)
  /-- A segment goes to TCP. -/
  | segment (g : Seg)
  /-- The route has no interface. -/
  | null

/-- What is done with a frame. -/
inductive Verdict where
  | act (a : Action)
  | arp (p : Pkt)
  | frag (d : Datagram)

/-! ### Delivery -/

def tally (c : Stat) (r : List Stat × α) : List Stat × α := (c :: r.1, r.2)

def icmpAct (d : Datagram) : List Stat × Action :=
  let m := d.payload
  if m.length < icmpHdrLen then ([.icmpRxMalformed], .quiet)
  else if inetCsum m ≠ 0 then ([.icmpRxBadCsum], .quiet)
  else if m.getD 0 0 = icmpTypeEchoRequest then
    if m.getD 1 0 ≠ 0 then ([.icmpRxMalformed], .quiet)
    else ([.icmpEchoReqRx, .icmpEchoReplyTx], .echo d)
  else if m.getD 0 0 = icmpTypeEchoReply then ([.icmpEchoReplyRx], .quiet)
  else if icmpTypeIsError (m.getD 0 0) then ([.icmpRxErrors], .quiet)
  else ([.icmpRxOther], .quiet)

/-- The socket, if any, that a datagram with a good header and checksum is for. -/
def udpSockAct (s : Stack) (d : Datagram) : List Stat × Action :=
  let m := d.payload
  match pfSockLookupUdp s.host (ipDaddr d.bytes) (be16 m 2) with
  | none => ([.udpRxNoSock], .error d.bytes icmpTypeDestUnreach 3)
  | some sk =>
    if (s.socks sk).rxq.length ≥ pfSockRxqCap then ([.udpRxQDrops], .quiet)
    else
      ([.udpRxDelivered],
        .queue sk
          ⟨ipSaddr d.bytes, be16 m 0, (m.drop udpHdrLen).take ((be16 m 4).toNat - udpHdrLen)⟩)

def udpAct (s : Stack) (d : Datagram) : List Stat × Action :=
  let m := d.payload
  if m.length < udpHdrLen then ([.udpRxMalformed], .quiet)
  else if (be16 m 4).toNat < udpHdrLen ∨ (be16 m 4).toNat > m.length then
    ([.udpRxMalformed], .quiet)
  else if be16 m 6 = 0 then tally .udpRxNocsum (udpSockAct s d)
  else if l4Csum (ipSaddr d.bytes) (ipDaddr d.bytes) ipProtoUdp (m.take (be16 m 4).toNat) ≠ 0 then
    ([.udpRxBadCsum], .quiet)
  else udpSockAct s d

def tcpHdrLen (m : List UInt8) : Nat := ((m.getD 12 0 >>> 4) * 4).toNat

theorem tcpSeg_payload_lt (d : Datagram) (hl : Nat) : (d.payload.drop hl).length < 2 ^ 16 := by
  have h := d.len_lt
  rw [Datagram.payload, List.length_drop, List.length_drop]
  change _ < 65536
  omega

def tcpSeg (d : Datagram) : Seg where
  src := ipSaddr d.bytes
  dst := ipDaddr d.bytes
  sport := be16 d.payload 0
  dport := be16 d.payload 2
  seq := be32 d.payload 4
  ack := be32 d.payload 8
  flags := d.payload.getD 13 0
  wnd := be16 d.payload 14
  opts := (d.payload.drop tcpHdrMin).take (tcpHdrLen d.payload - tcpHdrMin)
  payload := d.payload.drop (tcpHdrLen d.payload)
  payload_lt := tcpSeg_payload_lt d _

def tcpAct (d : Datagram) : List Stat × Action :=
  let m := d.payload
  if m.length < tcpHdrMin then ([.tcpRxSegs, .tcpRxMalformed], .quiet)
  else if tcpHdrLen m < tcpHdrMin ∨ tcpHdrLen m > m.length then
    ([.tcpRxSegs, .tcpRxMalformed], .quiet)
  else if l4Csum (ipSaddr d.bytes) (ipDaddr d.bytes) ipProtoTcp m ≠ 0 then
    ([.tcpRxSegs, .tcpRxBadCsum], .quiet)
  else ([], .segment (tcpSeg d))

def deliverAct (s : Stack) (d : Datagram) : List Stat × Action :=
  tally .ipRxDelivered <|
    if ipProto d.bytes = ipProtoIcmp then tally .icmpRx (icmpAct d)
    else if ipProto d.bytes = ipProtoUdp then tally .udpRx (udpAct s d)
    else if ipProto d.bytes = ipProtoTcp then tcpAct d
    else ([.ipRxProtoUnreach], .error d.bytes icmpTypeDestUnreach 2)

/-! ### Forwarding and input -/

def forwardAct (s : Stack) (indev : DevIdx) (q : IpPkt) : List Stat × Action :=
  let l := q.pkt.data
  let dst := ipDaddr l
  if ip4IsLoopback dst ∨ ip4IsMulticast dst ∨ ip4IsExperimental dst then ([.ipFwdBadDst], .quiet)
  else if s.anyDev fun d => d.ip ≠ 0 && dst = d.subnetBcast then ([.ipFwdBadDst], .quiet)
  else if ipTtl l ≤ 1 then ([.ipFwdTtlExceeded], .error l icmpTypeTimeExceeded 0)
  else
    match fibLookup s.fib dst with
    | none => ([.ipFwdNoRoute], .error l icmpTypeDestUnreach 0)
    | some r =>
      let rt := s.fib.pool r
      match rt.dev with
      | none => ([], .null)
      | some out =>
        if q.pkt.len > (s.devs out).mtu.toNat then
          ([.ipFwdMtuDrop],
            if ipFragOff l &&& ipFragDf ≠ 0 then .error l icmpTypeDestUnreach 4 else .quiet)
        else
          (if out = indev then [.ipFwdSameIf, .ipFwdForwarded] else [.ipFwdForwarded],
            .hop out (if rt.connected then dst else rt.nextHop)
              (q.pkt.edit (decTtl l) (decTtl_length l)))

theorem Pkt.keep_hdr {p : Pkt} (hmin : ¬ ipHdrLen p.data < ipv4HdrMin)
    (htot : ¬ ipTotalLen p.data < ipHdrLen p.data) (hle : ¬ ipTotalLen p.data > p.len) :
    ipv4HdrMin ≤ ipHdrLen (p.keep (ipTotalLen p.data)).data ∧
      ipHdrLen (p.keep (ipTotalLen p.data)).data ≤ (p.keep (ipTotalLen p.data)).len := by
  have hmin : 20 ≤ ipHdrLen p.data := Nat.not_lt.mp hmin
  have htot : ipHdrLen p.data ≤ ipTotalLen p.data := Nat.not_lt.mp htot
  have hlen : (p.keep (ipTotalLen p.data)).len = ipTotalLen p.data := by
    rw [Pkt.len, Pkt.keep, List.length_take]
    exact Nat.min_eq_left (Nat.not_lt.mp hle)
  have hihl : ipHdrLen (p.keep (ipTotalLen p.data)).data = ipHdrLen p.data :=
    ipHdrLen_take (by omega)
  rw [hihl, hlen]
  exact ⟨hmin, htot⟩

/-- The checks of `ip_input` on a header: the counter of the one that fails, or
the packet without what the link layer padded. -/
def ipParse (p : Pkt) : Except Stat IpPkt :=
  let l := p.data
  if p.len < ipv4HdrMin then .error .ipRxTruncated
  else if ipVersion l ≠ 4 then .error .ipRxBadVersion
  else if hmin : ipHdrLen l < ipv4HdrMin then .error .ipRxBadIhl
  else if ipHdrLen l > p.len then .error .ipRxTruncated
  else if htot : ipTotalLen l < ipHdrLen l then .error .ipRxBadLen
  else if hle : ipTotalLen l > p.len then .error .ipRxBadLen
  else if inetCsum (l.take (ipHdrLen l)) ≠ 0 then .error .ipRxBadCsum
  else if ip4BadSrc (ipSaddr l) then .error .ipRxBadSrc
  else .ok ⟨p.keep (ipTotalLen l), (Pkt.keep_hdr hmin htot hle).1, (Pkt.keep_hdr hmin htot hle).2⟩

/-- Where a datagram with a good header goes. -/
def routeVerdict (s : Stack) (dev : DevIdx) (q : IpPkt) : List Stat × Verdict :=
  let dst := ipDaddr q.pkt.data
  if !stackOwnsIp s dst then
    if ip4IsMulticast dst || (s.devs dev).broadcasts dst then ([.ipRxBcastIgnored], .act .quiet)
    else if s.forwarding then ((forwardAct s dev q).1, .act (forwardAct s dev q).2)
    else ([.ipRxNotForUs], .act .quiet)
  else if ipFragOff q.pkt.data &&& (ipFragMf ||| ipFragOffmask) ≠ 0 then
    ([.ipFragsRx], .frag q.datagram)
  else ((deliverAct s q.datagram).1, .act (deliverAct s q.datagram).2)

def ipVerdict (s : Stack) (dev : DevIdx) (p : Pkt) : List Stat × Verdict :=
  tally .ipRx <|
    match ipParse p with
    | .error c => ([c], .act .quiet)
    | .ok q => routeVerdict s dev q

def ethVerdict (s : Stack) (dev : DevIdx) (p : Pkt) : List Stat × Verdict :=
  tally .ethRxFrames <|
    if h : ethHdrLen ≤ p.len then
      let dst := Mac.read p.data 0
      let q := p.skip ethHdrLen h
      if dst ≠ (s.devs dev).mac ∧ !dst.group then ([.ethRxOtherDest], .act .quiet)
      else if be16 p.data 12 = ethTypeArp then ([], .arp q)
      else if be16 p.data 12 = ethTypeIp4 then ipVerdict s dev q
      else ([.ethRxUnknownEthertype], .act .quiet)
    else ([.ethRxRunts], .act .quiet)

/-! ### Doing it -/

def Stack.counts (s : Stack) (cs : List Stat) : Stack := cs.foldl Stack.count s

def perform (s : Stack) (now : Nat) : Action → Except Fault Stack
  | .quiet => .ok s
  | .echo d => do
    let rp ← pktTx (icmpEchoReply d.payload)
    ipOutput s now (ipDaddr d.bytes) (ipSaddr d.bytes) ipProtoIcmp ipDefaultTtl rp
  | .error orig type code => icmpSendError s now orig type code
  | .hop out nextHop p => arpOutput s now out nextHop p
  | .queue sk x => .ok (s.pushRx sk x)
  | .segment g => s.runHost now (tcpInput now g)
  | .null => .error .null

/-- Give a fragment to reassembly, and deliver what it hands up. -/
def reassemble (s : Stack) (now : Nat) (heap : Nat → UInt8) (dev : DevIdx) (d : Datagram) :
    Except Fault Stack :=
  let r := ipReassInput s.reass now (some dev) heap d
  deliverAll now (s.putReass r) r.delivered

def runVerdict (s : Stack) (now : Nat) (heap : Nat → UInt8) (dev : DevIdx) :
    Verdict → Except Fault Stack
  | .act a => perform s now a
  | .arp p => s.putArp <$> arpInput s.devs now dev p s.arp
  | .frag d => reassemble s now heap dev d

def deliver (s : Stack) (now : Nat) (d : Datagram) : Except Fault Stack :=
  let r := deliverAct s d
  perform (s.counts r.1) now r.2

/-! ### Lengths -/

theorem icmpSeal_length (m : List UInt8) : (icmpSeal m).length = m.length := by
  unfold icmpSeal
  simp only [putBe16_length]

theorem icmpEchoReply_length (m : List UInt8) : (icmpEchoReply m).length = m.length := by
  rw [icmpEchoReply, icmpSeal_length, List.length_set]

theorem icmpErrorMsg_length (quote : List UInt8) (type code : UInt8) :
    (icmpErrorMsg quote type code).length = quote.length + 8 := by
  rw [icmpErrorMsg, icmpSeal_length, List.length_append, Nat.add_comm]
  rfl

theorem tcpBytes_length (g : Seg) :
    (tcpBytes g).length = tcpHdrMin + g.opts.length + g.payload.length := by
  unfold tcpBytes
  simp only [putBe16_length, List.length_append]
  rfl

/-! ### The code does what the actions say -/

theorem readAt_take {l : List UInt8} {n : Nat} (h : n ≤ l.length) :
    readAt l 0 n = .ok (l.take n) := by
  rw [readAt_ok (by omega), List.drop_zero]

/-- The rules of `icmp_send_error` allow an error about the datagram. -/
def errorAllowed (orig : List UInt8) : Prop :=
  ipv4HdrMin ≤ ipHdrLen orig ∧ ipHdrLen orig ≤ orig.length ∧
    ipFragOff orig &&& ipFragOffmask = 0 ∧ icmpNoErrorTo (ipSaddr orig) = false ∧
    icmpNoErrorAbout (ipDaddr orig) = false ∧
    ¬ (ipProto orig = ipProtoIcmp ∧ ipHdrLen orig < orig.length ∧
      icmpTypeIsError (orig.getD (ipHdrLen orig) 0) = true)

instance (orig : List UInt8) : Decidable (errorAllowed orig) := inferInstanceAs (Decidable (_ ∧ _))

theorem icmpSendError_eq (s : Stack) (now : Nat) (orig : List UInt8) (type code : UInt8) :
    icmpSendError s now orig type code =
      if errorAllowed orig then
        if icmpTooSoon s now then .ok (s.count .icmpErrSuppressed)
        else icmpTransmitError s now orig type code
      else .ok s := by
  unfold icmpSendError
  split
  · rename_i hshort
    rw [if_neg fun h => absurd (h.1.trans h.2.1) (Nat.not_le.mpr hshort)]
  rename_i hlen
  rw [readAt_take (Nat.not_lt.mp hlen), ok_bind]
  simp only [ipHdrLen_hdr, ipFragOff_hdr, ipSaddr_hdr, ipDaddr_hdr, ipProto_hdr]
  split
  · rename_i hihl
    rw [if_neg fun h => hihl.elim (Nat.not_lt.mpr h.1) (Nat.not_lt.mpr h.2.1)]
    rfl
  rename_i hihl
  simp only [not_or, not_lt] at hihl
  split
  · rename_i hfrag
    rw [if_neg fun h => hfrag h.2.2.1]
    rfl
  rename_i hfrag
  split
  · rename_i hto
    rw [if_neg fun h => by rw [h.2.2.2.1] at hto; cases hto]
    rfl
  rename_i hto
  split
  · rename_i habout
    rw [if_neg fun h => by rw [h.2.2.2.2.1] at habout; cases habout]
    rfl
  rename_i habout
  have hallowed (hinner : ¬ (ipProto orig = ipProtoIcmp ∧ ipHdrLen orig < orig.length ∧
      icmpTypeIsError (orig.getD (ipHdrLen orig) 0) = true)) : errorAllowed orig :=
    ⟨hihl.1, hihl.2, not_not.mp hfrag, Bool.not_eq_true _ ▸ hto, Bool.not_eq_true _ ▸ habout,
      hinner⟩
  unfold icmpQuoted
  by_cases hicmp : ipProto orig = ipProtoIcmp ∧ orig.length ≥ ipHdrLen orig + 1
  · have hone : (orig.drop (ipHdrLen orig)).take 1 = [orig.getD (ipHdrLen orig) 0] := by
      rw [List.drop_eq_getElem_cons (by omega), List.take_succ_cons, List.take_zero,
        List.getD_eq_getElem?_getD, List.getElem?_eq_getElem (by omega), Option.getD_some]
    rw [if_pos hicmp, readAt_ok (by omega), ok_bind, hone, List.any_cons, List.any_nil,
      Bool.or_false]
    split
    · rename_i herr
      rw [if_neg fun h => h.2.2.2.2.2 ⟨hicmp.1, hicmp.2, herr⟩]
      rfl
    · rename_i herr
      rw [if_pos (hallowed fun h => herr h.2.2)]
      rfl
  · rw [if_neg hicmp, ok_bind, List.any_nil, if_neg Bool.false_ne_true,
      if_pos (hallowed fun h => hicmp ⟨h.1, h.2.1⟩)]
    rfl

section Refines

variable (s : Stack) (now : Nat) (q : IpPkt)

theorem IpPkt.len_ge : ipv4HdrMin ≤ q.pkt.len := q.hdr_min.trans q.hdr_le

theorem IpPkt.view_hdr : q.pkt.view 0 ipv4HdrMin = .ok (q.pkt.data.take ipv4HdrMin) :=
  readAt_take q.len_ge

theorem IpPkt.payload_length : q.datagram.payload.length = q.pkt.len - ipHdrLen q.pkt.data :=
  List.length_drop

theorem IpPkt.view_payload (off n : Nat) (h : off + n ≤ q.datagram.payload.length) :
    q.pkt.view (ipHdrLen q.pkt.data + off) n = .ok ((q.datagram.payload.drop off).take n) := by
  rw [q.payload_length] at h
  have hle := q.hdr_le
  rw [Pkt.view_ok (by omega), Datagram.payload, List.drop_drop]
  rfl

theorem IpPkt.view_start (n : Nat) (h : n ≤ q.datagram.payload.length) :
    q.pkt.view (ipHdrLen q.pkt.data) n = .ok (q.datagram.payload.take n) := by
  have hview := q.view_payload 0 n (by omega)
  rwa [Nat.add_zero, List.drop_zero] at hview

theorem IpPkt.view_all :
    q.pkt.view (ipHdrLen q.pkt.data) q.datagram.payload.length = .ok q.datagram.payload := by
  rw [q.view_start _ le_rfl, List.take_length]

theorem icmpInput_eq : icmpInput s now q.pkt =
    perform ((s.count .icmpRx).counts (icmpAct q.datagram).1) now (icmpAct q.datagram).2 := by
  have hlen := q.payload_length
  unfold icmpInput icmpAct
  simp only [q.view_hdr, ok_bind, ipHdrLen_hdr, subLen_ok q.hdr_le, ← hlen]
  split
  · rfl
  simp only [q.view_all, ok_bind]
  split
  · rfl
  split
  · split
    · rfl
    · simp only [ipDaddr_hdr, ipSaddr_hdr]
      rfl
  split
  · rfl
  split
  · rfl
  · rfl

/-- Counting leaves everything but the counters alone. -/
theorem Stack.counts_eq (cs : List Stat) :
    s.counts cs = { s with stats := (s.counts cs).stats } := by
  induction cs using List.reverseRecOn with
  | nil => rfl
  | append_singleton cs c ih =>
    have hone : s.counts (cs ++ [c]) = (s.counts cs).count c := by
      rw [Stack.counts, List.foldl_append]
      rfl
    rw [hone, ih]
    rfl

theorem pfSockLookupUdp_congr {h h' : Host} (hsocks : h.socks = h'.socks) (ip : UInt32)
    (port : UInt16) : pfSockLookupUdp h ip port = pfSockLookupUdp h' ip port := by
  have hloop (order : List SockIdx) (w : Option SockIdx) :
      udpLookupLoop h ip port order w = udpLookupLoop h' ip port order w := by
    induction order generalizing w with
    | nil => rfl
    | cons i rest ih => simp only [udpLookupLoop, hsocks, ih]
  exact hloop _ none

theorem udpSockAct_congr {s t : Stack} (h : s.socks = t.socks) (d : Datagram) :
    udpSockAct s d = udpSockAct t d := by
  have hlook : ∀ ip port, pfSockLookupUdp s.host ip port = pfSockLookupUdp t.host ip port :=
    pfSockLookupUdp_congr h
  unfold udpSockAct
  simp only [hlook, h]

theorem udpAct_congr {s t : Stack} (h : s.socks = t.socks) (d : Datagram) :
    udpAct s d = udpAct t d := by
  unfold udpAct
  simp only [udpSockAct_congr h]

theorem udpSockAct_count (s : Stack) (c : Stat) (d : Datagram) :
    udpSockAct (s.count c) d = udpSockAct s d :=
  udpSockAct_congr (s := s.count c) (t := s) rfl d

theorem udpAct_count (s : Stack) (c : Stat) (d : Datagram) : udpAct (s.count c) d = udpAct s d :=
  udpAct_congr (s := s.count c) (t := s) rfl d

theorem deliverAct_congr {s t : Stack} (h : s.socks = t.socks) (d : Datagram) :
    deliverAct s d = deliverAct t d := by
  unfold deliverAct
  rw [udpAct_congr h]

theorem udpToSock_eq
    (hmin : udpHdrLen ≤ (be16 q.datagram.payload 4).toNat)
    (hle : (be16 q.datagram.payload 4).toNat ≤ q.datagram.payload.length) :
    udpToSock s now q.pkt (ipHdrLen q.pkt.data) (be16 q.datagram.payload 4).toNat
        (ipSaddr q.pkt.data) (ipDaddr q.pkt.data) (be16 q.datagram.payload 0)
        (be16 q.datagram.payload 2) =
      perform (s.counts (udpSockAct s q.datagram).1) now (udpSockAct s q.datagram).2 := by
  have hbytes : q.datagram.bytes = q.pkt.data := rfl
  unfold udpToSock udpSockAct
  simp only [hbytes]
  cases pfSockLookupUdp s.host (ipDaddr q.pkt.data) (be16 q.datagram.payload 2) with
  | none => rfl
  | some sk =>
    simp only
    split
    · rfl
    · have hlen := q.payload_length
      have hihl := q.hdr_le
      have hpull : ipHdrLen q.pkt.data + udpHdrLen ≤ q.pkt.len := by omega
      have htrim : (be16 q.datagram.payload 4).toNat - udpHdrLen ≤ (q.pkt.skip _ hpull).len := by
        rw [Pkt.skip_len]
        omega
      rw [subLen_ok hmin, ok_bind, pktPull_ok hpull, ok_bind, pktTrim_ok htrim, ok_bind]
      have hdata :
          ((q.pkt.skip _ hpull).keep ((be16 q.datagram.payload 4).toNat - udpHdrLen)).data =
            (q.datagram.payload.drop udpHdrLen).take
              ((be16 q.datagram.payload 4).toNat - udpHdrLen) := by
        rw [Datagram.payload, List.drop_drop]
        rfl
      rw [hdata]
      rfl

theorem udpInput_eq : udpInput s now q.pkt =
    perform ((s.count .udpRx).counts (udpAct s q.datagram).1) now (udpAct s q.datagram).2 := by
  have hlen := q.payload_length
  unfold udpInput udpAct
  simp only [q.view_hdr, ok_bind, ipHdrLen_hdr, ipSaddr_hdr, ipDaddr_hdr, subLen_ok q.hdr_le,
    ← hlen]
  split
  · rfl
  rename_i hmin
  have huh := q.view_start udpHdrLen (by omega)
  simp only [huh, ok_bind, be16_take (show 4 + 1 < udpHdrLen by decide),
    be16_take (show 6 + 1 < udpHdrLen by decide), be16_take (show 2 + 1 < udpHdrLen by decide),
    be16_take (show 0 + 1 < udpHdrLen by decide)]
  split
  · rfl
  rename_i hulen
  simp only [not_or, not_lt] at hulen
  split
  · rw [udpToSock_eq _ now q hulen.1 hulen.2, udpSockAct_count, udpSockAct_count]
    rfl
  have hview := q.view_start (be16 q.datagram.payload 4).toNat (by omega)
  simp only [hview, ok_bind]
  have hbytes : q.datagram.bytes = q.pkt.data := rfl
  simp only [hbytes]
  split
  · rfl
  · rw [udpToSock_eq _ now q hulen.1 hulen.2, udpSockAct_count]

variable (heap : Nat → UInt8) (dev : DevIdx) (p : Pkt)

/-- The walk over the options reads only the option area, and finds there what the
list of its bytes gives. -/
theorem parseMssAt_eq (fuel off left : Nat) (mss : UInt16) (h : off + left ≤ p.len) :
    parseMssAt p fuel off left mss = .ok (parseMssLoop fuel ((p.data.drop off).take left) mss) := by
  induction fuel generalizing off left mss with
  | zero => rfl
  | succ fuel ih =>
    cases left with
    | zero => rw [List.take_zero]; rfl
    | succ left =>
      have hlen : p.len = p.data.length := rfl
      have hcons : p.data.drop off = p.data[off] :: p.data.drop (off + 1) :=
        List.drop_eq_getElem_cons (by omega)
      have hview : p.view off 1 = .ok [p.data[off]] := by
        rw [Pkt.view_ok (by omega), hcons]
        rfl
      unfold parseMssAt
      rw [if_neg (Nat.succ_ne_zero left), hview, ok_bind, hcons, List.take_succ_cons,
        parseMssLoop.eq_def]
      simp only [List.getD_cons_zero]
      split
      · rfl
      split
      · exact ih (off + 1) left mss (by omega)
      cases left with
      | zero => rfl
      | succ left =>
        have hcons' : p.data.drop (off + 1) = p.data[off + 1] :: p.data.drop (off + 2) :=
          List.drop_eq_getElem_cons (by omega)
        have hview' : p.view (off + 1) 1 = .ok [p.data[off + 1]] := by
          rw [Pkt.view_ok (by omega), hcons']
          rfl
        rw [if_neg (by omega), hview', ok_bind, hcons', List.take_succ_cons]
        simp only [List.getD_cons_zero, List.length_cons, List.length_take, List.length_drop]
        have hmin : min left (p.data.length - (off + 2)) + 1 + 1 = left + 1 + 1 := by omega
        rw [hmin]
        split
        · rfl
        rename_i hbad
        simp only [not_or, not_lt] at hbad
        -- what is left of the area once the option is skipped
        have hrest : (p.data[off] :: p.data[off + 1] :: (p.data.drop (off + 2)).take left).drop
            p.data[off + 1].toNat = (p.data.drop (off + p.data[off + 1].toNat)).take
              (left + 1 + 1 - p.data[off + 1].toNat) := by
          rw [← List.take_succ_cons, ← hcons', ← List.take_succ_cons, ← hcons, List.drop_take,
            List.drop_drop]
        rw [hrest]
        split
        · rename_i hmss
          have hfour : p.data[off + 1].toNat = 4 := by rw [hmss.2]; rfl
          have hread : p.view (off + 2) 2 = .ok ((p.data.drop (off + 2)).take 2) :=
            Pkt.view_ok (by omega)
          have hval : be16 ((p.data.drop (off + 2)).take 2) 0 =
              be16 ((p.data.drop (off + 2)).take left) 0 := by
            rw [be16_take (by omega), be16_take (by omega)]
          rw [hread]
          change parseMssAt p fuel _ _ (be16 ((p.data.drop (off + 2)).take 2) 0) =
            .ok (parseMssLoop fuel _ (be16 ((p.data.drop (off + 2)).take left) 0))
          rw [hval]
          exact ih _ _ _ (by omega)
        · exact ih _ _ mss (by omega)

theorem tcpInputPkt_eq : tcpInputPkt s now q.pkt =
    perform (s.counts (tcpAct q.datagram).1) now (tcpAct q.datagram).2 := by
  have hlen := q.payload_length
  have hihl := q.hdr_le
  have hbytes : q.datagram.bytes = q.pkt.data := rfl
  unfold tcpInputPkt tcpAct
  simp only [q.view_hdr, ok_bind, ipHdrLen_hdr, ipSaddr_hdr, ipDaddr_hdr, subLen_ok hihl, ← hlen,
    hbytes]
  split
  · rfl
  have hth := q.view_start tcpHdrMin (by omega)
  have hhl : ((q.datagram.payload.take tcpHdrMin).getD 12 0 >>> 4 * 4).toNat =
      tcpHdrLen q.datagram.payload := by
    rw [getD_take (by decide)]
    rfl
  simp only [hth, ok_bind, hhl]
  split
  · rfl
  rename_i hhdr
  simp only [not_or, not_lt] at hhdr
  simp only [q.view_all, ok_bind]
  split
  · rfl
  have hopts := q.view_payload tcpHdrMin (tcpHdrLen q.datagram.payload - tcpHdrMin) (by omega)
  have hpay := q.view_payload (tcpHdrLen q.datagram.payload)
    (q.datagram.payload.length - tcpHdrLen q.datagram.payload) (by omega)
  rw [List.take_of_length_le (List.length_drop).le] at hpay
  simp only [subLen_ok hhdr.1, subLen_ok hhdr.2, ok_bind, hopts, hpay,
    be16_take (l := q.datagram.payload) (show 0 + 1 < tcpHdrMin by decide),
    be16_take (l := q.datagram.payload) (show 2 + 1 < tcpHdrMin by decide),
    be16_take (l := q.datagram.payload) (show 14 + 1 < tcpHdrMin by decide),
    be32_take (l := q.datagram.payload) (show 4 + 3 < tcpHdrMin by decide),
    be32_take (l := q.datagram.payload) (show 8 + 3 < tcpHdrMin by decide),
    getD_take (l := q.datagram.payload) (show 13 < tcpHdrMin by decide)]
  rw [dif_pos (tcpSeg_payload_lt q.datagram _)]
  split
  · rw [parseMssAt_eq q.pkt _ _ _ _ (by omega), ok_bind]
    rfl
  · rfl

theorem ipLocalDeliver_eq : ipLocalDeliver s now q.pkt = deliver s now q.datagram := by
  have hbytes : q.datagram.bytes = q.pkt.data := rfl
  unfold ipLocalDeliver deliver deliverAct
  simp only [q.view_hdr, ok_bind, ipProto_hdr, hbytes]
  split
  · rw [icmpInput_eq]
    rfl
  split
  · rw [udpInput_eq, udpAct_count]
    rfl
  split
  · rw [tcpInputPkt_eq]
    rfl
  · rfl

theorem ipForward_eq (indev : DevIdx) : ipForward s now indev q.pkt =
    perform (s.counts (forwardAct s indev q).1) now (forwardAct s indev q).2 := by
  unfold ipForward forwardAct
  simp only [q.view_hdr, ok_bind, ipDaddr_hdr, ipTtl_hdr, ipFragOff_hdr]
  split
  · rfl
  split
  · rfl
  split
  · rfl
  cases fibLookup s.fib (ipDaddr q.pkt.data) with
  | none => rfl
  | some r =>
    simp only
    cases (s.fib.pool r).dev with
    | none => rfl
    | some out =>
      simp only
      split
      · split <;> rfl
      · split <;> rfl

theorem deliverAct_count (s : Stack) (c : Stat) (d : Datagram) :
    deliverAct (s.count c) d = deliverAct s d :=
  deliverAct_congr (s := s.count c) (t := s) rfl d

theorem routeVerdict_count (s : Stack) (c : Stat) (dev : DevIdx) (q : IpPkt) :
    routeVerdict (s.count c) dev q = routeVerdict s dev q := by
  unfold routeVerdict
  simp only [deliverAct_count]
  rfl

theorem ipVerdict_count (s : Stack) (c : Stat) (dev : DevIdx) (p : Pkt) :
    ipVerdict (s.count c) dev p = ipVerdict s dev p := by
  unfold ipVerdict
  simp only [routeVerdict_count]

/-- The copies that reassembly makes stay in their buffers. -/
theorem reassWrites_ok (r : Reass) (heap : Nat → UInt8) (dev : DevIdx) (d : Datagram) :
    reassWrites r now dev heap d = .ok () := by
  unfold reassWrites
  simp only
  split
  · rfl
  · rename_i hadd
    obtain ⟨ranges, htakes, -⟩ := ctxAdd_ok.mp hadd
    rw [writeAt_ok htakes.fits, ok_bind]
    split
    · exact writeAt_ok (by rw [Nat.zero_add]; exact ipHdrLen_le d.bytes)
    · rfl

theorem ipReassPkt_eq : ipReassPkt s now heap dev q.pkt = reassemble s now heap dev q.datagram := by
  have hlen := q.payload_length
  have hihl := q.hdr_le
  have hhdr : q.pkt.view 0 (ipHdrLen q.pkt.data) = .ok (q.pkt.data.take (ipHdrLen q.pkt.data)) :=
    readAt_take hihl
  have hpay := q.view_start (q.pkt.len - ipHdrLen q.pkt.data) (by omega)
  have hok : ipv4HdrMin ≤ ipHdrLen q.pkt.data ∧ ipHdrLen q.pkt.data ≤ q.pkt.data.length ∧
      q.pkt.data.length < 65536 := ⟨q.hdr_min, hihl, q.pkt.len_lt⟩
  unfold ipReassPkt reassemble
  simp only [q.view_hdr, ok_bind, ipHdrLen_hdr, subLen_ok hihl, hhdr, hpay, dif_pos hok,
    reassWrites_ok]
  split <;> rfl

theorem ipDispatch_eq : ipDispatch s now heap dev q.pkt =
    if ip4BadSrc (ipSaddr q.pkt.data) then .ok (s.count .ipRxBadSrc)
    else runVerdict (s.counts (routeVerdict s dev q).1) now heap dev (routeVerdict s dev q).2 := by
  unfold ipDispatch routeVerdict
  simp only [q.view_hdr, ok_bind, ipSaddr_hdr, ipDaddr_hdr, ipFragOff_hdr]
  split
  · rfl
  split
  · split
    · rfl
    split
    · exact ipForward_eq s now q dev
    · rfl
  split
  · exact ipReassPkt_eq _ now q heap dev
  · exact ipLocalDeliver_eq s now q

theorem Pkt.keep_len : p.keep p.len = p := by
  have h : p.data.take p.len = p.data := List.take_length
  cases p
  simp only [Pkt.keep, Pkt.len] at h ⊢
  simp only [h]

theorem stripPadding_eq {p : Pkt} {total : Nat} (h : total ≤ p.len) :
    stripPadding p total = .ok (p.keep total) := by
  unfold stripPadding
  split
  · exact pktTrim_ok h
  · rw [show total = p.len by omega, p.keep_len]

theorem ipInput_eq :
    ipInput s now heap dev p =
      runVerdict (s.counts (ipVerdict s dev p).1) now heap dev (ipVerdict s dev p).2 := by
  unfold ipInput ipVerdict ipParse
  simp only
  split
  · rfl
  rename_i hlen
  rw [show p.view 0 ipv4HdrMin = .ok (p.data.take ipv4HdrMin) from readAt_take (Nat.not_lt.mp hlen)]
  simp only [ok_bind, ipHdrLen_hdr, ipTotalLen_hdr, ipVersion_hdr]
  split
  · rfl
  split
  · rfl
  rename_i hmin
  split
  · rfl
  split
  · rfl
  rename_i htot
  split
  · rfl
  rename_i hle
  have htwenty : 20 ≤ ipTotalLen p.data := (Nat.not_lt.mp hmin).trans (Nat.not_lt.mp htot)
  have hihl : ipHdrLen (p.keep (ipTotalLen p.data)).data = ipHdrLen p.data :=
    ipHdrLen_take (by omega)
  have hview : (p.keep (ipTotalLen p.data)).view 0 (ipHdrLen p.data) =
      .ok (p.data.take (ipHdrLen p.data)) := by
    have hfit := (Pkt.keep_hdr hmin htot hle).2
    rw [hihl] at hfit
    rw [Pkt.view, readAt_take hfit, Pkt.keep, List.take_take, Nat.min_eq_left (by omega)]
  have hsrc : ipSaddr (p.keep (ipTotalLen p.data)).data = ipSaddr p.data := be32_take (by omega)
  have hgood := Pkt.keep_hdr hmin htot hle
  rw [stripPadding_eq (by omega), ok_bind, hview, ok_bind]
  split
  · rfl
  have hdispatch := ipDispatch_eq (s.count .ipRx) now ⟨p.keep (ipTotalLen p.data), hgood.1, hgood.2⟩
    heap dev
  rw [hdispatch, hsrc, routeVerdict_count]
  split <;> rfl

theorem ethInput_eq :
    ethInput s now heap dev p =
      runVerdict (s.counts (ethVerdict s dev p).1) now heap dev (ethVerdict s dev p).2 := by
  unfold ethInput ethVerdict
  simp only
  by_cases hlen : ethHdrLen ≤ p.len
  · have hmac : Mac.read (p.data.take ethHdrLen) 0 = Mac.read p.data 0 := by
      simp only [Mac.read, getD_take (show 0 < ethHdrLen by decide),
        getD_take (show 0 + 1 < ethHdrLen by decide), getD_take (show 0 + 2 < ethHdrLen by decide),
        getD_take (show 0 + 3 < ethHdrLen by decide), getD_take (show 0 + 4 < ethHdrLen by decide),
        getD_take (show 0 + 5 < ethHdrLen by decide)]
    rw [if_neg (Nat.not_lt.mpr hlen), dif_pos hlen]
    rw [show p.view 0 ethHdrLen = .ok (p.data.take ethHdrLen) from readAt_take hlen]
    have hdevs : (s.count .ethRxFrames).devs = s.devs := rfl
    simp only [ok_bind, hmac, be16_take (show 12 + 1 < ethHdrLen by decide), hdevs]
    split
    · rfl
    · rw [pktPull_ok hlen, ok_bind]
      split
      · rfl
      split
      · rw [ipInput_eq, ipVerdict_count]
        rfl
      · rfl
  · rw [if_pos (Nat.lt_of_not_le hlen), dif_neg hlen]
    rfl

end Refines

end PacketForge
