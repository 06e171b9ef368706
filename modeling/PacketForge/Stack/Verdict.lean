import PacketForge.Stack.Action

/-!
What a verdict says about the frame it was reached about: the checks that the
packet has passed when something is done with it.
-/

namespace PacketForge

inductive Delivers (d : Datagram) : Action → Prop where
  | quiet : Delivers d .quiet
  | echo (hproto : ipProto d.bytes = ipProtoIcmp) (hlen : icmpHdrLen ≤ d.payload.length)
      (hcsum : inetCsum d.payload = 0) (htype : d.payload.getD 0 0 = icmpTypeEchoRequest)
      (hcode : d.payload.getD 1 0 = 0) : Delivers d (.echo d)
  | error {type code : UInt8} (hproto : ipProto d.bytes ≠ ipProtoIcmp) :
      Delivers d (.error d.bytes type code)
  | queue (sk : SockIdx) (x : RxPkt) : Delivers d (.queue sk x)
  | segment (hproto : ipProto d.bytes = ipProtoTcp) : Delivers d (.segment (tcpSeg d))

section Deliver

variable {d : Datagram}

theorem icmpAct_delivers (hproto : ipProto d.bytes = ipProtoIcmp) : Delivers d (icmpAct d).2 := by
  unfold icmpAct
  simp only
  split
  · exact .quiet
  rename_i hlen
  split
  · exact .quiet
  rename_i hcsum
  split
  · rename_i htype
    split
    · exact .quiet
    · rename_i hcode
      exact .echo hproto (Nat.not_lt.mp hlen) (not_not.mp hcsum) htype (not_not.mp hcode)
  split
  · exact .quiet
  split
  · exact .quiet
  · exact .quiet

theorem udpSockAct_delivers (s : Stack) (hproto : ipProto d.bytes ≠ ipProtoIcmp) :
    Delivers d (udpSockAct s d).2 := by
  unfold udpSockAct
  simp only
  split
  · exact .error hproto
  split
  · exact .quiet
  · exact .queue _ _

theorem udpAct_delivers (s : Stack) (hproto : ipProto d.bytes ≠ ipProtoIcmp) :
    Delivers d (udpAct s d).2 := by
  unfold udpAct
  simp only
  split
  · exact .quiet
  split
  · exact .quiet
  split
  · exact udpSockAct_delivers s hproto
  split
  · exact .quiet
  · exact udpSockAct_delivers s hproto

theorem tcpAct_delivers (hproto : ipProto d.bytes = ipProtoTcp) : Delivers d (tcpAct d).2 := by
  unfold tcpAct
  simp only
  split
  · exact .quiet
  split
  · exact .quiet
  split
  · exact .quiet
  · exact .segment hproto

theorem deliverAct_delivers (s : Stack) (d : Datagram) : Delivers d (deliverAct s d).2 := by
  unfold deliverAct tally
  simp only
  split
  · exact icmpAct_delivers (by assumption)
  rename_i hicmp
  split
  · exact udpAct_delivers s hicmp
  split
  · exact tcpAct_delivers (by assumption)
  · exact .error hicmp

end Deliver

inductive Forwards (s : Stack) (q : IpPkt) : Action → Prop where
  | quiet : Forwards s q .quiet
  | error {type code : UInt8}
      (hdst : ¬ (ip4IsLoopback (ipDaddr q.pkt.data) = true ∨
        ip4IsMulticast (ipDaddr q.pkt.data) = true ∨ ip4IsExperimental (ipDaddr q.pkt.data) = true))
      (hdirected : s.anyDev (fun d => d.ip ≠ 0 && ipDaddr q.pkt.data = d.subnetBcast) = false) :
      Forwards s q (.error q.pkt.data type code)
  | hop (out : DevIdx) (nextHop : UInt32) :
      Forwards s q (.hop out nextHop (q.pkt.edit (decTtl q.pkt.data) (decTtl_length q.pkt.data)))
  | null {r : Fin fibMaxRoutes} (hfind : fibLookup s.fib (ipDaddr q.pkt.data) = some r)
      (hdev : (s.fib.pool r).dev = none) : Forwards s q .null

theorem forwardAct_forwards (s : Stack) (dev : DevIdx) (q : IpPkt) :
    Forwards s q (forwardAct s dev q).2 := by
  unfold forwardAct
  simp only
  split
  · exact .quiet
  rename_i hdst
  split
  · exact .quiet
  rename_i hdirected
  have hdirected := Bool.not_eq_true _ ▸ hdirected
  split
  · exact .error hdst hdirected
  split
  · exact .error hdst hdirected
  rename_i r hfind
  split
  · rename_i hdev
    exact .null hfind hdev
  split
  · simp only
    split
    · exact .error hdst hdirected
    · exact .quiet
  · exact .hop _ _

/-- A frame brings a packet with a good IP header to an interface. -/
structure Arrives (s : Stack) (dev : DevIdx) (p : Pkt) (q : IpPkt) : Prop where
  hdr : ethHdrLen ≤ p.len
  forUs : Mac.read p.data 0 = (s.devs dev).mac ∨ (Mac.read p.data 0).group = true
  type : be16 p.data 12 = ethTypeIp4
  parse : ipParse (p.skip ethHdrLen hdr) = .ok q

/-- What is decided about a frame. -/
inductive Judged (s : Stack) (dev : DevIdx) (p : Pkt) : Verdict → Prop where
  | quiet : Judged s dev p (.act .quiet)
  | arp (hdr : ethHdrLen ≤ p.len) : Judged s dev p (.arp (p.skip ethHdrLen hdr))
  | forward {q : IpPkt} (h : Arrives s dev p q)
      (hforeign : stackOwnsIp s (ipDaddr q.pkt.data) = false)
      (hunicast : (ip4IsMulticast (ipDaddr q.pkt.data) ||
        (s.devs dev).broadcasts (ipDaddr q.pkt.data)) = false)
      (hon : s.forwarding = true) : Judged s dev p (.act (forwardAct s dev q).2)
  | deliver {q : IpPkt} (h : Arrives s dev p q)
      (hours : stackOwnsIp s (ipDaddr q.pkt.data) = true)
      (hwhole : ipFragOff q.pkt.data &&& (ipFragMf ||| ipFragOffmask) = 0) :
      Judged s dev p (.act (deliverAct s q.datagram).2)
  | frag {q : IpPkt} (h : Arrives s dev p q)
      (hours : stackOwnsIp s (ipDaddr q.pkt.data) = true)
      (hpart : ipFragOff q.pkt.data &&& (ipFragMf ||| ipFragOffmask) ≠ 0) :
      Judged s dev p (.frag q.datagram)

theorem routeVerdict_judged {s : Stack} {dev : DevIdx} {p : Pkt} {q : IpPkt}
    (h : Arrives s dev p q) : Judged s dev p (routeVerdict s dev q).2 := by
  unfold routeVerdict
  simp only
  split
  · rename_i hforeign
    have hforeign := (Bool.not_eq_true' _).mp hforeign
    split
    · exact .quiet
    rename_i hunicast
    split
    · exact .forward h hforeign (Bool.not_eq_true _ ▸ hunicast) (by assumption)
    · exact .quiet
  rename_i hours
  have hours : stackOwnsIp s (ipDaddr q.pkt.data) = true := by simpa using hours
  split
  · exact .frag h hours (by assumption)
  · rename_i hwhole
    exact .deliver h hours (not_not.mp hwhole)

theorem ethVerdict_judged (s : Stack) (dev : DevIdx) (p : Pkt) :
    Judged s dev p (ethVerdict s dev p).2 := by
  unfold ethVerdict tally
  simp only
  split
  · rename_i hdr
    split
    · exact .quiet
    rename_i hmac
    have forUs : Mac.read p.data 0 = (s.devs dev).mac ∨ (Mac.read p.data 0).group = true := by
      by_contra hno
      rw [not_or] at hno
      exact hmac ⟨hno.1, by simpa using hno.2⟩
    split
    · exact .arp hdr
    split
    · rename_i htype
      unfold ipVerdict tally
      simp only
      cases hparse : ipParse (p.skip ethHdrLen hdr) with
      | error c => exact .quiet
      | ok q => exact routeVerdict_judged ⟨hdr, forUs, htype, hparse⟩
    · exact .quiet
  · exact .quiet

end PacketForge
