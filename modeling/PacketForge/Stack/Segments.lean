import PacketForge.Host.Isolation
import PacketForge.Stack.Frame

/-!
Received segments on the whole stack: `tcp_input` runs the input processing on
its part of the state and transmits what TCP has to say, and transmitting leaves
the tables alone.
-/

namespace PacketForge

open Checked

section Segments

variable {s s' : Stack} {now : Nat} {q : IpPkt}

/-- One of the tests of `tcp_input` before the lookup fails. -/
def TcpRejects (d : Datagram) : Prop :=
  d.payload.length < tcpHdrMin ∨ tcpHdrLen d.payload < tcpHdrMin ∨
    d.payload.length < tcpHdrLen d.payload ∨
    l4Csum (ipSaddr d.bytes) (ipDaddr d.bytes) ipProtoTcp d.payload ≠ 0

instance (d : Datagram) : Decidable (TcpRejects d) := inferInstanceAs (Decidable (_ ∨ _))

theorem tcpAct_of_rejects {d : Datagram} (h : TcpRejects d) : (tcpAct d).2 = .quiet := by
  unfold tcpAct
  simp only
  split
  · rfl
  rename_i hlen
  split
  · rfl
  rename_i hhdr
  split
  · rfl
  rename_i hcsum
  rcases h with h | h | h | h
  · exact absurd h hlen
  · exact absurd (Or.inl h) hhdr
  · exact absurd (Or.inr h) hhdr
  · exact absurd h hcsum

theorem tcpAct_of_accepts {d : Datagram} (h : ¬ TcpRejects d) :
    tcpAct d = ([], .segment (tcpSeg d)) := by
  simp only [TcpRejects, not_or] at h
  unfold tcpAct
  simp only
  rw [if_neg h.1, if_neg fun hbad => hbad.elim h.2.1 h.2.2.1, if_neg h.2.2.2]

theorem Stack.counts_tables (s : Stack) (cs : List Stat) :
    (s.counts cs).host.tables = s.host.tables := by
  rw [Stack.counts_eq]
  rfl

/-- A segment affects only its own connection, and none when it fails a test. -/
theorem segment_keeps_to_its_connection (h : tcpInputPkt s now q.pkt = .ok s') :
    SegmentFrame s.host (tcpSeg q.datagram) s'.host ∧
      (TcpRejects q.datagram → s'.tcbs = s.tcbs ∧ s'.socks = s.socks) := by
  rw [tcpInputPkt_eq] at h
  by_cases hrej : TcpRejects q.datagram
  · rw [tcpAct_of_rejects hrej] at h
    cases h
    have htables := s.counts_tables (tcpAct q.datagram).1
    exact ⟨.of_tables htables,
      fun _ => ⟨congrArg Tables.tcbs htables, congrArg Tables.socks htables⟩⟩
  · rw [tcpAct_of_accepts hrej] at h
    have hsent := (runHost_sent s now (tcpInput now (tcpSeg q.datagram))).of_ok h
    have hframe := tcpInput_frame now (tcpSeg q.datagram) s.host
    have htcbs : s'.host.tcbs = (tcpInput now (tcpSeg q.datagram) s.host).tcbs := hsent.tcbs
    have hsocks : s'.host.socks = (tcpInput now (tcpSeg q.datagram) s.host).socks := hsent.socks
    refine ⟨⟨?_, ?_⟩, fun hno => absurd hno hrej⟩
    · rw [htcbs]
      exact hframe.tcbs
    · rw [hsocks]
      exact hframe.socks

end Segments

/-- A segment from 10.0.0.9 to port 7 of 10.0.0.1. -/
def clientPktBytes (port flags : UInt8) (seq ack : UInt32) (csum : UInt16) : List UInt8 :=
  [0x45, 0, 0, 40, 0, 0, 0, 0, 64, 6, 0x66, 0xc7, 10, 0, 0, 9, 10, 0, 0, 1, 0x9c, port, 0, 7] ++
    toBe32 seq ++ toBe32 ack ++ [0x50, flags, 3, 0xe8] ++ toBe16 csum ++ [0, 0]

theorem clientPkt_fits (port flags : UInt8) (seq ack : UInt32) (csum : UInt16) :
    pktRxOffset + ethHdrLen + (clientPktBytes port flags seq ack csum).length ≤ pktBufSize := by
  change 2 + 14 + 40 ≤ 4096
  decide

theorem clientPkt_hdr (port flags : UInt8) (seq ack : UInt32) (csum : UInt16) :
    ipHdrLen (clientPktBytes port flags seq ack csum) = 20 := by
  have hfirst : (clientPktBytes port flags seq ack csum).getD 0 0 = 0x45 := rfl
  rw [ipHdrLen, hfirst]
  decide

def clientPkt (port flags : UInt8) (seq ack : UInt32) (csum : UInt16) : IpPkt :=
  ⟨⟨pktRxOffset + ethHdrLen, clientPktBytes port flags seq ack csum, clientPkt_fits _ _ _ _ _⟩,
    (clientPkt_hdr _ _ _ _ _).ge, (clientPkt_hdr _ _ _ _ _).trans_le (by change 20 ≤ 40; decide)⟩

/-- The ACK that completes the first of two handshakes. -/
def handshakeAck : IpPkt := clientPkt 0x40 0x10 301 0x1f2f374e 0xa3f1

/-- A listener has embryos of two connections. The segment for one leaves the
other alone, and of the listener all but its accept queue. -/
theorem segment_keeps_to_its_connection_second :
    ∃ a b s s',
      [.call 0 (.socket .tcp), .call 0 (.bind 0 0 7), .call 0 (.listen 0 4)].foldlM stackStep
        lanStack = .ok a ∧
      tcpInputPkt a 1 (clientPkt 0x40 2 300 0 0xfa7d).pkt = .ok b ∧
      tcpInputPkt b 2 (clientPkt 0x41 2 300 0 0xfa7c).pkt = .ok s ∧
      tcpInputPkt s 3 handshakeAck.pkt = .ok s' ∧
      (s'.host.tcbs 1).state = .established ∧ (s.host.tcbs 2).state = .synRcvd ∧
      s'.host.tcbs 2 = s.host.tcbs 2 ∧
      s'.host.tcbs 0 = { s.host.tcbs 0 with acceptq := (s.host.tcbs 0).acceptq ++ [1] } ∧
      s'.host.socks = s.host.socks := by
  obtain ⟨a, b, s, s', ha, hb, hs, hrun, hest, hother, hlookup, hqueue, hqueue', hlistener, hactive,
      howner⟩ : ∃ a b s s',
      [.call 0 (.socket .tcp), .call 0 (.bind 0 0 7), .call 0 (.listen 0 4)].foldlM stackStep
        lanStack = .ok a ∧
      tcpInputPkt a 1 (clientPkt 0x40 2 300 0 0xfa7d).pkt = .ok b ∧
      tcpInputPkt b 2 (clientPkt 0x41 2 300 0 0xfa7c).pkt = .ok s ∧
      tcpInputPkt s 3 handshakeAck.pkt = .ok s' ∧
      (s'.host.tcbs 1).state = .established ∧ (s.host.tcbs 2).state = .synRcvd ∧
      tcbLookup s.host (tcpSeg handshakeAck.datagram).dst (tcpSeg handshakeAck.datagram).dport
        (tcpSeg handshakeAck.datagram).src (tcpSeg handshakeAck.datagram).sport = some 1 ∧
      (s.host.tcbs 0).acceptq = [] ∧ (s'.host.tcbs 0).acceptq = [1] ∧
      (s.host.tcbs 1).listener = some 0 ∧
      ((s.host.tcbs 0).active = true ∧ (s.host.tcbs 2).active = true) ∧
      (s.host.tcbs 1).sockIdx = none :=
    ⟨_, _, _, _, rfl, rfl, rfl, rfl, rfl, rfl, rfl, rfl, rfl, rfl, ⟨rfl, rfl⟩, rfl⟩
  obtain ⟨⟨⟨child, hchild, hframe⟩, hsocks⟩, -⟩ := segment_keeps_to_its_connection hrun
  rw [hlookup] at hframe hsocks
  have hbusy (j : TcbIdx) (hj : (s.host.tcbs j).active = true) : child ≠ some j := fun hc =>
    absurd (hchild j hc) (by rw [hj]; decide)
  refine ⟨a, b, s, s', ha, hb, hs, hrun, hest, hother, ?_, ?_, ?_⟩
  · rcases hframe 2 (by decide) (hbusy 2 hactive.2) with hsame | ⟨i, hi, hl, -⟩
    · exact hsame
    · cases hi
      cases hlistener.symm.trans hl
  · rcases hframe 0 (by decide) (hbusy 0 hactive.1) with hsame | ⟨i, hi, -, hq⟩
    · rw [hsame, hqueue] at hqueue'
      cases hqueue'
    · cases hi
      exact hq
  · funext k
    refine hsocks k fun i hi => ?_
    cases hi
    rw [howner]
    exact nofun

end PacketForge
