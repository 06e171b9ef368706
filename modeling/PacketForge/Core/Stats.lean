import Mathlib.Tactic

/-!
The stack-wide protocol counters. The source declares them once in an X-macro
as 64-bit fields of `struct pf_stats`; here a counter is a constructor and the
statistics are a table from counters to values.
-/

namespace PacketForge

inductive Stat where
  | ethRxFrames | ethRxRunts | ethRxUnknownEthertype | ethRxOtherDest | ethTxFrames | arpRx
  | arpRxMalformed | arpReqForUs | arpRepliesRx | arpRepliesTx | arpRequestsTx | arpPktsQueued
  | arpWaitqDrops | arpResolveFails | arpCacheExpired | arpCacheEvictions | ipRx
  | ipRxTruncated | ipRxBadVersion | ipRxBadIhl | ipRxBadLen | ipRxBadCsum | ipRxBadSrc
  | ipRxBcastIgnored | ipRxNotForUs | ipRxDelivered | ipRxProtoUnreach | ipFragsRx
  | ipReassCompleted | ipReassTimeouts | ipReassOverlapDrops | ipReassTooBig | ipReassBadFrag
  | ipReassEvicted | ipTx | ipTxFrags | ipTxNoRoute | ipFwdForwarded | ipFwdTtlExceeded
  | ipFwdNoRoute | ipFwdBadDst | ipFwdMtuDrop | ipFwdSameIf | icmpRx | icmpRxMalformed
  | icmpRxBadCsum | icmpEchoReqRx | icmpEchoReplyTx | icmpEchoReplyRx | icmpRxErrors
  | icmpRxOther | icmpErrTx | icmpErrSuppressed | udpRx | udpRxMalformed | udpRxBadCsum
  | udpRxNocsum | udpRxNoSock | udpRxDelivered | udpRxQDrops | udpTx | tcpRxSegs
  | tcpRxMalformed | tcpRxBadCsum | tcpRxBadOpts | tcpRxNoMatch | tcpRxOutOfWindow
  | tcpRxBadAck | tcpRxDataIgnored | tcpRxBytes | tcpTxSegs | tcpTxBytes | tcpRstRx | tcpRstTx
  | tcpChallengeAcksTx | tcpRtxSegs | tcpRtoFires | tcpFastRtx | tcpDupacksRx | tcpOooQueued
  | tcpOooDropped | tcpPassiveOpens | tcpActiveOpens | tcpConnsEstablished | tcpConnsReset
  | tcpConnTimeouts | tcpAcceptDrops | tcpZeroWndProbes | tcpRttSamples
deriving DecidableEq, Repr

/-- `struct pf_stats`: every counter starts at zero and wraps at 2^64. -/
abbrev Stats := Stat → UInt64

namespace Stats

def zero : Stats := fun _ => 0

def add (st : Stats) (c : Stat) (n : UInt64) : Stats := Function.update st c (st c + n)

def inc (st : Stats) (c : Stat) : Stats := st.add c 1

theorem add_self (st : Stats) (c : Stat) (n : UInt64) : st.add c n c = st c + n :=
  Function.update_self c _ st

theorem add_of_ne (st : Stats) {c d : Stat} (n : UInt64) (h : d ≠ c) : st.add c n d = st d :=
  Function.update_of_ne h _ st

theorem inc_self (st : Stats) (c : Stat) : st.inc c c = st c + 1 := st.add_self c 1

theorem inc_of_ne (st : Stats) {c d : Stat} (h : d ≠ c) : st.inc c d = st d := st.add_of_ne 1 h

end Stats

/-- The counters that say what became of a received packet. -/
def Stat.received : Stat → Bool
  | .ethRxFrames | .ethRxRunts | .ethRxOtherDest | .ethRxUnknownEthertype | .arpRx | .ipRx
  | .ipRxTruncated | .ipRxBadVersion | .ipRxBadIhl | .ipRxBadLen | .ipRxBadCsum | .ipRxBadSrc
  | .ipRxBcastIgnored | .ipRxNotForUs | .ipFwdBadDst | .ipFwdTtlExceeded | .ipFwdNoRoute
  | .ipFwdMtuDrop | .ipFwdForwarded | .ipFragsRx | .ipRxDelivered | .ipReassCompleted | .icmpRx
  | .udpRx | .tcpRxSegs | .ipRxProtoUnreach | .icmpRxMalformed | .icmpRxBadCsum | .icmpEchoReqRx
  | .icmpEchoReplyRx | .icmpRxErrors | .icmpRxOther | .udpRxMalformed | .udpRxBadCsum
  | .udpRxNoSock | .udpRxQDrops | .udpRxDelivered => true
  | _ => false

/-- The same counts of received packets. -/
def Stats.Same (st st' : Stats) : Prop := ∀ x, x.received = true → st' x = st x

namespace Stats.Same

variable {st st' st'' : Stats}

theorem refl (st : Stats) : st.Same st := fun _ _ => rfl

theorem trans (h : st.Same st') (h' : st'.Same st'') : st.Same st'' :=
  fun x hx => (h' x hx).trans (h x hx)

theorem add (h : st.Same st') {c : Stat} (hc : c.received = false) (n : UInt64) :
    st.Same (st'.add c n) := by
  intro x hx
  have hne : x ≠ c := by
    rintro rfl
    rw [hc] at hx
    cases hx
  rw [Stats.add_of_ne _ _ hne]
  exact h x hx

theorem inc (h : st.Same st') {c : Stat} (hc : c.received = false) : st.Same (st'.inc c) :=
  h.add hc 1

end Stats.Same

end PacketForge
