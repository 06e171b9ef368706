import PacketForge.Tcp.Close
import PacketForge.Lib.Run

/-!
The round-trip estimator and the congestion control of a connection, as a
machine of their own. It sees nothing of sequence numbers and buffers, only the
feedback of the network: the MSS of the peer's SYN, the end of the handshake,
acknowledgements of new data, duplicate acknowledgements and timeouts. Every
event of a connection is a list of such feedback, and a connection refines the
machine: what an event does to these fields is what its feedback does.
-/

namespace PacketForge

/-- The fields of a control block that the feedback of the network drives, and
whether the handshake is still going on. -/
structure Control where
  opening : Bool
  mss : UInt16
  srttMs : Int
  rttvarMs : Int
  rtoMs : UInt32
  cwnd : UInt32
  ssthresh : UInt32
  dupacks : UInt32

def Tcb.control (t : Tcb) : Control where
  opening := t.state = .synSent || t.state = .synRcvd
  mss := t.mss
  srttMs := t.srttMs
  rttvarMs := t.rttvarMs
  rtoMs := t.rtoMs
  cwnd := t.cwnd
  ssthresh := t.ssthresh
  dupacks := t.dupacks

/-- What the network tells a connection. -/
inductive Feedback where
  /-- The peer's SYN with its MSS, 0 if it gave none. -/
  | syn (peerMss : UInt16)
  | established
  /-- The application closed during the handshake. -/
  | closed
  /-- New data is acknowledged, with a measurement if it was being timed. -/
  | ack (rtt : Option UInt32) (dbytes : UInt32)
  | dupAck (inFlight : UInt32)
  | timeout (inFlight : UInt32)
deriving DecidableEq

namespace Control

def sample (v : Control) (rMs : UInt32) : Control :=
  let r : Int := rMs.toNat
  let srtt := if v.srttMs < 0 then r else (7 * v.srttMs + r).tdiv 8
  let rttvar :=
    if v.srttMs < 0 then r.tdiv 2 else (3 * v.rttvarMs + (v.srttMs - r).natAbs).tdiv 4
  let rto := srtt + max tcpClockGMs (4 * rttvar)
  let rto := if rto < tcpRtoMinMs then tcpRtoMinMs else rto
  let rto := if rto > tcpRtoMaxMs then (tcpRtoMaxMs : Int) else rto
  { v with srttMs := srtt, rttvarMs := rttvar, rtoMs := UInt32.ofNat rto.toNat }

def measure (v : Control) : Option UInt32 → Control
  | none => v
  | some r => v.sample r

def backoff (v : Control) : Control := { v with rtoMs := pfMin (v.rtoMs * 2) 60000 }

/-- RFC 5681: the window after an acknowledgement of new data. -/
def advance (v : Control) (dbytes : UInt32) : Control :=
  if v.dupacks ≥ 3 then { v with cwnd := v.ssthresh }
  else if v.cwnd < v.ssthresh then { v with cwnd := v.cwnd + pfMin dbytes v.mss.toUInt32 }
  else { v with cwnd := v.cwnd + pfMax 1 (v.mss.toUInt32 * v.mss.toUInt32 / v.cwnd) }

/-- RFC 5681: the reaction to a duplicate acknowledgement that was counted. -/
def recover (v : Control) (inFlight : UInt32) : Control :=
  if v.dupacks = 3 then
    { v with
      ssthresh := pfMax (inFlight / 2) (2 * v.mss.toUInt32)
      cwnd := pfMax (inFlight / 2) (2 * v.mss.toUInt32) + 3 * v.mss.toUInt32 }
  else if v.dupacks > 3 then { v with cwnd := v.cwnd + v.mss.toUInt32 }
  else v

/-- RFC 5681: a timeout collapses the window while something is in flight. -/
def collapse (v : Control) (inFlight : UInt32) : Control :=
  if inFlight > 0 then
    { v with
      ssthresh := pfMax (inFlight / 2) (2 * v.mss.toUInt32)
      cwnd := v.mss.toUInt32
      dupacks := 0 }
  else v

def usedMss (peerMss : UInt16) : UInt16 :=
  if peerMss ≠ 0 then (if peerMss < tcpOurMss then peerMss else tcpOurMss) else tcpDefaultMss

def initialWindow (mss : UInt16) : UInt32 :=
  pfMin (4 * mss.toUInt32) (pfMax (2 * mss.toUInt32) 4380)

def step (v : Control) : Feedback → Control
  | .syn peerMss => { v with mss := usedMss peerMss }
  | .established => { v with opening := false, cwnd := initialWindow v.mss, ssthresh := 0xffffffff }
  | .closed => { v with opening := false }
  | .ack rtt dbytes => { (v.measure rtt).advance dbytes with dupacks := 0 }
  | .dupAck inFlight => { v with dupacks := v.dupacks + 1 }.recover inFlight
  | .timeout inFlight => (v.collapse inFlight).backoff

/-- The machine of a connection whose SYN is under way. -/
def fresh : Control := { Tcb.fresh.control with opening := true }

end Control

/-! ### The feedback of an event -/

/-- The measurement an acknowledgement completes. -/
def rttMeasured (now : Nat) (ack : UInt32) (t : Tcb) : Option UInt32 :=
  if t.rttTiming && seqGe ack t.rttSeq then some (UInt32.ofNat (now - t.rttStartMs)) else none

def ackFeedback (now : Nat) (g : Seg) (t : Tcb) : List Feedback :=
  if seqGt g.ack t.sndNxt then []
  else if seqGt g.ack t.sndUna then [.ack (rttMeasured now g.ack t) (ackedBytes t g.ack)]
  else if isDupAck t g then [.dupAck (t.sndNxt - t.sndUna)]
  else []

def synSentFeedback (g : Seg) (t : Tcb) : List Feedback :=
  if g.has tcpAck && (seqLe g.ack t.iss || seqGt g.ack t.sndNxt) then []
  else if g.has tcpRst then []
  else if g.has tcpSyn then
    .syn (tcpParseMss g.opts).1 ::
      (if seqGt (if g.has tcpAck then g.ack else t.sndUna) t.iss then [.established] else [])
  else []

def synRcvdFeedback (now : Nat) (lroom : Option Bool) (g : Seg) (c : Conn) : List Feedback :=
  if seqLt c.tcb.sndUna g.ack && seqLe g.ack c.tcb.sndNxt then
    .established ::
      (if lroom = some false then [] else ackFeedback now g (tcpEstablish (c.setUna g.ack) g).tcb)
  else []

def segmentFeedback (now : Nat) (lroom : Option Bool) (g : Seg) (c : Conn) : List Feedback :=
  if c.tcb.state = .synSent then synSentFeedback g c.tcb
  else if !segAcceptable c.tcb g then []
  else if g.has tcpRst then []
  else if g.has tcpSyn then []
  else if !g.has tcpAck then []
  else if c.tcb.state = .synRcvd then synRcvdFeedback now lroom g c
  else ackFeedback now g c.tcb

def tickFeedback (now : Nat) (t : Tcb) : List Feedback :=
  if t.state = .timeWait then []
  else if t.rtoDeadline ≠ 0 ∧ now ≥ t.rtoDeadline then
    if t.rtxCount + 1 > tcpMaxRtx then [] else [.timeout (t.sndNxt - t.sndUna)]
  else []

/-- The feedback an event carries to a connection, in the order in which it is
processed. -/
def feedback (c : Conn) : ConnEvent → List Feedback
  | .segment now lroom g => segmentFeedback now lroom g c
  | .tick now => tickFeedback now c.tcb
  | .close _ => if c.tcb.state = .synRcvd then [.closed] else []
  | _ => []

/-! ### What leaves the machine alone -/

section Frame

variable {c d : Conn}

theorem Conn.control_of_rest (h : d.rest = c.rest) : d.tcb.control = c.tcb.control := by
  have hview := congrArg (fun x : Conn => x.tcb.control) h
  exact hview

theorem Conn.control_of_noRecv (h : d.noRecv = c.noRecv) : d.tcb.control = c.tcb.control := by
  have hview := congrArg (fun x : Conn => x.tcb.control) h
  exact hview

theorem tcpInputWnd_control (now : Nat) (g : Seg) (c : Conn) :
    (tcpInputWnd now g c).tcb.control = c.tcb.control := by
  unfold tcpInputWnd
  split
  · split
    · split
      · exact (Conn.control_of_rest (tcpOutput_rest now (takeWnd g c))).trans rfl
      · rfl
    · rfl
  · rfl

theorem tcpFinState_control (now : Nat) (t : Tcb) : (tcpFinState now t).control = t.control := by
  unfold tcpFinState
  cases hst : t.state <;> simp [Tcb.control, tcpEnterTimewait, hst]

theorem tcpInputFin_control (now : Nat) (g : Seg) (c : Conn) :
    (tcpInputFin now g c).tcb.control = c.tcb.control := by
  unfold tcpInputFin
  split
  · simp only [tcpTakeFin]
    rw [tcpFinState_control]
    exact Conn.control_of_noRecv (finAck_noRecv _ c)
  · rfl

theorem tcpFinAcked_control (now : Nat) (fin : Bool) (c : Conn) :
    (tcpFinAcked now fin c).tcb.control = c.tcb.control := by
  unfold tcpFinAcked
  split
  · rename_i h
    simp only [Bool.and_eq_true, decide_eq_true_eq] at h
    simp [Tcb.control, Conn.setState, h.2]
  split
  · rename_i h
    simp only [Bool.and_eq_true, decide_eq_true_eq] at h
    simp [Tcb.control, tcpEnterTimewait, h.2]
  · rfl

end Frame

/-! ### One lemma for each piece of feedback -/

theorem ackCwnd_control (n : UInt32) (t : Tcb) :
    (ackCwnd n t).control = t.control.advance n := by
  unfold ackCwnd Control.advance
  split
  · rename_i h
    rw [if_pos (show t.control.dupacks ≥ 3 from h)]
    rfl
  rename_i h
  rw [if_neg (show ¬ t.control.dupacks ≥ 3 from h)]
  split
  · rename_i hlt
    rw [if_pos (show t.control.cwnd < t.control.ssthresh from hlt)]
    rfl
  · rename_i hge
    rw [if_neg (show ¬ t.control.cwnd < t.control.ssthresh from hge)]
    rfl

variable (now : Nat) (g : Seg) (c : Conn)

theorem ackRtt_control (ack : UInt32) (c : Conn) :
    (ackRtt now ack c).tcb.control = c.tcb.control.measure (rttMeasured now ack c.tcb) := by
  unfold ackRtt rttMeasured
  split <;> rfl

theorem ackNew_control (ack : UInt32) (c : Conn) :
    (ackNew now ack c).tcb.control =
      c.tcb.control.step (.ack (rttMeasured now ack c.tcb) (ackedBytes c.tcb ack)) := by
  have hring : ({ c with tcb := ackRing c.tcb ack } : Conn).tcb.control = c.tcb.control := rfl
  have hrtt : rttMeasured now ack (ackRing c.tcb ack) = rttMeasured now ack c.tcb := rfl
  have hcount (t : Tcb) : ({ t with rtxCount := 0 } : Tcb).control = t.control := rfl
  have hdup (t : Tcb) : (ackRto now { t with dupacks := 0 }).control =
      { t.control with dupacks := 0 } := rfl
  simp only [ackNew, Control.step]
  rw [hdup, ackCwnd_control, hcount, ackRtt_control, hring, hrtt]

theorem tcpInputNewAck_control :
    (tcpInputNewAck now g c).tcb.control =
      c.tcb.control.step (.ack (rttMeasured now g.ack c.tcb) (ackedBytes c.tcb g.ack)) := by
  rw [← ackNew_control]
  simp only [tcpInputNewAck]
  split
  · rfl
  · rw [Conn.control_of_rest (tcpOutput_rest now _), tcpFinAcked_control]

theorem tcpInputDupAck_control :
    (tcpInputDupAck now c).tcb.control =
      c.tcb.control.step (.dupAck (c.tcb.sndNxt - c.tcb.sndUna)) := by
  unfold tcpInputDupAck
  set d := (c.count .tcpDupacksRx).setDupacks (c.tcb.dupacks + 1) with hd
  have hcontrol : d.tcb.control = { c.tcb.control with dupacks := c.tcb.control.dupacks + 1 } := rfl
  have hflight : d.tcb.sndNxt - d.tcb.sndUna = c.tcb.sndNxt - c.tcb.sndUna := rfl
  simp only [Control.step]
  rw [← hcontrol, ← hflight]
  unfold tcpDupAckCounted Control.recover
  split
  · rename_i h
    rw [if_pos (show d.tcb.control.dupacks = 3 from h)]
    -- the threshold is set before the retransmission, the window after it
    set th := pfMax ((d.tcb.sndNxt - d.tcb.sndUna) / 2) (2 * d.tcb.mss.toUInt32) with hth
    have hrtx : (tcpRetransmit (d.setSsthresh th)).tcb.control = (d.setSsthresh th).tcb.control :=
      Conn.control_of_rest (tcpRetransmit_rest _)
    have hset (x : Conn) (n : UInt32) : ((x.count .tcpFastRtx).setCwnd n).tcb.control =
        { x.tcb.control with cwnd := n } := rfl
    have hthresh : ((tcpRetransmit (d.setSsthresh th)).count .tcpFastRtx).tcb.ssthresh = th :=
      congrArg Control.ssthresh hrtx
    have hmss : ((tcpRetransmit (d.setSsthresh th)).count .tcpFastRtx).tcb.mss = d.tcb.mss :=
      congrArg Control.mss hrtx
    simp only [tcpFastRetransmit]
    rw [← hth, hset, hthresh, hmss, hrtx]
    rfl
  rename_i h3
  rw [if_neg (show ¬ d.tcb.control.dupacks = 3 from h3)]
  split
  · rename_i h
    rw [if_pos (show d.tcb.control.dupacks > 3 from h)]
    exact Conn.control_of_rest (tcpOutput_rest now (d.setCwnd (d.tcb.cwnd + d.tcb.mss.toUInt32)))
  · rename_i h
    rw [if_neg (show ¬ d.tcb.control.dupacks > 3 from h)]

theorem tcpTakeSyn_control :
    (tcpTakeSyn g c).tcb.control = c.tcb.control.step (.syn (tcpParseMss g.opts).1) := by
  unfold tcpTakeSyn tcpTakeMss
  simp only
  split <;> rfl

theorem tcpEstablish_control (g : Seg) :
    (tcpEstablish c g).tcb.control = c.tcb.control.step .established := rfl

theorem rtoBackoff_control (t : Tcb) :
    (rtoBackoff t).control = t.control.step (.timeout (t.sndNxt - t.sndUna)) := by
  unfold rtoBackoff
  simp only [Control.step, Control.collapse]
  split <;> rfl

theorem tcpRtoRetransmit_control :
    (tcpRtoRetransmit now c).tcb.control =
      c.tcb.control.step (.timeout (c.tcb.sndNxt - c.tcb.sndUna)) := by
  rw [← rtoBackoff_control]
  have htimer (d : Conn) (n : Nat) :
      ({ d.tcb with rtoDeadline := n } : Tcb).control = d.tcb.control := rfl
  simp only [tcpRtoRetransmit]
  rw [htimer, Conn.control_of_rest (tcpRetransmit_rest _)]

/-! ### Events -/

theorem tcpInputSynced_control :
    (tcpInputSynced now g c).tcb.control =
      (ackFeedback now g c.tcb).foldl Control.step c.tcb.control := by
  have hack : (tcpInputAck now g c).tcb.control =
      (if seqGt g.ack c.tcb.sndUna then
        [.ack (rttMeasured now g.ack c.tcb) (ackedBytes c.tcb g.ack)]
      else if isDupAck c.tcb g then [.dupAck (c.tcb.sndNxt - c.tcb.sndUna)]
      else []).foldl Control.step c.tcb.control := by
    unfold tcpInputAck
    split
    · exact tcpInputNewAck_control now g c
    split
    · exact tcpInputDupAck_control now c
    · rfl
  unfold tcpInputSynced ackFeedback
  split
  · exact Conn.control_of_rest (tcpSendCtl_rest _ _)
  rw [← hack]
  have hsend : (tcpInputSend now g c).tcb.control = (tcpInputAck now g c).tcb.control := by
    unfold tcpInputSend
    simp only
    split
    · exact tcpInputWnd_control now g _
    · rfl
  simp only
  split
  · rw [tcpInputFin_control, Conn.control_of_noRecv (tcpInputText_noRecv now g _), hsend]
  · exact hsend

theorem tcpAppAbort_control : (tcpAppAbort c).tcb.control = c.tcb.control := by
  have hfree (d : Conn) : (d.free .none).tcb.control = d.tcb.control := rfl
  simp only [tcpAppAbort]
  rw [hfree]
  split
  · exact Conn.control_of_rest (tcpSendCtl_rest c _)
  · rfl

theorem tcpInputSynRcvd_control (lroom : Option Bool) (g : Seg) (c : Conn) :
    (tcpInputSynRcvd now lroom g c).tcb.control =
      (synRcvdFeedback now lroom g c).foldl Control.step c.tcb.control := by
  have hest : (tcpEstablish (c.setUna g.ack) g).tcb.control = c.tcb.control.step .established :=
    tcpEstablish_control (c.setUna g.ack) g
  unfold tcpInputSynRcvd synRcvdFeedback
  split
  · simp only [List.foldl_cons]
    rw [← hest]
    generalize tcpEstablish (c.setUna g.ack) g = d
    cases lroom with
    | none =>
      rw [if_neg (by simp)]
      exact tcpInputSynced_control now g d
    | some room =>
      cases room with
      | true =>
        rw [if_neg (by simp)]
        exact tcpInputSynced_control now g { d with queued := true }
      | false =>
        rw [if_pos rfl]
        exact tcpAppAbort_control (d.count .tcpAcceptDrops)
  · exact Conn.control_of_rest (tcpSendResetFor_rest c g)

theorem tcpInputSynSent_control (hst : c.tcb.state = .synSent) :
    (tcpInputSynSent now g c).tcb.control =
      (synSentFeedback g c.tcb).foldl Control.step c.tcb.control := by
  unfold tcpInputSynSent synSentFeedback
  split
  · split
    · rfl
    · exact Conn.control_of_rest (tcpSendResetFor_rest c g)
  split
  · split <;> rfl
  split
  case isFalse => rfl
  -- the SYN is taken; then either ours is acknowledged or the two have crossed
  have htake := tcpTakeSyn_control g c
  have huna : (tcpTakeSyn g c).tcb.sndUna = c.tcb.sndUna ∧ (tcpTakeSyn g c).tcb.iss = c.tcb.iss ∧
      (tcpTakeSyn g c).tcb.state = c.tcb.state := by
    unfold tcpTakeSyn tcpTakeMss
    simp only
    split <;> exact ⟨rfl, rfl, rfl⟩
  set s := tcpTakeSyn g c with hs
  set d := if g.has tcpAck then s.setUna g.ack else s with hd
  have hdc : d.tcb.control = s.tcb.control := by
    rw [hd]
    split <;> rfl
  have hcond : seqGt d.tcb.sndUna d.tcb.iss =
      seqGt (if g.has tcpAck then g.ack else c.tcb.sndUna) c.tcb.iss := by
    rw [hd, ← huna.1, ← huna.2.1]
    split <;> rfl
  have hsyn : tcpSynSentSyn now g c =
      if seqGt d.tcb.sndUna d.tcb.iss then tcpSendCtl (tcpEstablish d g) tcpAck
      else tcpSimultaneousOpen now d := rfl
  rw [hsyn, hcond, List.foldl_cons, ← htake, ← hdc]
  by_cases hgt : seqGt (if g.has tcpAck then g.ack else c.tcb.sndUna) c.tcb.iss = true
  · rw [if_pos hgt, if_pos hgt, Conn.control_of_rest (tcpSendCtl_rest _ _)]
    rfl
  · have hopening : (d.setState .synRcvd).tcb.control = d.tcb.control := by
      have hdst : d.tcb.state = .synSent := by
        rw [hd]
        split
        · exact huna.2.2.trans hst
        · exact huna.2.2.trans hst
      simp [Tcb.control, Conn.setState, hdst]
    rw [if_neg hgt, if_neg hgt]
    simp only [tcpSimultaneousOpen]
    rw [Conn.control_of_rest (tcpArmRto_rest _ _ now), Conn.control_of_rest (tcpSendCtl_rest _ _),
      hopening]
    rfl

theorem tcpInputConn_control (lroom : Option Bool) (g : Seg) (c : Conn) :
    (tcpInputConn now lroom g c).tcb.control =
      (segmentFeedback now lroom g c).foldl Control.step c.tcb.control := by
  unfold tcpInputConn segmentFeedback
  split
  · rename_i hst
    exact tcpInputSynSent_control now g c hst
  split
  · simp only
    split
    · rfl
    · exact Conn.control_of_rest (tcpSendCtl_rest _ _)
  split
  · unfold tcpInputRst
    simp only
    split
    · split <;> rfl
    · exact Conn.control_of_rest (tcpSendCtl_rest _ _)
  split
  · exact Conn.control_of_rest (tcpSendCtl_rest _ _)
  split
  · rfl
  split
  · exact tcpInputSynRcvd_control now lroom g c
  · exact tcpInputSynced_control now g c

theorem tcpTickConn_control :
    (tcpTickConn now c).tcb.control =
      (tickFeedback now c.tcb).foldl Control.step c.tcb.control := by
  unfold tcpTickConn tickFeedback
  split
  · split <;> rfl
  split
  · unfold tcpRtoFire
    have hcount : (countTimeout c).tcb.rtxCount = c.tcb.rtxCount + 1 := rfl
    rw [hcount]
    have hgone (d : Conn) : (tcpConnError d .timedOut).tcb.control = d.tcb.control := rfl
    split
    · rw [hgone, Conn.control_of_rest (tcpSendCtl_rest _ _)]
      rfl
    · exact tcpRtoRetransmit_control now (countTimeout c)
  · have hprobe : (tcpTickProbe now c).rest = c.rest := by
      unfold tcpTickProbe
      split
      · exact (tcpArmRto_rest _ _ now).trans
          ((tcpSendProbe_rest _).trans (Conn.count_rest c .tcpZeroWndProbes))
      · rfl
    unfold tcpTickDelack
    split
    · exact Conn.control_of_rest ((tcpSendCtl_rest _ _).trans hprobe)
    · exact Conn.control_of_rest hprobe

theorem tcpAppClose_control :
    (tcpAppClose now c).tcb.control =
      (feedback c (.close now)).foldl Control.step c.tcb.control := by
  have hqueue (st : TcpState) : (tcpOutput now (queueFin st c)).tcb.control =
      { c.tcb.control with opening := st = .synSent || st = .synRcvd } :=
    Conn.control_of_rest (tcpOutput_rest now (queueFin st c))
  have hold (h : c.tcb.state ≠ .synRcvd) (h' : c.tcb.state ≠ .synSent) :
      { c.tcb.control with opening := false } = c.tcb.control := by
    simp [Tcb.control, h, h']
  unfold tcpAppClose feedback
  cases hst : c.tcb.state with
  | synRcvd => exact hqueue .finWait1
  | established => exact (hqueue .finWait1).trans (hold (by simp [hst]) (by simp [hst]))
  | closeWait => exact (hqueue .lastAck).trans (hold (by simp [hst]) (by simp [hst]))
  | closed | listen | synSent | finWait1 | finWait2 | closing | lastAck | timeWait => rfl

/-- A connection refines the machine: an event moves these fields as its
feedback does. -/
theorem connHandle_control (e : ConnEvent) :
    (connHandle c e).tcb.control = (feedback c e).foldl Control.step c.tcb.control := by
  cases e with
  | segment now lroom g => exact tcpInputConn_control now lroom g c
  | tick now => exact tcpTickConn_control now c
  | close now => exact tcpAppClose_control now c
  | send now data =>
    have hring (buf : Nat → UInt8) (len : UInt32) :
        ({ c.tcb with sndbuf := buf, sndLen := len } : Tcb).control = c.tcb.control := rfl
    simp only [connHandle, pfSendCopy]
    split
    · rfl
    · exact (Conn.control_of_rest (tcpOutput_rest now _)).trans (hring _ _)
  | recv cap =>
    have hrel : (rcvRelease (recvAmount c.tcb cap) c).noRecv = c.noRecv :=
      Conn.recv_noRecv c
    simp only [connHandle, pfRecvCopy, announceWindow]
    split
    · split
      · exact Conn.control_of_noRecv ((tcpSendCtl_noRecv _ _).trans hrel)
      · exact Conn.control_of_noRecv hrel
    · rfl
  | nodelay on => rfl
  | attach sock => rfl

/-! ### Runs -/

def connFeedback (c : Conn) (e : ConnEvent) : List Feedback :=
  if c.fate = .alive then feedback c e else []

theorem connStep_control (e : ConnEvent) :
    (connStep c e).tcb.control = (connFeedback c e).foldl Control.step c.tcb.control := by
  have hfeed : feedback (Conn.start c.tcb c.stats) e = feedback c e := by
    cases e <;> rfl
  unfold connStep connFeedback
  cases hfate : c.fate with
  | alive =>
    rw [if_pos rfl, ← hfeed]
    exact connHandle_control (Conn.start c.tcb c.stats) e
  | freed err =>
    rw [if_neg (by simp)]
    rfl

theorem Opened.control {c : Conn} (h : Opened c) :
    c.tcb.control = Control.fresh ∨ ∃ peerMss,
      c.tcb.control = Control.fresh.step (.syn peerMss) := by
  have hstart (now : Nat) (flags : UInt8) (d : Conn) :
      (tcpStartSyn now flags d).tcb.control = d.tcb.control :=
    Conn.control_of_rest ((tcpArmRto_rest _ _ now).trans (tcpSendCtl_rest d flags))
  cases h with
  | active now sock lip lport rip rport iss st =>
    exact Or.inl (hstart now tcpSyn _)
  | passive now l lport iss g st =>
    refine Or.inr ⟨(tcpParseMss g.opts).1, ?_⟩
    refine (hstart now _ _).trans ?_
    unfold tcpTakeMss
    simp only
    split <;> rfl

abbrev ConnReach (allowed : Conn → ConnEvent → Prop) : Conn → Prop :=
  Run.Reach Opened allowed connStep

/-- What holds of the fresh machine and is kept by all feedback holds in every
run. -/
theorem ConnReach.control {P : Control → Prop} (hfresh : P Control.fresh)
    (hstep : ∀ v f, P v → P (v.step f)) {allowed : Conn → ConnEvent → Prop} {c : Conn}
    (hr : ConnReach allowed c) : P c.tcb.control := by
  refine Run.Reach.invariant (fun c => P c.tcb.control) ?_ ?_ hr
  · intro c hc
    rcases hc.control with h | ⟨peerMss, h⟩
    · rw [h]
      exact hfresh
    · rw [h]
      exact hstep _ _ hfresh
  · intro c e _ hc
    rw [connStep_control]
    exact List.foldlRecOn (motive := P) _ _ hc (fun v hv f _ => hstep v f hv)

end PacketForge
