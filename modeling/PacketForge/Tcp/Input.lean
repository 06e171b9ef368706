import PacketForge.Tcp.Out

/-!
Segment input processing for one connection (`tcp.c`), in the order of RFC
9293 §3.10.7. The part of `tcp_input` that looks up the control block, and the
LISTEN state that creates one, belong to the table and are not here. Each
numbered step of the source is a function of its own; a `goto out` is the end
of the function it stands in.
-/

namespace PacketForge

/-! ### Parameters of the connection -/

def tcpCwndInit (t : Tcb) : Tcb :=
  { t with
    cwnd := pfMin (4 * t.mss.toUInt32) (pfMax (2 * t.mss.toUInt32) 4380)
    ssthresh := 0xffffffff }

def tcpEnterTimewait (t : Tcb) (now : Nat) : Tcb :=
  { t with
    state := .timeWait
    timewaitDeadline := now + 2 * tcpMslMs
    rtoDeadline := 0
    delackDeadline := 0 }

def tcpRttSample (c : Conn) (rMs : UInt32) : Conn :=
  let c := c.count .tcpRttSamples
  let t := c.tcb
  let r : Int := rMs.toNat
  let srtt := if t.srttMs < 0 then r else (7 * t.srttMs + r).tdiv 8
  let rttvar :=
    if t.srttMs < 0 then r.tdiv 2 else (3 * t.rttvarMs + (t.srttMs - r).natAbs).tdiv 4
  let rto := srtt + max tcpClockGMs (4 * rttvar)
  let rto := if rto < tcpRtoMinMs then tcpRtoMinMs else rto
  let rto := if rto > tcpRtoMaxMs then (tcpRtoMaxMs : Int) else rto
  { c with
    tcb := { t with srttMs := srtt, rttvarMs := rttvar, rtoMs := UInt32.ofNat rto.toNat } }

/-- The option walk of `tcp_parse_mss`: the MSS so far, the rest of the option
area, and whether the list turned out malformed. Every round consumes a byte. -/
def parseMssLoop : Nat → List UInt8 → UInt16 → UInt16 × Bool
  | 0, _, mss => (mss, false)
  | _ + 1, [], mss => (mss, false)
  | fuel + 1, kind :: rest, mss =>
    if kind = tcpOptEnd then (mss, false)
    else if kind = tcpOptNop then parseMssLoop fuel rest mss
    else
      match rest with
      | [] => (mss, true)
      | len :: body =>
        if len < 2 ∨ len.toNat > (kind :: rest).length then (mss, true)
        else
          let mss :=
            if kind = tcpOptMss ∧ len = 4 then
              (body.getD 0 0).toUInt16 <<< 8 ||| (body.getD 1 0).toUInt16
            else mss
          parseMssLoop fuel ((kind :: rest).drop len.toNat) mss

/-- Parse the options of a SYN; the peer's MSS, 0 if absent or malformed. -/
def tcpParseMss (opts : List UInt8) : UInt16 × Bool := parseMssLoop opts.length opts 0

def tcpApplyMss (t : Tcb) (peerMss : UInt16) : Tcb :=
  { t with
    mss :=
      if peerMss ≠ 0 then (if peerMss < tcpOurMss then peerMss else tcpOurMss)
      else tcpDefaultMss }

/-- `tcp_apply_mss(tcb, tcp_parse_mss(stack, th))`. -/
def tcpTakeMss (c : Conn) (g : Seg) : Conn :=
  let (mss, bad) := tcpParseMss g.opts
  let c := if bad then c.count .tcpRxBadOpts else c
  { c with tcb := tcpApplyMss c.tcb mss }

/-! ### Receive ring and out-of-order queue -/

def rcvRingTake (t : Tcb) (data : List UInt8) : UInt32 :=
  pfMin (UInt32.ofNat data.length) (65535 - t.rcvLen)

def rcvRingPut (t : Tcb) (data : List UInt8) : Tcb :=
  { t with
    rcvbuf :=
      RingBuf.write tcpRcvbuf t.rcvbuf ((t.rcvHead + t.rcvLen).toNat % tcpRcvbuf)
        (data.take (rcvRingTake t data).toNat)
    rcvLen := t.rcvLen + rcvRingTake t data }

/-- `rcv_ring_put` at `rcvNxt`, with the sequence number and the byte counter
moved over what was taken. -/
def rcvAppend (c : Conn) (data : List UInt8) : Conn :=
  let take := rcvRingTake c.tcb data
  let t := rcvRingPut c.tcb data
  { c with tcb := { t with rcvNxt := t.rcvNxt + take } }.countBy .tcpRxBytes take.toUInt64

/-- The loop of `tcp_ooo_drain` over the parked packets. -/
def oooDrainLoop : List OooPkt → Conn → Conn
  | [], c => { c with tcb := { c.tcb with ooo := [] } }
  | q :: rest, c =>
    let qlen := UInt32.ofNat q.data.length
    if seqGt q.seq c.tcb.rcvNxt then
      { c with tcb := { c.tcb with ooo := q :: rest } } -- still a hole
    else if seqLt (q.seq + qlen) c.tcb.rcvNxt || q.seq + qlen = c.tcb.rcvNxt then
      oooDrainLoop rest c -- entirely duplicate
    else
      let skip := c.tcb.rcvNxt - q.seq
      let data := q.data.drop skip.toNat
      let take := rcvRingTake c.tcb data
      let c := rcvAppend c data
      if take < qlen - skip then
        { c with tcb := { c.tcb with ooo := rest } } -- ring full
      else oooDrainLoop rest c

/-- Pull parked out-of-order segments that are now contiguous. -/
def tcpOooDrain (c : Conn) : Conn := oooDrainLoop c.tcb.ooo c

/-- Insert before the first packet that does not precede `q`. -/
def oooInsertSorted (q : OooPkt) : List OooPkt → List OooPkt
  | [] => [q]
  | x :: rest => if seqLt x.seq q.seq then x :: oooInsertSorted q rest else q :: x :: rest

def oooOverlaps (seq : UInt32) (data : List UInt8) (q : OooPkt) : Bool :=
  seqLt seq (q.seq + UInt32.ofNat q.data.length) && seqLt q.seq (seq + UInt32.ofNat data.length)

/-- Park a segment behind a hole. A packet buffer filled from its receive
offset has room for 4094 bytes; `pkt_put` asserts that the segment fits. -/
def tcpOooInsert (c : Conn) (seq : UInt32) (data : List UInt8) : Conn :=
  if c.tcb.ooo.length ≥ tcpOooMax then c.count .tcpOooDropped
  else if c.tcb.ooo.any (oooOverlaps seq data) then c.count .tcpOooDropped
  else
    let c := { c with panicked := c.panicked || decide (4094 < data.length) }
    { c with
      tcb := { c.tcb with ooo := oooInsertSorted ⟨seq, data⟩ c.tcb.ooo } }.count .tcpOooQueued

/-- Acknowledge every second segment at once and delay the others. -/
def tcpDelayAck (c : Conn) (now : Nat) : Conn :=
  let c := { c with tcb := { c.tcb with delackPending := c.tcb.delackPending + 1 } }
  if c.tcb.delackPending ≥ 2 then tcpSendCtl c tcpAck
  else if c.tcb.delackDeadline = 0 then
    { c with tcb := { c.tcb with delackDeadline := now + tcpDelackMs } }
  else c

/-- The end of the window we have open. -/
def rcvWndEnd (t : Tcb) : UInt32 := t.rcvNxt + (tcpRcvWindow t).toUInt32

def trimTail (t : Tcb) (seq : UInt32) (data : List UInt8) : List UInt8 :=
  if seqGt (seq + UInt32.ofNat data.length) (rcvWndEnd t) then
    data.take (rcvWndEnd t - seq).toNat
  else data

/-- Deliver a trimmed segment, or park it behind a hole. -/
def tcpRxInWindow (c : Conn) (seq : UInt32) (data : List UInt8) (now : Nat) : Conn :=
  if data.length = 0 then c
  else if seq = c.tcb.rcvNxt then tcpDelayAck (tcpOooDrain (rcvAppend c data)) now
  else tcpSendCtl (tcpOooInsert c seq data) tcpAck

/-- Payload whose head overlap is already trimmed. -/
def tcpRxTrimmed (c : Conn) (seq : UInt32) (data : List UInt8) (now : Nat) : Conn :=
  if seqGe seq (rcvWndEnd c.tcb) then c
  else tcpRxInWindow c seq (trimTail c.tcb seq data) now

/-- In-window payload processing. -/
def tcpRxPayload (c : Conn) (seq : UInt32) (data : List UInt8) (now : Nat) : Conn :=
  if seqLt seq c.tcb.rcvNxt then
    let skip := c.tcb.rcvNxt - seq
    if skip ≥ UInt32.ofNat data.length then tcpSendCtl c tcpAck -- pure duplicate
    else tcpRxTrimmed c c.tcb.rcvNxt (data.drop skip.toNat) now
  else tcpRxTrimmed c seq data now

/-! ### The steps of `tcp_input` -/

/-- Peer reset or fatal error: flush and tell the application. -/
def tcpConnError (c : Conn) (err : PfErr) : Conn := (c.count .tcpConnsReset).free err

/-- RST and free; the caller's states are past LISTEN and SYN_SENT. -/
def tcpAppAbort (c : Conn) : Conn :=
  let c :=
    if c.tcb.state ≠ .listen ∧ c.tcb.state ≠ .synSent then tcpSendCtl c (tcpRst ||| tcpAck)
    else c
  c.free .none

/-- The fields set when our SYN is acknowledged, in SYN_SENT and SYN_RCVD. -/
def tcpEstablish (c : Conn) (g : Seg) : Conn :=
  let c := c.count .tcpConnsEstablished
  { c with
    tcb :=
      { tcpCwndInit
          { c.tcb with
            state := .established
            sndWnd := g.wnd.toUInt32
            sndWl1 := g.seq
            sndWl2 := g.ack } with
        rtoDeadline := 0
        rtxCount := 0 } }

/-- A SYN without an acceptable acknowledgement in SYN_SENT: simultaneous
open. -/
def tcpSimultaneousOpen (now : Nat) (c : Conn) : Conn :=
  let c := tcpSendCtl (c.setState .synRcvd) (tcpSyn ||| tcpAck)
  { c with tcb := tcpArmRto c.tcb now }

def tcpTakeSyn (g : Seg) (c : Conn) : Conn :=
  tcpTakeMss { c with tcb := { c.tcb with irs := g.seq, rcvNxt := g.seq + 1 } } g

def tcpSynSentSyn (now : Nat) (g : Seg) (c : Conn) : Conn :=
  let c := tcpTakeSyn g c
  let c := if g.has tcpAck then c.setUna g.ack else c
  if seqGt c.tcb.sndUna c.tcb.iss then tcpSendCtl (tcpEstablish c g) tcpAck
  else tcpSimultaneousOpen now c

def tcpInputSynSent (now : Nat) (g : Seg) (c : Conn) : Conn :=
  if g.has tcpAck && (seqLe g.ack c.tcb.iss || seqGt g.ack c.tcb.sndNxt) then
    if g.has tcpRst then c else tcpSendResetFor c g
  else if g.has tcpRst then
    if g.has tcpAck then tcpConnError (c.count .tcpRstRx) .connRefused else c.count .tcpRstRx
  else if g.has tcpSyn then tcpSynSentSyn now g c
  else c

/-- First: sequence number acceptability. -/
def segAcceptable (t : Tcb) (g : Seg) : Bool :=
  let rcvw := (tcpRcvWindow t).toUInt32
  let inWindow (s : UInt32) : Bool := seqGe s t.rcvNxt && seqLt s (t.rcvNxt + rcvw)
  if g.seqlen = 0 then
    if rcvw = 0 then g.seq = t.rcvNxt else inWindow g.seq
  else rcvw > 0 && (inWindow g.seq || inWindow (g.seq + g.seqlen - 1))

/-- Second: RST. Exact match required, else a challenge ACK. -/
def tcpInputRst (g : Seg) (c : Conn) : Conn :=
  let c := c.count .tcpRstRx
  if g.seq = c.tcb.rcvNxt then
    if (c.tcb.state = .synRcvd ∧ c.tcb.listener.isSome) ∨ c.tcb.state = .closing ∨
        c.tcb.state = .lastAck ∨ c.tcb.state = .timeWait then c.free .none
    else tcpConnError c .connReset
  else tcpSendCtl (c.count .tcpChallengeAcksTx) tcpAck

def finAcked (t : Tcb) (ack : UInt32) : Bool := t.finSent && ack = t.sndNxt

def ackedBytes (t : Tcb) (ack : UInt32) : UInt32 :=
  ack - t.sndUna - (if finAcked t ack then 1 else 0)

/-- Release acknowledged bytes from the ring and move `sndUna`. -/
def ackRing (t : Tcb) (ack : UInt32) : Tcb :=
  let dbytes := ackedBytes t ack
  { t with
    sndHead := (t.sndHead + dbytes) % 65535
    sndLen := t.sndLen - dbytes
    sndUna := ack }

/-- Take the pending RTT sample if this acknowledgement covers it. -/
def ackRtt (now : Nat) (ack : UInt32) (c : Conn) : Conn :=
  if c.tcb.rttTiming && seqGe ack c.tcb.rttSeq then
    let c := tcpRttSample c (UInt32.ofNat (now - c.tcb.rttStartMs))
    { c with tcb := { c.tcb with rttTiming := false } }
  else c

def ackCwnd (dbytes : UInt32) (t : Tcb) : Tcb :=
  if t.dupacks ≥ 3 then { t with cwnd := t.ssthresh }
  else if t.cwnd < t.ssthresh then { t with cwnd := t.cwnd + pfMin dbytes t.mss.toUInt32 }
  else { t with cwnd := t.cwnd + pfMax 1 (t.mss.toUInt32 * t.mss.toUInt32 / t.cwnd) }

/-- Restart the retransmission timer while data remains outstanding. -/
def ackRto (now : Nat) (t : Tcb) : Tcb :=
  { t with rtoDeadline := if t.sndUna = t.sndNxt then 0 else now + t.rtoMs.toNat }

/-- Everything an acknowledgement of new data does before the FIN and the send
engine are looked at. -/
def ackNew (now : Nat) (ack : UInt32) (c : Conn) : Conn :=
  let dbytes := ackedBytes c.tcb ack
  let c := ackRtt now ack { c with tcb := ackRing c.tcb ack }
  let t := ackCwnd dbytes { c.tcb with rtxCount := 0 }
  { c with tcb := ackRto now { t with dupacks := 0 } }

/-- Where an acknowledged FIN takes the connection, LAST_ACK apart. -/
def tcpFinAcked (now : Nat) (fin : Bool) (c : Conn) : Conn :=
  if fin && c.tcb.state = .finWait1 then c.setState .finWait2
  else if fin && c.tcb.state = .closing then { c with tcb := tcpEnterTimewait c.tcb now }
  else c

/-- Fifth: acknowledgement of new data. The freed window may unblock more. -/
def tcpInputNewAck (now : Nat) (g : Seg) (c : Conn) : Conn :=
  let fin := finAcked c.tcb g.ack
  let c := ackNew now g.ack c
  if fin && c.tcb.state = .lastAck then c.free .none
  else tcpOutput now (tcpFinAcked now fin c)

/-- The duplicate acknowledgement of RFC 5681 §2. -/
def isDupAck (t : Tcb) (g : Seg) : Bool :=
  g.ack = t.sndUna && g.paylen = 0 && g.seqlen = 0 && g.wnd.toUInt32 = t.sndWnd &&
    seqLt t.sndUna t.sndNxt

def tcpFastRetransmit (c : Conn) : Conn :=
  let inFlight := c.tcb.sndNxt - c.tcb.sndUna
  let c := c.setSsthresh (pfMax (inFlight / 2) (2 * c.tcb.mss.toUInt32))
  let c := (tcpRetransmit c).count .tcpFastRtx
  c.setCwnd (c.tcb.ssthresh + 3 * c.tcb.mss.toUInt32)

def tcpDupAckCounted (now : Nat) (c : Conn) : Conn :=
  if c.tcb.dupacks = 3 then tcpFastRetransmit c
  else if c.tcb.dupacks > 3 then tcpOutput now (c.setCwnd (c.tcb.cwnd + c.tcb.mss.toUInt32))
  else c

def tcpInputDupAck (now : Nat) (c : Conn) : Conn :=
  tcpDupAckCounted now ((c.count .tcpDupacksRx).setDupacks (c.tcb.dupacks + 1))

/-- Fifth: ACK processing past the handshake. -/
def tcpInputAck (now : Nat) (g : Seg) (c : Conn) : Conn :=
  if seqGt g.ack c.tcb.sndUna then tcpInputNewAck now g c
  else if isDupAck c.tcb g then tcpInputDupAck now c
  else c

/-- The wl1/wl2 test: is this segment's window newer than the one in force? -/
def wndIsNewer (t : Tcb) (g : Seg) : Bool :=
  seqLt t.sndWl1 g.seq || (t.sndWl1 = g.seq && seqLe t.sndWl2 g.ack)

def takeWnd (g : Seg) (c : Conn) : Conn :=
  { c with tcb := { c.tcb with sndWnd := g.wnd.toUInt32, sndWl1 := g.seq, sndWl2 := g.ack } }

/-- Window update. A window that reopens lets waiting data out. -/
def tcpInputWnd (now : Nat) (g : Seg) (c : Conn) : Conn :=
  if seqLe c.tcb.sndUna g.ack && seqLe g.ack c.tcb.sndNxt then
    if wndIsNewer c.tcb g then
      if c.tcb.sndWnd = 0 ∧ g.wnd > 0 then tcpOutput now (takeWnd g c) else takeWnd g c
    else c
  else c

/-- Seventh: segment text. -/
def tcpInputText (now : Nat) (g : Seg) (c : Conn) : Conn :=
  if g.payload.length > 0 then
    if c.tcb.state.takesData then tcpRxPayload c g.seq g.payload now
    else c.count .tcpRxDataIgnored
  else c

/-- The transition the peer's FIN causes. -/
def tcpFinState (now : Nat) (t : Tcb) : Tcb :=
  match t.state with
  | .established => { t with state := .closeWait }
  | .finWait1 => { t with state := .closing }
  | .finWait2 => tcpEnterTimewait t now
  | .timeWait => { t with timewaitDeadline := now + 2 * tcpMslMs } -- restart 2MSL
  | _ => t

/-- The FIN occupies the next sequence number and ends the stream. -/
def consumeFin (finSeq : UInt32) (c : Conn) : Conn :=
  { c with
    tcb :=
      { c.tcb with
        rcvNxt := if c.tcb.state ≠ .timeWait then finSeq + 1 else c.tcb.rcvNxt
        rcvEof := true } }

/-- The peer's FIN is in order: consume and acknowledge it. -/
def tcpTakeFin (now : Nat) (finSeq : UInt32) (c : Conn) : Conn :=
  let c := tcpSendCtl (consumeFin finSeq c) tcpAck
  { c with tcb := tcpFinState now c.tcb }

/-- Whether the eighth step consumes the FIN. An out-of-order FIN is ignored. -/
def finInOrder (t : Tcb) (g : Seg) : Bool :=
  g.has tcpFin && g.seq + g.paylen = t.rcvNxt && (t.state.takesData || t.state = .timeWait)

/-- Eighth: FIN. -/
def tcpInputFin (now : Nat) (g : Seg) (c : Conn) : Conn :=
  if finInOrder c.tcb g then tcpTakeFin now (g.seq + g.paylen) c else c

/-- The part of the input processing that concerns our sending side: the
acknowledgement and the window of the segment. -/
def tcpInputSend (now : Nat) (g : Seg) (c : Conn) : Conn :=
  let c := tcpInputAck now g c
  if c.fate = .alive then tcpInputWnd now g c else c

/-- Steps five to eight for a synchronised connection. -/
def tcpInputSynced (now : Nat) (g : Seg) (c : Conn) : Conn :=
  if seqGt g.ack c.tcb.sndNxt then -- ACK for data never sent
    tcpSendCtl (c.count .tcpRxBadAck) tcpAck
  else
    let c := tcpInputSend now g c
    if c.fate = .alive then tcpInputFin now g (tcpInputText now g c) else c

/-- Fifth, in SYN_RCVD: the acknowledgement of our SYN hands the connection to
the listener's accept queue. `lroom` is the room in that queue, `none` without
a listener. -/
def tcpInputSynRcvd (now : Nat) (lroom : Option Bool) (g : Seg) (c : Conn) : Conn :=
  if seqLt c.tcb.sndUna g.ack && seqLe g.ack c.tcb.sndNxt then
    let c := tcpEstablish (c.setUna g.ack) g
    match lroom with
    | none => tcpInputSynced now g c
    | some true => tcpInputSynced now g { c with queued := true }
    | some false => tcpAppAbort (c.count .tcpAcceptDrops)
  else tcpSendResetFor c g

/-- `tcp_input` for the control block that `tcb_lookup` found, LISTEN apart. -/
def tcpInputConn (now : Nat) (lroom : Option Bool) (g : Seg) (c : Conn) : Conn :=
  if c.tcb.state = .synSent then tcpInputSynSent now g c
  else if !segAcceptable c.tcb g then
    let c := c.count .tcpRxOutOfWindow
    if g.has tcpRst then c else tcpSendCtl c tcpAck
  else if g.has tcpRst then tcpInputRst g c
  else if g.has tcpSyn then tcpSendCtl (c.count .tcpChallengeAcksTx) tcpAck
  else if !g.has tcpAck then c
  else if c.tcb.state = .synRcvd then tcpInputSynRcvd now lroom g c
  else tcpInputSynced now g c

end PacketForge
