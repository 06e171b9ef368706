import PacketForge.Tcp.Basic

/-!
Segment construction and the send engine (`tcp_out.c`), on one connection.
Every function takes the connection as it stands in the middle of an event and
returns it with the control block updated and with the segments it handed to
`ip_output` appended to `out`. The clock reading `now` is that of the event.
-/

namespace PacketForge

def tcpRcvWindow (t : Tcb) : UInt16 :=
  let freeb : UInt32 := 65535 - t.rcvLen
  (pfMin freeb 0xffff).toUInt16

def tcpArmRto (t : Tcb) (now : Nat) : Tcb :=
  if t.rtoDeadline = 0 then { t with rtoDeadline := now + t.rtoMs.toNat } else t

def ringCopyOut (ring : Nat → UInt8) (start : UInt32) (n : Nat) : List UInt8 :=
  RingBuf.read tcpSndbuf ring (start.toNat % tcpSndbuf) n

/-- The MSS option of a SYN: kind, length and `TCP_OUR_MSS` in network order. -/
def mssOption : List UInt8 :=
  [tcpOptMss, 4, (tcpOurMss >>> 8).toUInt8, tcpOurMss.toUInt8]

/-- The segment `tcp_send_segment` builds. `ringOff` is the byte offset from
`sndHead` for `paylen` payload bytes. -/
def tcpSegment (t : Tcb) (flags : UInt8) (seq ringOff : UInt32) (paylen : UInt16) : Seg where
  src := t.localIp
  dst := t.remoteIp
  sport := t.localPort
  dport := t.remotePort
  seq := seq
  ack := if flags &&& tcpAck != 0 then t.rcvNxt else 0
  flags := flags
  wnd := tcpRcvWindow t
  opts := if flags &&& tcpSyn != 0 then mssOption else []
  payload := ringCopyOut t.sndbuf (t.sndHead + ringOff) paylen.toNat
  payload_lt := by
    rw [ringCopyOut, RingBuf.read_length]
    exact paylen.toNat_lt

/-- A segment with the ACK flag clears the delayed acknowledgement and records
the window it advertises. -/
def ackSent (flags : UInt8) (t : Tcb) : Tcb :=
  if flags &&& tcpAck != 0 then
    { t with delackPending := 0, delackDeadline := 0, rcvWndAdvertised := tcpRcvWindow t }
  else t

def tcpSendSegment (c : Conn) (flags : UInt8) (seq ringOff : UInt32) (paylen : UInt16) : Conn :=
  let g := tcpSegment c.tcb flags seq ringOff paylen
  let c := { c with tcb := ackSent flags c.tcb }
  ((c.count .tcpTxSegs).countBy .tcpTxBytes paylen.toUInt64).emit g

/-- One byte beyond a zero window. -/
def tcpSendProbe (c : Conn) : Conn :=
  let t := c.tcb
  let c := tcpSendSegment c tcpAck t.sndNxt (t.sndNxt - t.sndUna) 1
  { c with tcb := { c.tcb with sndNxt := c.tcb.sndNxt + 1 } }

def tcpSendCtl (c : Conn) (flags : UInt8) : Conn :=
  let seq := if flags &&& tcpSyn != 0 then c.tcb.iss else c.tcb.sndNxt
  let c := if flags &&& tcpRst != 0 then c.count .tcpRstTx else c
  tcpSendSegment c flags seq 0 0

/-- The RST that answers a segment which matches no connection. A reset is
never answered. -/
def tcpResetFor (g : Seg) : Option Seg :=
  if g.has tcpRst then none
  else
    some
      { src := g.dst
        dst := g.src
        sport := g.dport
        dport := g.sport
        seq := if g.has tcpAck then g.ack else 0
        ack := if g.has tcpAck then 0 else g.seq + g.seqlen
        flags := if g.has tcpAck then tcpRst else tcpRst ||| tcpAck
        wnd := 0
        opts := []
        payload := []
        payload_lt := Seg.empty_payload_lt }

def tcpSendResetFor (c : Conn) (g : Seg) : Conn :=
  match tcpResetFor g with
  | none => c
  | some r => (c.count .tcpRstTx).emit r

/-- Bytes of payload currently in flight (excludes the FIN). -/
def tcpDataInFlight (t : Tcb) : UInt32 :=
  let fl := t.sndNxt - t.sndUna
  if t.finSent && fl > 0 then fl - 1 else fl

/-- The flags of a data segment: the one that empties the buffer pushes. -/
def dataFlags (last : Bool) : UInt8 := if last then tcpAck ||| tcpPsh else tcpAck

def rttStart (t : Tcb) (now : Nat) : Tcb :=
  if t.rttTiming then t
  else { t with rttTiming := true, rttSeq := t.sndNxt, rttStartMs := now }

/-- One data segment of the send loop: transmit `chunk` bytes at `sndNxt`. -/
def tcpOutputChunk (now : Nat) (c : Conn) (chunk : UInt16) : Conn :=
  let t := c.tcb
  let sentData := tcpDataInFlight t
  let avail := t.sndLen - sentData
  let c := tcpSendSegment c (dataFlags (chunk.toUInt32 == avail)) t.sndNxt sentData chunk
  let t := { c.tcb with sndNxt := c.tcb.sndNxt + chunk.toUInt32 }
  { c with tcb := tcpArmRto (rttStart t now) now }

/-- The chunk the send loop would transmit next, `none` where it breaks off. -/
def tcpNextChunk (t : Tcb) (wnd : UInt32) : Option UInt16 :=
  let inFlight := t.sndNxt - t.sndUna
  let sentData := tcpDataInFlight t
  let avail := t.sndLen - sentData
  if avail = 0 || t.finSent then none
  else if inFlight ≥ wnd then none
  else
    let room := wnd - inFlight
    let chunk : UInt16 := (pfMin (pfMin avail t.mss.toUInt32) room).toUInt16
    if chunk = 0 then none
    -- Nagle: with data outstanding, hold a sub-MSS segment that empties the buffer.
    else if !t.nodelay && sentData > 0 && chunk < t.mss && chunk.toUInt32 = avail then none
    else some chunk

/-- The `for (;;)` loop of `tcp_output`. Each round puts at least one more byte
of the window in flight, so the window is enough fuel. -/
def tcpOutputLoop (now : Nat) (wnd : UInt32) : Nat → Conn → Conn
  | 0, c => c
  | fuel + 1, c =>
    match tcpNextChunk c.tcb wnd with
    | none => c
    | some chunk => tcpOutputLoop now wnd fuel (tcpOutputChunk now c chunk)

def tcpSendFin (now : Nat) (c : Conn) : Conn :=
  let c := tcpSendSegment c (tcpFin ||| tcpAck) c.tcb.sndNxt 0 0
  { c with tcb := tcpArmRto { c.tcb with finSent := true, sndNxt := c.tcb.sndNxt + 1 } now }

/-- The FIN goes out once the ring is fully transmitted. -/
def tcpOutputFin (now : Nat) (c : Conn) : Conn :=
  if c.tcb.finQueued && !c.tcb.finSent && c.tcb.sndLen = tcpDataInFlight c.tcb then
    tcpSendFin now c
  else c

def tcpOutput (now : Nat) (c : Conn) : Conn :=
  if c.tcb.state.sends then
    let wnd := pfMin c.tcb.sndWnd c.tcb.cwnd
    tcpOutputFin now (tcpOutputLoop now wnd wnd.toNat c)
  else c

/-- The segment a retransmission sends: the SYN, the oldest data in flight, or
the FIN. -/
def tcpResend (c : Conn) : Conn :=
  if c.tcb.state = .synSent then tcpSendCtl c tcpSyn
  else if c.tcb.state = .synRcvd then tcpSendCtl c (tcpSyn ||| tcpAck)
  else if tcpDataInFlight c.tcb > 0 then
    let chunk : UInt16 := (pfMin (tcpDataInFlight c.tcb) c.tcb.mss.toUInt32).toUInt16
    tcpSendSegment c (dataFlags (chunk.toUInt32 == c.tcb.sndLen)) c.tcb.sndUna 0 chunk
  else if c.tcb.finSent && seqLt c.tcb.sndUna c.tcb.sndNxt then
    tcpSendSegment c (tcpFin ||| tcpAck) c.tcb.sndUna 0 0
  else c

def tcpRetransmit (c : Conn) : Conn :=
  let c := c.count .tcpRtxSegs
  -- Karn's algorithm: never time retransmits.
  tcpResend { c with tcb := { c.tcb with rttTiming := false } }

end PacketForge
