import PacketForge.Tcp.Input

/-!
The life of one connection: how it is opened, what the timer and the
application do to it, and the transition system all of these and the received
segments form. The socket layer and the segment demultiplexer drive exactly
these transitions, each on the slot it looked up; the order in which they do
is arbitrary here.
-/

namespace PacketForge

/-! ### Opening -/

def tcpStartSyn (now : Nat) (flags : UInt8) (c : Conn) : Conn :=
  let c := tcpSendCtl c flags
  { c with tcb := tcpArmRto c.tcb now }

/-- The block `tcp_open_active` fills in once an ISS was drawn. -/
def activeTcb (sock : Option (Fin pfSockMax)) (lip : UInt32) (lport : UInt16) (rip : UInt32)
    (rport : UInt16) (iss : UInt32) : Tcb :=
  { Tcb.fresh with
    sockIdx := sock
    localIp := lip
    localPort := lport
    remoteIp := rip
    remotePort := rport
    iss := iss
    sndUna := iss
    sndNxt := iss + 1 -- SYN occupies one sequence number
    state := .synSent }

/-- `tcp_open_active` once a block was allocated and an ISS drawn. -/
def tcpOpenActiveConn (now : Nat) (sock : Option (Fin pfSockMax)) (lip : UInt32)
    (lport : UInt16) (rip : UInt32) (rport : UInt16) (iss : UInt32) (st : Stats) : Conn :=
  tcpStartSyn now tcpSyn
    ((Conn.start (activeTcb sock lip lport rip rport iss) st).count .tcpActiveOpens)

/-- The fields of the child a LISTEN block creates for a SYN. -/
def passiveTcb (l : Fin tcpMaxConns) (lport : UInt16) (iss : UInt32) (g : Seg) : Tcb :=
  { Tcb.fresh with
    localIp := g.dst
    localPort := lport
    remoteIp := g.src
    remotePort := g.sport
    irs := g.seq
    rcvNxt := g.seq + 1
    iss := iss
    sndUna := iss
    sndNxt := iss + 1
    sndWnd := g.wnd.toUInt32
    sndWl1 := g.seq
    sndWl2 := iss
    listener := some l }

/-- The child of a LISTEN block: the peer's MSS is taken and its SYN answered. -/
def tcpOpenPassiveConn (now : Nat) (l : Fin tcpMaxConns) (lport : UInt16) (iss : UInt32)
    (g : Seg) (st : Stats) : Conn :=
  let c := tcpTakeMss ((Conn.start (passiveTcb l lport iss g) st).count .tcpPassiveOpens) g
  tcpStartSyn now (tcpSyn ||| tcpAck) (c.setState .synRcvd)

/-! ### Timer -/

/-- The congestion state after a timeout, and the doubled RTO. -/
def rtoBackoff (t : Tcb) : Tcb :=
  let inFlight := t.sndNxt - t.sndUna
  let t :=
    if inFlight > 0 then
      { t with
        ssthresh := pfMax (inFlight / 2) (2 * t.mss.toUInt32)
        cwnd := t.mss.toUInt32
        dupacks := 0 }
    else t
  { t with rtoMs := pfMin (t.rtoMs * 2) 60000 }

def tcpRtoRetransmit (now : Nat) (c : Conn) : Conn :=
  let c := tcpRetransmit { c with tcb := rtoBackoff c.tcb }
  { c with tcb := { c.tcb with rtoDeadline := now + c.tcb.rtoMs.toNat } }

def countTimeout (c : Conn) : Conn :=
  { c with tcb := { c.tcb with rtxCount := c.tcb.rtxCount + 1 } }.count .tcpRtoFires

/-- The retransmission timer went off. -/
def tcpRtoFire (now : Nat) (c : Conn) : Conn :=
  if (countTimeout c).tcb.rtxCount > tcpMaxRtx then
    tcpConnError
      (tcpSendCtl ((countTimeout c).count .tcpConnTimeouts) (tcpRst ||| tcpAck)) .timedOut
  else tcpRtoRetransmit now (countTimeout c)

/-- Data waiting, nothing in flight, and the peer advertises zero. -/
def wantsProbe (t : Tcb) : Bool :=
  t.rtoDeadline = 0 && t.sndLen > 0 && t.sndWnd = 0 && t.sndUna = t.sndNxt && t.state.sends

def tcpTickProbe (now : Nat) (c : Conn) : Conn :=
  if wantsProbe c.tcb then
    let c := tcpSendProbe (c.count .tcpZeroWndProbes)
    { c with tcb := tcpArmRto c.tcb now }
  else c

def tcpTickDelack (now : Nat) (c : Conn) : Conn :=
  if c.tcb.delackDeadline ≠ 0 ∧ now ≥ c.tcb.delackDeadline then tcpSendCtl c tcpAck else c

/-- The body of the loop of `tcp_tick` for one active block. -/
def tcpTickConn (now : Nat) (c : Conn) : Conn :=
  if c.tcb.state = .timeWait then
    if now ≥ c.tcb.timewaitDeadline then c.free .none else c
  else if c.tcb.rtoDeadline ≠ 0 ∧ now ≥ c.tcb.rtoDeadline then tcpRtoFire now c
  else tcpTickDelack now (tcpTickProbe now c)

/-! ### Application -/

/-- Our side of the connection is closed, once for all. -/
def queueFin (st : TcpState) (c : Conn) : Conn :=
  { c with tcb := { c.tcb with state := st, finQueued := true } }

def tcpAppClose (now : Nat) (c : Conn) : Conn :=
  match c.tcb.state with
  | .listen | .synSent => c.free .none
  | .synRcvd | .established => tcpOutput now (queueFin .finWait1 c)
  | .closeWait => tcpOutput now (queueFin .lastAck c)
  | _ => c -- already closing

/-- `pf_send` appends bytes only in these two states. -/
def canAppend (t : Tcb) : Bool := t.state = .established || t.state = .closeWait

/-- How many of the remaining bytes one round of `pf_send` copies. The length
is cut to 32 bits before the minimum is taken. -/
def sendAmount (t : Tcb) (data : List UInt8) : UInt32 :=
  pfMin (UInt32.ofNat data.length) (65535 - t.sndLen)

def sndAppend (xs : List UInt8) (c : Conn) : Conn :=
  { c with
    tcb :=
      { c.tcb with
        sndbuf :=
          RingBuf.write tcpSndbuf c.tcb.sndbuf ((c.tcb.sndHead + c.tcb.sndLen).toNat % tcpSndbuf) xs
        sndLen := c.tcb.sndLen + UInt32.ofNat xs.length } }

/-- One round of the loop of `pf_send` with the bytes still to be sent. Without
space the caller pumps the event loop. -/
def pfSendCopy (now : Nat) (data : List UInt8) (c : Conn) : Conn :=
  if data.isEmpty || !canAppend c.tcb || 65535 - c.tcb.sndLen = 0 then c
  else tcpOutput now (sndAppend (data.take (sendAmount c.tcb data).toNat) c)

def recvAmount (t : Tcb) (cap : Nat) : UInt32 := pfMin (UInt32.ofNat cap) t.rcvLen

def recvBytes (t : Tcb) (cap : Nat) : List UInt8 :=
  RingBuf.read tcpRcvbuf t.rcvbuf t.rcvHead.toNat (recvAmount t cap).toNat

def rcvRelease (n : UInt32) (c : Conn) : Conn :=
  { c with
    tcb :=
      { c.tcb with rcvHead := (c.tcb.rcvHead + n) % 65535, rcvLen := c.tcb.rcvLen - n } }

/-- A window that reopens is announced at once. -/
def announceWindow (c : Conn) : Conn :=
  if c.tcb.rcvWndAdvertised = 0 ∧ tcpRcvWindow c.tcb ≥ c.tcb.mss then tcpSendCtl c tcpAck else c

def pfRecvCopy (cap : Nat) (c : Conn) : Conn :=
  if c.tcb.rcvLen > 0 then announceWindow (rcvRelease (recvAmount c.tcb cap) c) else c

/-! ### The transition system -/

inductive ConnEvent where
  | segment (now : Nat) (lroom : Option Bool) (g : Seg)
  | tick (now : Nat)
  | send (now : Nat) (data : List UInt8)
  | recv (cap : Nat)
  | close (now : Nat)
  | nodelay (on : Bool)
  /-- The socket layer hands the block to a socket, or takes it away. -/
  | attach (sock : Option (Fin pfSockMax))

/-- What an event does to a connection whose block is in use. -/
def connHandle (c : Conn) : ConnEvent → Conn
  | .segment now lroom g => tcpInputConn now lroom g c
  | .tick now => tcpTickConn now c
  | .send now data => pfSendCopy now data c
  | .recv cap => pfRecvCopy cap c
  | .close now => tcpAppClose now c
  | .nodelay on => { c with tcb := { c.tcb with nodelay := on } }
  | .attach sock => { c with tcb := { c.tcb with sockIdx := sock, listener := none } }

/-- One event. `out` holds the segments of this event only; a freed block is
no longer this connection's. -/
def connStep (c : Conn) (e : ConnEvent) : Conn :=
  match c.fate with
  | .alive => connHandle (Conn.start c.tcb c.stats) e
  | .freed err => { Conn.start c.tcb c.stats with fate := .freed err }

theorem connStep_live {c : Conn} {e : ConnEvent} (h : (connStep c e).fate = .alive) :
    c.fate = .alive := by
  cases hfate : c.fate with
  | alive => rfl
  | freed err =>
    simp only [connStep, hfate] at h
    cases h

/-- The application closes only after the handshake. -/
def CloseAfterHandshake (c : Conn) (e : ConnEvent) : Prop :=
  ∀ now, e = .close now → c.tcb.state ≠ .synSent ∧ c.tcb.state ≠ .synRcvd

inductive Opened : Conn → Prop where
  | active (now : Nat) (sock : Option (Fin pfSockMax)) (lip : UInt32) (lport : UInt16)
      (rip : UInt32) (rport : UInt16) (iss : UInt32) (st : Stats) :
      Opened (tcpOpenActiveConn now sock lip lport rip rport iss st)
  | passive (now : Nat) (l : Fin tcpMaxConns) (lport : UInt16) (iss : UInt32) (g : Seg)
      (st : Stats) : Opened (tcpOpenPassiveConn now l lport iss g st)

def appended (c : Conn) : ConnEvent → List UInt8
  | .send _ data =>
    if c.fate = .alive && canAppend c.tcb then data.take (sendAmount c.tcb data).toNat else []
  | _ => []

def returned (c : Conn) : ConnEvent → List UInt8
  | .recv cap => if c.fate = .alive then recvBytes c.tcb cap else []
  | _ => []

end PacketForge
