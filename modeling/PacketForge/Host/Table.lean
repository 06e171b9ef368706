import PacketForge.Lib.Slots
import PacketForge.Tcp.Conn

/-!
The host: the table of control blocks (`struct tcp_globals`), the table of
sockets (`struct pf_socktab`), and the TCP code that works on them rather than
on one connection. A function of the connection level is run on a slot of the
table by `Host.run`, which stores the block it returns and then does what the
connection could not do by itself: append the block to its listener's accept
queue, detach its socket, and clear the slot.
-/

namespace PacketForge

abbrev pfEphemeralBase : UInt16 := 49152

abbrev TcbIdx := Fin tcpMaxConns

abbrev SockIdx := Fin pfSockMax

inductive PfSockType where
  | none | udp | tcp
deriving DecidableEq, Repr

/-- A UDP payload in a socket's receive queue, with where it came from. -/
structure RxPkt where
  metaIp : UInt32
  metaPort : UInt16
  data : List UInt8

/-- `struct pf_sock`. The type `none` marks a free slot. -/
structure PfSock where
  type : PfSockType
  localIp : UInt32
  localPort : UInt16
  rxq : List RxPkt
  tcb : Option TcbIdx
  err : PfErr

def PfSock.zero : PfSock where
  type := .none
  localIp := 0
  localPort := 0
  rxq := []
  tcb := none
  err := .none

inductive Pending where
  | accept (sock : SockIdx) (l : TcbIdx)
  | connect (sock : SockIdx)
  | send (sock : SockIdx) (rest : List UInt8) (len : Nat)
  | recv (sock : SockIdx) (cap : Nat)
deriving DecidableEq

/-- The parts of `struct pf_stack` that TCP and the socket layer work on, the
segments handed to `ip_output` in the current event, whether a packet buffer
assertion has failed, and the blocking call in progress. -/
structure Host where
  tcbs : TcbIdx → Tcb
  issNext : UInt32
  socks : SockIdx → PfSock
  ephemeralNext : UInt16
  stats : Stats
  out : List Seg
  panicked : Bool
  pending : Option Pending

/-- `tcp_init` and `pf_socktab_init`. -/
def Host.init : Host where
  tcbs := fun _ => Tcb.zero
  issNext := 0x1f2e3d4c
  socks := fun _ => PfSock.zero
  ephemeralNext := pfEphemeralBase
  stats := Stats.zero
  out := []
  panicked := false
  pending := none

namespace Host

def setTcb (h : Host) (i : TcbIdx) (t : Tcb) : Host := { h with tcbs := Function.update h.tcbs i t }

def setSock (h : Host) (s : SockIdx) (x : PfSock) : Host :=
  { h with socks := Function.update h.socks s x }

def count (h : Host) (x : Stat) : Host := { h with stats := h.stats.inc x }

def emit (h : Host) (g : Seg) : Host := { h with out := h.out ++ [g] }

def store (h : Host) (i : TcbIdx) (c : Conn) : Host :=
  { h.setTcb i c.tcb with
    stats := c.stats
    out := h.out ++ c.out
    panicked := h.panicked || c.panicked }

def conn (h : Host) (i : TcbIdx) : Conn := Conn.start (h.tcbs i) h.stats

end Host

/-! ### Allocating and freeing blocks -/

/-- The slot `tcb_alloc` takes; the block in it is then `Tcb.fresh`. -/
def tcbAlloc (h : Host) : Option TcbIdx := Slots.first fun i => !(h.tcbs i).active

/-- Detach the owning socket, marking it with an error for the API. -/
def tcbDetachSock (h : Host) (i : TcbIdx) (err : PfErr) : Host :=
  match (h.tcbs i).sockIdx with
  | none => h
  | some s =>
    (h.setSock s { h.socks s with tcb := none, err := err }).setTcb i
      { h.tcbs i with sockIdx := none }

/-- The end of `tcb_free`: detach the socket and clear the slot. -/
def tcbClear (h : Host) (i : TcbIdx) : Host := (tcbDetachSock h i .none).setTcb i Tcb.zero

/-- Whether the block in slot `c` was created by the listener in slot `i`. -/
def isChild (h : Host) (i c : TcbIdx) : Bool :=
  (h.tcbs c).active && c ≠ i && (h.tcbs c).listener = some i

/-- `tcb_free`. A listener takes its embryonic and not yet accepted children
down with it. No child is a listener, so the recursion is never deeper than
one call; the first argument bounds it. -/
def tcbFreeRec : Nat → Host → TcbIdx → Host
  | 0, h, i => tcbClear h i
  | depth + 1, h, i =>
    let h :=
      if (h.tcbs i).state = .listen then
        Slots.each
          (fun h c =>
            if isChild h i c then
              tcbFreeRec depth (h.store c (tcpSendCtl (h.conn c) (tcpRst ||| tcpAck))) c
            else h)
          h
      else h
    tcbClear h i

def tcbFree (h : Host) (i : TcbIdx) : Host := tcbFreeRec tcpMaxConns h i

/-- `l->acceptq[l->acceptq_n++] = tcb`. -/
def acceptqPush (h : Host) (l i : TcbIdx) : Host :=
  h.setTcb l { h.tcbs l with acceptq := (h.tcbs l).acceptq ++ [i] }

/-- The room in the accept queue of the listener of slot `i`. -/
def acceptRoom (h : Host) (i : TcbIdx) : Option Bool :=
  (h.tcbs i).listener.map fun l => (h.tcbs l).acceptq.length < (h.tcbs l).backlog.toNat

/-- Hand a block to its listener's accept queue if the connection asks for it. -/
def Host.enqueue (h : Host) (i : TcbIdx) (c : Conn) : Host :=
  match c.queued, c.tcb.listener with
  | true, some l => acceptqPush h l i
  | _, _ => h

/-- Store a connection in slot `i` and free the slot if the connection asks for
it. A fatal error reaches the socket before the block is freed. -/
def Host.commit (h : Host) (i : TcbIdx) (c : Conn) : Host :=
  let h := (h.store i c).enqueue i c
  match c.fate with
  | .alive => h
  | .freed err => tcbFree (tcbDetachSock h i err) i

def Host.run (h : Host) (i : TcbIdx) (f : Conn → Conn) : Host := h.commit i (f (h.conn i))

/-! ### Opening -/

/-- `tcp_gen_iss`: the counter after the draw, which is also the ISS. -/
def tcpGenIss (now : Nat) (h : Host) : UInt32 := h.issNext + 64000 + UInt32.ofNat (now % 1024)

/-- The slot of the new listener, `none` when the table is full. -/
def tcpOpenListen (h : Host) (sock : SockIdx) (ip : UInt32) (port backlog : UInt16) :
    Host × Option TcbIdx :=
  match tcbAlloc h with
  | none => (h, none)
  | some i =>
    (h.setTcb i
      { Tcb.fresh with
        state := .listen
        sockIdx := some sock
        localIp := ip
        localPort := port
        backlog := min (if backlog ≠ 0 then backlog else 1) 8 }, some i)

/-- The slot of the new connection, `none` when the table is full. -/
def tcpOpenActive (now : Nat) (h : Host) (sock : SockIdx) (lip : UInt32) (lport : UInt16)
    (rip : UInt32) (rport : UInt16) : Host × Option TcbIdx :=
  match tcbAlloc h with
  | none => (h, none)
  | some i =>
    let iss := tcpGenIss now h
    let h := { h with issNext := iss }
    (h.store i (tcpOpenActiveConn now (some sock) lip lport rip rport iss h.stats), some i)

/-! ### Segments and ticks -/

/-- Whether a block in use is a listener for the address and port. -/
def Tcb.listensOn (t : Tcb) (lip : UInt32) (lport : UInt16) : Bool :=
  t.localPort = lport && (t.localIp = 0 || t.localIp = lip)

/-- Whether a block belongs to the connection of the four-tuple. -/
def Tcb.connects (t : Tcb) (lip : UInt32) (lport : UInt16) (rip : UInt32) (rport : UInt16) : Bool :=
  t.localIp = lip && t.localPort = lport && t.remoteIp = rip && t.remotePort = rport

/-- The loop of `tcb_lookup` over the slots still to visit. An exact match ends
it; of the listeners seen, the last one counts. -/
def tcbLookupLoop (h : Host) (lip : UInt32) (lport : UInt16) (rip : UInt32) (rport : UInt16) :
    List TcbIdx → Option TcbIdx → Option TcbIdx
  | [], listener => listener
  | i :: rest, listener =>
    let t := h.tcbs i
    if !t.active then tcbLookupLoop h lip lport rip rport rest listener
    else if t.state = .listen then
      tcbLookupLoop h lip lport rip rport rest (if t.listensOn lip lport then some i else listener)
    else if t.connects lip lport rip rport then some i
    else tcbLookupLoop h lip lport rip rport rest listener

def tcbLookup (h : Host) (lip : UInt32) (lport : UInt16) (rip : UInt32) (rport : UInt16) :
    Option TcbIdx :=
  tcbLookupLoop h lip lport rip rport (List.finRange tcpMaxConns) none

/-- `tcp_send_reset_for` where no connection is involved. -/
def Host.sendResetFor (h : Host) (g : Seg) : Host :=
  match tcpResetFor g with
  | none => h
  | some r => (h.count .tcpRstTx).emit r

def tcpInputListen (now : Nat) (g : Seg) (i : TcbIdx) (h : Host) : Host :=
  if g.has tcpRst then h
  else if g.has tcpAck then h.sendResetFor g
  else if !g.has tcpSyn then h
  else if (h.tcbs i).acceptq.length ≥ (h.tcbs i).backlog.toNat then h.count .tcpAcceptDrops
  else
    match tcbAlloc h with
    | none => h.count .tcpAcceptDrops
    | some c =>
      let iss := tcpGenIss now h
      let h := { h with issNext := iss }
      h.store c (tcpOpenPassiveConn now i (h.tcbs i).localPort iss g h.stats)

/-- `tcp_input` for a segment whose lengths and checksum have been checked. -/
def tcpInput (now : Nat) (g : Seg) (h : Host) : Host :=
  let h := h.count .tcpRxSegs
  match tcbLookup h g.dst g.dport g.src g.sport with
  | none => (h.count .tcpRxNoMatch).sendResetFor g
  | some i =>
    if (h.tcbs i).state = .listen then tcpInputListen now g i h
    else h.run i (tcpInputConn now (acceptRoom h i) g)

def tcpTick (now : Nat) (h : Host) : Host :=
  Slots.each (fun h i => if (h.tcbs i).active then h.run i (tcpTickConn now) else h) h

end PacketForge
