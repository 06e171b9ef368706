import PacketForge.Arp.Cache
import PacketForge.Ipv4.Header
import PacketForge.Udp.Socket

/-!
The stack (`struct pf_stack`) and its output path: `ip_output` down to the
frames, and those who call it. The modules for ARP, reassembly and TCP work on
their own part of the state; `Stack.arp`, `Stack.reass` and `Stack.host` are
these parts with the counters, and the `put` functions store them back. TCP and
reassembly return what they hand to IP or ICMP, and the stack sends it when they
are done: no module reads what the sending changes.
-/

namespace PacketForge

open Checked

abbrev icmpErrMinIntervalMs : Nat := 10

/-- An ICMP error message: its type, its code and the datagram it is about. -/
structure IcmpError where
  type : UInt8
  code : UInt8
  orig : List UInt8
deriving DecidableEq

/-- `struct pf_stack` with the frames transmitted. `acts` and `errors` record what
ARP did and the errors handed to an interface; no function reads them. -/
structure Stack where
  devs : Devs
  ndevs : Nat
  forwarding : Bool
  fib : Fib
  cache : ArpCache
  ctxs : Fin ipReassCtxs → ReassCtx
  tcbs : TcbIdx → Tcb
  issNext : UInt32
  socks : SockIdx → PfSock
  ephemeralNext : UInt16
  pending : Option Pending
  ipId : UInt16
  icmpLastErrMs : Nat
  stats : Stats
  tx : List EthFrame
  acts : List ArpAct
  errors : List IcmpError

/-- `pf_stack_init`, with the interfaces and routes that were then configured. -/
def pfStackInit (devs : Devs) (ndevs : Nat) (forwarding : Bool) (fib : Fib) : Stack where
  devs := devs
  ndevs := ndevs
  forwarding := forwarding
  fib := fib
  cache := fun _ => ArpEntry.zero
  ctxs := fun _ => ReassCtx.zero
  tcbs := Host.init.tcbs
  issNext := Host.init.issNext
  socks := Host.init.socks
  ephemeralNext := Host.init.ephemeralNext
  pending := none
  ipId := 0
  icmpLastErrMs := 0
  stats := Stats.zero
  tx := []
  acts := []
  errors := []

namespace Stack

def count (s : Stack) (c : Stat) : Stack := { s with stats := s.stats.inc c }

def anyDev (s : Stack) (test : NetDev → Bool) : Bool :=
  (List.finRange pfMaxDevs).any fun i => decide (i.val < s.ndevs) && test (s.devs i)

/-! ### The parts the modules work on -/

def arp (s : Stack) : Arp where
  entries := s.cache
  stats := s.stats
  tx := s.tx
  acts := s.acts

def putArp (s : Stack) (a : Arp) : Stack :=
  { s with cache := a.entries, stats := a.stats, tx := a.tx, acts := a.acts }

def reass (s : Stack) : Reass where
  ctxs := s.ctxs
  stats := s.stats
  delivered := []
  timeExceeded := []

def putReass (s : Stack) (r : Reass) : Stack := { s with ctxs := r.ctxs, stats := r.stats }

def host (s : Stack) : Host where
  tcbs := s.tcbs
  issNext := s.issNext
  socks := s.socks
  ephemeralNext := s.ephemeralNext
  stats := s.stats
  out := []
  panicked := false
  pending := s.pending

def putHost (s : Stack) (h : Host) : Stack :=
  { s with
    tcbs := h.tcbs
    issNext := h.issNext
    socks := h.socks
    ephemeralNext := h.ephemeralNext
    pending := h.pending
    stats := h.stats }

end Stack

/-! ### IP output -/

/-- `ip_route_lookup`: the interface and the next hop. -/
def ipRouteLookup (s : Stack) (dst : UInt32) : Option (DevIdx × UInt32) :=
  match fibLookup s.fib dst with
  | none => none
  | some r =>
    let rt := s.fib.pool r
    rt.dev.map (·, if rt.connected then dst else rt.nextHop)

def arpOutput (s : Stack) (now : Nat) (dev : DevIdx) (nextHop : UInt32) (p : Pkt) :
    Except Fault Stack := do
  let (a, mac) ← arpResolve s.devs now dev nextHop (some p) s.arp
  match mac with
  | some mac => s.putArp <$> a.ethOutput s.devs dev mac ethTypeIp4 p
  | none => return s.putArp a

/-- The destinations that `ip_output_one` sends as link-layer broadcasts. -/
def NetDev.broadcasts (d : NetDev) (dst : UInt32) : Bool :=
  ip4IsLimitedBcast dst || (d.ip ≠ 0 && dst = d.subnetBcast)

def ipOutputOne (s : Stack) (now : Nat) (dev : DevIdx) (nextHop src dst : UInt32)
    (proto ttl : UInt8) (id frag : UInt16) (p : Pkt) : Except Fault Stack := do
  let p ← pktPush p (ipv4Hdr (p.len + ipv4HdrMin) id frag ttl proto src dst)
  let s := s.count .ipTx
  if (s.devs dev).broadcasts dst then s.putArp <$> s.arp.ethOutput s.devs dev ethBcast ethTypeIp4 p
  else arpOutput s now dev nextHop p

/-- The payload bytes of a fragment: a multiple of 8 that fits the MTU. -/
def maxChunk (d : NetDev) : Nat := ((d.mtu.toUInt32 - 20) &&& ~~~(7 : UInt32)).toUInt16.toNat

/-- The fragmentation loop of `ip_output`, from the payload byte `off` on. `send`
is `ip_output_one` for the datagram; at most `fuel` rounds are left. -/
def ipFragLoop (send : Stack → UInt16 → Pkt → Except Fault Stack) (payload : List UInt8)
    (chunk : Nat) : Nat → Nat → Stack → Except Fault Stack
  | 0, off, s => if off < payload.length then .error .stuck else .ok s
  | fuel + 1, off, s =>
    if off < payload.length then do
      let n := min chunk (payload.length - off)
      let fp ← pktTx ((payload.drop off).take n)
      let field := UInt16.ofNat (off / 8) &&& ipFragOffmask
      let field := if off + n = payload.length then field else field ||| ipFragMf
      let s ← send (s.count .ipTxFrags) field fp
      ipFragLoop send payload chunk fuel (off + n) s
    else .ok s

/-- `ip_output`. Every round of the loop sends a byte unless the MTU leaves no
room for 8 of them; then the loop does not end. -/
def ipOutput (s : Stack) (now : Nat) (src dst : UInt32) (proto ttl : UInt8) (p : Pkt) :
    Except Fault Stack :=
  match ipRouteLookup s dst with
  | none => .ok (s.count .ipTxNoRoute)
  | some (dev, nextHop) =>
    if dst = (s.devs dev).ip then .ok (s.count .ipTxNoRoute)
    else
      let src := if src = 0 then (s.devs dev).ip else src
      let id := s.ipId
      let s := { s with ipId := id + 1 }
      if p.len + ipv4HdrMin ≤ (s.devs dev).mtu.toNat then
        ipOutputOne s now dev nextHop src dst proto ttl id 0 p
      else
        ipFragLoop (fun s => ipOutputOne s now dev nextHop src dst proto ttl id) p.data
          (maxChunk (s.devs dev)) p.len 0 s

/-! ### ICMP errors -/

abbrev icmpHdrLen : Nat := 8
abbrev icmpTypeEchoReply : UInt8 := 0
abbrev icmpTypeDestUnreach : UInt8 := 3
abbrev icmpTypeSrcQuench : UInt8 := 4
abbrev icmpTypeRedirect : UInt8 := 5
abbrev icmpTypeEchoRequest : UInt8 := 8
abbrev icmpTypeTimeExceeded : UInt8 := 11
abbrev icmpTypeParamProblem : UInt8 := 12

def icmpTypeIsError (type : UInt8) : Bool :=
  type = icmpTypeDestUnreach || type = icmpTypeSrcQuench || type = icmpTypeRedirect ||
    type = icmpTypeTimeExceeded || type = icmpTypeParamProblem

/-- Sources that no error is sent to. -/
def icmpNoErrorTo (src : UInt32) : Bool :=
  src = 0 || ip4IsLoopback src || ip4IsMulticast src || ip4IsExperimental src ||
    ip4IsLimitedBcast src

/-- Destinations that no error is sent about. -/
def icmpNoErrorAbout (dst : UInt32) : Bool :=
  ip4IsMulticast dst || ip4IsLimitedBcast dst || ip4IsExperimental dst

/-- Fill in the checksum of an ICMP message. -/
def icmpSeal (msg : List UInt8) : List UInt8 :=
  let msg := putBe16 msg 2 0
  putBe16 msg 2 (inetCsum msg)

def icmpErrorMsg (quote : List UInt8) (type code : UInt8) : List UInt8 :=
  icmpSeal ([type, code, 0, 0, 0, 0, 0, 0] ++ quote)

def icmpTooSoon (s : Stack) (now : Nat) : Bool :=
  s.icmpLastErrMs ≠ 0 && s.icmpLastErrMs ≤ now && now - s.icmpLastErrMs < icmpErrMinIntervalMs

def routable (s : Stack) (dst : UInt32) : Bool :=
  (ipRouteLookup s dst).any fun (dev, _) => dst ≠ (s.devs dev).ip

/-- Record an error for which there is an interface. -/
def Stack.noteError (s : Stack) (e : IcmpError) : Stack :=
  if routable s (ipSaddr e.orig) then { s with errors := e :: s.errors } else s

/-- The end of `icmp_send_error`, once no rule suppresses the error: the header and
the first 8 bytes after it are quoted. -/
def icmpTransmitError (s : Stack) (now : Nat) (orig : List UInt8) (type code : UInt8) :
    Except Fault Stack := do
  let quote ← readAt orig 0 (min orig.length (ipHdrLen orig + 8))
  let p ← pktTx (icmpErrorMsg quote type code)
  let s := ({ s.count .icmpErrTx with icmpLastErrMs := now } : Stack).noteError ⟨type, code, orig⟩
  ipOutput s now 0 (ipSaddr orig) ipProtoIcmp ipDefaultTtl p

/-- The type of the ICMP message in a datagram, where it carries one. -/
def icmpQuoted (orig : List UInt8) (ihl : Nat) (proto : UInt8) : Except Fault (List UInt8) :=
  if proto = ipProtoIcmp ∧ orig.length ≥ ihl + 1 then readAt orig ihl 1 else .ok []

/-- `icmp_send_error` about the datagram that starts at `orig`, of which the
bytes of the list are there. -/
def icmpSendError (s : Stack) (now : Nat) (orig : List UInt8) (type code : UInt8) :
    Except Fault Stack :=
  if orig.length < ipv4HdrMin then .ok s
  else do
    let ih ← readAt orig 0 ipv4HdrMin
    let ihl := ipHdrLen ih
    if ihl < ipv4HdrMin ∨ ihl > orig.length then return s
    else if ipFragOff ih &&& ipFragOffmask ≠ 0 then return s
    else if icmpNoErrorTo (ipSaddr ih) then return s
    else if icmpNoErrorAbout (ipDaddr ih) then return s
    else
      let oicmp ← icmpQuoted orig ihl (ipProto ih)
      if oicmp.any icmpTypeIsError then return s
      else if icmpTooSoon s now then return s.count .icmpErrSuppressed
      else icmpTransmitError s now orig type code

/-! ### UDP and TCP output -/

abbrev udpHdrLen : Nat := 8

/-- `udp_output`: the header is pushed in front of the payload, whose source
address is that of the egress interface where the socket has none. -/
def udpOutput (s : Stack) (now : Nat) (srcIp : UInt32) (sport : UInt16) (dstIp : UInt32)
    (dport : UInt16) (p : Pkt) : Except Fault Stack := do
  let ulen := UInt16.ofNat (p.len + udpHdrLen)
  let p ← pktPush p (toBe16 sport ++ toBe16 dport ++ toBe16 ulen ++ toBe16 0)
  match if srcIp = 0 then (ipRouteLookup s dstIp).map fun r => (s.devs r.1).ip else some srcIp with
  | none => return s.count .ipTxNoRoute
  | some src =>
    let c := l4Csum src dstIp ipProtoUdp p.data
    let p := p.edit (putBe16 p.data 6 (if c = 0 then 0xffff else c)) (putBe16_length _ _ _)
    ipOutput (s.count .udpTx) now src dstIp ipProtoUdp ipDefaultTtl p

def tcpBytes (g : Seg) : List UInt8 :=
  let doff := UInt8.ofNat ((tcpHdrMin + g.opts.length) / 4) <<< 4
  let seg := toBe16 g.sport ++ toBe16 g.dport ++ toBe32 g.seq ++ toBe32 g.ack ++ [doff, g.flags] ++
    toBe16 g.wnd ++ toBe16 0 ++ toBe16 0 ++ g.opts ++ g.payload
  putBe16 seg 16 (l4Csum g.src g.dst ipProtoTcp seg)

def tcpTransmit (now : Nat) (s : Stack) (g : Seg) : Except Fault Stack := do
  let p ← pktTx (tcpBytes g)
  ipOutput s now g.src g.dst ipProtoTcp ipDefaultTtl p

/-- Run TCP code on its part of the stack, and transmit its segments. -/
def Stack.runHost (s : Stack) (now : Nat) (f : Host → Host) : Except Fault Stack :=
  let h := f s.host
  if h.panicked then .error (.assert .put) else h.out.foldlM (tcpTransmit now) (s.putHost h)

end PacketForge
