import PacketForge.Stack.Output

/-!
The input path: a frame handed to `eth_input`, and what becomes of it. Every
function reads the received packet through `view`, which stops at a fault when
the bytes are not all inside the packet, and every length it subtracts is
checked; so a parser that trusted a length field too much would be seen here.
-/

namespace PacketForge

open Checked

/-! ### Forwarding -/

def ipForward (s : Stack) (now : Nat) (indev : DevIdx) (p : Pkt) : Except Fault Stack := do
  let ih ← p.view 0 ipv4HdrMin
  let dst := ipDaddr ih
  if ip4IsLoopback dst ∨ ip4IsMulticast dst ∨ ip4IsExperimental dst then
    return s.count .ipFwdBadDst
  else if s.anyDev fun d => d.ip ≠ 0 && dst = d.subnetBcast then return s.count .ipFwdBadDst
  else if ipTtl ih ≤ 1 then
    icmpSendError (s.count .ipFwdTtlExceeded) now p.data icmpTypeTimeExceeded 0
  else
    match fibLookup s.fib dst with
    | none => icmpSendError (s.count .ipFwdNoRoute) now p.data icmpTypeDestUnreach 0
    | some r =>
      let rt := s.fib.pool r
      match rt.dev with
      | none => .error .null
      | some out =>
        if p.len > (s.devs out).mtu.toNat then
          let s := s.count .ipFwdMtuDrop
          if ipFragOff ih &&& ipFragDf ≠ 0 then icmpSendError s now p.data icmpTypeDestUnreach 4
          else return s
        else
          let s := if out = indev then s.count .ipFwdSameIf else s
          let p := p.edit (decTtl p.data) (decTtl_length _)
          arpOutput (s.count .ipFwdForwarded) now out (if rt.connected then dst else rt.nextHop) p

/-! ### Transport protocols -/

/-- The reply to an echo request: type 0, everything else unchanged. -/
def icmpEchoReply (icmp : List UInt8) : List UInt8 := icmpSeal (icmp.set 0 icmpTypeEchoReply)

/-- `icmp_input`; `p.data` is at the IP header. -/
def icmpInput (s : Stack) (now : Nat) (p : Pkt) : Except Fault Stack := do
  let s := s.count .icmpRx
  let ih ← p.view 0 ipv4HdrMin
  let ihl := ipHdrLen ih
  let ilen ← subLen p.len ihl
  if ilen < icmpHdrLen then return s.count .icmpRxMalformed
  else
    let icmp ← p.view ihl ilen
    if inetCsum icmp ≠ 0 then return s.count .icmpRxBadCsum
    else
      let type := icmp.getD 0 0
      if type = icmpTypeEchoRequest then
        if icmp.getD 1 0 ≠ 0 then return s.count .icmpRxMalformed
        else
          let rp ← pktTx (icmpEchoReply icmp)
          ipOutput ((s.count .icmpEchoReqRx).count .icmpEchoReplyTx) now (ipDaddr ih) (ipSaddr ih)
            ipProtoIcmp ipDefaultTtl rp
      else if type = icmpTypeEchoReply then return s.count .icmpEchoReplyRx
      else if icmpTypeIsError type then return s.count .icmpRxErrors
      else return s.count .icmpRxOther

abbrev pfSockRxqCap : Nat := 64

/-- Put a datagram into the receive queue of a socket. -/
def Stack.pushRx (s : Stack) (i : SockIdx) (x : RxPkt) : Stack :=
  { s with socks := Function.update s.socks i { s.socks i with rxq := (s.socks i).rxq ++ [x] } }

/-- The end of `udp_input`: a datagram of `ulen` bytes after a header of `ihl`
bytes finds its socket. -/
def udpToSock (s : Stack) (now : Nat) (p : Pkt) (ihl ulen : Nat) (src dst : UInt32)
    (sport dport : UInt16) : Except Fault Stack :=
  match pfSockLookupUdp s.host dst dport with
  | none => icmpSendError (s.count .udpRxNoSock) now p.data icmpTypeDestUnreach 3
  | some sk =>
    if (s.socks sk).rxq.length ≥ pfSockRxqCap then .ok (s.count .udpRxQDrops)
    else do
      let n ← subLen ulen udpHdrLen
      let q ← pktPull p (ihl + udpHdrLen)
      let q ← pktTrim q n
      return (s.pushRx sk ⟨src, sport, q.data⟩).count .udpRxDelivered

def udpInput (s : Stack) (now : Nat) (p : Pkt) : Except Fault Stack := do
  let s := s.count .udpRx
  let ih ← p.view 0 ipv4HdrMin
  let ihl := ipHdrLen ih
  let l4len ← subLen p.len ihl
  if l4len < udpHdrLen then return s.count .udpRxMalformed
  else
    let uh ← p.view ihl udpHdrLen
    let ulen := (be16 uh 4).toNat
    let src := ipSaddr ih
    let dst := ipDaddr ih
    if ulen < udpHdrLen ∨ ulen > l4len then return s.count .udpRxMalformed
    else if be16 uh 6 = 0 then
      udpToSock (s.count .udpRxNocsum) now p ihl ulen src dst (be16 uh 0) (be16 uh 2)
    else
      let seg ← p.view ihl ulen
      if l4Csum src dst ipProtoUdp seg ≠ 0 then return s.count .udpRxBadCsum
      else udpToSock s now p ihl ulen src dst (be16 uh 0) (be16 uh 2)

/-- The walk of `tcp_parse_mss` over the packet: `off` is where the pointer stands
and `left` the bytes of the option area from there. -/
def parseMssAt (p : Pkt) : Nat → Nat → Nat → UInt16 → Except Fault (UInt16 × Bool)
  | 0, _, _, mss => .ok (mss, false)
  | fuel + 1, off, left, mss =>
    if left = 0 then .ok (mss, false)
    else do
      let kind := (← p.view off 1).getD 0 0
      if kind = tcpOptEnd then return (mss, false)
      else if kind = tcpOptNop then parseMssAt p fuel (off + 1) (left - 1) mss
      else if left < 2 then return (mss, true)
      else
        let len := (← p.view (off + 1) 1).getD 0 0
        if len < 2 ∨ len.toNat > left then return (mss, true)
        else
          let mss ←
            if kind = tcpOptMss ∧ len = 4 then (be16 · 0) <$> p.view (off + 2) 2 else pure mss
          parseMssAt p fuel (off + len.toNat) (left - len.toNat) mss

/-- `tcp_input` up to the point where the segment is taken apart. The options of a
SYN are parsed here for their reads alone; what comes of them is `tcpParseMss`. -/
def tcpInputPkt (s : Stack) (now : Nat) (p : Pkt) : Except Fault Stack := do
  let ih ← p.view 0 ipv4HdrMin
  let ihl := ipHdrLen ih
  let l4len ← subLen p.len ihl
  if l4len < tcpHdrMin then return (s.count .tcpRxSegs).count .tcpRxMalformed
  else
    let th ← p.view ihl tcpHdrMin
    let hl := ((th.getD 12 0 >>> 4) * 4).toNat
    if hl < tcpHdrMin ∨ hl > l4len then return (s.count .tcpRxSegs).count .tcpRxMalformed
    else
      let seg ← p.view ihl l4len
      if l4Csum (ipSaddr ih) (ipDaddr ih) ipProtoTcp seg ≠ 0 then
        return (s.count .tcpRxSegs).count .tcpRxBadCsum
      else
        let optlen ← subLen hl tcpHdrMin
        let paylen ← subLen l4len hl
        let opts ← p.view (ihl + tcpHdrMin) optlen
        let payload ← p.view (ihl + hl) paylen
        if hlen : payload.length < 2 ^ 16 then
          let g : Seg :=
            { src := ipSaddr ih
              dst := ipDaddr ih
              sport := be16 th 0
              dport := be16 th 2
              seq := be32 th 4
              ack := be32 th 8
              flags := th.getD 13 0
              wnd := be16 th 14
              opts := opts
              payload := payload
              payload_lt := hlen }
          let _ ←
            if g.has tcpSyn then parseMssAt p optlen (ihl + tcpHdrMin) optlen 0 else pure (0, false)
          s.runHost now (tcpInput now g)
        else .error .negative

/-! ### IP input -/

def ipLocalDeliver (s : Stack) (now : Nat) (p : Pkt) : Except Fault Stack := do
  let s := s.count .ipRxDelivered
  let ih ← p.view 0 ipv4HdrMin
  if ipProto ih = ipProtoIcmp then icmpInput s now p
  else if ipProto ih = ipProtoUdp then udpInput s now p
  else if ipProto ih = ipProtoTcp then tcpInputPkt s now p
  else icmpSendError (s.count .ipRxProtoUnreach) now p.data icmpTypeDestUnreach 2

/-- The copies that `ip_reass_input` makes of a fragment it takes: the payload to
its place, and the header of the first one. -/
def reassWrites (r : Reass) (now : Nat) (dev : DevIdx) (heap : Nat → UInt8) (d : Datagram) :
    Except Fault Unit :=
  let (i, r) := ctxFor r now (some dev) heap d
  match ctxAdd (r.ctxs i) d with
  | .error _ => .ok ()
  | .ok _ => do
    writeAt d.off d.paylen ipReassMaxPayload
    if d.off = 0 then writeAt 0 d.hdrLen ipv4HdrMax else pure ()

/-- The datagrams that reassembly hands up, each in a new packet. -/
def deliverAll (now : Nat) (s : Stack) (ds : List (Option DevIdx × List UInt8)) :
    Except Fault Stack :=
  ds.foldlM (fun s d => do ipLocalDeliver s now (← pktPut pktAlloc d.2)) s

def ipReassPkt (s : Stack) (now : Nat) (heap : Nat → UInt8) (dev : DevIdx) (p : Pkt) :
    Except Fault Stack := do
  let ih ← p.view 0 ipv4HdrMin
  let ihl := ipHdrLen ih
  let paylen ← subLen p.len ihl
  let _ ← p.view 0 ihl
  let _ ← p.view ihl paylen
  if h : ipv4HdrMin ≤ ipHdrLen p.data ∧ ipHdrLen p.data ≤ p.data.length ∧ p.data.length < 65536 then
    let d : Datagram := ⟨p.data, h.1, h.2.1, h.2.2⟩
    if d.wellFormed then reassWrites s.reass now dev heap d
    let r := ipReassInput s.reass now (some dev) heap d
    deliverAll now (s.putReass r) r.delivered
  else .error .negative

/-- Is the address one of ours, on any interface? -/
def stackOwnsIp (s : Stack) (dst : UInt32) : Bool := s.anyDev fun d => d.ip ≠ 0 && d.ip = dst

/-- What follows the header checks of `ip_input`. -/
def ipDispatch (s : Stack) (now : Nat) (heap : Nat → UInt8) (dev : DevIdx) (p : Pkt) :
    Except Fault Stack := do
  let ih ← p.view 0 ipv4HdrMin
  let dst := ipDaddr ih
  if ip4BadSrc (ipSaddr ih) then return s.count .ipRxBadSrc
  else if !stackOwnsIp s dst then
    if ip4IsMulticast dst || (s.devs dev).broadcasts dst then return s.count .ipRxBcastIgnored
    else if s.forwarding then ipForward s now dev p
    else return s.count .ipRxNotForUs
  else if ipFragOff ih &&& (ipFragMf ||| ipFragOffmask) ≠ 0 then
    ipReassPkt (s.count .ipFragsRx) now heap dev p
  else ipLocalDeliver s now p

def stripPadding (p : Pkt) (total : Nat) : Except Fault Pkt :=
  if total < p.len then pktTrim p total else .ok p

def ipInput (s : Stack) (now : Nat) (heap : Nat → UInt8) (dev : DevIdx) (p : Pkt) :
    Except Fault Stack := do
  let s := s.count .ipRx
  if p.len < ipv4HdrMin then return s.count .ipRxTruncated
  else
    let ih ← p.view 0 ipv4HdrMin
    let ihl := ipHdrLen ih
    let total := ipTotalLen ih
    if ipVersion ih ≠ 4 then return s.count .ipRxBadVersion
    else if ihl < ipv4HdrMin then return s.count .ipRxBadIhl
    else if ihl > p.len then return s.count .ipRxTruncated
    else if total < ihl then return s.count .ipRxBadLen
    else if total > p.len then return s.count .ipRxBadLen
    else
      let p ← stripPadding p total
      let hdr ← p.view 0 ihl
      if inetCsum hdr ≠ 0 then return s.count .ipRxBadCsum else ipDispatch s now heap dev p

/-! ### Ethernet input -/

def ethInput (s : Stack) (now : Nat) (heap : Nat → UInt8) (dev : DevIdx) (p : Pkt) :
    Except Fault Stack := do
  let s := s.count .ethRxFrames
  if p.len < ethHdrLen then return s.count .ethRxRunts
  else
    let eh ← p.view 0 ethHdrLen
    let type := be16 eh 12
    if Mac.read eh 0 ≠ (s.devs dev).mac ∧ !(Mac.read eh 0).group then
      return s.count .ethRxOtherDest
    else
      let p ← pktPull p ethHdrLen
      if type = ethTypeArp then s.putArp <$> arpInput s.devs now dev p s.arp
      else if type = ethTypeIp4 then ipInput s now heap dev p
      else return s.count .ethRxUnknownEthertype

end PacketForge
