import PacketForge.Host.Socket
import PacketForge.Core.Pkt

/-!
The UDP side of the socket layer (`sock.c`): which socket a datagram is for, and
the automatic bind of `pf_sendto`. The socket calls of TCP, the segments and the
ticks act on the same table of sockets; `sockStep` is a step of either kind.
-/

namespace PacketForge

/-- The loop of `pf_sock_lookup_udp` over the slots still to visit. A socket
bound to the address ends it; of the wildcards seen, the last one counts. -/
def udpLookupLoop (h : Host) (dstIp : UInt32) (dport : UInt16) :
    List SockIdx → Option SockIdx → Option SockIdx
  | [], wildcard => wildcard
  | i :: rest, wildcard =>
    let s := h.socks i
    if s.type ≠ .udp ∨ s.localPort ≠ dport then udpLookupLoop h dstIp dport rest wildcard
    else if s.localIp = dstIp then some i
    else udpLookupLoop h dstIp dport rest (if s.localIp = 0 then some i else wildcard)

def pfSockLookupUdp (h : Host) (dstIp : UInt32) (dport : UInt16) : Option SockIdx :=
  udpLookupLoop h dstIp dport (List.finRange pfSockMax) none

/-- `pf_sendto` up to the datagram it sends: the socket, which is bound to an
ephemeral port if it has none, or `none` where the call fails. -/
def sendtoSock (sock : Int) (len : Nat) (dstPort : UInt16) (h : Host) : Host × Option SockIdx :=
  match pfSockGet h sock with
  | none => (h, none)
  | some s =>
    if (h.socks s).type ≠ .udp ∨ dstPort = 0 then (h, none)
    else if len > pktBufSize - pktTxHeadroom then (h, none)
    else if (h.socks s).localPort = 0 then
      let (h, port) := pfSockEphemeralPort h
      if port = 0 then (h, none)
      else (h.setSock s { h.socks s with localPort := port }, some s)
    else (h, some s)

inductive SockEvent where
  | host (e : HostEvent)
  | sendto (sock : Int) (len : Nat) (dstPort : UInt16)

/-- One step. There is one thread, so no call starts while another one waits. -/
def sockStep (h : Host) : SockEvent → Host
  | .host e => hostStep h e
  | .sendto sock len dstPort =>
    match h.pending with
    | none => (sendtoSock sock len dstPort h).1
    | some _ => h

end PacketForge
