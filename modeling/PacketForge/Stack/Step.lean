import PacketForge.Route.FibRefine
import PacketForge.Stack.Input

/-!
The stack as a transition system: frames, the periodic tick, socket calls and
changes of the configuration, in any order. A step that stops at a fault has no
successor.
-/

namespace PacketForge

open Checked

/-! ### The tick -/

/-- `ip_reass_tick`: what a context timed out with is copied behind its header, and
ICMP is asked for an error about it. -/
def ipReassTickStack (s : Stack) (now : Nat) : Except Fault Stack :=
  let r := ipReassTick s.reass now
  r.timeExceeded.foldlM
    (fun s quote => do
      writeAt 0 quote.length (ipv4HdrMax + 8)
      icmpSendError s now quote icmpTypeTimeExceeded 1)
    (s.putReass r)

def pfTick (s : Stack) (now : Nat) : Except Fault Stack := do
  let a ← arpTick s.devs now s.arp
  let s ← ipReassTickStack (s.putArp a) now
  s.runHost now (tcpTick now)

/-! ### UDP sockets -/

def pfSendto (s : Stack) (now : Nat) (sock : Int) (buf : List UInt8) (dstIp : UInt32)
    (dstPort : UInt16) : Except Fault Stack :=
  let r := sendtoSock sock buf.length dstPort s.host
  let s := s.putHost r.1
  match r.2 with
  | none => .ok s
  | some i => do
    let p ← pktTx buf
    udpOutput s now (s.socks i).localIp (s.socks i).localPort dstIp dstPort p

/-- `pf_recvfrom` once its wait is over: the oldest datagram leaves the queue. -/
def pfRecvfrom (s : Stack) (sock : Int) : Stack :=
  match pfSockGet s.host sock with
  | none => s
  | some i =>
    if (s.socks i).type ≠ .udp then s
    else
      { s with socks := Function.update s.socks i { s.socks i with rxq := (s.socks i).rxq.tail } }

/-! ### Configuration -/

/-- `pf_if_set_addr`; the connected route comes with the address. -/
def pfIfSetAddr (s : Stack) (dev : DevIdx) (ip mask : UInt32) : Stack :=
  { s with
    devs := Function.update s.devs dev { s.devs dev with ip := ip, mask := mask }
    fib := (fibAdd s.fib (ip &&& mask) (UInt8.ofNat mask.toBitVec.cpop.toNat) 0 (some dev) true).1 }

inductive ConfigOp where
  | addr (dev : DevIdx) (ip mask : UInt32)
  | route (op : FibOp)
  | forwarding (on : Bool)

def configure (s : Stack) : ConfigOp → Stack
  | .addr dev ip mask => pfIfSetAddr s dev ip mask
  | .route (.add addr plen nextHop dev connected) =>
    { s with fib := (fibAdd s.fib addr plen nextHop dev connected).1 }
  | .route (.del addr plen) => { s with fib := (fibDel s.fib addr plen).1 }
  | .forwarding on => { s with forwarding := on }

/-! ### Steps -/

inductive StackEvent where
  | frame (now : Nat) (heap : Nat → UInt8) (dev : DevIdx) (f : RxFrame)
  | tick (now : Nat)
  | call (now : Nat) (c : Call)
  | resume (now : Nat) (expired : Bool)
  | sendto (now : Nat) (sock : Int) (buf : List UInt8) (dstIp : UInt32) (dstPort : UInt16)
  | recvfrom (sock : Int)
  | config (op : ConfigOp)

/-- The call with the route that `pf_connect` looks up. -/
def routedCall (s : Stack) : Call → Call
  | .connect sock dstIp dstPort _ =>
    .connect sock dstIp dstPort ((ipRouteLookup s dstIp).map fun r => (s.devs r.1).ip)
  | c => c

/-- One step. There is one thread, so no call starts while another one waits. -/
def stackStep (s : Stack) : StackEvent → Except Fault Stack
  | .frame now heap dev f => ethInput s now heap dev f.pkt
  | .tick now => pfTick s now
  | .call now c => s.runHost now (hostStep · (.call now (routedCall s c)))
  | .resume now expired => s.runHost now (hostStep · (.resume now expired))
  | .sendto now sock buf dstIp dstPort =>
    match s.pending with
    | none => pfSendto s now sock buf dstIp dstPort
    | some _ => .ok s
  | .recvfrom sock => .ok (pfRecvfrom s sock)
  | .config op => .ok (configure s op)

def Fresh (s : Stack) : Prop :=
  ∃ devs ndevs forwarding fib, FibHist.Reach fib ∧ s = pfStackInit devs ndevs forwarding fib.fib

def Stack.Reach (s : Stack) : Prop := Checked.Reach Fresh (fun _ _ => True) stackStep s

/-! ### A stack for the runs below -/

def lanDev : DevIdx := ⟨0, pfMaxDevs_pos⟩

/-- One interface, 10.0.0.1/24. -/
def lanDevs : Devs := fun _ => ⟨⟨2, 0, 0, 0, 0, 1⟩, 0x0a000001, 0xffffff00, 1500⟩

def lanFib : FibHist := FibHist.init.step (.add 0x0a000000 24 0 (some lanDev) true)

def lanStack : Stack := pfStackInit lanDevs 1 false lanFib.fib

theorem lanFib_reach : lanFib.Reach :=
  have hinit : FibHist.init.Reach := .start rfl
  hinit.next (.add 0x0a000000 24 0 (some lanDev) true) trivial

theorem lanStack_fresh : Fresh lanStack := ⟨lanDevs, 1, false, lanFib, lanFib_reach, rfl⟩

theorem lanStack_reach : lanStack.Reach := .start lanStack_fresh

/-- The Ethernet header of an IPv4 frame for the interface. -/
def lanEthHdr : List UInt8 := [2, 0, 0, 0, 0, 1, 2, 0, 0, 0, 0, 9, 8, 0]

/-- The host 10.0.0.9 asks for the address of the interface. -/
def hostArpBytes : List UInt8 :=
  [2, 0, 0, 0, 0, 1, 2, 0, 0, 0, 0, 9, 8, 6] ++
    arpBytes arpOpRequest ⟨2, 0, 0, 0, 0, 9⟩ 0x0a000009 .zero 0x0a000001

theorem hostArp_fits : hostArpBytes.length ≤ pktBufSize - pktRxOffset := by decide

def hostArp : RxFrame := ⟨hostArpBytes, hostArp_fits⟩

end PacketForge
