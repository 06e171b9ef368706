import PacketForge.Host.Table
import PacketForge.Lib.Run

/-!
The socket calls (`sock.c`, `tcp_sock.c`) and the transition system they form
with received segments and timer ticks. A blocking call runs until its wakeup
condition holds or it has to pump the event loop. In the second case the host
remembers the call as pending; what the event loop receives are ordinary steps,
and a `resume` step goes on with the call where the pump returned. There is one
thread, so no other call starts in between.
-/

namespace PacketForge

/-! ### `sock.c` -/

def pfSockGet (h : Host) (sock : Int) : Option SockIdx :=
  if hs : 0 ≤ sock ∧ sock < pfSockMax then
    let s : SockIdx := ⟨sock.toNat, by omega⟩
    if (h.socks s).type = .none then none else some s
  else none

def pfSockPortInUse (h : Host) (type : PfSockType) (ip : UInt32) (port : UInt16) : Bool :=
  (List.finRange pfSockMax).any fun i =>
    let s := h.socks i
    s.type = type && s.localPort = port && (s.localIp = 0 || ip = 0 || s.localIp = ip)

/-- The search of `pf_sock_ephemeral_port`: the port, 0 when the tries ran out,
and the next candidate. -/
def ephemeralLoop (h : Host) : Nat → UInt16 → UInt16 × UInt16
  | 0, next => (0, next)
  | tries + 1, port =>
    let next := if port + 1 = 0 then pfEphemeralBase else port + 1
    if port ≥ pfEphemeralBase && !pfSockPortInUse h .udp 0 port && !pfSockPortInUse h .tcp 0 port
    then (port, next)
    else ephemeralLoop h tries next

def pfSockEphemeralPort (h : Host) : Host × UInt16 :=
  let r := ephemeralLoop h 16384 h.ephemeralNext
  ({ h with ephemeralNext := r.2 }, r.1)

/-- `pf_socket` for a valid type: the new socket, `none` when all are in use. -/
def pfSocket (type : PfSockType) (h : Host) : Host × Option SockIdx :=
  match Slots.first fun s => (h.socks s).type = .none with
  | none => (h, none)
  | some s => (h.setSock s { PfSock.zero with type := type }, some s)

/-! ### Results of calls -/

/-- What a call came to: a return code, a new connection with its peer, the
bytes read, or a wait for the event loop. -/
inductive CallResult where
  | ret (rc : Int)
  | accepted (sock : SockIdx) (rip : UInt32) (rport : UInt16)
  | data (bytes : List UInt8)
  | wait (p : Pending)

def pfBind (sock : Int) (ip : UInt32) (port : UInt16) (h : Host) : Host × CallResult :=
  match pfSockGet h sock with
  | none => (h, .ret (-1))
  | some s =>
    if port = 0 then (h, .ret (-1))
    else if pfSockPortInUse h (h.socks s).type ip port then (h, .ret (-1))
    else (h.setSock s { h.socks s with localIp := ip, localPort := port }, .ret 0)

/-- The socket lets go of its connection before it closes it: the connection
machinery outlives the socket. -/
def closeTcb (now : Nat) (s : SockIdx) (i : TcbIdx) (h : Host) : Host :=
  let h := h.setSock s { h.socks s with tcb := none }
  let h := h.setTcb i { h.tcbs i with sockIdx := none }
  h.run i (tcpAppClose now)

def pfClose (now : Nat) (sock : Int) (h : Host) : Host × CallResult :=
  match pfSockGet h sock with
  | none => (h, .ret (-1))
  | some s =>
    let h :=
      match (h.socks s).tcb with
      | none => h
      | some i => closeTcb now s i h
    (h.setSock s PfSock.zero, .ret 0)

/-! ### `tcp_sock.c` -/

def tcpSockGet (h : Host) (sock : Int) : Option SockIdx :=
  (pfSockGet h sock).filter fun s => (h.socks s).type = .tcp

def pfListen (sock : Int) (backlog : UInt16) (h : Host) : Host × CallResult :=
  match tcpSockGet h sock with
  | none => (h, .ret (-1))
  | some s =>
    if (h.socks s).localPort = 0 ∨ (h.socks s).tcb ≠ none then (h, .ret (-1))
    else
      match tcpOpenListen h s (h.socks s).localIp (h.socks s).localPort backlog with
      | (h, none) => (h, .ret (-1))
      | (h, some i) => (h.setSock s { h.socks s with tcb := some i }, .ret 0)

/-- Hand the first connection of the accept queue to a new socket. -/
def acceptTake (l child : TcbIdx) (rest : List TcbIdx) (h : Host) : Host × CallResult :=
  let h := h.setTcb l { h.tcbs l with acceptq := rest }
  match pfSocket .tcp h with
  | (h, none) => (h.run child tcpAppAbort, .ret (-1))
  | (h, some ns) =>
    let t := h.tcbs child
    let h := h.setSock ns
      { h.socks ns with localIp := t.localIp, localPort := t.localPort, tcb := some child }
    (h.setTcb child { t with sockIdx := some ns, listener := none },
      .accepted ns t.remoteIp t.remotePort)

/-- The loop of `pf_accept` each time its condition is looked at. `expired` says
that the deadline has passed, or that there is no event loop to pump. -/
def acceptPoll (s : SockIdx) (l : TcbIdx) (expired : Bool) (h : Host) : Host × CallResult :=
  match (h.tcbs l).acceptq with
  | child :: rest => acceptTake l child rest h
  | [] =>
    if (h.socks s).tcb = none then (h, .ret (-1)) -- listener died
    else if expired then (h, .ret (-2))
    else (h, .wait (.accept s l))

def pfAccept (sock : Int) (h : Host) : Host × CallResult :=
  match tcpSockGet h sock with
  | none => (h, .ret (-1))
  | some s =>
    match (h.socks s).tcb with
    | none => (h, .ret (-1))
    | some l => if (h.tcbs l).state = .listen then acceptPoll s l false h else (h, .ret (-1))

def connectPoll (s : SockIdx) (expired : Bool) (h : Host) : Host × CallResult :=
  match (h.socks s).tcb with
  | none => (h, .ret (-1)) -- refused or reset while connecting
  | some i =>
    if (h.tcbs i).state = .established then (h, .ret 0)
    else if expired then
      let h := h.run i tcpAppAbort
      (h.setSock s { h.socks s with tcb := none }, .ret (-2))
    else (h, .wait (.connect s))

def connectPort (s : SockIdx) (h : Host) : Host × UInt16 :=
  if (h.socks s).localPort = 0 then pfSockEphemeralPort h else (h, (h.socks s).localPort)

/-- Open a connection from a local address and port and wait for it. -/
def connectFrom (now : Nat) (s : SockIdx) (lip : UInt32) (lport : UInt16) (dstIp : UInt32)
    (dstPort : UInt16) (h : Host) : Host × CallResult :=
  let h := h.setSock s { h.socks s with localPort := lport, localIp := lip, err := .none }
  match tcpOpenActive now h s lip lport dstIp dstPort with
  | (h, none) => (h, .ret (-1))
  | (h, some i) => connectPoll s false (h.setSock s { h.socks s with tcb := some i })

/-- `pf_connect`. `route` is the address of the interface `ip_route_lookup`
finds for the destination. -/
def pfConnect (now : Nat) (sock : Int) (dstIp : UInt32) (dstPort : UInt16)
    (route : Option UInt32) (h : Host) : Host × CallResult :=
  match tcpSockGet h sock with
  | none => (h, .ret (-1))
  | some s =>
    if (h.socks s).tcb ≠ none ∨ dstPort = 0 then (h, .ret (-1))
    else
      match if (h.socks s).localIp = 0 then route else some (h.socks s).localIp with
      | none => (h, .ret (-1))
      | some lip =>
        let r := connectPort s h
        if r.2 = 0 then (r.1, .ret (-1)) else connectFrom now s lip r.2 dstIp dstPort r.1

/-- One round of the loop of `pf_send` with the bytes still to be sent, of `len`
in all. A round that leaves bytes behind has filled the ring, so that the loop
then pumps, or it has copied none of them and the next round follows at once. -/
def sendPoll (now : Nat) (s : SockIdx) (rest : List UInt8) (len : Nat) (expired : Bool)
    (h : Host) : Host × CallResult :=
  if rest.isEmpty then (h, .ret len)
  else
    match (h.socks s).tcb with
    | none => (h, .ret (-1))
    | some i =>
      let t := h.tcbs i
      if !canAppend t then (h, .ret (-1)) -- reset or closed underneath us
      else if 65535 - t.sndLen = 0 then
        if expired then (h, .ret (-1)) else (h, .wait (.send s rest len))
      else
        let h := h.run i (pfSendCopy now rest)
        let rest := rest.drop (sendAmount t rest).toNat
        if rest.isEmpty then (h, .ret len) else (h, .wait (.send s rest len))

def pfSend (now : Nat) (sock : Int) (data : List UInt8) (h : Host) : Host × CallResult :=
  match tcpSockGet h sock with
  | none => (h, .ret (-1))
  | some s => sendPoll now s data data.length false h

/-- One round of the loop of `pf_recv`. -/
def recvPoll (s : SockIdx) (cap : Nat) (expired : Bool) (h : Host) : Host × CallResult :=
  match (h.socks s).tcb with
  | none => (h, .ret (if (h.socks s).err = .none then 0 else -1))
  | some i =>
    let t := h.tcbs i
    if t.rcvLen > 0 then (h.run i (pfRecvCopy cap), .data (recvBytes t cap))
    else if t.rcvEof then (h, .ret 0) -- clean EOF
    else if expired then (h, .ret (-2))
    else (h, .wait (.recv s cap))

def pfRecv (sock : Int) (cap : Nat) (h : Host) : Host × CallResult :=
  match tcpSockGet h sock with
  | none => (h, .ret (-1))
  | some s => recvPoll s cap false h

def pfSockSetNodelay (sock : Int) (nodelay : Bool) (h : Host) : Host × CallResult :=
  match tcpSockGet h sock with
  | none => (h, .ret (-1))
  | some s =>
    match (h.socks s).tcb with
    | none => (h, .ret (-1))
    | some i => (h.setTcb i { h.tcbs i with nodelay := nodelay }, .ret 0)

/-! ### The transition system -/

inductive Call where
  | socket (type : PfSockType)
  | bind (sock : Int) (ip : UInt32) (port : UInt16)
  | listen (sock : Int) (backlog : UInt16)
  | accept (sock : Int)
  | connect (sock : Int) (dstIp : UInt32) (dstPort : UInt16) (route : Option UInt32)
  | send (sock : Int) (data : List UInt8)
  | recv (sock : Int) (cap : Nat)
  | close (sock : Int)
  | nodelay (sock : Int) (on : Bool)

def sockResult : Option SockIdx → CallResult
  | none => .ret (-1)
  | some s => .ret s.val

def hostCall (now : Nat) (h : Host) : Call → Host × CallResult
  | .socket .none => (h, .ret (-1))
  | .socket type => let r := pfSocket type h; (r.1, sockResult r.2)
  | .bind sock ip port => pfBind sock ip port h
  | .listen sock backlog => pfListen sock backlog h
  | .accept sock => pfAccept sock h
  | .connect sock dstIp dstPort route => pfConnect now sock dstIp dstPort route h
  | .send sock data => pfSend now sock data h
  | .recv sock cap => pfRecv sock cap h
  | .close sock => pfClose now sock h
  | .nodelay sock on => pfSockSetNodelay sock on h

def hostResume (now : Nat) (expired : Bool) (h : Host) : Pending → Host × CallResult
  | .accept s l => acceptPoll s l expired h
  | .connect s => connectPoll s expired h
  | .send s rest len => sendPoll now s rest len expired h
  | .recv s cap => recvPoll s cap expired h

def settle (r : Host × CallResult) : Host :=
  { r.1 with pending := match r.2 with | .wait p => some p | _ => none }

inductive HostEvent where
  | segment (now : Nat) (g : Seg)
  | tick (now : Nat)
  | call (now : Nat) (c : Call)
  | resume (now : Nat) (expired : Bool)

/-- One step. `out` holds the segments of this step only. -/
def hostStep (h : Host) (e : HostEvent) : Host :=
  let h := { h with out := [] }
  match e, h.pending with
  | .segment now g, _ => tcpInput now g h
  | .tick now, _ => tcpTick now h
  | .call now c, none => settle (hostCall now h c)
  | .call _ _, some _ => h
  | .resume now expired, some p => settle (hostResume now expired h p)
  | .resume _ _, none => h

theorem hostStep_call {h : Host} (hidle : h.pending = none) (now : Nat) (c : Call) :
    hostStep h (.call now c) = settle (hostCall now { h with out := [] } c) := by
  obtain ⟨tcbs, issNext, socks, ephemeralNext, stats, out, panicked, pending⟩ := h
  cases hidle
  rfl

/-- There is one thread: a call cannot start while another waits. -/
theorem hostStep_busy {h : Host} {p : Pending} (hbusy : h.pending = some p) (now : Nat) (c : Call) :
    hostStep h (.call now c) = { h with out := [] } := by
  unfold hostStep
  simp only [hbusy]

end PacketForge
