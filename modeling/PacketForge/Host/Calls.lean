import PacketForge.Host.Entry
import PacketForge.Host.Frame
import Mathlib.Logic.Relation

/-!
What a socket call is made of. It processes a connection, writes a block, opens
a connection, draws an ephemeral port or changes a socket, and nothing else; of
a socket's change it matters what becomes of the binding. A property of the host
is checked against these operations and not against the calls.
-/

namespace PacketForge

/-! ### Bindings -/

structure Binding where
  type : PfSockType
  ip : UInt32
  port : UInt16
deriving DecidableEq

def PfSock.binding (s : PfSock) : Binding := ⟨s.type, s.localIp, s.localPort⟩

abbrev Bindings := SockIdx → Binding

def Host.bindings (h : Host) : Bindings := fun s => (h.socks s).binding

def Bindings.inUse (b : Bindings) (type : PfSockType) (ip : UInt32) (port : UInt16) : Prop :=
  ∃ i, (b i).type = type ∧ (b i).port = port ∧ ((b i).ip = 0 ∨ ip = 0 ∨ (b i).ip = ip)

/-- The ways a step can change the binding of a socket. -/
inductive BindMove (b : Bindings) : Bindings → Prop where
  | close (s : SockIdx) : BindMove b (Function.update b s ⟨.none, 0, 0⟩)
  | create (s : SockIdx) (type : PfSockType) : BindMove b (Function.update b s ⟨type, 0, 0⟩)
  | tcp (s : SockIdx) (ip : UInt32) (port : UInt16) (hs : (b s).type = .tcp) :
      BindMove b (Function.update b s ⟨.tcp, ip, port⟩)
  | bind (s : SockIdx) (ip : UInt32) (port : UInt16) (hfree : ¬ b.inUse (b s).type ip port) :
      BindMove b (Function.update b s ⟨(b s).type, ip, port⟩)
  | auto (s : SockIdx) (port : UInt16) (hs : (b s).type = .udp) (hfree : ¬ b.inUse .udp 0 port) :
      BindMove b (Function.update b s ⟨.udp, (b s).ip, port⟩)

abbrev BindMoves : Bindings → Bindings → Prop := Relation.ReflTransGen BindMove

/-- The changes that bind no UDP socket and close none. -/
inductive OpenMove (b : Bindings) : Bindings → Prop where
  | create (s : SockIdx) (type : PfSockType) (hfree : (b s).type = .none) :
      OpenMove b (Function.update b s ⟨type, 0, 0⟩)
  | tcp (s : SockIdx) (ip : UInt32) (port : UInt16) (hs : (b s).type = .tcp) :
      OpenMove b (Function.update b s ⟨.tcp, ip, port⟩)

abbrev OpenMoves : Bindings → Bindings → Prop := Relation.ReflTransGen OpenMove

theorem OpenMove.bindMove {b b' : Bindings} (h : OpenMove b b') : BindMove b b' := by
  cases h with
  | create s type _ => exact .create s type
  | tcp s ip port hs => exact .tcp s ip port hs

theorem OpenMoves.bindMoves {b b' : Bindings} (h : OpenMoves b b') : BindMoves b b' :=
  Relation.ReflTransGen.mono (fun _ _ => OpenMove.bindMove) _ _ h

theorem Host.bindings_setSock (h : Host) (s : SockIdx) (x : PfSock) :
    (h.setSock s x).bindings = Function.update h.bindings s x.binding := by
  funext j
  by_cases hj : j = s
  · subst hj
    simp [Host.bindings, Host.setSock]
  · simp [Host.bindings, Host.setSock, hj]

theorem Host.bindings_same (h : Host) {s : SockIdx} {x : PfSock}
    (hx : x.binding = (h.socks s).binding) : (h.setSock s x).bindings = h.bindings := by
  rw [h.bindings_setSock, hx]
  exact Function.update_eq_self s h.bindings

theorem pfSockPortInUse_iff (h : Host) (type : PfSockType) (ip : UInt32) (port : UInt16) :
    pfSockPortInUse h type ip port = true ↔ h.bindings.inUse type ip port := by
  simp [pfSockPortInUse, Bindings.inUse, Host.bindings, PfSock.binding, and_assoc, or_assoc]

/-! ### Operations -/

/-- One operation of a call. `R` says what a call may do to the bindings. -/
inductive CallOp (R : Bindings → Bindings → Prop) (h : Host) : Host → Prop where
  | run (i : TcbIdx) {f : Conn → Conn} (hf : Proceeds 0 none (h.conn i) (f (h.conn i))) :
      CallOp R h (h.run i f)
  | tcb (i : TcbIdx) (t : Tcb) : CallOp R h (h.setTcb i t)
  | opened (i : TcbIdx) (iss : UInt32) (c : Conn) (hc : h.stats.Same c.stats) :
      CallOp R h (({ h with issNext := iss } : Host).store i c)
  | port : CallOp R h (pfSockEphemeralPort h).1
  | sock (s : SockIdx) (x : PfSock) (hx : R h.bindings (h.setSock s x).bindings) :
      CallOp R h (h.setSock s x)

abbrev CallOps (R : Bindings → Bindings → Prop) : Host → Host → Prop :=
  Relation.ReflTransGen (CallOp R)

section Ops

variable {h k : Host} {s : SockIdx}

theorem CallOp.same {x : PfSock} (hx : x.binding = (h.socks s).binding) :
    CallOp OpenMoves h (h.setSock s x) := by
  refine .sock s x ?_
  rw [h.bindings_same hx]

theorem CallOp.bound {x : PfSock} (hold : (h.socks s).type = .tcp) (hnew : x.type = .tcp) :
    CallOp OpenMoves h (h.setSock s x) := by
  refine .sock s x ?_
  have hb : x.binding = ⟨.tcp, x.localIp, x.localPort⟩ := by rw [PfSock.binding, hnew]
  rw [h.bindings_setSock, hb]
  exact .single (.tcp s _ _ hold)

theorem CallOps.bindMoves (hops : CallOps OpenMoves h k) : CallOps BindMoves h k := by
  refine Relation.ReflTransGen.mono (fun a b hop => ?_) _ _ hops
  cases hop with
  | run i hf => exact .run i hf
  | tcb i t => exact .tcb i t
  | opened i iss c hc => exact .opened i iss c hc
  | port => exact .port
  | sock s x hx => exact .sock s x hx.bindMoves

theorem CallOps.invariant {R : Bindings → Bindings → Prop} {P : Host → Prop}
    (hop : ∀ a b, CallOp R a b → P a → P b) (hops : CallOps R h k) (hh : P h) : P k := by
  induction hops with
  | refl => exact hh
  | tail _ hlast ih => exact hop _ _ hlast ih

theorem Host.run_bindings (h : Host) (i : TcbIdx) (f : Conn → Conn) :
    (h.run i f).bindings = h.bindings := by
  have hview := congrArg (fun v : ApiView => fun s => (v.socks s).binding) (h.run_api i f)
  exact hview

theorem CallOps.bindings {M : Bindings → Bindings → Prop}
    (hops : CallOps (Relation.ReflTransGen M) h k) :
    Relation.ReflTransGen M h.bindings k.bindings := by
  refine hops.invariant (P := fun k => Relation.ReflTransGen M h.bindings k.bindings) ?_ .refl
  intro a b hop ha
  cases hop with
  | run i hf =>
    rw [a.run_bindings]
    exact ha
  | tcb | opened | port => exact ha
  | sock s x hx => exact ha.trans hx

end Ops

/-! ### The calls -/

section Calls

variable (h : Host)

theorem pfSocket_ops (type : PfSockType) : CallOps OpenMoves h (pfSocket type h).1 := by
  unfold pfSocket
  split
  · exact .refl
  · rename_i s hs
    refine .single (.sock s _ ?_)
    rw [h.bindings_setSock]
    exact .single (.create s type (of_decide_eq_true (Slots.first_some hs)))

theorem pfSocket_type {k : Host} {type : PfSockType} {s : SockIdx}
    (hs : pfSocket type h = (k, some s)) : (k.socks s).type = type := by
  unfold pfSocket at hs
  split at hs
  · cases hs
  · cases hs
    simp [Host.setSock]

theorem tcpSockGet_type {sock : Int} {s : SockIdx} (hs : tcpSockGet h sock = some s) :
    (h.socks s).type = .tcp :=
  of_decide_eq_true (Option.filter_eq_some_iff.mp hs).2

variable (now : Nat) (sock : Int) (s : SockIdx) (expired : Bool)

theorem acceptTake_ops (l child : TcbIdx) (rest : List TcbIdx) :
    CallOps OpenMoves h (acceptTake l child rest h).1 := by
  unfold acceptTake
  simp only
  have hpop : CallOps OpenMoves h (h.setTcb l { h.tcbs l with acceptq := rest }) :=
    .single (.tcb _ _)
  generalize h.setTcb l { h.tcbs l with acceptq := rest } = k at hpop ⊢
  have hsock := hpop.trans (pfSocket_ops k .tcp)
  split
  · rename_i heq
    rw [heq] at hsock
    exact hsock.tail (.run child (Proceeds.refl 0 none _).appAbort)
  · rename_i k' ns heq
    rw [heq] at hsock
    have htype := pfSocket_type k heq
    refine .tail ?_ (.tcb _ _)
    exact .tail hsock (.bound htype htype)

theorem acceptPoll_ops (l : TcbIdx) (expired : Bool) :
    CallOps OpenMoves h (acceptPoll s l expired h).1 := by
  unfold acceptPoll
  split
  · exact acceptTake_ops h l _ _
  split
  · exact .refl
  split <;> exact .refl

theorem connectPoll_ops : CallOps OpenMoves h (connectPoll s expired h).1 := by
  unfold connectPoll
  split
  · exact .refl
  split
  · exact .refl
  split
  · exact .tail (.single (.run _ (Proceeds.refl 0 none _).appAbort)) (.same rfl)
  · exact .refl

theorem sendPoll_ops (rest : List UInt8) (len : Nat) (expired : Bool) :
    CallOps OpenMoves h (sendPoll now s rest len expired h).1 := by
  unfold sendPoll
  split
  · exact .refl
  split
  · exact .refl
  simp only
  split
  · exact .refl
  split
  · split <;> exact .refl
  · split <;> exact .single (.run _ ((Proceeds.refl 0 none _).sendCopy now rest))

theorem recvPoll_ops (cap : Nat) (expired : Bool) :
    CallOps OpenMoves h (recvPoll s cap expired h).1 := by
  unfold recvPoll
  split
  · exact .refl
  simp only
  split
  · exact .single (.run _ ((Proceeds.refl 0 none _).recvCopy cap))
  split
  · exact .refl
  split <;> exact .refl

theorem hostResume_ops (p : Pending) : CallOps OpenMoves h (hostResume now expired h p).1 := by
  cases p with
  | accept s l => exact acceptPoll_ops h s l expired
  | connect s => exact connectPoll_ops h s expired
  | send s rest len => exact sendPoll_ops h now s rest len expired
  | recv s cap => exact recvPoll_ops h s cap expired

theorem closeTcb_ops (i : TcbIdx) : CallOps OpenMoves h (closeTcb now s i h) := by
  unfold closeTcb
  simp only
  refine .tail (b := Host.setTcb (h.setSock s _) i _) ?_
    (.run i ((Proceeds.refl 0 none _).appClose now))
  refine .tail ?_ (.tcb _ _)
  exact .single (.same rfl)

theorem pfListen_ops (backlog : UInt16) : CallOps OpenMoves h (pfListen sock backlog h).1 := by
  unfold pfListen tcpOpenListen
  split
  · exact .refl
  split
  · exact .refl
  cases tcbAlloc h with
  | none => exact .refl
  | some i => exact .tail (.single (.tcb _ _)) (.same rfl)

theorem connectFrom_ops (htcp : (h.socks s).type = .tcp) (lip : UInt32) (lport : UInt16)
    (dstIp : UInt32) (dstPort : UInt16) :
    CallOps OpenMoves h (connectFrom now s lip lport dstIp dstPort h).1 := by
  unfold connectFrom
  simp only
  have hbind : CallOps OpenMoves h
      (h.setSock s { h.socks s with localPort := lport, localIp := lip, err := .none }) :=
    .single (.bound htcp htcp)
  generalize h.setSock s { h.socks s with localPort := lport, localIp := lip, err := .none } = k
    at hbind ⊢
  unfold tcpOpenActive
  cases tcbAlloc k with
  | none => exact hbind
  | some i =>
    have hopen := hbind.tail (.opened i (tcpGenIss now k) _
      (tcpOpenActiveConn_proceeds now (some s) lip lport dstIp dstPort
        (tcpGenIss now k) k.stats).counts)
    refine .trans ?_ (connectPoll_ops _ s false)
    exact .tail hopen (.same rfl)

theorem pfConnect_ops (dstIp : UInt32) (dstPort : UInt16) (route : Option UInt32) :
    CallOps OpenMoves h (pfConnect now sock dstIp dstPort route h).1 := by
  have hport (s : SockIdx) : CallOps OpenMoves h (connectPort s h).1 ∧
      (connectPort s h).1.socks = h.socks := by
    unfold connectPort
    split
    · exact ⟨.single .port, rfl⟩
    · exact ⟨.refl, rfl⟩
  unfold pfConnect
  split
  · exact .refl
  rename_i s hs
  split
  · exact .refl
  split
  · exact .refl
  simp only
  split
  · exact (hport s).1
  · refine (hport s).1.trans (connectFrom_ops _ now s ?_ _ _ dstIp dstPort)
    rw [(hport s).2]
    exact tcpSockGet_type h hs

/-- Only `pf_bind` and `pf_close` do more than open sockets. -/
theorem hostCall_opens {call : Call} (hbind : ∀ sock ip port, call ≠ .bind sock ip port)
    (hclose : ∀ sock, call ≠ .close sock) : CallOps OpenMoves h (hostCall now h call).1 := by
  cases call with
  | socket type =>
    cases type with
    | none => exact .refl
    | udp => exact pfSocket_ops h .udp
    | tcp => exact pfSocket_ops h .tcp
  | bind sock ip port => exact absurd rfl (hbind sock ip port)
  | listen sock backlog => exact pfListen_ops h sock backlog
  | accept sock =>
    change CallOps _ _ (pfAccept sock h).1
    unfold pfAccept
    split
    · exact .refl
    split
    · exact .refl
    split
    · exact acceptPoll_ops h _ _ false
    · exact .refl
  | connect sock dstIp dstPort route => exact pfConnect_ops h now sock dstIp dstPort route
  | send sock data =>
    change CallOps _ _ (pfSend now sock data h).1
    unfold pfSend
    split
    · exact .refl
    · exact sendPoll_ops h now _ _ _ false
  | recv sock cap =>
    change CallOps _ _ (pfRecv sock cap h).1
    unfold pfRecv
    split
    · exact .refl
    · exact recvPoll_ops h _ _ false
  | close sock => exact absurd rfl (hclose sock)
  | nodelay sock on =>
    change CallOps _ _ (pfSockSetNodelay sock on h).1
    unfold pfSockSetNodelay
    split
    · exact .refl
    split
    · exact .refl
    · exact .single (.tcb _ _)

theorem pfBind_ops (ip : UInt32) (port : UInt16) :
    CallOps BindMoves h (pfBind sock ip port h).1 := by
  unfold pfBind
  split
  · exact .refl
  rename_i s _
  split
  · exact .refl
  split
  · exact .refl
  · rename_i hfree
    rw [pfSockPortInUse_iff] at hfree
    refine .single (.sock s _ ?_)
    rw [h.bindings_setSock]
    exact .single (.bind s ip port hfree)

theorem pfClose_ops : CallOps BindMoves h (pfClose now sock h).1 := by
  unfold pfClose
  split
  · exact .refl
  rename_i s _
  have hclear (k : Host) : CallOp BindMoves k (k.setSock s PfSock.zero) := by
    refine .sock s _ ?_
    rw [k.bindings_setSock]
    exact .single (.close s)
  simp only
  split
  · exact .single (hclear h)
  · exact (closeTcb_ops h now s _).bindMoves.tail (hclear _)

theorem hostCall_ops (call : Call) : CallOps BindMoves h (hostCall now h call).1 := by
  by_cases hbind : ∃ sock ip port, call = .bind sock ip port
  · obtain ⟨sock, ip, port, rfl⟩ := hbind
    exact pfBind_ops h sock ip port
  by_cases hclose : ∃ sock, call = .close sock
  · obtain ⟨sock, rfl⟩ := hclose
    exact pfClose_ops h now sock
  · simp only [not_exists] at hbind hclose
    exact (hostCall_opens h now hbind hclose).bindMoves

end Calls

end PacketForge
