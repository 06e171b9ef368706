import PacketForge.Host.Bookkeeping
import PacketForge.Host.Frame
import PacketForge.Tcp.StageViews

/-!
The wait of `pf_connect`. Between two looks of the waiting loop the event loop
may process any segments and ticks. Whatever they are, the block stays in one of
four states as long as it is there; of the two that come after the handshake the
loop knows one.
-/

namespace PacketForge

/-! ### The call -/

section Host

variable {h : Host} {i : SockIdx} {now : Nat}

/-- What has to hold for `pf_connect` to send a SYN, once it has a source address. -/
structure Opens (h : Host) (i : SockIdx) (dstPort : UInt16) : Prop where
  idle : h.pending = none
  free : (h.socks i).tcb = none
  dst : dstPort ≠ 0
  port : (connectPort i h).2 ≠ 0
  room : tcbAlloc h ≠ none

/-- The source address that `pf_connect` uses. -/
def connectSrc (h : Host) (i : SockIdx) (route : Option UInt32) : Option UInt32 :=
  if (h.socks i).localIp = 0 then route else some (h.socks i).localIp

theorem connectSrc_free (hip : (h.socks i).localIp = 0) (route : Option UInt32) :
    connectSrc h i route = route := if_pos hip

theorem connectSrc_fixed (hip : (h.socks i).localIp ≠ 0) (route : Option UInt32) :
    connectSrc h i route = some (h.socks i).localIp := if_neg hip

theorem tcpOpenActiveConn_out (now : Nat) (sock : Option SockIdx) (lip : UInt32) (lport : UInt16)
    (rip : UInt32) (rport : UInt16) (iss : UInt32) (st : Stats) :
    ∃ g, (tcpOpenActiveConn now sock lip lport rip rport iss st).out = [g] ∧ g.src = lip := by
  unfold tcpOpenActiveConn tcpStartSyn tcpSendCtl tcpSendSegment
  exact ⟨_, rfl, rfl⟩

theorem connectPoll_out (h : Host) (i : SockIdx) : (connectPoll i false h).1.out = h.out := by
  unfold connectPoll
  split
  · rfl
  split
  · rfl
  · rfl

theorem connectFrom_out (hout : h.out = []) (lip : UInt32) (lport : UInt16) (dstIp : UInt32)
    (dstPort : UInt16) :
    (tcbAlloc h = none → (connectFrom now i lip lport dstIp dstPort h).1.out = []) ∧
    (tcbAlloc h ≠ none →
      ∃ g, (connectFrom now i lip lport dstIp dstPort h).1.out = [g] ∧ g.src = lip) := by
  have halloc (x : PfSock) : tcbAlloc (h.setSock i x) = tcbAlloc h := rfl
  unfold connectFrom tcpOpenActive
  simp only [halloc]
  cases tcbAlloc h with
  | none => exact ⟨fun _ => hout, fun hne => absurd rfl hne⟩
  | some l =>
    refine ⟨nofun, fun _ => ?_⟩
    simp only [connectPoll_out]
    obtain ⟨g, hg, hsrc⟩ := tcpOpenActiveConn_out now (some i) lip lport dstIp dstPort
      (tcpGenIss now h) h.stats
    refine ⟨g, ?_, hsrc⟩
    rw [← hg]
    change h.out ++ _ = _
    rw [hout]
    rfl

theorem connectPort_out (h : Host) (i : SockIdx) : (connectPort i h).1.out = h.out := by
  unfold connectPort
  split <;> rfl

theorem connectPort_alloc (h : Host) (i : SockIdx) : tcbAlloc (connectPort i h).1 = tcbAlloc h := by
  unfold connectPort
  split <;> rfl

theorem pfConnect_eq {sock : Int} (hs : tcpSockGet h sock = some i) (dstIp : UInt32)
    (dstPort : UInt16) (route : Option UInt32) : pfConnect now sock dstIp dstPort route h =
      if (h.socks i).tcb ≠ none ∨ dstPort = 0 then (h, .ret (-1))
      else
        (connectSrc h i route).elim (h, .ret (-1)) fun lip =>
          if (connectPort i h).2 = 0 then ((connectPort i h).1, .ret (-1))
          else connectFrom now i lip (connectPort i h).2 dstIp dstPort (connectPort i h).1 := by
  unfold pfConnect connectSrc
  rw [hs]
  simp only
  generalize (if (h.socks i).localIp = 0 then route else some (h.socks i).localIp) = src
  cases src <;> rfl

theorem pfConnect_sends (hout : h.out = []) {sock : Int} (hs : tcpSockGet h sock = some i)
    {dstPort : UInt16} (hopen : Opens h i dstPort) {route : Option UInt32} {lip : UInt32}
    (hsrc : connectSrc h i route = some lip) (dstIp : UInt32) :
    ∃ g, (pfConnect now sock dstIp dstPort route h).1.out = [g] ∧ g.src = lip := by
  rw [pfConnect_eq hs, if_neg (by simp [hopen.free, hopen.dst]), hsrc, Option.elim_some,
    if_neg hopen.port]
  refine (connectFrom_out ?_ lip _ dstIp dstPort).2 ?_
  · rw [connectPort_out, hout]
  · rw [connectPort_alloc]
    exact hopen.room

/-- Where it cannot, it sends nothing. -/
theorem pfConnect_quiet (hout : h.out = []) (hidle : h.pending = none) {sock : Int}
    (hs : tcpSockGet h sock = some i) {dstPort : UInt16} {route : Option UInt32}
    (hno : ¬ (Opens h i dstPort ∧ connectSrc h i route ≠ none)) (dstIp : UInt32) :
    (pfConnect now sock dstIp dstPort route h).1.out = [] := by
  rw [pfConnect_eq hs]
  split
  · exact hout
  rename_i hguard
  simp only [ne_eq, not_or, not_not] at hguard
  cases hsrc : connectSrc h i route with
  | none => exact hout
  | some lip =>
    rw [Option.elim_some]
    split
    · exact (connectPort_out h i).trans hout
    rename_i hport
    refine (connectFrom_out ?_ lip _ dstIp dstPort).1 ?_
    · rw [connectPort_out, hout]
    · rw [connectPort_alloc]
      by_contra hroom
      exact hno ⟨⟨hidle, hguard.1, hguard.2, hport, hroom⟩, by simp [hsrc]⟩

theorem hostStep_call_out {h : Host} (hidle : h.pending = none) (now : Nat) (c : Call) :
    (hostStep h (.call now c)).out = (hostCall now { h with out := [] } c).1.out := by
  rw [hostStep_call hidle]
  rfl

theorem hostStep_busy_out {h : Host} {p : Pending} (hbusy : h.pending = some p) (now : Nat)
    (c : Call) : (hostStep h (.call now c)).out = [] := by
  rw [hostStep_busy hbusy]

end Host

/-- The states of a connection that its application has opened and not closed. -/
def TcpState.opening : TcpState → Bool
  | .synSent | .synRcvd | .established | .closeWait => true
  | _ => false

/-! ### One connection -/

section Conn

variable {e : ConnEvent} {c d : Conn}

theorem SendMove.opening {κ : SendCause} {s s' : SendView} (h : SendMove κ s s')
    (hs : s.state.opening = true) : s'.state.opening = true := by
  cases h with
  | ack g _ _ _ _ _ _ =>
    change (ackedState _ s.state).opening = true
    unfold ackedState
    cases hst : s.state <;> rw [hst] at hs <;> first | (split <;> rfl) | cases hs
  | rxFin _ _ =>
    change (rxFinState s.state).opening = true
    cases hst : s.state <;> rw [hst] at hs <;> first | rfl | cases hs
  | synRcvd _ => rfl
  | establish _ _ _ _ _ _ => rfl
  | output hout => cases hout <;> exact hs
  | _ => exact hs

/-- Only the application takes a connection out of these states. -/
theorem Stages.opening (h : Stages e c d) (hno : ∀ now, e ≠ .close now)
    (hc : c.tcb.state.opening = true ∧ SynWaits c.send) :
    d.tcb.state.opening = true ∧ SynWaits d.send := by
  refine Acts.invariant (P := fun x => x.tcb.state.opening = true ∧ SynWaits x.send) ?_ h.acts hc
  rintro x y hxy ⟨hx, hw⟩
  have hstage := hxy.sendStage hw
  refine ⟨?_, hstage.synWaits hw⟩
  exact hstage.keeps (P := fun s => s.state.opening = true) (fun _ _ _ hmove => hmove.opening)
    (fun _ _ _ hs => hs) (fun now _ _ heq => absurd heq (hno now)) hx

end Conn

/-! ### The tables -/

/-- A block of a socket that has opened a connection and not closed it. -/
structure Tcb.Waits (t : Tcb) (s : SockIdx) : Prop where
  active : t.active = true
  sock : t.sockIdx = some s
  state : t.state.opening = true
  syn : t.state = .synSent → t.sndUna = t.iss

def Tables.Waiting (T : Tables) (s : SockIdx) : Prop :=
  ∀ i, (T.socks s).tcb = some i → (T.tcbs i).Waits s

namespace Tables.Waiting

variable {T : Tables} {s : SockIdx}

theorem setTcb (h : T.Waiting s) {j : TcbIdx} {t : Tcb}
    (ht : (T.tcbs j).Waits s → t.Waits s) : (T.setTcb j t).Waiting s := by
  intro i hi
  have hw := h i hi
  rcases eq_or_ne i j with rfl | hij
  · have hat : (T.setTcb i t).tcbs i = t := Function.update_self _ _ _
    rw [hat]
    exact ht hw
  · have hat : (T.setTcb j t).tcbs i = T.tcbs i := Function.update_of_ne hij _ _
    rw [hat]
    exact hw

theorem push (h : T.Waiting s) (l i : TcbIdx) : (T.push l i).Waiting s :=
  h.setTcb fun hw => ⟨hw.active, hw.sock, hw.state, hw.syn⟩

/-- A slot that was not in use is no block of the socket. -/
theorem setIdle (h : T.Waiting s) {j : TcbIdx} (hidle : (T.tcbs j).active = false) (t : Tcb) :
    (T.setTcb j t).Waiting s :=
  h.setTcb fun hw => by cases hw.active.symm.trans hidle

/-- When its block is freed, the socket has none. -/
theorem free (h : T.Waiting s) (ok : ListenersOk T.entries) (j : TcbIdx) (err : PfErr) :
    (T.free j err).Waiting s := by
  intro i hi
  have hsocks : (T.free j err).socks s = if (T.tcbs j).sockIdx = some s then
      { T.socks s with tcb := none, err := err } else T.socks s := rfl
  rw [hsocks] at hi
  split at hi
  · cases hi
  rename_i hother
  have hw := h i hi
  have hstays : ¬ T.Goes j i := by
    rintro (rfl | ⟨-, -, hchild⟩)
    · exact hother hw.sock
    · have hlistener : (T.entries i).listener ≠ none := by
        change (T.tcbs i).listener ≠ none
        rw [hchild]
        exact Option.some_ne_none _
      have hnone : (T.tcbs i).sockIdx = none := (ok.child i hlistener).1
      cases hw.sock.symm.trans hnone
  have hat : (T.free j err).tcbs i = T.tcbs i := if_neg hstays
  rw [hat]
  exact hw

end Tables.Waiting

/-- A connection that lives on is still that of the socket. -/
theorem Tcb.Waits.handle {t : Tcb} {s : SockIdx} (hw : t.Waits s) {e : ConnEvent} {st : Stats}
    {d : Conn} (hd : d = connHandle (Conn.start t st) e) (halive : d.fate = .alive)
    (hno : ∀ now, e ≠ .close now) (hentry : d.tcb.entry = t.entry) : d.tcb.Waits s := by
  subst hd
  obtain ⟨hopen, hsyn⟩ := (connHandle_stages hw.syn halive).opening hno ⟨hw.state, hw.syn⟩
  exact ⟨(congrArg Entry.active hentry).trans hw.active,
    (congrArg Entry.sockIdx hentry).trans hw.sock, hopen, hsyn⟩

/-- A segment leaves the block of the socket waiting, if it leaves it. -/
theorem SegMove.waiting {h : Host} {now : Nat} {g : Seg} {T : Tables} {s : SockIdx}
    (hT : SegMove h now g T) (ok : ListenersOk h.tables.entries) (hw : h.tables.Waiting s) :
    T.Waiting s := by
  have hconn {i : TcbIdx} {lroom : Option Bool} {st : Stats} {d : Conn}
      (hst : (h.tcbs i).state ≠ .listen)
      (hd : d = tcpInputConn now lroom g (Conn.start (h.tcbs i) st)) (halive : d.fate = .alive) :
      (h.tables.setTcb i d.tcb).Waiting s := by
    have hentry := tcpInputConn_entry now lroom g (Conn.start (h.tcbs i) st)
    rw [← hd] at hentry
    exact hw.setTcb fun hwi => hwi.handle (e := .segment now lroom g) hd halive nofun hentry
  cases hT with
  | same => exact hw
  | segment st hfind hst hd halive hqueued => exact hconn hst hd halive
  | queue st hfind hst hl hroom hd halive hqueued => exact (hconn hst hd halive).push _ _
  | segmentEnd st err hfind hst hd hfate => exact hw.free ok _ err
  | passive iss st hfind hst hroom hidle => exact hw.setIdle hidle _

theorem TickMove.waiting {now : Nat} {T T' : Tables} {s : SockIdx} (hT : TickMove now T T')
    (ok : ListenersOk T.entries) (hw : T.Waiting s) : T'.Waiting s := by
  cases hT with
  | @tick i d st hact hd halive =>
    have hentry := tcpTickConn_entry now (Conn.start (T.tcbs i) st)
    rw [← hd] at hentry
    exact hw.setTcb fun hwi => hwi.handle (e := .tick now) hd halive nofun hentry
  | tickEnd st err hact hd hfate => exact hw.free ok _ err

/-! ### The host -/

section Host

variable {h : Host} {s : SockIdx}

theorem tcpOpenActiveConn_waits (now : Nat) (s : SockIdx) (lip : UInt32) (lport : UInt16)
    (rip : UInt32) (rport : UInt16) (iss : UInt32) (st : Stats) :
    (tcpOpenActiveConn now (some s) lip lport rip rport iss st).tcb.Waits s := by
  have hopened : Opened (tcpOpenActiveConn now (some s) lip lport rip rport iss st) :=
    .active now (some s) lip lport rip rport iss st
  have hentry := tcpOpenActiveConn_entry now (some s) lip rip lport rport iss st
  refine ⟨congrArg Entry.active hentry, congrArg Entry.sockIdx hentry, ?_, hopened.synWaits⟩
  rcases hopened.state with hst | hst <;> rw [hst] <;> rfl

variable {now : Nat} {i : SockIdx} {expired : Bool} {p : Pending}

theorem acceptPoll_wait {l : TcbIdx} {expired : Bool} {p : Pending}
    (hw : (acceptPoll i l expired h).2 = .wait p) : p = .accept i l := by
  unfold acceptPoll acceptTake at hw
  split at hw
  · simp only at hw
    split at hw <;> cases hw
  split at hw
  · cases hw
  split at hw
  · cases hw
  · cases hw
    rfl

theorem sendPoll_wait {rest : List UInt8} {len : Nat} {expired : Bool} {p : Pending}
    (hw : (sendPoll now i rest len expired h).2 = .wait p) : ∃ more, p = .send i more len := by
  unfold sendPoll at hw
  split at hw
  · cases hw
  split at hw
  · cases hw
  simp only at hw
  split at hw
  · cases hw
  split at hw
  · split at hw
    · cases hw
    · cases hw
      exact ⟨_, rfl⟩
  · split at hw
    · cases hw
    · cases hw
      exact ⟨_, rfl⟩

theorem recvPoll_wait {cap : Nat} {expired : Bool} {p : Pending}
    (hw : (recvPoll i cap expired h).2 = .wait p) : p = .recv i cap := by
  unfold recvPoll at hw
  split at hw
  · cases hw
  simp only at hw
  split at hw
  · cases hw
  split at hw
  · cases hw
  split at hw
  · cases hw
  · cases hw
    rfl

theorem connectPoll_wait (hw : (connectPoll i expired h).2 = .wait p) : p = .connect i := by
  unfold connectPoll at hw
  split at hw
  · cases hw
  split at hw
  · cases hw
  split at hw
  · cases hw
  · cases hw
    rfl

/-- A call of `pf_connect` that waits has just opened its connection. -/
theorem connectFrom_waiting {lip : UInt32} {lport : UInt16} {dstIp : UInt32} {dstPort : UInt16}
    (hw : (connectFrom now i lip lport dstIp dstPort h).2 = .wait (.connect s)) :
    (connectFrom now i lip lport dstIp dstPort h).1.tables.Waiting s := by
  have halloc (x : PfSock) : tcbAlloc (h.setSock i x) = tcbAlloc h := rfl
  unfold connectFrom tcpOpenActive at hw ⊢
  simp only [halloc] at hw ⊢
  cases hl : tcbAlloc h with
  | none =>
    rw [hl] at hw
    cases hw
  | some l =>
    simp only [hl] at hw ⊢
    cases connectPoll_wait hw
    rw [connectPoll_false]
    intro j hj
    have hself (f : SockIdx → PfSock) (x : PfSock) : Function.update f s x s = x :=
      Function.update_self _ _ _
    simp only [Host.tables, Host.setSock, hself] at hj
    cases hj
    have hstored (f : TcbIdx → Tcb) (t : Tcb) : Function.update f l t l = t :=
      Function.update_self _ _ _
    simp only [Host.tables, Host.setSock, Host.store, Host.setTcb, hstored]
    exact tcpOpenActiveConn_waits now s lip lport dstIp dstPort _ _

theorem pfConnect_waiting {sock : Int} {dstIp : UInt32} {dstPort : UInt16} {route : Option UInt32}
    (hw : (pfConnect now sock dstIp dstPort route h).2 = .wait (.connect s)) :
    (pfConnect now sock dstIp dstPort route h).1.tables.Waiting s := by
  cases hs : tcpSockGet h sock with
  | none =>
    unfold pfConnect at hw
    rw [hs] at hw
    cases hw
  | some i =>
    rw [pfConnect_eq hs] at hw ⊢
    split at hw
    · cases hw
    rename_i hguard
    rw [if_neg hguard]
    cases hsrc : connectSrc h i route with
    | none =>
      rw [hsrc] at hw
      cases hw
    | some lip =>
      rw [hsrc, Option.elim_some] at hw
      rw [Option.elim_some]
      split at hw
      · cases hw
      · rename_i hport
        rw [if_neg hport]
        exact connectFrom_waiting hw

/-- No other call waits for a connection. -/
theorem hostCall_waiting {call : Call} (hw : (hostCall now h call).2 = .wait (.connect s)) :
    (hostCall now h call).1.tables.Waiting s := by
  cases call with
  | connect sock dstIp dstPort route => exact pfConnect_waiting hw
  | socket type =>
    have hret (o : Option SockIdx) : sockResult o ≠ .wait (.connect s) := by
      cases o <;> exact nofun
    cases type with
    | none => cases hw
    | udp => exact absurd hw (hret _)
    | tcp => exact absurd hw (hret _)
  | bind sock ip port =>
    change (pfBind sock ip port h).2 = _ at hw
    unfold pfBind at hw
    split at hw
    · cases hw
    split at hw
    · cases hw
    split at hw <;> cases hw
  | listen sock backlog =>
    change (pfListen sock backlog h).2 = _ at hw
    unfold pfListen at hw
    split at hw
    · cases hw
    split at hw
    · cases hw
    split at hw <;> cases hw
  | accept sock =>
    change (pfAccept sock h).2 = _ at hw
    unfold pfAccept at hw
    split at hw
    · cases hw
    split at hw
    · cases hw
    split at hw
    · cases acceptPoll_wait hw
    · cases hw
  | send sock data =>
    change (pfSend now sock data h).2 = _ at hw
    unfold pfSend at hw
    split at hw
    · cases hw
    · obtain ⟨_, heq⟩ := sendPoll_wait hw
      cases heq
  | recv sock cap =>
    change (pfRecv sock cap h).2 = _ at hw
    unfold pfRecv at hw
    split at hw
    · cases hw
    · cases recvPoll_wait hw
  | close sock =>
    change (pfClose now sock h).2 = _ at hw
    unfold pfClose at hw
    split at hw <;> cases hw
  | nodelay sock on =>
    change (pfSockSetNodelay sock on h).2 = _ at hw
    unfold pfSockSetNodelay at hw
    split at hw
    · cases hw
    split at hw <;> cases hw

theorem hostResume_waiting (hp : ∀ i, p = .connect i → h.tables.Waiting i)
    (hw : (hostResume now expired h p).2 = .wait (.connect s)) :
    (hostResume now expired h p).1.tables.Waiting s := by
  cases p with
  | accept i l => cases acceptPoll_wait hw
  | connect i =>
    change (connectPoll i expired h).2 = _ at hw
    change (connectPoll i expired h).1.tables.Waiting s
    cases connectPoll_wait hw
    cases expired with
    | false =>
      rw [connectPoll_false]
      exact hp s rfl
    | true =>
      unfold connectPoll at hw
      split at hw
      · cases hw
      split at hw
      · cases hw
      · cases hw
  | send i rest len =>
    obtain ⟨_, heq⟩ := sendPoll_wait hw
    cases heq
  | recv i cap => cases recvPoll_wait hw

/-- The block of a call of `pf_connect` in progress. -/
def Host.Connecting (h : Host) : Prop := ∀ s, h.pending = some (.connect s) → h.tables.Waiting s

theorem settle_connecting {r : Host × CallResult}
    (hr : ∀ s, r.2 = .wait (.connect s) → r.1.tables.Waiting s) : (settle r).Connecting := by
  intro s hs
  obtain ⟨k, res⟩ := r
  cases res with
  | wait p =>
    cases hs
    exact hr s rfl
  | _ => cases hs

theorem tcpInput_connecting (ok : ListenersOk h.tables.entries) (hc : h.Connecting) (now : Nat)
    (g : Seg) : (tcpInput now g h).Connecting := by
  intro s hs
  have hpending : (tcpInput now g h).pending = h.pending :=
    congrArg ApiView.pending (tcpInput_api h now g)
  exact (tcpInput_segMove rfl rfl ok).waiting ok (hc s (hpending.symm.trans hs))

theorem tcpTick_connecting (ok : ListenersOk h.tables.entries) (hc : h.Connecting) (now : Nat) :
    (tcpTick now h).Connecting := by
  intro s hs
  have hpending : (tcpTick now h).pending = h.pending :=
    congrArg ApiView.pending (tcpTick_api h now)
  exact tcpTick_invariant (P := fun T => T.Waiting s) ok (fun _ _ hok hmove => hmove.waiting hok)
    (hc s (hpending.symm.trans hs))

theorem hostStep_connecting (ok : ListenersOk h.tables.entries) (hc : h.Connecting)
    (e : HostEvent) : (hostStep h e).Connecting := by
  cases e with
  | segment now g => exact tcpInput_connecting (h := { h with out := [] }) ok hc now g
  | tick now => exact tcpTick_connecting (h := { h with out := [] }) ok hc now
  | call now c =>
    cases hp : h.pending with
    | none =>
      rw [hostStep_call hp]
      exact settle_connecting fun s hw => hostCall_waiting hw
    | some p =>
      rw [hostStep_busy hp]
      exact hc
  | resume now expired =>
    cases hp : h.pending with
    | none =>
      have hidle : hostStep h (.resume now expired) = { h with out := [] } := by
        unfold hostStep
        simp only [hp]
      rw [hidle]
      exact hc
    | some p =>
      have hresume : hostStep h (.resume now expired) =
          settle (hostResume now expired { h with out := [] } p) := by
        unfold hostStep
        simp only [hp]
      rw [hresume]
      refine settle_connecting fun s hw => hostResume_waiting (fun i hi => ?_) hw
      exact hc i (hi ▸ hp)

/-- In every run the block of a call in progress is in one of the four states. -/
theorem Host.Reach.connecting {allowed : Host → HostEvent → Prop} (hr : Host.Reach allowed h) :
    h.Connecting :=
  hr.keeps nofun fun _ e _ ok hc => hostStep_connecting ok hc e

/-- A connection that is complete when the loop looks at it is returned, unless the
peer has closed its side by then. -/
theorem connect_returns_established (hr : Host.Reach (fun _ _ => True) h)
    (hp : h.pending = some (.connect s)) {i : TcbIdx} (htcb : (h.socks s).tcb = some i)
    (hdone : Synced (h.tcbs i)) (now : Nat) :
    ((hostResume now false h (.connect s)).2 = .ret 0 ∧
      ((hostResume now false h (.connect s)).1.socks s).tcb = some i) ↔
    (h.tcbs i).state ≠ .closeWait := by
  have hw : (h.tcbs i).state.opening = true := (hr.connecting s hp i htcb).state
  have hpoll : hostResume now false h (.connect s) =
      if (h.tcbs i).state = .established then (h, .ret 0) else (h, .wait (.connect s)) := by
    change connectPoll s false h = _
    unfold connectPoll
    simp only [htcb]
    rfl
  rw [hpoll]
  unfold Synced at hdone
  generalize (h.tcbs i).state = st at hw hdone
  cases st with
  | established => exact iff_of_true ⟨rfl, htcb⟩ (by decide)
  | closeWait => exact iff_of_false nofun (by decide)
  | synSent => exact absurd rfl hdone.1
  | synRcvd => exact absurd rfl hdone.2
  | _ => cases hw

/-- A connection to port 4000 of host 2 from host 1. -/
def connectEvents : List HostEvent :=
  [.call 0 (.socket .tcp), .call 0 (.connect 0 2 4000 (some 1))]

def connectHost : Host := connectEvents.foldl hostStep Host.init

theorem tcpMaxConns_pos : 0 < tcpMaxConns := by decide

def serverSeg (flags : UInt8) (seq : UInt32) : Seg where
  src := 2
  dst := 1
  sport := 4000
  dport := 49152
  seq := seq
  ack := (connectHost.tcbs ⟨0, tcpMaxConns_pos⟩).iss + 1
  flags := flags
  wnd := 1000
  opts := []
  payload := []
  payload_lt := Seg.empty_payload_lt

def acceptedHost : Host := hostStep connectHost (.segment 1 (serverSeg (tcpSyn ||| tcpAck) 500))

/-- It has also closed its side by the time the loop looks. -/
def halfClosedHost : Host := hostStep acceptedHost (.segment 1 (serverSeg (tcpFin ||| tcpAck) 501))

theorem connectHost_reach : Host.Reach (fun _ _ => True) connectHost :=
  have hstart : Host.Reach (fun _ _ => True) Host.init := .start rfl
  hstart.foldl connectEvents ⟨trivial, trivial, trivial⟩

theorem connect_returns_established_accepted :
    (hostResume 1 false acceptedHost (.connect 0)).2 = .ret 0 := by
  have hr : Host.Reach (fun _ _ => True) acceptedHost := connectHost_reach.next _ trivial
  have hstate : acceptedHost.pending = some (.connect 0) ∧ (acceptedHost.socks 0).tcb = some 0 ∧
      (acceptedHost.tcbs 0).state = .established := by
    decide +kernel
  obtain ⟨hp, htcb, hst⟩ := hstate
  have hdone : Synced (acceptedHost.tcbs 0) := by simp [Synced, hst]
  exact ((connect_returns_established hr hp htcb hdone 1).2 (by simp [hst])).1

/-- The loop keeps waiting for a connection in CLOSE_WAIT, and aborts it at the deadline. -/
theorem connect_misses_closeWait :
    halfClosedHost.pending = some (.connect 0) ∧ (halfClosedHost.socks 0).tcb = some 0 ∧
      (halfClosedHost.tcbs 0).state = .closeWait ∧
      (hostStep halfClosedHost (.resume 1 false)).pending = some (.connect 0) ∧
      ((hostStep halfClosedHost (.resume 5000 true)).socks 0).tcb = none := by
  decide +kernel

end Host

end PacketForge
