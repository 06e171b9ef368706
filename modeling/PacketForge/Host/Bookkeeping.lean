import PacketForge.Host.Steps

/-!
The bookkeeping of listeners in every run of the host: every child in use has
its listener in use, no accept queue outgrows its backlog, and closing a
listening socket takes all the listener's children down.
-/

namespace PacketForge

abbrev Host.Reach (allowed : Host → HostEvent → Prop) : Host → Prop :=
  Run.Reach (· = Host.init) allowed hostStep

variable {h : Host}

theorem Host.init_listenersOk : ListenersOk Host.init.tables.entries where
  listener := by
    intro i l hact
    cases hact
  child := by
    intro i hi
    exact absurd rfl hi
  queue := by
    intro l hact
    cases hact

theorem Host.Reach.listenersOk {allowed : Host → HostEvent → Prop} (hr : Host.Reach allowed h) :
    ListenersOk h.tables.entries := by
  refine Run.Reach.invariant (fun h : Host => ListenersOk h.tables.entries) ?_ ?_ hr
  · rintro _ rfl
    exact Host.init_listenersOk
  · intro s e _ ok
    exact (hostStep_moves ok e).listenersOk ok

theorem Host.Reach.keeps {allowed : Host → HostEvent → Prop} {P : Host → Prop} (hinit : P Host.init)
    (hstep : ∀ k e, allowed k e → ListenersOk k.tables.entries → P k → P (hostStep k e))
    (hr : Host.Reach allowed h) : P h := by
  induction hr with
  | start hs => exact hs ▸ hinit
  | next hr e he ih => exact hstep _ e he (Host.Reach.listenersOk hr) ih

/-! ### Closing a listener -/

theorem closeTcb_listen (ok : ListenersOk h.tables.entries) {now : Nat} {s : SockIdx} {l : TcbIdx}
    (hst : (h.tcbs l).state = .listen) :
    (closeTcb now s l h).tables = (h.tables.letGo s l).free l .none := by
  obtain ⟨k, hlet, hrun⟩ := closeTcb_commit now s l h
  have hok : ListenersOk k.tables.entries := hlet ▸ ok.letGo s l
  have hat : k.tcbs l = (h.tables.letGo s l).tcbs l := congrFun (congrArg Tables.tcbs hlet) l
  have hlisten : ((h.tables.letGo s l).tcbs l).state = .listen := by
    have hset (f : TcbIdx → Tcb) (t : Tcb) : (Function.update f l t l).state = t.state := by
      rw [Function.update_self]
    exact (hset _ _).trans hst
  generalize (h.tables.letGo s l).tcbs l = t at hat hrun hlisten
  have hclose : tcpAppClose now (Conn.start t h.stats) = (Conn.start t h.stats).free .none := by
    have hstate : (Conn.start t h.stats).tcb.state = .listen := hlisten
    unfold tcpAppClose
    rw [hstate]
  have hentry : ((Conn.start t h.stats).free .none).tcb.entry = (k.tcbs l).entry :=
    congrArg Tcb.entry hat.symm
  rw [hrun, hclose, commit_freed hok hentry rfl rfl, hlet]

theorem Tables.letGo_tcbs (T : Tables) (s : SockIdx) (i j : TcbIdx) :
    ((T.letGo s i).tcbs j).active = (T.tcbs j).active ∧
      ((T.letGo s i).tcbs j).listener = (T.tcbs j).listener ∧
      ((T.letGo s i).tcbs j).state = (T.tcbs j).state := by
  change (Function.update T.tcbs i { T.tcbs i with sockIdx := none } j).active = _ ∧
    (Function.update T.tcbs i { T.tcbs i with sockIdx := none } j).listener = _ ∧
    (Function.update T.tcbs i { T.tcbs i with sockIdx := none } j).state = _
  rw [Function.update_apply]
  split
  · rename_i hji
    rw [hji]
    exact ⟨rfl, rfl, rfl⟩
  · exact ⟨rfl, rfl, rfl⟩

/-- No block in use is a child of a slot that was freed as a listener. -/
theorem Tables.free_no_child {T : Tables} {l : TcbIdx} (err : PfErr)
    (hst : (T.tcbs l).state = .listen) (c : TcbIdx) :
    (((T.free l err).tcbs c).active = true → ((T.free l err).tcbs c).listener ≠ some l) ∧
      ((T.tcbs c).active = true ∧ (T.tcbs c).listener = some l →
        ((T.free l err).tcbs c).active = false) := by
  have hat : (T.free l err).tcbs c = if T.Goes l c then Tcb.zero else T.tcbs c := rfl
  rw [hat]
  split
  · exact ⟨fun hact => Bool.noConfusion hact, fun _ => rfl⟩
  · rename_i hstays
    refine ⟨?_, ?_⟩
    · intro hact hlis
      exact hstays (Or.inr ⟨hst, hact, hlis⟩)
    · rintro ⟨hact, hlis⟩
      exact absurd (Or.inr ⟨hst, hact, hlis⟩) hstays

theorem hostStep_segment {g : Seg} {i : TcbIdx} (now : Nat)
    (hfind : tcbLookup h g.dst g.dport g.src g.sport = some i) (hst : (h.tcbs i).state ≠ .listen) :
    hostStep h (.segment now g) =
      (({ h with out := [] } : Host).count .tcpRxSegs).run i
        (tcpInputConn now (acceptRoom h i) g) := by
  change tcpInput now g { h with out := [] } = _
  generalize hk : ({ h with out := [] } : Host).count .tcpRxSegs = k
  have htcbs : k.tcbs = h.tcbs := by rw [← hk]; rfl
  have hlook : tcbLookup k g.dst g.dport g.src g.sport = some i :=
    (tcbLookup_tcbs htcbs _ _ _ _).trans hfind
  have hroom : acceptRoom k i = acceptRoom h i := by
    unfold acceptRoom
    rw [htcbs]
  simp only [tcpInput, hk, hlook, htcbs, if_neg hst, hroom]

theorem close_listening_socket (ok : ListenersOk h.tables.entries) (hidle : h.pending = none)
    (now : Nat) {sock : Int} {s : SockIdx} {l : TcbIdx} (hsock : pfSockGet h sock = some s)
    (htcb : (h.socks s).tcb = some l) (hst : (h.tcbs l).state = .listen) (c : TcbIdx) :
    (((hostStep h (.call now (.close sock))).tcbs c).active = true →
        ((hostStep h (.call now (.close sock))).tcbs c).listener ≠ some l) ∧
      ((h.tcbs c).active = true ∧ (h.tcbs c).listener = some l →
        ((hostStep h (.call now (.close sock))).tcbs c).active = false) := by
  have hstep : (hostStep h (.call now (.close sock))).tables =
      (closeTcb now s l { h with out := [] }).tables.setSock s PfSock.zero := by
    have hget : pfSockGet { h with out := [] } sock = some s := hsock
    have hclose : pfClose now sock { h with out := [] } =
        ((closeTcb now s l { h with out := [] }).setSock s PfSock.zero, .ret 0) := by
      unfold pfClose
      rw [hget]
      simp only [htcb]
    rw [hostStep_call hidle]
    change (pfClose now sock { h with out := [] }).1.tables = _
    rw [hclose]
    rfl
  have htcbs : (hostStep h (.call now (.close sock))).tcbs =
      ((h.tables.letGo s l).free l .none).tcbs := by
    have hfree : (closeTcb now s l { h with out := [] }).tables =
        (h.tables.letGo s l).free l .none := closeTcb_listen (h := { h with out := [] }) ok hst
    have hclosed := congrArg Tables.tcbs hstep
    rw [hfree] at hclosed
    exact hclosed
  have hlet := Tables.letGo_tcbs h.tables s l
  have hchild := Tables.free_no_child .none ((hlet l).2.2.trans hst) c
  rw [htcbs]
  refine ⟨hchild.1, ?_⟩
  rintro ⟨hact, hlis⟩
  exact hchild.2 ⟨(hlet c).1.trans hact, (hlet c).2.1.trans hlis⟩

/-- In every run: a child in use has a listener in use, an accept queue fits
its backlog and the backlog the array, and after a listening socket is closed
no block in use is a child of its listener, all its children being freed. -/
theorem listener_bookkeeping_closed (hr : Host.Reach (fun _ _ => True) h) :
    (∀ i l, (h.tcbs i).active = true → (h.tcbs i).listener = some l →
      (h.tcbs l).active = true ∧ (h.tcbs l).state = .listen) ∧
    (∀ l, (h.tcbs l).active = true → (h.tcbs l).state = .listen →
      (h.tcbs l).acceptq.length ≤ (h.tcbs l).backlog.toNat ∧
        (h.tcbs l).backlog.toNat ≤ tcpAcceptQlen) ∧
    ∀ now sock s l, h.pending = none → pfSockGet h sock = some s → (h.socks s).tcb = some l →
      (h.tcbs l).state = .listen → ∀ c,
        (((hostStep h (.call now (.close sock))).tcbs c).active = true →
          ((hostStep h (.call now (.close sock))).tcbs c).listener ≠ some l) ∧
        ((h.tcbs c).active = true ∧ (h.tcbs c).listener = some l →
          ((hostStep h (.call now (.close sock))).tcbs c).active = false) := by
  have ok := Host.Reach.listenersOk hr
  refine ⟨?_, ?_, ?_⟩
  · intro i l hact hlis
    obtain ⟨hlact, hll⟩ := ok.listener i l hact hlis
    exact ⟨hlact, (Tcb.entry_listening _).mp hll⟩
  · intro l hact hst
    exact ok.queue l hact ((Tcb.entry_listening _).mpr hst)
  · intro now sock s l hidle hsock htcb hst c
    exact close_listening_socket ok hidle now hsock htcb hst c

/-- A segment without payload from a client of port 7. -/
def clientSeg (flags : UInt8) (seq ack : UInt32) : Seg where
  src := 2
  dst := 1
  sport := 4000
  dport := 7
  seq := seq
  ack := ack
  flags := flags
  wnd := 1000
  opts := []
  payload := []
  payload_lt := Seg.empty_payload_lt

/-- A socket listens on port 7, and a client has sent its SYN. -/
def embryoEvents : List HostEvent :=
  [.call 0 (.socket .tcp), .call 0 (.bind 0 0 7), .call 0 (.listen 0 2),
    .segment 1 (clientSeg tcpSyn 300 0)]

def embryoHost : Host := embryoEvents.foldl hostStep Host.init

theorem listener_bookkeeping_closed_embryo : (embryoHost.tcbs 1).active = true ∧
    ((hostStep embryoHost (.call 2 (.close 0))).tcbs 1).active = false := by
  have hstart : Host.Reach (fun _ _ => True) Host.init := .start rfl
  have hreach : Host.Reach (fun _ _ => True) embryoHost :=
    hstart.foldl embryoEvents ⟨trivial, trivial, trivial, trivial, trivial⟩
  have hstate : (embryoHost.tcbs 1).active = true ∧ (embryoHost.tcbs 1).listener = some 0 ∧
      (embryoHost.tcbs 0).state = .listen ∧ embryoHost.pending.isNone = true ∧
      pfSockGet embryoHost 0 = some 0 ∧ (embryoHost.socks 0).tcb = some 0 := by
    decide +kernel
  obtain ⟨hact, hlis, hst, hidle, hsock, htcb⟩ := hstate
  refine ⟨hact, ?_⟩
  exact ((listener_bookkeeping_closed hreach).2.2 2 0 0 0 (Option.isNone_iff_eq_none.mp hidle) hsock
    htcb hst 1).2 ⟨hact, hlis⟩

end PacketForge
