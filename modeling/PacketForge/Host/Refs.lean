import PacketForge.Host.Links

/-!
The references between the tables over whole runs. A segment that is not a reset
leaves a queued block in its queue, and its timer is off, so that no tick frees it
either; a reset does free it and leaves the queue as it is.
-/

namespace PacketForge

/-- The queued blocks of a listener are distinct and are its children in use, and
the block of a socket is in use and owned by the socket. -/
structure RefsOk (T : Tables) : Prop where
  nodup : ∀ l, (T.tcbs l).active = true → (T.tcbs l).state = .listen → (T.tcbs l).acceptq.Nodup
  queue : ∀ l, (T.tcbs l).active = true → (T.tcbs l).state = .listen → ∀ i ∈ (T.tcbs l).acceptq,
    (T.tcbs i).active = true ∧ (T.tcbs i).listener = some l
  sock : ∀ s i, (T.socks s).tcb = some i →
    (T.tcbs i).active = true ∧ (T.tcbs i).sockIdx = some s

theorem Linked.refsOk {T : Tables} (h : Linked T) : RefsOk T :=
  ⟨fun l _ _ => h.nodup l, fun l _ _ => h.queue l, h.sock⟩

/-! ### Segments and ticks -/

/-- The segment is a reset that is obeyed, and the block that it frees still waits in
an accept queue. -/
def ResetsQueued (h : Host) : HostEvent → Prop
  | .segment _ g => ∃ l i, i ∈ (h.tcbs l).acceptq ∧
      tcbLookup h g.dst g.dport g.src g.sport = some i ∧ resetAt (h.tcbs i) g = true
  | _ => False

section Processed

variable {T : Tables} {i : TcbIdx} {e : ConnEvent} {st : Stats}

/-- An event from outside leaves a child what it is, unless it completes the handshake. -/
theorem Linked.arrive (hT : Linked T) (he : e.arrives = true)
    (hmiss : ∀ l, i ∈ (T.tcbs l).acceptq → ∀ now lroom g, e = .segment now lroom g →
      resetAt (T.tcbs i) g = false)
    (hroom : (T.tcbs i).listener ≠ none → ∀ now g, e ≠ .segment now none g)
    (halive : (connHandle (Conn.start (T.tcbs i) st) e).fate = .alive)
    (hqueued : (connHandle (Conn.start (T.tcbs i) st) e).queued = false)
    (hentry : (connHandle (Conn.start (T.tcbs i) st) e).tcb.entry = (T.tcbs i).entry) :
    Linked (T.setTcb i (connHandle (Conn.start (T.tcbs i) st) e).tcb) := by
  refine hT.process hentry (fun l hl => ((hT.settled l i hl).event he (hmiss l hl) st).1) ?_
  intro l hact hlis hno
  have hchild : (T.tcbs i).listener ≠ none := by
    rw [hlis]
    exact Option.some_ne_none l
  rcases (hT.embryo i l hact hlis hno).event he (hroom hchild) halive with hd | hd
  · exact hd.1
  · rw [hqueued] at hd
    cases hd.2

end Processed

section Segments

variable {h : Host} {now : Nat} {g : Seg} {i : TcbIdx}

theorem ResetsQueued.miss (hgood : ¬ ResetsQueued h (.segment now g))
    (hfind : tcbLookup h g.dst g.dport g.src g.sport = some i) {l : TcbIdx}
    (hl : i ∈ (h.tcbs l).acceptq) (lroom : Option Bool) :
    ∀ now' lroom' g', ConnEvent.segment now lroom g = .segment now' lroom' g' →
      resetAt (h.tcbs i) g' = false := by
  rintro _ _ _ ⟨⟩
  rw [Bool.eq_false_iff]
  intro hreset
  exact hgood ⟨l, i, hl, hfind, hreset⟩

/-- Any segment that is no such reset leaves a queued block in place. -/
theorem Linked.segment_queued (hT : Linked h.tables) (hgood : ¬ ResetsQueued h (.segment now g))
    (hfind : tcbLookup h g.dst g.dport g.src g.sport = some i) {l : TcbIdx}
    (hl : i ∈ (h.tcbs l).acceptq) (st : Stats) (lroom : Option Bool) :
    (tcpInputConn now lroom g (Conn.start (h.tcbs i) st)).fate = .alive ∧
      (tcpInputConn now lroom g (Conn.start (h.tcbs i) st)).queued = false := by
  have hmiss := ResetsQueued.miss hgood hfind hl lroom
  have hs := hT.settled l i hl
  exact ⟨hs.alive rfl hmiss st, (hs.event rfl hmiss st).2⟩

end Segments

/-- The timer of a queued block is off. -/
theorem Linked.tickEnd {T : Tables} {i : TcbIdx} {now : Nat} {st : Stats} {err : PfErr}
    (hT : Linked T) (hfate : (tcpTickConn now (Conn.start (T.tcbs i) st)).fate = .freed err)
    (l : TcbIdx) :
    i ∉ (T.tcbs l).acceptq := by
  intro hl
  have hkeeps := (hT.settled l i hl).alive (e := .tick now) rfl nofun st
  exact Fate.noConfusion (hfate.symm.trans hkeeps)

theorem SegMove.linked {h : Host} {now : Nat} {g : Seg} {T : Tables} (hmove : SegMove h now g T)
    (hgood : ¬ ResetsQueued h (.segment now g)) (ok : ListenersOk h.tables.entries)
    (hT : Linked h.tables) : Linked T := by
  cases hmove with
  | same => exact hT
  | @segment i d st hfind hst hd halive hqueued =>
    subst hd
    refine hT.arrive (e := .segment now (acceptRoom h i) g) rfl
      (fun l hl => ResetsQueued.miss hgood hfind hl _) ?_ halive hqueued
        (tcpInputConn_entry _ _ _ _)
    intro hchild now' g' heq
    injection heq with _ hroom
    exact hchild (Option.map_eq_none_iff.mp hroom)
  | @queue i l d st hfind hst hlistener hroom hd halive hqueued =>
    subst hd
    have hact := (tcbLookup_some hfind).1
    have hno : i ∉ (h.tcbs l).acceptq := by
      intro hl
      rw [(hT.segment_queued hgood hfind hl st (some true)).2] at hqueued
      cases hqueued
    refine hT.push ok (tcpInputConn_entry _ _ _ _) hact hlistener hno ?_
    rcases (hT.embryo i l hact hlistener hno).event (e := .segment now (some true) g) rfl nofun
      halive with hd | hd
    · exact absurd (hd.2.symm.trans hqueued) Bool.false_ne_true
    · exact hd.1
  | @segmentEnd i d st err hfind hst hd hfate =>
    subst hd
    refine hT.free ok ?_ err
    intro l hl
    rw [(hT.segment_queued hgood hfind hl st (acceptRoom h i)).1] at hfate
    cases hfate
  | passive iss st hfind hst hroom hidle =>
    refine hT.opened ok hidle (congrArg Entry.acceptq (tcpOpenPassiveConn_entry _ _ _ _ _ _)) ?_
    intro _
    exact tcpOpenPassiveConn_embryonic _ _ _ _ _ _

theorem TickMove.linked {now : Nat} {T T' : Tables} (hmove : TickMove now T T')
    (ok : ListenersOk T.entries) (hT : Linked T) : Linked T' := by
  cases hmove with
  | @tick i d st hact hd halive =>
    subst hd
    exact hT.arrive (e := .tick now) rfl (fun _ _ => nofun) (fun _ => nofun) halive
      (tcpTickConn_queued rfl) (tcpTickConn_entry _ _)
  | tickEnd st err hact hd hfate =>
    subst hd
    exact hT.free ok (hT.tickEnd hfate) err

theorem Move.linked {h : Host} {e : HostEvent} {T T' : Tables} (hmove : Move h e T T')
    (hgood : ¬ ResetsQueued h e) (ok : ListenersOk T.entries) (hT : Linked T) : Linked T' := by
  cases hmove with
  | segment hseg => exact hseg.linked hgood ok hT
  | tick htick => exact htick.linked ok hT
  | @listen now sock backlog s i hsock hidle =>
    have hopen : Linked (h.tables.setTcb i (listenTcb (h.socks s) s backlog)) :=
      hT.opened ok hidle rfl fun hl => absurd rfl hl
    refine hopen.setSock ?_
    intro j hj
    cases hj
    have hself : (h.tables.setTcb i (listenTcb (h.socks s) s backlog)).tcbs i =
        listenTcb (h.socks s) s backlog := Function.update_self _ _ _
    rw [hself]
    exact ⟨rfl, rfl⟩
  | @connect now sock rip lip rport lport route s i x iss st hsource hidle hx =>
    have hentry := tcpOpenActiveConn_entry now (some s) lip rip lport rport iss st
    generalize (tcpOpenActiveConn now (some s) lip lport rip rport iss st).tcb = t at hentry ⊢
    have hnone : t.listener = none := congrArg Entry.listener hentry
    have hopen : Linked (h.tables.setTcb i t) :=
      hT.opened ok hidle (congrArg Entry.acceptq hentry) fun hl => absurd hnone hl
    refine hopen.setSock ?_
    intro j hj
    rw [hx] at hj
    cases hj
    have hself : (h.tables.setTcb i t).tcbs i = t := Function.update_self _ _ _
    rw [hself]
    exact ⟨congrArg Entry.active hentry, congrArg Entry.sockIdx hentry⟩
  | use st hsock hv hd =>
    subst hd
    obtain ⟨hnone, hno⟩ := hT.owned ok hsock
    refine hT.process (isCall_entry hv _) (fun l hl => absurd hl (hno l)) ?_
    intro l _ hlis
    rw [hnone] at hlis
    cases hlis
  | abort hsock => exact hT.free ok (hT.owned ok hsock).2 .none
  | @close now sock s i d hget hsock hd halive =>
    subst hd
    have hgone := hT.letGo ok hsock
    have hself : (h.tables.letGo s i).tcbs i = { h.tcbs i with sockIdx := none } :=
      Function.update_self _ _ _
    have hlis : ((h.tables.letGo s i).tcbs i).listener = none := by
      rw [hself]
      exact (hT.owned ok hsock).1
    refine hgone.process (tcpAppClose_entry _ _)
      (fun l hl => absurd hl (hgone.not_queued hlis l)) ?_
    intro l _ hl
    rw [hlis] at hl
    cases hl
  | @closeEnd now sock s i hget hsock hst =>
    have hgone := hT.letGo ok hsock
    have hself : (h.tables.letGo s i).tcbs i = { h.tcbs i with sockIdx := none } :=
      Function.update_self _ _ _
    refine hgone.free (ok.letGo s i) (hgone.not_queued ?_) .none
    rw [hself]
    exact (hT.owned ok hsock).1
  | accept hq hfree hx => exact hT.accept ok hq hx
  | acceptDrop hq => exact hT.drop ok hq
  | @sock _ _ s x hx =>
    refine hT.setSock ?_
    intro j hj
    rcases hx with hx | hx
    · rw [hx] at hj
      cases hj
    · exact hT.sock s j (hx ▸ hj)

/-! ### Runs -/

theorem hostStep_linked {h : Host} {e : HostEvent} (ok : ListenersOk h.tables.entries)
    (hT : Linked h.tables) (hgood : ¬ ResetsQueued h e) : Linked (hostStep h e).tables := by
  have hmoves : ∀ T, Moves h e h.tables T → ListenersOk T.entries ∧ Linked T := by
    intro T hT'
    induction hT' with
    | refl => exact ⟨ok, hT⟩
    | tail _ hmove ih => exact ⟨hmove.listenersOk ih.1, hmove.linked hgood ih.1 ih.2⟩
  exact (hmoves _ (hostStep_moves ok e)).2

theorem Host.init_linked : Linked Host.init.tables := by
  refine ⟨fun _ => List.nodup_nil, ?_, ?_, ?_, ?_⟩
  · intro l i hi
    cases hi
  · intro s i hs
    cases hs
  · intro l i hi
    cases hi
  · intro i l hact
    cases hact

theorem Host.Reach.linked {h : Host} (hr : Host.Reach (fun h e => ¬ ResetsQueued h e) h) :
    Linked h.tables :=
  hr.keeps (P := fun k => Linked k.tables) Host.init_linked
    fun _ _ hgood ok hk => hostStep_linked ok hk hgood

theorem hostStep_reset {h : Host} {g : Seg} {i : TcbIdx} (ok : ListenersOk h.tables.entries)
    (hfind : tcbLookup h g.dst g.dport g.src g.sport = some i) (hsettled : Settled (h.tcbs i))
    (hreset : resetAt (h.tcbs i) g = true) (now : Nat) :
    ∃ err, (hostStep h (.segment now g)).tables = h.tables.free i err := by
  have hst := hsettled.ne_listen
  have hsent := hsettled.ne_synSent
  have hstep := hostStep_segment now hfind hst
  generalize hk : ({ h with out := [] } : Host).count .tcpRxSegs = k at hstep
  have htables : k.tables = h.tables := by rw [← hk]; rfl
  have hconn : (k.conn i).tcb = h.tcbs i := congrFun (congrArg Tables.tcbs htables) i
  have hfree : ∃ err, (tcpInputConn now (acceptRoom h i) g (k.conn i)).fate = .freed err :=
    resetAt_frees (c := k.conn i) (by rw [hconn]; exact hsent) (by rw [hconn]; exact hreset) now _
  obtain ⟨err, hfate⟩ := hfree
  have hentry := tcpInputConn_entry now (acceptRoom h i) g (k.conn i)
  have hquiet : (tcpInputConn now (acceptRoom h i) g (k.conn i)).queued = false := by
    rw [Bool.eq_false_iff]
    intro hq
    have halive := tcpInputConn_queued_alive (c := k.conn i) rfl rfl hq
    rw [hfate] at halive
    cases halive
  refine ⟨err, ?_⟩
  rw [hstep, Host.run, commit_freed (htables ▸ ok) hentry hfate hquiet, htables]

/-- The references between the tables are intact until a reset frees a block in an
accept queue, which goes on naming it. -/
theorem references_intact_iff {h : Host} (hr : Host.Reach (fun h e => ¬ ResetsQueued h e) h) :
    RefsOk h.tables ∧ ∀ e, RefsOk (hostStep h e).tables ↔ ¬ ResetsQueued h e := by
  have ok := Host.Reach.listenersOk hr
  have hT := Host.Reach.linked hr
  refine ⟨hT.refsOk, fun e => ⟨?_, fun hgood => (hostStep_linked ok hT hgood).refsOk⟩⟩
  intro hrefs hbad
  cases e with
  | segment now g =>
    obtain ⟨l, i, hl, hfind, hreset⟩ := hbad
    have hsettled : Settled (h.tcbs i) := hT.settled l i hl
    obtain ⟨err, hfree⟩ := hostStep_reset ok hfind hsettled hreset now
    rw [hfree] at hrefs
    obtain ⟨hact, hlis⟩ := hT.queue l i hl
    have hlist := ok.listener i l hact hlis
    have hleaf := hsettled.ne_listen
    -- the listener is still there, with the freed block in its queue
    have hstays : (h.tables.free i err).tcbs l = h.tcbs l := by
      refine if_neg ?_
      rintro (rfl | ⟨hst, -⟩)
      · exact hleaf ((Tcb.entry_listening _).mp hlist.2)
      · exact hleaf hst
    have hgone : (h.tables.free i err).tcbs i = Tcb.zero := if_pos (Or.inl rfl)
    have hname := hrefs.queue l (by rw [hstays]; exact hlist.1)
      (by rw [hstays]; exact (Tcb.entry_listening _).mp hlist.2) i (by rw [hstays]; exact hl)
    rw [hgone] at hname
    cases hname.1
  | tick | call | resume => exact hbad

/-- The client's handshake is complete and nobody has accepted it yet. -/
def queuedEvents : List HostEvent :=
  embryoEvents ++ [.segment 2 (clientSeg tcpAck 301 (0x1f2e3d4c + 64000 + 2))]

def queuedHost : Host := queuedEvents.foldl hostStep Host.init

instance (h : Host) : DecidablePred (ResetsQueued h)
  | .segment _ _ => inferInstanceAs (Decidable (∃ _ _, _))
  | .tick _ | .call _ _ | .resume _ _ => .isFalse id

theorem queuedHost_reach : Host.Reach (fun h e => ¬ ResetsQueued h e) queuedHost := by
  have hstart : Host.Reach (fun h e => ¬ ResetsQueued h e) Host.init := .start rfl
  exact hstart.foldl queuedEvents (by decide +kernel)

theorem references_intact_iff_queued : RefsOk queuedHost.tables ∧
    ¬ RefsOk (hostStep queuedHost (.segment 3 (clientSeg tcpRst 301 0))).tables := by
  obtain ⟨hok, hstep⟩ := references_intact_iff queuedHost_reach
  refine ⟨hok, ?_⟩
  rw [hstep, not_not]
  decide +kernel

/-- The reset comes before the accept: the listener in slot 0 names the free slot 1. -/
theorem reset_leaves_queue :
    let h := hostStep queuedHost (.segment 3 (clientSeg tcpRst 301 0))
    (h.tcbs 0).active = true ∧ (h.tcbs 0).state = .listen ∧ 1 ∈ (h.tcbs 0).acceptq ∧
      (h.tcbs 1).active = false := by
  decide +kernel

end PacketForge
