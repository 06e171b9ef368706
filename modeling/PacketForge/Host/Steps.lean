import PacketForge.Host.Listener

/-!
Every step of the host is a sequence of moves. The functions of the table are
taken one by one; what they hand to a connection is a function of the
connection level, whose result `Host.commit` stores, queues or frees.
-/

namespace PacketForge

/-! ### What asks for the accept queue -/

section Queued

variable {c : Conn} {now : Nat}

/-- Only the end of a handshake for which the queue has room asks for it. -/
theorem tcpInputConn_queued {lroom : Option Bool} {g : Seg} (hc : c.queued = false)
    (hq : (tcpInputConn now lroom g c).queued = true) : lroom = some true := by
  rcases (Proceeds.inputConn now lroom g c).queued hq with hold | hroom
  · rw [hc] at hold
    cases hold
  · exact hroom

/-- A connection that asks for the queue is alive. -/
theorem tcpInputConn_queued_alive {lroom : Option Bool} {g : Seg} (hc : c.queued = false)
    (hstart : c = Conn.start c.tcb c.stats) (hq : (tcpInputConn now lroom g c).queued = true) :
    (tcpInputConn now lroom g c).fate = .alive := by
  by_contra hend
  have hends : Ends (.segment now lroom g) c (tcpInputConn now lroom g c) := by
    rw [hstart] at hend ⊢
    exact connHandle_ends (e := .segment now lroom g) hend
  have hroom := tcpInputConn_queued hc hq
  subst hroom
  generalize tcpInputConn now (some true) g c = d at hends hq
  cases hends with
  | refused => rw [show c.queued = true from hq] at hc; cases hc
  | reset _ _ _ _ _ _ _ _ _ _ hqueued =>
    rw [hqueued, hc] at hq
    cases hq
  | lastAck =>
    have hnew := ((Proceeds.refl 0 none c).ackNew now g.ack).quiet hc
    rw [show (ackNew now g.ack c).queued = true from hq] at hnew
    cases hnew

theorem tcpTickConn_queued (hc : c.queued = false) : (tcpTickConn now c).queued = false :=
  ((Proceeds.refl 0 none c).tick now).quiet hc

theorem tcpAppClose_queued (hc : c.queued = false) : (tcpAppClose now c).queued = false :=
  ((Proceeds.refl 0 none c).appClose now).quiet hc

end Queued

/-! ### Committing a connection -/

section Commit

variable {h : Host} {i : TcbIdx} {c : Conn}

/-- Telling the socket first and freeing then is one freeing. -/
theorem free_detached (ok : ListenersOk h.tables.entries) (err : PfErr)
    (hentry : c.tcb.entry = (h.tcbs i).entry) :
    (tcbFree (tcbDetachSock (h.store i c) i err) i).tables = h.tables.free i err := by
  have hdet := tcbDetachSock_tables (h.store i c) i err
  have hat : (h.store i c).tcbs i = c.tcb := Function.update_self _ _ _
  have htcbs : (tcbDetachSock (h.store i c) i err).tables.tcbs =
      Function.update h.tcbs i { c.tcb with sockIdx := none } := by
    rw [hdet, hat]
    exact Function.update_idem _ _ _
  have hsocks : (tcbDetachSock (h.store i c) i err).tables.socks = fun s =>
      if (h.tcbs i).sockIdx = some s then { h.socks s with tcb := none, err := err }
      else h.socks s := by
    rw [hdet, hat, Tcb.sockIdx_of_entry hentry]
    rfl
  have hok : ListenersOk (tcbDetachSock (h.store i c) i err).tables.entries := by
    have hset : (tcbDetachSock (h.store i c) i err).tables.entries =
        Function.update h.tables.entries i { (h.tcbs i).entry with sockIdx := none } := by
      have heq : (tcbDetachSock (h.store i c) i err).tables.entries =
          (h.tables.setTcb i { c.tcb with sockIdx := none }).entries := by
        unfold Tables.entries
        rw [htcbs]
        rfl
      rw [heq, Tables.entries_setTcb, ← hentry]
      rfl
    rw [hset]
    exact ok.update rfl rfl (Or.inr ⟨rfl, rfl⟩) (ok.queue i)
  rw [tcbFree_tables hok]
  generalize (tcbDetachSock (h.store i c) i err).tables = T at htcbs hsocks
  have hi : T.tcbs i = { c.tcb with sockIdx := none } := by
    rw [htcbs, Function.update_self]
  have hgoes (j : TcbIdx) : T.Goes i j ↔ h.tables.Goes i j := by
    have hlisten : (T.tcbs i).state = .listen ↔ (h.tcbs i).state = .listen := by
      have hset (t : Tcb) : ({ t with sockIdx := none } : Tcb).state = t.state := rfl
      rw [hi, hset]
      exact Tcb.listen_of_entry hentry
    by_cases hji : j = i
    · exact iff_of_true (Or.inl hji) (Or.inl hji)
    · have hj : T.tcbs j = h.tcbs j := by rw [htcbs, Function.update_of_ne hji]
      unfold Tables.Goes
      rw [hlisten, hj]
      rfl
  unfold Tables.free
  congr 1
  · funext j
    by_cases hg : T.Goes i j
    · rw [if_pos hg, if_pos ((hgoes j).mp hg)]
    · have hji : j ≠ i := fun heq => hg (Or.inl heq)
      rw [if_neg hg, if_neg (fun hg' => hg ((hgoes j).mpr hg')), htcbs, Function.update_of_ne hji]
      rfl
  · have hnone : (T.tcbs i).sockIdx = none := by rw [hi]
    simp only [hnone, reduceCtorEq, if_false]
    exact hsocks

theorem commit_alive (halive : c.fate = .alive) (hq : c.queued = false) :
    (h.commit i c).tables = h.tables.setTcb i c.tcb := by
  unfold Host.commit Host.enqueue
  simp only [hq, halive]
  rfl

theorem commit_queued {l : TcbIdx} (halive : c.fate = .alive) (hq : c.queued = true)
    (hl : c.tcb.listener = some l) :
    (h.commit i c).tables = (h.tables.setTcb i c.tcb).push l i := by
  unfold Host.commit Host.enqueue
  simp only [hq, hl, halive]
  rfl

theorem commit_freed {err : PfErr} (ok : ListenersOk h.tables.entries)
    (hentry : c.tcb.entry = (h.tcbs i).entry) (hfate : c.fate = .freed err)
    (hq : c.queued = false) :
    (h.commit i c).tables = h.tables.free i err := by
  have hrun : h.commit i c = tcbFree (tcbDetachSock (h.store i c) i err) i := by
    unfold Host.commit Host.enqueue
    simp only [hq, hfate]
  rw [hrun, free_detached ok err hentry]

end Commit

/-! ### Moves of the functions -/

theorem Moves.listenersOk {h : Host} {e : HostEvent} {T T' : Tables} (hmoves : Moves h e T T')
    (ok : ListenersOk T.entries) : ListenersOk T'.entries := by
  induction hmoves with
  | refl => exact ok
  | tail _ hmove ih => exact hmove.listenersOk ih

section Functions

variable {h k : Host}

theorem tcbLookup_tcbs (heq : k.tcbs = h.tcbs) (lip : UInt32) (lport : UInt16) (rip : UInt32)
    (rport : UInt16) : tcbLookup k lip lport rip rport = tcbLookup h lip lport rip rport := by
  have hloop (l : List TcbIdx) (o : Option TcbIdx) :
      tcbLookupLoop k lip lport rip rport l o = tcbLookupLoop h lip lport rip rport l o := by
    induction l generalizing o with
    | nil => rfl
    | cons i l ih =>
      unfold tcbLookupLoop
      simp only [heq, ih]
  exact hloop _ _

theorem sendResetFor_tables (h : Host) (g : Seg) : (h.sendResetFor g).tables = h.tables := by
  unfold Host.sendResetFor
  split <;> rfl

variable {now : Nat} {g : Seg} {i : TcbIdx}

theorem tcbAlloc_some (hi : tcbAlloc h = some i) : (h.tcbs i).active = false := by
  simpa using Slots.first_some hi

theorem run_segment_segMove (hk : k.tables = h.tables)
    (hstats : k.stats = (h.count .tcpRxSegs).stats) (ok : ListenersOk h.tables.entries)
    (hfind : tcbLookup h g.dst g.dport g.src g.sport = some i) (hst : (h.tcbs i).state ≠ .listen) :
    SegMove h now g (k.run i (tcpInputConn now (acceptRoom k i) g)).tables := by
  have htcbs : k.tcbs = h.tcbs := congrArg Tables.tcbs hk
  have hroom : acceptRoom k i = acceptRoom h i := by
    unfold acceptRoom
    rw [htcbs]
  have hrun : k.run i (tcpInputConn now (acceptRoom k i) g) =
      k.commit i (tcpInputConn now (acceptRoom h i) g (Conn.start (h.tcbs i) k.stats)) := by
    rw [Host.run, Host.conn, hroom, htcbs]
  have hentry := tcpInputConn_entry now (acceptRoom h i) g (Conn.start (h.tcbs i) k.stats)
  have hquiet : (Conn.start (h.tcbs i) k.stats).queued = false := rfl
  rw [hrun]
  obtain ⟨d, hd⟩ : ∃ d, d = tcpInputConn now (acceptRoom h i) g (Conn.start (h.tcbs i) k.stats) :=
    ⟨_, rfl⟩
  rw [← hd] at hentry ⊢
  cases hq : d.queued with
  | true =>
    have hq' := hq
    rw [hd] at hq'
    have hsome := tcpInputConn_queued hquiet hq'
    have halive : d.fate = .alive := by
      rw [hd]
      exact tcpInputConn_queued_alive hquiet rfl hq'
    obtain ⟨l, hl, hlt⟩ := Option.map_eq_some_iff.mp hsome
    have hroom' : (h.tcbs l).acceptq.length < (h.tcbs l).backlog.toNat := of_decide_eq_true hlt
    have hdl : d.tcb.listener = some l := (congrArg Entry.listener hentry).trans hl
    rw [commit_queued halive hq hdl, hk]
    rw [hsome] at hd
    exact .queue k.stats hfind hst hl hroom' hd halive hq
  | false =>
    cases hfate : d.fate with
    | alive =>
      rw [commit_alive hfate hq, hk]
      exact .segment k.stats hfind hst hd hfate hq hstats
    | freed err =>
      rw [commit_freed (hk ▸ ok) (htcbs ▸ hentry) hfate hq, hk]
      exact .segmentEnd k.stats err hfind hst hd hfate

theorem tcpInputListen_segMove (hk : k.tables = h.tables)
    (hfind : tcbLookup h g.dst g.dport g.src g.sport = some i) (hst : (h.tcbs i).state = .listen) :
    SegMove h now g (tcpInputListen now g i k).tables := by
  have htcbs : k.tcbs = h.tcbs := congrArg Tables.tcbs hk
  have hsame {T : Tables} (hT : T = k.tables) : SegMove h now g T := by
    rw [hT, hk]
    exact .same
  unfold tcpInputListen
  split
  · exact hsame rfl
  split
  · exact hsame (sendResetFor_tables k g)
  split
  · exact hsame rfl
  split
  · exact hsame rfl
  rename_i hroom
  split
  · exact hsame rfl
  · rename_i c hc
    rw [htcbs] at hroom
    have hidle := tcbAlloc_some hc
    rw [htcbs] at hidle
    have hmove : SegMove h now g (h.tables.setTcb c
        (tcpOpenPassiveConn now i (h.tcbs i).localPort (tcpGenIss now k) g k.stats).tcb) :=
      .passive (tcpGenIss now k) k.stats hfind hst (Nat.not_le.mp hroom) hidle
    have htabs : (({ k with issNext := tcpGenIss now k }).store c
        (tcpOpenPassiveConn now i (k.tcbs i).localPort (tcpGenIss now k) g k.stats)).tables =
        k.tables.setTcb c
          (tcpOpenPassiveConn now i (k.tcbs i).localPort (tcpGenIss now k) g k.stats).tcb := rfl
    simp only
    rw [htabs, hk, htcbs]
    exact hmove

/-- A segment makes at most one move. -/
theorem tcpInput_segMove (hk : k.tables = h.tables) (hstats : k.stats = h.stats)
    (ok : ListenersOk h.tables.entries) : SegMove h now g (tcpInput now g k).tables := by
  have htcbs : k.tcbs = h.tcbs := congrArg Tables.tcbs hk
  have hcount (x : Stat) : (k.count x).tables = h.tables := hk
  have hcounted : (k.count .tcpRxSegs).tcbs = h.tcbs := htcbs
  unfold tcpInput
  simp only
  rw [tcbLookup_tcbs hcounted]
  split
  · rw [sendResetFor_tables]
    exact hk ▸ .same
  · rename_i i hfind
    split
    · rename_i hst
      change (k.tcbs i).state = .listen at hst
      rw [htcbs] at hst
      exact tcpInputListen_segMove (hcount _) hfind hst
    · rename_i hst
      change ¬ (k.tcbs i).state = .listen at hst
      rw [htcbs] at hst
      have hcounted : (k.count .tcpRxSegs).stats = (h.count .tcpRxSegs).stats :=
        congrArg (fun st : Stats => st.inc .tcpRxSegs) hstats
      exact run_segment_segMove (hcount _) hcounted ok hfind hst

theorem run_tick_move (ok : ListenersOk k.tables.entries) (hact : (k.tcbs i).active = true) :
    TickMove now k.tables (k.run i (tcpTickConn now)).tables := by
  have hentry := tcpTickConn_entry now (k.conn i)
  have hq : (tcpTickConn now (k.conn i)).queued = false := tcpTickConn_queued rfl
  cases hfate : (tcpTickConn now (k.conn i)).fate with
  | alive =>
    rw [Host.run, commit_alive hfate hq]
    exact .tick k.stats hact rfl hfate
  | freed err =>
    rw [Host.run, commit_freed ok hentry hfate hq]
    exact .tickEnd k.stats err hact rfl hfate

/-- What every tick of a block keeps, the tick keeps. -/
theorem tcpTick_invariant {P : Tables → Prop} {now : Nat} (ok : ListenersOk k.tables.entries)
    (hstep : ∀ T T', ListenersOk T.entries → TickMove now T T' → P T → P T') (hk : P k.tables) :
    P (tcpTick now k).tables := by
  refine (Slots.each_invariant (P := fun s : Host => ListenersOk s.tables.entries ∧ P s.tables) ?_
    ⟨ok, hk⟩).2
  rintro s i ⟨hs, hp⟩
  split
  · rename_i hact
    have hmove : TickMove now s.tables _ := run_tick_move hs hact
    exact ⟨hmove.listenersOk hs, hstep _ _ hs hmove hp⟩
  · exact ⟨hs, hp⟩

theorem tcpTick_moves (hk : k.tables = h.tables) (ok : ListenersOk h.tables.entries) :
    Moves h (.tick now) h.tables (tcpTick now k).tables := by
  refine tcpTick_invariant (P := Moves h (.tick now) h.tables) (hk ▸ ok) ?_ ?_
  · exact fun T T' _ hmove hT => hT.tail (.tick hmove)
  · rw [hk]

end Functions

/-! ### Moves of the calls -/

section Calls

variable {h k : Host} {e : HostEvent}

variable {now : Nat} {sock : Int} {s : SockIdx} {expired : Bool} {i : TcbIdx}

theorem run_abort_tables (ok : ListenersOk k.tables.entries) :
    (k.run i tcpAppAbort).tables = k.tables.free i .none := by
  have habort := (Proceeds.refl 0 none (k.conn i)).appAbort
  exact commit_freed ok habort.entry rfl (habort.quiet rfl)

theorem run_use_move {v : ConnEvent} {f : Conn → Conn} (hf : ∀ c, f c = connHandle c v)
    (hv : v.isCall = true) (hsock : (k.socks s).tcb = some i) :
    Move h e k.tables (k.run i f).tables := by
  have hlive : (connHandle (k.conn i) v).fate = .alive := by
    by_contra hend
    have hends : Ends v (k.conn i) (connHandle (k.conn i) v) := connHandle_ends hend
    generalize connHandle (k.conn i) v = d at hends
    cases hends <;> cases hv
  have hquiet := (isCall_proceeds hv (k.conn i)).quiet rfl
  rw [Host.run, hf, commit_alive hlive hquiet]
  exact .use k.stats hsock hv rfl

theorem acceptTake_move {l child : TcbIdx} {rest : List TcbIdx}
    (ok : ListenersOk k.tables.entries) (hq : (k.tcbs l).acceptq = child :: rest) :
    Move h e k.tables (acceptTake l child rest k).1.tables := by
  have hpop : (k.setTcb l { k.tcbs l with acceptq := rest }).tables = k.tables.pop l rest := rfl
  unfold acceptTake
  simp only
  generalize hk : k.setTcb l { k.tcbs l with acceptq := rest } = k1 at hpop
  have hsocks : k1.socks = k.socks := by
    rw [← hk]
    rfl
  unfold pfSocket
  cases hs : Slots.first fun s => decide ((k1.socks s).type = .none) with
  | none =>
    have hok : ListenersOk k1.tables.entries := hpop ▸ ok.pop hq
    simp only
    rw [run_abort_tables hok, hpop]
    exact .acceptDrop hq
  | some s =>
    have hfree : (k1.socks s).type = .none := of_decide_eq_true (Slots.first_some hs)
    rw [hsocks] at hfree
    have hattach (y z : PfSock) (t : Tcb) : (((k1.setSock s y).setSock s z).setTcb child t).tables =
        (k1.tables.setSock s z).setTcb child t := by
      have hidem :
          Function.update (Function.update k1.socks s y) s z = Function.update k1.socks s z :=
        Function.update_idem _ _ _
      unfold Host.tables Host.setSock Host.setTcb Tables.setSock Tables.setTcb
      simp only [hidem]
    simp only
    rw [hattach, hpop]
    have htcb : (k1.setSock s { PfSock.zero with type := .tcp }).tcbs child =
        (k.tables.pop l rest).tcbs child := by
      rw [← hpop]
      rfl
    rw [htcb]
    exact .accept hq hfree rfl

theorem acceptPoll_moves {l : TcbIdx} {expired : Bool} (ok : ListenersOk k.tables.entries) :
    Moves h e k.tables (acceptPoll s l expired k).1.tables := by
  unfold acceptPoll
  split
  · rename_i child rest hq
    exact .single (acceptTake_move ok hq)
  · split
    · exact .refl
    · split <;> exact .refl

theorem connectPoll_moves (ok : ListenersOk k.tables.entries) :
    Moves h e k.tables (connectPoll s expired k).1.tables := by
  unfold connectPoll
  split
  · exact .refl
  rename_i i hi
  split
  · exact .refl
  split
  · have habort : Move h e k.tables (k.run i tcpAppAbort).tables := by
      rw [run_abort_tables ok]
      exact .abort hi
    have hsock : Move h e (k.run i tcpAppAbort).tables
        ((k.run i tcpAppAbort).tables.setSock s
          { (k.run i tcpAppAbort).socks s with tcb := none }) :=
      .sock (Or.inl rfl)
    exact (Relation.ReflTransGen.single habort).tail hsock
  · exact .refl

theorem connectPoll_false (s : SockIdx) (k : Host) : (connectPoll s false k).1 = k := by
  unfold connectPoll
  split
  · rfl
  · split <;> rfl

theorem sendPoll_moves {rest : List UInt8} {len : Nat} {expired : Bool} :
    Moves h e k.tables (sendPoll now s rest len expired k).1.tables := by
  unfold sendPoll
  split
  · exact .refl
  split
  · exact .refl
  rename_i i hi
  simp only
  split
  · exact .refl
  split
  · split <;> exact .refl
  · have huse : Move h e k.tables (k.run i (pfSendCopy now rest)).tables :=
      run_use_move (v := .send now rest) (fun _ => rfl) rfl hi
    split <;> exact .single huse

theorem recvPoll_moves {cap : Nat} {expired : Bool} :
    Moves h e k.tables (recvPoll s cap expired k).1.tables := by
  unfold recvPoll
  split
  · exact .refl
  rename_i i hi
  simp only
  split
  · exact .single (run_use_move (v := .recv cap) (fun _ => rfl) rfl hi)
  split
  · exact .refl
  · split <;> exact .refl

theorem hostResume_moves {p : Pending} (ok : ListenersOk k.tables.entries) :
    Moves h e k.tables (hostResume now expired k p).1.tables := by
  cases p with
  | accept s l => exact acceptPoll_moves ok
  | connect s => exact connectPoll_moves ok
  | send s rest len => exact sendPoll_moves
  | recv s cap => exact recvPoll_moves

/-- `pf_close` on the two tables: socket and block let go of each other, then the block
is closed. -/
theorem closeTcb_commit (now : Nat) (s : SockIdx) (i : TcbIdx) (k : Host) :
    ∃ k1 : Host, k1.tables = k.tables.letGo s i ∧
      closeTcb now s i k =
        k1.commit i (tcpAppClose now (Conn.start ((k.tables.letGo s i).tcbs i) k.stats)) :=
  ⟨(k.setSock s { k.socks s with tcb := none }).setTcb i
    { (k.setSock s { k.socks s with tcb := none }).tcbs i with sockIdx := none }, rfl, rfl⟩

/-- Closing the socket of a block that outlives it. -/
theorem closeTcb_alive {d : Conn}
    (hd : d = tcpAppClose now (Conn.start ((k.tables.letGo s i).tcbs i) k.stats))
    (halive : d.fate = .alive) :
    (closeTcb now s i k).tables = (k.tables.letGo s i).setTcb i d.tcb := by
  obtain ⟨k1, hlet, hrun⟩ := closeTcb_commit now s i k
  have hquiet : d.queued = false := by
    rw [hd]
    exact tcpAppClose_queued rfl
  rw [hrun, ← hd, commit_alive halive hquiet, hlet]

/-- Closing frees a listener, and a connection that has not heard from its peer. -/
theorem tcpAppClose_freed {t : Tcb} {st : Stats} {err : PfErr}
    (hfate : (tcpAppClose now (Conn.start t st)).fate = .freed err) :
    err = .none ∧ (t.state = .listen ∨ t.state = .synSent) := by
  have hfate' : (connHandle (Conn.start t st) (.close now)).fate = .freed err := hfate
  have hend : (connHandle (Conn.start t st) (.close now)).fate ≠ .alive := by
    rw [hfate']
    exact Fate.noConfusion
  have hends := connHandle_ends hend
  generalize connHandle (Conn.start t st) (.close now) = d at hends hfate'
  cases hends with
  | closed _ hst =>
    cases hfate'
    exact ⟨rfl, hst⟩

theorem closeTcb_move (ok : ListenersOk k.tables.entries) (hget : pfSockGet k sock = some s)
    (hsock : (k.socks s).tcb = some i) :
    Move k (.call now (.close sock)) k.tables (closeTcb now s i k).tables := by
  cases hfate : (tcpAppClose now (Conn.start ((k.tables.letGo s i).tcbs i) k.stats)).fate with
  | alive =>
    rw [closeTcb_alive rfl hfate]
    exact .close hget hsock rfl hfate
  | freed err =>
    obtain ⟨rfl, hst⟩ := tcpAppClose_freed hfate
    obtain ⟨k1, hlet, hrun⟩ := closeTcb_commit now s i k
    have hok : ListenersOk k1.tables.entries := hlet ▸ ok.letGo s i
    have hat : k1.tcbs i = (k.tables.letGo s i).tcbs i := congrFun (congrArg Tables.tcbs hlet) i
    have hentry : (tcpAppClose now (Conn.start ((k.tables.letGo s i).tcbs i) k.stats)).tcb.entry =
        (k1.tcbs i).entry := by
      rw [hat]
      exact tcpAppClose_entry now _
    rw [hrun, commit_freed hok hentry hfate (tcpAppClose_queued rfl), hlet]
    refine .closeEnd hget hsock ?_
    have hstate (f : TcbIdx → Tcb) (t : Tcb) : (Function.update f i t i).state = t.state := by
      rw [Function.update_self]
    change (Function.update k.tcbs i { k.tcbs i with sockIdx := none } i).state = .listen ∨
      (Function.update k.tcbs i { k.tcbs i with sockIdx := none } i).state = .synSent at hst
    rw [hstate] at hst
    exact hst

theorem pfClose_moves (ok : ListenersOk k.tables.entries) :
    Moves k (.call now (.close sock)) k.tables (pfClose now sock k).1.tables := by
  unfold pfClose
  split
  · exact .refl
  rename_i s hs
  simp only
  have hclear (k1 : Host) :
      Move k (.call now (.close sock)) k1.tables (k1.setSock s PfSock.zero).tables :=
    .sock (Or.inl rfl)
  split
  · exact .single (hclear k)
  · rename_i i hi
    exact (Relation.ReflTransGen.single (closeTcb_move ok hs hi)).tail (hclear _)

theorem pfBind_moves {ip : UInt32} {port : UInt16} :
    Moves h e k.tables (pfBind sock ip port k).1.tables := by
  unfold pfBind
  split
  · exact .refl
  split
  · exact .refl
  split
  · exact .refl
  · exact .single (.sock (Or.inr rfl))

theorem pfAccept_moves (ok : ListenersOk k.tables.entries) :
    Moves h e k.tables (pfAccept sock k).1.tables := by
  unfold pfAccept
  split
  · exact .refl
  split
  · exact .refl
  split
  · exact acceptPoll_moves ok
  · exact .refl

theorem pfListen_moves {backlog : UInt16} :
    Moves k (.call now (.listen sock backlog)) k.tables (pfListen sock backlog k).1.tables := by
  unfold pfListen
  split
  · exact .refl
  rename_i s hs
  split
  · exact .refl
  rename_i hguard
  have hsock : listenSock k sock = some s := by
    unfold listenSock
    rw [hs, Option.filter_some, if_pos]
    simpa [not_or] using hguard
  unfold tcpOpenListen
  cases hi : tcbAlloc k with
  | none => exact .refl
  | some i =>
    exact .single (.listen hsock (tcbAlloc_some hi))

theorem pfConnect_moves {dstIp : UInt32} {dstPort : UInt16} {route : Option UInt32} :
    Moves k (.call now (.connect sock dstIp dstPort route)) k.tables
      (pfConnect now sock dstIp dstPort route k).1.tables := by
  have hport (s : SockIdx) : (connectPort s k).1.tables = k.tables := by
    unfold connectPort
    split <;> rfl
  unfold pfConnect
  split
  · exact .refl
  rename_i s hs
  split
  · exact .refl
  rename_i hguard
  split
  · exact .refl
  rename_i lip hlip
  simp only
  split
  · rw [hport]
  rename_i hp
  have hsource : connectSource k sock dstPort route = some (s, lip, (connectPort s k).2) := by
    unfold connectSource
    rw [hs]
    simp only
    rw [if_neg hguard, hlip]
    simp only
    rw [if_neg hp]
  have hk1 := hport s
  generalize (connectPort s k).1 = k1 at hk1
  generalize (connectPort s k).2 = lport at hsource hp
  unfold connectFrom tcpOpenActive
  simp only
  cases hi : tcbAlloc (k1.setSock s
      { k1.socks s with localPort := lport, localIp := lip, err := .none }) with
  | none =>
    rw [← hk1]
    exact .single (.sock (Or.inr rfl))
  | some i =>
    have hidle : (k.tcbs i).active = false := by
      have halloc := tcbAlloc_some hi
      have htcbs : k1.tcbs = k.tcbs := congrArg Tables.tcbs hk1
      rw [← htcbs]
      exact halloc
    have hopen (y z : PfSock) (c : Conn) (n : UInt32) :
        ((({ k1.setSock s y with issNext := n } : Host).store i c).setSock s z).tables =
          (k.tables.setTcb i c.tcb).setSock s z := by
      have hidem :
          Function.update (Function.update k1.socks s y) s z = Function.update k1.socks s z :=
        Function.update_idem _ _ _
      rw [← hk1]
      unfold Host.tables Host.setSock Host.store Host.setTcb Tables.setSock Tables.setTcb
      simp only [hidem]
    simp only
    rw [connectPoll_false, hopen]
    exact .single (.connect _ _ hsource hidle rfl)

theorem hostCall_moves {call : Call} (ok : ListenersOk k.tables.entries) :
    Moves k (.call now call) k.tables (hostCall now k call).1.tables := by
  have hsocket (type : PfSockType) :
      Moves k (.call now call) k.tables (pfSocket type k).1.tables := by
    unfold pfSocket
    split
    · exact .refl
    · exact .single (.sock (Or.inl rfl))
  cases call with
  | socket type =>
    cases type with
    | none => exact .refl
    | udp => exact hsocket .udp
    | tcp => exact hsocket .tcp
  | bind sock ip port => exact pfBind_moves
  | listen sock backlog => exact pfListen_moves
  | accept sock => exact pfAccept_moves ok
  | connect sock dstIp dstPort route => exact pfConnect_moves
  | send sock data =>
    change Moves k _ k.tables (pfSend now sock data k).1.tables
    unfold pfSend
    split
    · exact .refl
    · exact sendPoll_moves
  | recv sock cap =>
    change Moves k _ k.tables (pfRecv sock cap k).1.tables
    unfold pfRecv
    split
    · exact .refl
    · exact recvPoll_moves
  | close sock => exact pfClose_moves ok
  | nodelay sock on =>
    change Moves k _ k.tables (pfSockSetNodelay sock on k).1.tables
    unfold pfSockSetNodelay
    split
    · exact .refl
    split
    · exact .refl
    · rename_i i hi
      exact .single (.use (v := .nodelay on) k.stats hi rfl rfl)

end Calls

/-! ### Steps -/

theorem connectSource_out (h : Host) (out : List Seg) (sock : Int) (port : UInt16)
    (route : Option UInt32) :
    connectSource { h with out := out } sock port route = connectSource h sock port route := by
  have hloop (n : Nat) (p : UInt16) :
      ephemeralLoop { h with out := out } n p = ephemeralLoop h n p := by
    induction n generalizing p with
    | zero => rfl
    | succ n ih =>
      unfold ephemeralLoop
      simp only [ih]
      rfl
  have hport (s : SockIdx) : (connectPort s { h with out := out }).2 = (connectPort s h).2 := by
    have hnext : (pfSockEphemeralPort { h with out := out }).2 = (pfSockEphemeralPort h).2 :=
      congrArg Prod.fst (hloop 16384 h.ephemeralNext)
    simp only [connectPort]
    by_cases hz : (h.socks s).localPort = 0
    · rw [if_pos hz, if_pos hz]
      exact hnext
    · rw [if_neg hz, if_neg hz]
  unfold connectSource
  simp only [hport]
  rfl

/-- A move does not depend on the segments of earlier steps. -/
theorem Move.of_out {h : Host} {out : List Seg} {e : HostEvent} {T T' : Tables}
    (hmove : Move { h with out := out } e T T') : Move h e T T' := by
  have hlookup (lip rip : UInt32) (lport rport : UInt16) :
      tcbLookup { h with out := out } lip lport rip rport = tcbLookup h lip lport rip rport :=
    tcbLookup_tcbs (h := h) (k := { h with out := out }) rfl lip lport rip rport
  cases hmove with
  | segment hT =>
    refine .segment ?_
    cases hT with
    | same => exact .same
    | segment st hfind hst hd halive hq hstats =>
      exact .segment st (hlookup _ _ _ _ ▸ hfind) hst hd halive hq hstats
    | queue st hfind hst hl hroom hd halive hq =>
      exact .queue st (hlookup _ _ _ _ ▸ hfind) hst hl hroom hd halive hq
    | segmentEnd st err hfind hst hd hfate =>
      exact .segmentEnd st err (hlookup _ _ _ _ ▸ hfind) hst hd hfate
    | passive iss st hfind hst hroom hidle =>
      exact .passive iss st (hlookup _ _ _ _ ▸ hfind) hst hroom hidle
  | tick hT => exact .tick hT
  | listen hsock hidle => exact .listen hsock hidle
  | connect iss st hsource hidle hx =>
    exact .connect iss st (connectSource_out h out _ _ _ ▸ hsource) hidle hx
  | use st hsock hv hd => exact .use st hsock hv hd
  | abort hsock => exact .abort hsock
  | close hget hsock hd halive => exact .close hget hsock hd halive
  | closeEnd hget hsock hst => exact .closeEnd hget hsock hst
  | accept hq hfree hx => exact .accept hq hfree hx
  | acceptDrop hq => exact .acceptDrop hq
  | sock hx => exact .sock hx

/-- Every step of the host is a sequence of moves. -/
theorem hostStep_moves {h : Host} (ok : ListenersOk h.tables.entries) (e : HostEvent) :
    Moves h e h.tables (hostStep h e).tables := by
  have hk : Moves { h with out := [] } e h.tables (hostStep h e).tables := by
    unfold hostStep
    simp only
    split
    · exact .single (.segment (tcpInput_segMove (h := { h with out := [] }) rfl rfl ok))
    · exact tcpTick_moves rfl ok
    · exact hostCall_moves (k := { h with out := [] }) ok
    · exact .refl
    · exact hostResume_moves (k := { h with out := [] }) ok
    · exact .refl
  exact Relation.ReflTransGen.mono (fun _ _ => Move.of_out) _ _ hk

end PacketForge
