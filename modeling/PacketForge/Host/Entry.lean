import PacketForge.Tcp.Frame

/-!
What the rest of the stack sees of a connection that is being processed. The
table knows whether the block is in use or listening, its addresses, its socket,
its listener and its accept queue, and the functions that process one connection
touch none of this. What they hand to IP goes to the peer, or to the source of
the segment they answer with a reset; they move no counter of received packets,
since `tcp_input` has counted the segment before it looks at any connection; and
only the end of a handshake asks for the accept queue.
-/

namespace PacketForge

structure Entry where
  active : Bool
  listening : Bool
  sockIdx : Option (Fin pfSockMax)
  localIp : UInt32
  remoteIp : UInt32
  localPort : UInt16
  remotePort : UInt16
  backlog : UInt16
  acceptq : List (Fin tcpMaxConns)
  listener : Option (Fin tcpMaxConns)

def Tcb.entry (t : Tcb) : Entry where
  active := t.active
  listening := t.state = .listen
  sockIdx := t.sockIdx
  localIp := t.localIp
  remoteIp := t.remoteIp
  localPort := t.localPort
  remotePort := t.remotePort
  backlog := t.backlog
  acceptq := t.acceptq
  listener := t.listener

theorem Tcb.entry_listening (t : Tcb) : t.entry.listening = true ↔ t.state = .listen := by
  simp [Tcb.entry]

theorem Tcb.sockIdx_of_entry {t t' : Tcb} (h : t'.entry = t.entry) : t'.sockIdx = t.sockIdx :=
  congrArg Entry.sockIdx h

theorem Tcb.listen_of_entry {t t' : Tcb} (h : t'.entry = t.entry) :
    t'.state = .listen ↔ t.state = .listen := by
  rw [← t'.entry_listening, h, t.entry_listening]

/-- Moving between two states that are not LISTEN. -/
theorem Tcb.entry_setState (t : Tcb) (st : TcpState) (hold : t.state ≠ .listen)
    (hnew : st ≠ .listen) : { t with state := st }.entry = t.entry := by
  simp [Tcb.entry, hold, hnew]

/-- The sequence numbers and the acknowledgements we owe are not in the entry. -/
theorem Tcb.entry_free (t : Tcb) (nxt : UInt32) (fin : Bool) (pend : UInt8) :
    { t with sndNxt := nxt, finSent := fin, delackPending := pend }.entry = t.entry := rfl

/-- From `c` to `d` a connection is processed, on a segment from `src` if on any, with
`room` in the accept queue. -/
structure Proceeds (src : UInt32) (room : Option Bool) (c d : Conn) : Prop where
  entry : d.tcb.entry = c.tcb.entry
  out : ∀ g ∈ d.out, g ∈ c.out ∨ g.dst = c.tcb.remoteIp ∨ g.dst = src
  counts : c.stats.Same d.stats
  queued : d.queued = true → c.queued = true ∨ room = some true

namespace Proceeds

theorem refl (src : UInt32) (room : Option Bool) (c : Conn) : Proceeds src room c c :=
  ⟨rfl, fun _ hg => Or.inl hg, Stats.Same.refl _, Or.inl⟩

/-- Without room nobody asks for the queue. -/
theorem quiet {src : UInt32} {c d : Conn} (h : Proceeds src none c d) (hc : c.queued = false) :
    d.queued = false := by
  rw [Bool.eq_false_iff]
  intro hd
  rcases h.queued hd with hold | hroom
  · rw [hc] at hold
    cases hold
  · cases hroom

variable {src : UInt32} {room : Option Bool} {c d : Conn} (h : Proceeds src room c d)

include h

/-! ### Elementary changes -/

theorem count {x : Stat} (hx : x.received = false) : Proceeds src room c (d.count x) :=
  ⟨h.entry, h.out, h.counts.inc hx, h.queued⟩

theorem countBy {x : Stat} (hx : x.received = false) (n : UInt64) :
    Proceeds src room c (d.countBy x n) := ⟨h.entry, h.out, h.counts.add hx n, h.queued⟩

theorem emit {g : Seg} (hg : g.dst = c.tcb.remoteIp ∨ g.dst = src) :
    Proceeds src room c (d.emit g) := by
  refine ⟨h.entry, fun g' hmem => ?_, h.counts, h.queued⟩
  rcases List.mem_append.mp hmem with hold | hnew
  · exact h.out g' hold
  · rw [List.mem_singleton.mp hnew]
    exact Or.inr hg

/-- Everything of the block but its entry is free. -/
theorem setTcb (t : Tcb) (ht : t.entry = d.tcb.entry) : Proceeds src room c { d with tcb := t } :=
  ⟨ht.trans h.entry, h.out, h.counts, h.queued⟩

theorem free (err : PfErr) : Proceeds src room c (d.free err) :=
  ⟨h.entry, h.out, h.counts, h.queued⟩

theorem remote : d.tcb.remoteIp = c.tcb.remoteIp := congrArg Entry.remoteIp h.entry

theorem not_listen (hst : c.tcb.state ≠ .listen) : d.tcb.state ≠ .listen := by
  rw [Ne, Tcb.listen_of_entry h.entry]
  exact hst

/-! ### The send engine -/

theorem sendSegment (flags : UInt8) (seq off : UInt32) (n : UInt16) :
    Proceeds src room c (tcpSendSegment d flags seq off n) := by
  have hack : Proceeds src room c { d with tcb := ackSent flags d.tcb } :=
    h.setTcb _ (by unfold ackSent; split <;> simp only [Tcb.entry])
  exact ((hack.count rfl).countBy rfl _).emit (Or.inl h.remote)

theorem sendCtl (flags : UInt8) : Proceeds src room c (tcpSendCtl d flags) := by
  unfold tcpSendCtl
  refine sendSegment ?_ _ _ _ _
  split
  · exact h.count rfl
  · exact h

theorem sendResetFor {g : Seg} (hg : g.src = src) : Proceeds src room c (tcpSendResetFor d g) := by
  unfold tcpSendResetFor tcpResetFor
  split
  · exact h
  · rename_i r hr
    split at hr
    · cases hr
    · cases hr
      exact (h.count rfl).emit (Or.inr hg)

theorem armRto (now : Nat) : Proceeds src room c { d with tcb := tcpArmRto d.tcb now } := by
  refine h.setTcb _ ?_
  unfold tcpArmRto
  split <;> rfl

theorem sendProbe : Proceeds src room c (tcpSendProbe d) := by
  have hsent := h.sendSegment tcpAck d.tcb.sndNxt (d.tcb.sndNxt - d.tcb.sndUna) 1
  unfold tcpSendProbe
  simp only
  generalize tcpSendSegment d tcpAck d.tcb.sndNxt (d.tcb.sndNxt - d.tcb.sndUna) 1 = x at hsent
  exact hsent.setTcb _ (x.tcb.entry_free _ _ _)

theorem outputChunk (now : Nat) (chunk : UInt16) :
    Proceeds src room c (tcpOutputChunk now d chunk) := by
  have hsent := h.sendSegment (dataFlags (chunk.toUInt32 == d.tcb.sndLen - tcpDataInFlight d.tcb))
    d.tcb.sndNxt (tcpDataInFlight d.tcb) chunk
  have hstart (t : Tcb) : (rttStart t now).entry = t.entry := by
    unfold rttStart
    split <;> rfl
  unfold tcpOutputChunk
  simp only
  generalize tcpSendSegment d _ _ _ chunk = x at hsent
  exact (hsent.setTcb _ (hstart { x.tcb with sndNxt := x.tcb.sndNxt + chunk.toUInt32 })).armRto now

theorem outputLoop (now : Nat) (wnd : UInt32) (fuel : Nat) :
    Proceeds src room c (tcpOutputLoop now wnd fuel d) := by
  induction fuel generalizing d with
  | zero => exact h
  | succ fuel ih =>
    unfold tcpOutputLoop
    split
    · exact h
    · exact ih (h.outputChunk now _)

theorem sendFin (now : Nat) : Proceeds src room c (tcpSendFin now d) := by
  have hsent := h.sendSegment (tcpFin ||| tcpAck) d.tcb.sndNxt 0 0
  unfold tcpSendFin
  generalize tcpSendSegment d (tcpFin ||| tcpAck) d.tcb.sndNxt 0 0 = x at hsent
  exact (hsent.setTcb _ (x.tcb.entry_free (x.tcb.sndNxt + 1) true _)).armRto now

theorem output (now : Nat) : Proceeds src room c (tcpOutput now d) := by
  unfold tcpOutput
  split
  · have hloop := h.outputLoop now (pfMin d.tcb.sndWnd d.tcb.cwnd)
      (pfMin d.tcb.sndWnd d.tcb.cwnd).toNat
    unfold tcpOutputFin
    simp only
    split
    · exact hloop.sendFin now
    · exact hloop
  · exact h

theorem retransmit : Proceeds src room c (tcpRetransmit d) := by
  have hkarn : Proceeds src room c
      { d.count .tcpRtxSegs with tcb := { (d.count .tcpRtxSegs).tcb with rttTiming := false } } :=
    (h.count rfl).setTcb _ rfl
  unfold tcpRetransmit tcpResend
  simp only
  split
  · exact hkarn.sendCtl _
  split
  · exact hkarn.sendCtl _
  split
  · exact hkarn.sendSegment _ _ _ _
  split
  · exact hkarn.sendSegment _ _ _ _
  · exact hkarn

/-! ### Segments -/

theorem takeMss (g : Seg) : Proceeds src room c (tcpTakeMss d g) := by
  unfold tcpTakeMss
  simp only
  split
  · exact (h.count rfl).setTcb _ rfl
  · exact h.setTcb _ rfl

theorem append (data : List UInt8) : Proceeds src room c (rcvAppend d data) := by
  have hset (buf : Nat → UInt8) (len nxt : UInt32) (n : UInt64) : Proceeds src room c
      ({ d with tcb := { d.tcb with rcvbuf := buf, rcvLen := len, rcvNxt := nxt } }.countBy
        .tcpRxBytes n) := ⟨h.entry, h.out, h.counts.add rfl n, h.queued⟩
  have hcap : tcpRcvbuf = 65535 := rfl
  simp only [rcvAppend, rcvRingPut, hcap]
  exact hset _ _ _ _

theorem drain (qs : List OooPkt) : Proceeds src room c (oooDrainLoop qs d) := by
  have hset {x : Conn} (hx : Proceeds src room c x) (rest : List OooPkt) :
      Proceeds src room c { x with tcb := { x.tcb with ooo := rest } } := hx.setTcb _ rfl
  induction qs generalizing d with
  | nil => exact hset h []
  | cons q qs ih =>
    unfold oooDrainLoop
    simp only
    split
    · exact hset h _
    split
    · exact ih h
    split
    · exact hset (h.append _) qs
    · exact ih (h.append _)

theorem oooInsert (seq : UInt32) (data : List UInt8) :
    Proceeds src room c (tcpOooInsert d seq data) := by
  unfold tcpOooInsert
  split
  · exact h.count rfl
  split
  · exact h.count rfl
  · exact ⟨h.entry, h.out, h.counts.inc rfl, h.queued⟩

theorem delayAck (now : Nat) : Proceeds src room c (tcpDelayAck d now) := by
  have hpend : Proceeds src room c
      { d with tcb := { d.tcb with delackPending := d.tcb.delackPending + 1 } } :=
    h.setTcb _ (d.tcb.entry_free _ _ _)
  unfold tcpDelayAck
  simp only
  split
  · exact hpend.sendCtl _
  split
  · exact hpend.setTcb _ rfl
  · exact hpend

theorem rxTrimmed (seq : UInt32) (data : List UInt8) (now : Nat) :
    Proceeds src room c (tcpRxTrimmed d seq data now) := by
  unfold tcpRxTrimmed
  split
  · exact h
  unfold tcpRxInWindow
  split
  · exact h
  split
  · exact ((h.append _).drain _).delayAck now
  · exact (h.oooInsert _ _).sendCtl _

theorem inputText (now : Nat) (g : Seg) : Proceeds src room c (tcpInputText now g d) := by
  unfold tcpInputText
  split
  · split
    · unfold tcpRxPayload
      split
      · simp only
        split
        · exact h.sendCtl _
        · exact h.rxTrimmed _ _ now
      · exact h.rxTrimmed _ _ now
    · exact h.count rfl
  · exact h

theorem establish (g : Seg) (hst : d.tcb.state ≠ .listen) :
    Proceeds src room c (tcpEstablish d g) :=
  (h.count rfl).setTcb _ (d.tcb.entry_setState .established hst (by simp))

theorem appAbort : Proceeds src room c (tcpAppAbort d) := by
  unfold tcpAppAbort
  refine free ?_ _
  split
  · exact h.sendCtl _
  · exact h

theorem synSentSyn (now : Nat) (g : Seg) (hst : c.tcb.state ≠ .listen) :
    Proceeds src room c (tcpSynSentSyn now g d) := by
  have hsyn : Proceeds src room c (tcpTakeSyn g d) :=
    (h.setTcb { d.tcb with irs := g.seq, rcvNxt := g.seq + 1 } rfl).takeMss g
  unfold tcpSynSentSyn
  simp only
  generalize tcpTakeSyn g d = x at hsyn
  have huna : Proceeds src room c (if g.has tcpAck then x.setUna g.ack else x) := by
    split
    · exact hsyn.setTcb _ rfl
    · exact hsyn
  generalize (if g.has tcpAck then x.setUna g.ack else x) = y at huna
  split
  · exact (huna.establish g (huna.not_listen hst)).sendCtl _
  · have hopen : Proceeds src room c (y.setState .synRcvd) :=
      huna.setTcb _ (y.tcb.entry_setState .synRcvd (huna.not_listen hst) (by simp))
    exact (hopen.sendCtl _).armRto now

theorem inputSynSent (now : Nat) {g : Seg} (hg : g.src = src) (hst : c.tcb.state ≠ .listen) :
    Proceeds src room c (tcpInputSynSent now g d) := by
  unfold tcpInputSynSent
  split
  · split
    · exact h
    · exact h.sendResetFor hg
  split
  · split
    · exact ((h.count rfl).count rfl).free _
    · exact h.count rfl
  split
  · exact h.synSentSyn now g hst
  · exact h

theorem inputRst (g : Seg) : Proceeds src room c (tcpInputRst g d) := by
  have hrst : Proceeds src room c (d.count .tcpRstRx) := h.count rfl
  unfold tcpInputRst
  simp only
  split
  · split
    · exact hrst.free _
    · exact (hrst.count rfl).free _
  · exact (hrst.count rfl).sendCtl _

theorem ackNew (now : Nat) (ack : UInt32) : Proceeds src room c (ackNew now ack d) := by
  have hring : Proceeds src room c { d with tcb := ackRing d.tcb ack } := h.setTcb _ rfl
  have hrtt : Proceeds src room c (ackRtt now ack { d with tcb := ackRing d.tcb ack }) := by
    unfold ackRtt
    split
    · exact ⟨hring.entry, hring.out, hring.counts.inc rfl, hring.queued⟩
    · exact hring
  unfold PacketForge.ackNew
  refine hrtt.setTcb _ ?_
  unfold ackRto ackCwnd
  split
  · rfl
  split <;> rfl

theorem finAcked (now : Nat) (fin : Bool) : Proceeds src room c (tcpFinAcked now fin d) := by
  unfold tcpFinAcked
  split
  · rename_i hfin
    simp only [Bool.and_eq_true, decide_eq_true_eq] at hfin
    exact h.setTcb _ (d.tcb.entry_setState .finWait2 (by simp [hfin.2]) (by simp))
  split
  · rename_i hfin
    simp only [Bool.and_eq_true, decide_eq_true_eq] at hfin
    exact h.setTcb _ (d.tcb.entry_setState .timeWait (by simp [hfin.2]) (by simp))
  · exact h

theorem inputDupAck (now : Nat) : Proceeds src room c (tcpInputDupAck now d) := by
  have hdup : Proceeds src room c ((d.count .tcpDupacksRx).setDupacks (d.tcb.dupacks + 1)) :=
    (h.count rfl).setTcb _ rfl
  unfold tcpInputDupAck tcpDupAckCounted
  generalize (d.count .tcpDupacksRx).setDupacks (d.tcb.dupacks + 1) = x at hdup
  split
  · have hthresh (n : UInt32) : Proceeds src room c (x.setSsthresh n) := hdup.setTcb _ rfl
    have hfast (n : UInt32) : Proceeds src room c
        ((tcpRetransmit (x.setSsthresh n)).count .tcpFastRtx) := (hthresh n).retransmit.count rfl
    unfold tcpFastRetransmit
    generalize (tcpRetransmit (x.setSsthresh _)).count .tcpFastRtx = y at hfast
    exact (hfast _).setTcb _ rfl
  split
  · have hcwnd (n : UInt32) : Proceeds src room c (x.setCwnd n) := hdup.setTcb _ rfl
    exact (hcwnd _).output now
  · exact hdup

theorem inputAck (now : Nat) (g : Seg) : Proceeds src room c (tcpInputAck now g d) := by
  unfold tcpInputAck
  split
  · unfold tcpInputNewAck
    simp only
    split
    · exact (h.ackNew now _).free _
    · exact ((h.ackNew now _).finAcked now _).output now
  split
  · exact h.inputDupAck now
  · exact h

theorem inputWnd (now : Nat) (g : Seg) : Proceeds src room c (tcpInputWnd now g d) := by
  have htake : Proceeds src room c (takeWnd g d) := h.setTcb _ rfl
  unfold tcpInputWnd
  split
  · split
    · split
      · exact htake.output now
      · exact htake
    · exact h
  · exact h

theorem inputFin (now : Nat) (g : Seg) : Proceeds src room c (tcpInputFin now g d) := by
  have hstate (t : Tcb) : (tcpFinState now t).entry = t.entry := by
    unfold tcpFinState
    split <;> rename_i hst
    · exact t.entry_setState .closeWait (by simp [hst]) (by simp)
    · exact t.entry_setState .closing (by simp [hst]) (by simp)
    · exact t.entry_setState .timeWait (by simp [hst]) (by simp)
    · rfl
    · rfl
  unfold tcpInputFin
  split
  · have hfin : Proceeds src room c (consumeFin (g.seq + g.paylen) d) := h.setTcb _ rfl
    exact (hfin.sendCtl tcpAck).setTcb _ (hstate _)
  · exact h

theorem inputSynced (now : Nat) (g : Seg) : Proceeds src room c (tcpInputSynced now g d) := by
  have hsend : Proceeds src room c (tcpInputSend now g d) := by
    unfold tcpInputSend
    simp only
    split
    · exact (h.inputAck now g).inputWnd now g
    · exact h.inputAck now g
  unfold tcpInputSynced
  split
  · exact (h.count rfl).sendCtl _
  simp only
  split
  · exact (hsend.inputText now g).inputFin now g
  · exact hsend

theorem inputSynRcvd (now : Nat) {g : Seg} (hg : g.src = src) (hst : d.tcb.state ≠ .listen) :
    Proceeds src room c (tcpInputSynRcvd now room g d) := by
  unfold tcpInputSynRcvd
  split
  · have huna : Proceeds src room c (d.setUna g.ack) := h.setTcb _ rfl
    have hest := huna.establish g hst
    simp only
    split
    · exact hest.inputSynced now g
    · have hqueued : Proceeds src (some true) c
          { tcpEstablish (d.setUna g.ack) g with queued := true } :=
        ⟨hest.entry, hest.out, hest.counts, fun _ => Or.inr rfl⟩
      exact hqueued.inputSynced now g
    · exact (hest.count rfl).appAbort
  · exact h.sendResetFor hg

omit h in
theorem inputConn (now : Nat) (room : Option Bool) (g : Seg) (c : Conn) :
    Proceeds g.src room c (tcpInputConn now room g c) := by
  have h := refl g.src room c
  unfold tcpInputConn
  split
  · rename_i hst
    exact h.inputSynSent now rfl (by simp [hst])
  split
  · simp only
    split
    · exact h.count rfl
    · exact (h.count rfl).sendCtl _
  split
  · exact h.inputRst g
  split
  · exact (h.count rfl).sendCtl _
  split
  · exact h
  split
  · rename_i hst
    exact h.inputSynRcvd now rfl (by simp [hst])
  · exact h.inputSynced now g

/-! ### Opening, ticks and the application -/

theorem startSyn (now : Nat) (flags : UInt8) : Proceeds src room c (tcpStartSyn now flags d) :=
  (h.sendCtl flags).armRto now

theorem tick (now : Nat) : Proceeds src room c (tcpTickConn now d) := by
  unfold tcpTickConn
  split
  · split
    · exact h.free _
    · exact h
  split
  · have hfires : Proceeds src room c (countTimeout d) :=
      (h.setTcb { d.tcb with rtxCount := d.tcb.rtxCount + 1 } rfl).count rfl
    unfold tcpRtoFire
    split
    · exact (((hfires.count rfl).sendCtl _).count rfl).free _
    · have hback : Proceeds src room c
          { countTimeout d with tcb := rtoBackoff (countTimeout d).tcb } := by
        refine hfires.setTcb _ ?_
        unfold rtoBackoff
        simp only
        split <;> rfl
      have hsent := hback.retransmit
      unfold tcpRtoRetransmit
      generalize tcpRetransmit _ = x at hsent
      exact hsent.setTcb _ rfl
  · have hprobe : Proceeds src room c (tcpTickProbe now d) := by
      unfold tcpTickProbe
      split
      · exact (h.count rfl).sendProbe.armRto now
      · exact h
    unfold tcpTickDelack
    split
    · exact hprobe.sendCtl _
    · exact hprobe

theorem appClose (now : Nat) : Proceeds src room c (tcpAppClose now d) := by
  have hfin (st : TcpState) (hold : d.tcb.state ≠ .listen) (hnew : st ≠ .listen) :
      Proceeds src room c (queueFin st d) := h.setTcb _ (d.tcb.entry_setState st hold hnew)
  unfold tcpAppClose
  split <;> rename_i hst
  · exact h.free _
  · exact h.free _
  · exact (hfin _ (by simp [hst]) (by simp)).output now
  · exact (hfin _ (by simp [hst]) (by simp)).output now
  · exact (hfin _ (by simp [hst]) (by simp)).output now
  · exact h

theorem sendCopy (now : Nat) (data : List UInt8) : Proceeds src room c (pfSendCopy now data d) := by
  unfold pfSendCopy
  split
  · exact h
  · have happ (xs : List UInt8) : Proceeds src room c (sndAppend xs d) := h.setTcb _ rfl
    exact (happ _).output now

theorem recvCopy (cap : Nat) : Proceeds src room c (pfRecvCopy cap d) := by
  unfold pfRecvCopy
  split
  · have hrel : Proceeds src room c (rcvRelease (recvAmount d.tcb cap) d) := h.setTcb _ rfl
    unfold announceWindow
    split
    · exact hrel.sendCtl _
    · exact hrel
  · exact h

end Proceeds

theorem tcpOpenActiveConn_proceeds (now : Nat) (sock : Option (Fin pfSockMax)) (lip : UInt32)
    (lport : UInt16) (rip : UInt32) (rport : UInt16) (iss : UInt32) (st : Stats) :
    Proceeds rip none (Conn.start (activeTcb sock lip lport rip rport iss) st)
      (tcpOpenActiveConn now sock lip lport rip rport iss st) :=
  ((Proceeds.refl rip none _).count rfl).startSyn now _

/-- The child of a listener speaks to the source of the SYN. -/
theorem tcpOpenPassiveConn_proceeds (now : Nat) (l : Fin tcpMaxConns) (lport : UInt16)
    (iss : UInt32) (g : Seg) (st : Stats) :
    Proceeds g.src none (Conn.start (passiveTcb l lport iss g) st)
      (tcpOpenPassiveConn now l lport iss g st) := by
  have hmss : Proceeds g.src none (Conn.start (passiveTcb l lport iss g) st)
      (tcpTakeMss ((Conn.start (passiveTcb l lport iss g) st).count .tcpPassiveOpens) g) :=
    ((Proceeds.refl g.src none _).count rfl).takeMss g
  have hlisten := hmss.not_listen (by simp [Conn.start, passiveTcb, Tcb.fresh, Tcb.zero])
  exact (hmss.setTcb _ (Tcb.entry_setState _ .synRcvd hlisten (by simp))).startSyn now _

/-! ### The entry -/

variable (now : Nat) (c : Conn)

theorem tcpSendCtl_entry (flags : UInt8) : (tcpSendCtl c flags).tcb.entry = c.tcb.entry :=
  ((Proceeds.refl 0 none c).sendCtl flags).entry

/-- A received segment leaves the entry of the block alone. -/
theorem tcpInputConn_entry (lroom : Option Bool) (g : Seg) (c : Conn) :
    (tcpInputConn now lroom g c).tcb.entry = c.tcb.entry := (Proceeds.inputConn now lroom g c).entry

theorem tcpTickConn_entry : (tcpTickConn now c).tcb.entry = c.tcb.entry :=
  ((Proceeds.refl 0 none c).tick now).entry

theorem tcpAppClose_entry : (tcpAppClose now c).tcb.entry = c.tcb.entry :=
  ((Proceeds.refl 0 none c).appClose now).entry

end PacketForge
