import PacketForge.Tcp.Frame

/-!
The receiving side of a connection: the fields that decide which bytes of the
peer's stream have arrived. All of the processing leaves them alone except a
SYN before the handshake, the text of a segment, its FIN, and the application
reading. Of the acknowledgement only the change of state is visible here.
-/

namespace PacketForge

/-- The receiving side of a connection. -/
structure RecvView where
  state : TcpState
  irs : UInt32
  nxt : UInt32
  buf : Nat → UInt8
  head : UInt32
  len : UInt32
  eof : Bool
  ooo : List OooPkt

def Conn.recv (c : Conn) : RecvView where
  state := c.tcb.state
  irs := c.tcb.irs
  nxt := c.tcb.rcvNxt
  buf := c.tcb.rcvbuf
  head := c.tcb.rcvHead
  len := c.tcb.rcvLen
  eof := c.tcb.rcvEof
  ooo := c.tcb.ooo

theorem Conn.recv_of_noSend {c c' : Conn} (h : c'.noSend = c.noSend) : c'.recv = c.recv := by
  have hview := congrArg Conn.recv h
  exact hview

theorem Conn.recv_of_rest {c c' : Conn} (h : c'.rest = c.rest) : c'.recv = c.recv :=
  Conn.recv_of_noSend (Conn.noSend_of_rest h)

variable (now : Nat) (g : Seg) (c : Conn) (data : List UInt8)

theorem tcpSendCtl_recv (flags : UInt8) : (tcpSendCtl c flags).recv = c.recv :=
  Conn.recv_of_rest (tcpSendCtl_rest c flags)

theorem tcpOutput_recv : (tcpOutput now c).recv = c.recv :=
  Conn.recv_of_rest (tcpOutput_rest now c)

theorem tcpSendResetFor_recv (g : Seg) : (tcpSendResetFor c g).recv = c.recv :=
  Conn.recv_of_rest (tcpSendResetFor_rest c g)

/-! ### Input -/

/-- The state an acknowledgement may leave: one that acknowledges our FIN moves
on. -/
inductive AckedTo : TcpState → TcpState → Prop where
  | same (st : TcpState) : AckedTo st st
  | finWait : AckedTo .finWait1 .finWait2
  | closing : AckedTo .closing .timeWait

theorem tcpFinAcked_recv (fin : Bool) (c : Conn) :
    ∃ st, AckedTo c.tcb.state st ∧ (tcpFinAcked now fin c).recv = { c.recv with state := st } := by
  unfold tcpFinAcked
  split
  · rename_i h
    simp only [Bool.and_eq_true, decide_eq_true_eq] at h
    exact ⟨.finWait2, h.2 ▸ .finWait, rfl⟩
  split
  · rename_i h
    simp only [Bool.and_eq_true, decide_eq_true_eq] at h
    exact ⟨.timeWait, h.2 ▸ .closing, rfl⟩
  · exact ⟨c.tcb.state, .same _, rfl⟩

theorem tcpInputAck_recv :
    ∃ st, AckedTo c.tcb.state st ∧ (tcpInputAck now g c).recv = { c.recv with state := st } := by
  unfold tcpInputAck
  split
  · have hnew := Conn.recv_of_noSend (ackNew_noSend now g.ack c)
    have hst : (ackNew now g.ack c).tcb.state = c.tcb.state := congrArg RecvView.state hnew
    simp only [tcpInputNewAck]
    split
    · exact ⟨c.tcb.state, .same _, hnew⟩
    · rw [tcpOutput_recv]
      have hfin := tcpFinAcked_recv now (finAcked c.tcb g.ack) (ackNew now g.ack c)
      rw [hnew, hst] at hfin
      exact hfin
  split
  · exact ⟨c.tcb.state, .same _, Conn.recv_of_noSend (tcpInputDupAck_noSend now c)⟩
  · exact ⟨c.tcb.state, .same _, rfl⟩

theorem tcpInputWnd_recv : (tcpInputWnd now g c).recv = c.recv := by
  have htake : (takeWnd g c).recv = c.recv := rfl
  unfold tcpInputWnd
  split
  · split
    · split
      · rw [tcpOutput_recv, htake]
      · exact htake
    · rfl
  · rfl

/-- Of the acknowledgement and the window only the state is visible. -/
theorem tcpInputSend_recv :
    ∃ st, AckedTo c.tcb.state st ∧ (tcpInputSend now g c).recv = { c.recv with state := st } := by
  obtain ⟨st, hst, hview⟩ := tcpInputAck_recv now g c
  refine ⟨st, hst, ?_⟩
  simp only [tcpInputSend]
  split
  · rw [tcpInputWnd_recv, hview]
  · exact hview

theorem tcpFinState_recv :
    { c with tcb := tcpFinState now c.tcb }.recv =
      { c.recv with state := rxFinState c.recv.state } := by
  have hst : c.recv.state = c.tcb.state := rfl
  unfold tcpFinState
  rw [hst]
  cases h : c.tcb.state <;> simp only [rxFinState] <;> simp only [Conn.recv, tcpEnterTimewait, h]

theorem tcpTakeFin_recv (finSeq : UInt32) (c : Conn) :
    (tcpTakeFin now finSeq c).recv =
      { c.recv with
        state := rxFinState c.recv.state
        nxt := if c.recv.state ≠ .timeWait then finSeq + 1 else c.recv.nxt
        eof := true } := by
  have hset (n : UInt32) : { c with tcb := { c.tcb with rcvNxt := n, rcvEof := true } }.recv =
      { c.recv with nxt := n, eof := true } := rfl
  unfold tcpTakeFin
  simp only
  rw [tcpFinState_recv, tcpSendCtl_recv, consumeFin, hset]
  rfl

theorem tcpInputRst_recv : (tcpInputRst g c).recv = c.recv := by
  unfold tcpInputRst
  simp only
  split
  · split <;> rfl
  · rw [tcpSendCtl_recv]
    rfl

theorem tcpEstablish_recv : (tcpEstablish c g).recv = { c.recv with state := .established } := rfl

theorem tcpAppAbort_recv : (tcpAppAbort c).recv = c.recv := by
  have hfree (d : Conn) : (d.free .none).recv = d.recv := rfl
  unfold tcpAppAbort
  simp only [hfree]
  split
  · exact tcpSendCtl_recv c _
  · rfl

theorem tcpTakeMss_recv (g : Seg) : (tcpTakeMss c g).recv = c.recv := by
  unfold tcpTakeMss
  simp only
  split <;> rfl

/-- A SYN answers our own: it sets the peer's initial sequence number. -/
theorem tcpSynSentSyn_recv :
    ∃ st, (st = .established ∨ st = .synRcvd) ∧
      (tcpSynSentSyn now g c).recv =
        { c.recv with state := st, irs := g.seq, nxt := g.seq + 1 } := by
  have hsyn : (tcpTakeSyn g c).recv = { c.recv with irs := g.seq, nxt := g.seq + 1 } :=
    tcpTakeMss_recv _ g
  have huna (d : Conn) (x : UInt32) : (d.setUna x).recv = d.recv := rfl
  have hboth (d : Conn) (hd : d.recv = { c.recv with irs := g.seq, nxt := g.seq + 1 }) :
      ∃ st, (st = .established ∨ st = .synRcvd) ∧
        (if seqGt d.tcb.sndUna d.tcb.iss then tcpSendCtl (tcpEstablish d g) tcpAck
          else tcpSimultaneousOpen now d).recv =
          { c.recv with state := st, irs := g.seq, nxt := g.seq + 1 } := by
    split
    · refine ⟨.established, Or.inl rfl, ?_⟩
      rw [tcpSendCtl_recv, tcpEstablish_recv, hd]
    · refine ⟨.synRcvd, Or.inr rfl, ?_⟩
      have hset : (d.setState .synRcvd).recv = { d.recv with state := .synRcvd } := rfl
      unfold tcpSimultaneousOpen
      simp only
      rw [Conn.recv_of_rest (tcpArmRto_rest _ _ now), tcpSendCtl_recv, hset, hd]
  unfold tcpSynSentSyn
  simp only
  split
  · exact hboth _ ((huna _ _).trans hsyn)
  · exact hboth _ hsyn

/-- In SYN_SENT only a SYN is taken. -/
theorem tcpInputSynSent_recv :
    (tcpInputSynSent now g c).recv = c.recv ∨
      g.has tcpSyn = true ∧ g.has tcpRst = false ∧
        ∃ st, (st = .established ∨ st = .synRcvd) ∧ (tcpInputSynSent now g c).recv =
          { c.recv with state := st, irs := g.seq, nxt := g.seq + 1 } := by
  unfold tcpInputSynSent
  split
  · split
    · exact Or.inl rfl
    · exact Or.inl (tcpSendResetFor_recv c g)
  split
  · split <;> exact Or.inl rfl
  rename_i hrst
  split
  · rename_i hsyn
    exact Or.inr ⟨hsyn, by simpa using hrst, tcpSynSentSyn_recv now g c⟩
  · exact Or.inl rfl

/-! ### The text of a segment -/

theorem rcvAppend_recv :
    (rcvAppend c data).recv =
      { c.recv with
        buf :=
          RingBuf.write 65535 c.recv.buf ((c.recv.head + c.recv.len).toNat % 65535)
            (data.take (rcvRingTake c.tcb data).toNat)
        len := c.recv.len + rcvRingTake c.tcb data
        nxt := c.recv.nxt + rcvRingTake c.tcb data } := by
  have hset (buf : Nat → UInt8) (len nxt : UInt32) (n : UInt64) :
      ({ c with tcb := { c.tcb with rcvbuf := buf, rcvLen := len, rcvNxt := nxt } }.countBy
        .tcpRxBytes n).recv = { c.recv with buf := buf, len := len, nxt := nxt } := rfl
  have hcap : tcpRcvbuf = 65535 := rfl
  have hbuf : c.tcb.rcvbuf = c.recv.buf := rfl
  have hhead : c.tcb.rcvHead = c.recv.head := rfl
  have hlen : c.tcb.rcvLen = c.recv.len := rfl
  have hnxt : c.tcb.rcvNxt = c.recv.nxt := rfl
  simp only [rcvAppend, rcvRingPut, hcap]
  rw [hset, hbuf, hhead, hlen, hnxt]

theorem Conn.recv_ooo (qs : List OooPkt) :
    { c with tcb := { c.tcb with ooo := qs } }.recv = { c.recv with ooo := qs } := rfl

/-- The state, the peer's ISS and the end of its stream are the same. -/
structure SameStream (v v' : RecvView) : Prop where
  state : v'.state = v.state
  irs : v'.irs = v.irs
  eof : v'.eof = v.eof

theorem SameStream.refl (v : RecvView) : SameStream v v := ⟨rfl, rfl, rfl⟩

theorem SameStream.trans {v v' v'' : RecvView} (h : SameStream v v') (h' : SameStream v' v'') :
    SameStream v v'' :=
  ⟨h'.state.trans h.state, h'.irs.trans h.irs, h'.eof.trans h.eof⟩

theorem SameStream.setOoo {v v' : RecvView} (h : SameStream v v') (qs : List OooPkt) :
    SameStream v { v' with ooo := qs } := ⟨h.state, h.irs, h.eof⟩

theorem rcvAppend_same : SameStream c.recv (rcvAppend c data).recv := by
  rw [rcvAppend_recv]
  exact ⟨rfl, rfl, rfl⟩

theorem tcpDelayAck_recv (now : Nat) : (tcpDelayAck c now).recv = c.recv := by
  have hpend (n : UInt8) : { c with tcb := { c.tcb with delackPending := n } }.recv = c.recv := rfl
  unfold tcpDelayAck
  simp only
  split
  · rw [tcpSendCtl_recv, hpend]
  split
  · rfl
  · exact hpend _

theorem oooDrainLoop_same (qs : List OooPkt) (c : Conn) :
    SameStream c.recv (oooDrainLoop qs c).recv := by
  induction qs generalizing c with
  | nil =>
    unfold oooDrainLoop
    rw [Conn.recv_ooo]
    exact ⟨rfl, rfl, rfl⟩
  | cons q qs ih =>
    unfold oooDrainLoop
    simp only
    split
    · rw [Conn.recv_ooo]
      exact ⟨rfl, rfl, rfl⟩
    split
    · exact ih c
    split
    · rw [Conn.recv_ooo]
      exact (rcvAppend_same c _).setOoo qs
    · exact (rcvAppend_same c _).trans (ih _)

/-- A segment is parked, or dropped for want of room or for an overlap. -/
theorem tcpOooInsert_recv (seq : UInt32) (data : List UInt8) :
    (tcpOooInsert c seq data).recv = c.recv ∨
      c.tcb.ooo.any (oooOverlaps seq data) = false ∧
        (tcpOooInsert c seq data).recv =
          { c.recv with ooo := oooInsertSorted ⟨seq, data⟩ c.recv.ooo } := by
  have hpark (b : Bool) (qs : List OooPkt) :
      ({ c with panicked := b, tcb := { c.tcb with ooo := qs } }.count .tcpOooQueued).recv =
        { c.recv with ooo := qs } := rfl
  unfold tcpOooInsert
  split
  · exact Or.inl rfl
  split
  · exact Or.inl rfl
  · rename_i hfree
    exact Or.inr ⟨by simpa using hfree, hpark _ _⟩

theorem tcpRxTrimmed_same (seq : UInt32) (data : List UInt8) (now : Nat) :
    SameStream c.recv (tcpRxTrimmed c seq data now).recv := by
  unfold tcpRxTrimmed
  split
  · exact SameStream.refl _
  unfold tcpRxInWindow
  split
  · exact SameStream.refl _
  split
  · rw [tcpDelayAck_recv]
    exact (rcvAppend_same c _).trans (oooDrainLoop_same _ _)
  · rw [tcpSendCtl_recv]
    rcases tcpOooInsert_recv c seq (trimTail c.tcb seq data) with hv | ⟨-, hv⟩ <;> rw [hv]
    · exact SameStream.refl _
    · exact (SameStream.refl _).setOoo _

/-- The text of a segment moves `rcv_nxt`, the ring and the queue only. -/
theorem tcpInputText_same : SameStream c.recv (tcpInputText now g c).recv := by
  unfold tcpInputText
  split
  · split
    · unfold tcpRxPayload
      split
      · simp only
        split
        · rw [tcpSendCtl_recv]
          exact SameStream.refl _
        · exact tcpRxTrimmed_same c _ _ now
      · exact tcpRxTrimmed_same c _ _ now
    · exact SameStream.refl _
  · exact SameStream.refl _

/-! ### Timer and application -/

theorem tcpTickConn_recv : (tcpTickConn now c).recv = c.recv := by
  have hprobe : (tcpTickProbe now c).recv = c.recv := by
    unfold tcpTickProbe
    split
    · simp only
      rw [Conn.recv_of_rest (tcpArmRto_rest _ _ now), Conn.recv_of_rest (tcpSendProbe_rest _)]
      rfl
    · rfl
  have hback (d : Conn) : { d with tcb := rtoBackoff d.tcb }.recv = d.recv := by
    unfold rtoBackoff
    simp only
    split <;> rfl
  have hrtx (d : Conn) : (tcpRtoRetransmit now d).recv = d.recv := by
    have hdl (x : Conn) (n : Nat) :
        { x with tcb := { x.tcb with rtoDeadline := n } }.recv = x.recv := rfl
    unfold tcpRtoRetransmit
    simp only
    rw [hdl, Conn.recv_of_rest (tcpRetransmit_rest _), hback]
  have hcount : (countTimeout c).recv = c.recv := rfl
  have herr (d : Conn) (e : PfErr) : (tcpConnError d e).recv = d.recv := rfl
  unfold tcpTickConn
  split
  · split <;> rfl
  split
  · unfold tcpRtoFire
    split
    · rw [herr, tcpSendCtl_recv]
      exact hcount
    · rw [hrtx, hcount]
  · unfold tcpTickDelack
    split
    · rw [tcpSendCtl_recv, hprobe]
    · exact hprobe

theorem pfSendCopy_recv (c : Conn) : (pfSendCopy now data c).recv = c.recv := by
  have happend (xs : List UInt8) : (sndAppend xs c).recv = c.recv := rfl
  unfold pfSendCopy
  split
  · rfl
  · rw [tcpOutput_recv, happend]

theorem tcpAppClose_recv :
    (tcpAppClose now c).recv = c.recv ∨
      (c.tcb.state = .synRcvd ∨ c.tcb.state = .established) ∧
        (tcpAppClose now c).recv = { c.recv with state := .finWait1 } ∨
      c.tcb.state = .closeWait ∧ (tcpAppClose now c).recv = { c.recv with state := .lastAck } := by
  have hqueue (st : TcpState) : (queueFin st c).recv = { c.recv with state := st } := rfl
  unfold tcpAppClose
  split <;> rename_i hst
  · exact Or.inl rfl
  · exact Or.inl rfl
  · exact Or.inr (Or.inl ⟨Or.inl hst, by rw [tcpOutput_recv, hqueue]⟩)
  · exact Or.inr (Or.inl ⟨Or.inr hst, by rw [tcpOutput_recv, hqueue]⟩)
  · exact Or.inr (Or.inr ⟨hst, by rw [tcpOutput_recv, hqueue]⟩)
  · exact Or.inl rfl

theorem pfRecvCopy_recv (cap : Nat) (c : Conn) :
    (pfRecvCopy cap c).recv =
      if c.tcb.rcvLen > 0 then (rcvRelease (recvAmount c.tcb cap) c).recv else c.recv := by
  have hannounce (d : Conn) : (announceWindow d).recv = d.recv := by
    unfold announceWindow
    split
    · exact tcpSendCtl_recv d _
    · rfl
  unfold pfRecvCopy
  split
  · exact hannounce _
  · rfl

end PacketForge
