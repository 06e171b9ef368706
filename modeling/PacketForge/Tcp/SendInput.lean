import PacketForge.Tcp.SendMove

/-!
The sending side under the input processing, the timer and the socket layer:
each of these is a sequence of the moves of `SendMove`. The receiving half of
`tcp_input` only ever adds pure acknowledgements; its own effect is the
subject of `Receive`.
-/

namespace PacketForge

variable {κ : SendCause}

/-! ### The receiving half -/

variable (now : Nat) (ack : UInt32) (g : Seg) (c : Conn) (seq : UInt32) (data : List UInt8)

/-- The receive ring and the counters are not visible to the sending side. -/
theorem rcvRing_send (buf : Nat → UInt8) (len nxt : UInt32) (st : Stats) :
    { c with
      tcb := { c.tcb with rcvbuf := buf, rcvLen := len, rcvNxt := nxt }, stats := st }.send =
      c.send := rfl

theorem rcvAppend_send : (rcvAppend c data).send = c.send := by
  unfold rcvAppend rcvRingPut Conn.countBy
  exact rcvRing_send c _ _ _ _

theorem ooo_send (q : List OooPkt) : { c with tcb := { c.tcb with ooo := q } }.send = c.send := rfl

theorem oooDrainLoop_send (q : List OooPkt) (c : Conn) : (oooDrainLoop q c).send = c.send := by
  induction q generalizing c with
  | nil => rfl
  | cons x rest ih =>
    simp only [oooDrainLoop]
    split
    · rfl
    split
    · exact ih c
    split
    · rw [ooo_send, rcvAppend_send]
    · rw [ih, rcvAppend_send]

theorem tcpOooInsert_send : (tcpOooInsert c seq data).send = c.send := by
  simp only [tcpOooInsert]
  split
  · rfl
  split <;> rfl

/-- A pure acknowledgement, possibly after changes the sending side does not
see. -/
theorem ackSent_onlyCtl {c c' : Conn} (h : c'.send = c.send) :
    OnlyCtl c.send (tcpSendCtl c' tcpAck).send :=
  (tcpSendCtl_onlyCtl c' tcpAck (by decide)).of_view h

theorem ackSent_moves {c c' : Conn} (h : c'.send = c.send) :
    SendMoves κ c.send (tcpSendCtl c' tcpAck).send :=
  SendMoves.of_onlyCtl (ackSent_onlyCtl h)

theorem tcpDelayAck_onlyCtl (now : Nat) : OnlyCtl c.send (tcpDelayAck c now).send := by
  simp only [tcpDelayAck]
  split
  · exact ackSent_onlyCtl rfl
  split <;> exact OnlyCtl.refl _

theorem tcpRxInWindow_onlyCtl (now : Nat) : OnlyCtl c.send (tcpRxInWindow c seq data now).send := by
  unfold tcpRxInWindow
  split
  · exact OnlyCtl.refl _
  split
  · apply (tcpDelayAck_onlyCtl _ now).of_view
    rw [tcpOooDrain, oooDrainLoop_send, rcvAppend_send]
  · exact ackSent_onlyCtl (tcpOooInsert_send c _ _)

theorem tcpRxTrimmed_onlyCtl (now : Nat) : OnlyCtl c.send (tcpRxTrimmed c seq data now).send := by
  unfold tcpRxTrimmed
  split
  · exact OnlyCtl.refl _
  · exact tcpRxInWindow_onlyCtl _ _ _ _

theorem tcpRxPayload_onlyCtl (now : Nat) : OnlyCtl c.send (tcpRxPayload c seq data now).send := by
  simp only [tcpRxPayload]
  split
  · split
    · exact ackSent_onlyCtl rfl
    · exact tcpRxTrimmed_onlyCtl _ _ _ _
  · exact tcpRxTrimmed_onlyCtl _ _ _ _

/-- Segment text only causes acknowledgements. -/
theorem tcpInputText_onlyCtl : OnlyCtl c.send (tcpInputText now g c).send := by
  unfold tcpInputText
  split
  · split
    · exact tcpRxPayload_onlyCtl _ _ _ _
    · exact OnlyCtl.refl _
  · exact OnlyCtl.refl _

theorem tcpInputText_moves : SendMoves κ c.send (tcpInputText now g c).send :=
  SendMoves.of_onlyCtl (tcpInputText_onlyCtl now g c)

/-! ### Acknowledgement and window -/

/-- An acknowledgement of new data changes the sending side as `acked` says. -/
theorem ackNew_send : (ackNew now ack c).send = c.send.acked ack := by
  obtain ⟨st, srtt, rttvar, rto, rtx, cwnd, dup, dl, timing, heq, -⟩ := ackNew_eq now ack c
  rw [heq]
  rfl

theorem ackNew_state : (ackNew now ack c).tcb.state = c.tcb.state := by
  have h := congrArg SendView.state (ackNew_send now ack c)
  exact h

theorem tcpFinAcked_send (fin : Bool) (c : Conn) :
    (tcpFinAcked now fin c).send = { c.send with state := ackedState fin c.send.state } := by
  obtain ⟨rto, tw, dl, heq⟩ := tcpFinAcked_eq now fin c
  rw [heq]
  rfl

/-- The guards of an acknowledgement move, for a connection at the start of
the fifth step. -/
structure AckReady (κ : SendCause) (g : Seg) (c : Conn) : Prop where
  seg : κ.seg = some g
  ackAt : seqGt g.ack c.tcb.sndUna = true → κ.ackAt c.send
  out : c.out = []
  sync : c.tcb.state ≠ .synSent ∧ c.tcb.state ≠ .synRcvd

/-- An acknowledgement of new data is `acked`, then `tcp_output`. -/
theorem tcpInputNewAck_outMoves :
    OutMoves { c.send.acked g.ack with state := ackedState (c.send.finAcked g.ack) c.send.state }
      (tcpInputNewAck now g c).send := by
  have hview := ackNew_send now g.ack c
  have hstate := ackNew_state now g.ack c
  simp only [tcpInputNewAck]
  split
  · -- LAST_ACK: the block is freed as the acknowledgement leaves it
    rename_i hlast
    simp only [Bool.and_eq_true, decide_eq_true_eq] at hlast
    have hkeep : ackedState (c.send.finAcked g.ack) c.send.state = c.send.state := by
      have hst : c.send.state = .lastAck := by rw [← hlast.2, hstate]; rfl
      rw [hst]
      cases c.send.finAcked g.ack <;> rfl
    rw [hkeep, Conn.free_send, hview]
    exact .refl
  · have hout := tcpOutput_outMoves now
      (tcpFinAcked now (finAcked c.tcb g.ack) (ackNew now g.ack c))
    rw [tcpFinAcked_send, hview] at hout
    exact hout

theorem tcpInputNewAck_moves (h : AckReady κ g c) (hle : seqGt g.ack c.tcb.sndNxt = false)
    (hgt : seqGt g.ack c.tcb.sndUna = true) : SendMoves κ c.send (tcpInputNewAck now g c).send :=
  Relation.ReflTransGen.head (SendMove.ack c.send g h.seg (h.ackAt hgt) h.out h.sync hgt hle)
    (SendMoves.of_output (tcpInputNewAck_outMoves now g c))

theorem tcpFastRetransmit_moves : SendMoves κ c.send (tcpFastRetransmit c).send := by
  unfold tcpFastRetransmit
  simp only [Conn.setCwnd_send, Conn.count_send]
  exact (tcpRetransmit_moves _).of_view (Conn.setSsthresh_send _ _)

theorem tcpInputDupAck_moves : SendMoves κ c.send (tcpInputDupAck now c).send := by
  unfold tcpInputDupAck
  set c' := (c.count .tcpDupacksRx).setDupacks (c.tcb.dupacks + 1) with hc'
  have hview : c'.send = c.send := by simp [hc']
  rw [← hview]
  unfold tcpDupAckCounted
  split
  · exact tcpFastRetransmit_moves c'
  split
  · exact (tcpOutput_moves now _).of_view (Conn.setCwnd_send _ _)
  · exact .refl

theorem tcpInputAck_moves (h : AckReady κ g c) (hle : seqGt g.ack c.tcb.sndNxt = false) :
    SendMoves κ c.send (tcpInputAck now g c).send := by
  unfold tcpInputAck
  split
  · rename_i hgt
    exact tcpInputNewAck_moves now g c h hle hgt
  split
  · exact tcpInputDupAck_moves now c
  · exact .refl

theorem takeWnd_send : (takeWnd g c).send = { c.send with wnd := g.wnd.toUInt32 } := rfl

theorem tcpInputWnd_moves (hseg : κ.seg = some g) :
    SendMoves κ c.send (tcpInputWnd now g c).send := by
  unfold tcpInputWnd
  split
  · rename_i hin
    simp only [Bool.and_eq_true] at hin
    have hmove := SendMove.wnd c.send g hseg hin.1 hin.2
    rw [← takeWnd_send] at hmove
    split
    · split
      · exact .head hmove (tcpOutput_moves now _)
      · exact SendMoves.single hmove
    · exact .refl
  · exact .refl

theorem tcpInputSend_moves (h : AckReady κ g c) (hle : seqGt g.ack c.tcb.sndNxt = false) :
    SendMoves κ c.send (tcpInputSend now g c).send := by
  have hack := tcpInputAck_moves now g c h hle
  simp only [tcpInputSend]
  split
  · exact hack.trans (tcpInputWnd_moves now g _ h.seg)
  · exact hack

/-! ### FIN and the handshake -/

theorem tcpFinState_send :
    { c with tcb := tcpFinState now c.tcb }.send =
      { c.send with state := rxFinState c.send.state } := by
  have hstate : c.send.state = c.tcb.state := rfl
  rw [hstate]
  unfold tcpFinState
  cases hst : c.tcb.state <;> simp only [rxFinState] <;>
    simp only [Conn.send, tcpEnterTimewait, hst]

theorem consumeFin_send (finSeq : UInt32) (c : Conn) : (consumeFin finSeq c).send = c.send := rfl

theorem tcpTakeFin_send (finSeq : UInt32) (c : Conn) :
    ∃ g : Seg, g.IsCtl c.send.iss ∧
      (tcpTakeFin now finSeq c).send =
        { c.send with state := rxFinState c.send.state, out := c.send.out ++ [g] } := by
  set t := (consumeFin finSeq c).tcb
  refine ⟨tcpSegment t tcpAck (ctlSeq t tcpAck) 0 0, ?_, ?_⟩
  · exact tcpSegment_isCtl _ _ _ _ (by decide) (fun h => absurd rfl h)
  · simp only [tcpTakeFin]
    rw [tcpFinState_send, tcpSendCtl_send, consumeFin_send]
    rfl

theorem tcpInputFin_moves (hat : finInOrder c.tcb g = true → κ.finAt c.send) :
    SendMoves κ c.send (tcpInputFin now g c).send := by
  unfold tcpInputFin
  split
  · rename_i hin
    obtain ⟨a, ha, hview⟩ := tcpTakeFin_send now (g.seq + g.paylen) c
    have hat := hat hin
    rw [hview]
    simp only [finInOrder, Bool.and_eq_true, Bool.or_eq_true, decide_eq_true_eq] at hin
    -- the state change and the acknowledgement commute for the sending side
    rcases hin.2 with htakes | htw
    · exact .head (SendMove.rxFin c.send hat htakes)
        (SendMoves.single (SendMove.ctl _ a ha))
    · have hkeep : rxFinState c.send.state = c.send.state := by
        have hst : c.send.state = .timeWait := htw
        rw [hst]
        rfl
      rw [hkeep]
      exact SendMoves.single (SendMove.ctl c.send a ha)
  · exact .refl

theorem tcpInputSynced_moves (h : AckReady κ g c) (hfin : seqGt g.ack c.tcb.sndNxt = false →
      finInOrder (tcpInputText now g (tcpInputSend now g c)).tcb g = true →
        κ.finAt (tcpInputText now g (tcpInputSend now g c)).send) :
    SendMoves κ c.send (tcpInputSynced now g c).send := by
  unfold tcpInputSynced
  split
  · exact ackSent_moves (Conn.count_send _ _)
  · rename_i hgt
    have hle : seqGt g.ack c.tcb.sndNxt = false := by simpa using hgt
    have hsend := tcpInputSend_moves now g c h hle
    simp only
    split
    · exact (hsend.trans (tcpInputText_moves now g _)).trans (tcpInputFin_moves now g _ (hfin hle))
    · exact hsend

/-- A reset of ours, possibly after changes the sending side does not see. -/
theorem resetSent_onlyCtl {c c' : Conn} (h : c'.send = c.send) :
    OnlyCtl c.send (tcpSendCtl c' (tcpRst ||| tcpAck)).send :=
  (tcpSendCtl_onlyCtl c' _ (by decide)).of_view h

theorem tcpConnError_send (err : PfErr) : (tcpConnError c err).send = c.send := rfl

theorem tcpAppAbort_onlyCtl : OnlyCtl c.send (tcpAppAbort c).send := by
  unfold tcpAppAbort
  simp only [Conn.free_send]
  split
  · exact resetSent_onlyCtl rfl
  · exact OnlyCtl.refl _

theorem tcpTakeMss_send (g : Seg) : (tcpTakeMss c g).send = c.send := by
  have hmss (c' : Conn) (m : UInt16) : { c' with tcb := tcpApplyMss c'.tcb m }.send = c'.send := rfl
  unfold tcpTakeMss
  simp only [hmss]
  split <;> simp

theorem tcpTakeSyn_send : (tcpTakeSyn g c).send = c.send := by
  unfold tcpTakeSyn
  rw [tcpTakeMss_send]
  rfl

theorem tcpEstablish_send (g : Seg) :
    (tcpEstablish (c.setUna g.ack) g).send =
      { c.send with state := .established, una := g.ack, wnd := g.wnd.toUInt32 } := rfl

/-- An acknowledgement that SYN_SENT accepts moves `snd_una` forward. -/
theorem synSent_ack_pos {una x : UInt32} (h : seqLe x una = false) :
    0 < (x - una).toNat ∧ (x - una).toNat ≤ 2 ^ 31 := by
  have hle : ¬ seqLe x una = true := by simp [h]
  rw [seqLe_iff] at hle
  omega

/-- An acknowledgement that is not ahead of `snd_nxt` is at or behind it. -/
theorem ack_not_ahead {nxt x : UInt32} (h : seqGt x nxt = false) :
    x = nxt ∨ 2 ^ 31 ≤ (x - nxt).toNat := by
  have hgt : ¬ seqGt x nxt = true := by simp [h]
  rw [seqGt_iff] at hgt
  rcases Nat.eq_zero_or_pos (x - nxt).toNat with hz | hpos
  · exact Or.inl ((SeqSpace.toNat_sub_eq_zero_iff _ _).mp hz)
  · exact Or.inr (by omega)

theorem ack_not_beyond {nxt x : UInt32} (h : seqLe x nxt = true) :
    x = nxt ∨ 2 ^ 31 ≤ (x - nxt).toNat := by
  rcases (seqLe_iff _ _).mp h with hz | hbig
  · exact Or.inl ((SeqSpace.toNat_sub_eq_zero_iff _ _).mp hz)
  · exact Or.inr hbig

theorem opened_moves {κ : SendCause} {c : Conn} {g : Seg} (hseg : κ.seg = some g)
    (hout : c.out = []) (hst : c.tcb.state = .synSent) (huna : c.tcb.sndUna = c.tcb.iss)
    (hlo : seqLe g.ack c.tcb.iss = false) (hhi : seqGt g.ack c.tcb.sndNxt = false) :
    SendMoves κ c.send
      (tcpSendCtl (tcpEstablish ((tcpTakeSyn g c).setUna g.ack) g) tcpAck).send := by
  have hview := tcpTakeSyn_send g c
  have hmove : SendMove κ c.send (tcpEstablish ((tcpTakeSyn g c).setUna g.ack) g).send := by
    rw [tcpEstablish_send, hview]
    refine SendMove.establish c.send g hseg (Or.inl hst) hout ?_ (ack_not_ahead hhi)
    change 0 < (g.ack - c.tcb.sndUna).toNat ∧ (g.ack - c.tcb.sndUna).toNat ≤ 2 ^ 31
    rw [huna]
    exact synSent_ack_pos hlo
  exact .head hmove (ackSent_moves rfl)

theorem answered_move {κ : SendCause} {c : Conn} {g : Seg} (hseg : κ.seg = some g)
    (hout : c.out = []) (hst : c.tcb.state = .synRcvd) (hlo : seqLt c.tcb.sndUna g.ack = true)
    (hhi : seqLe g.ack c.tcb.sndNxt = true) :
    SendMove κ c.send (tcpEstablish (c.setUna g.ack) g).send := by
  rw [tcpEstablish_send]
  exact SendMove.establish c.send g hseg (Or.inr hst) hout ((seqLt_iff_rev _ _).mp hlo)
    (ack_not_beyond hhi)

/-- Moves never leave ESTABLISHED while no FIN of the peer can be consumed. -/
theorem SendMoves.established {κ : SendCause} {s s' : SendView} (h : SendMoves κ s s')
    (hfin : ∀ s, ¬ κ.finAt s) (hs : s.state = .established) : s'.state = .established := by
  refine SendMoves.invariant (P := fun s => s.state = .established) ?_ h hs
  intro s s' hmove hst
  cases hmove with
  | rxFin hat => exact absurd hat (hfin s)
  | output hout => cases hout <;> exact hst
  | ack g _ _ _ _ _ _ =>
    change ackedState _ s.state = .established
    rw [hst]
    cases s.finAcked g.ack <;> rfl
  | synRcvd hsyn => rw [hsyn] at hst; cases hst
  | establish => rfl
  | _ => exact hst

/-- The connection as the eighth step finds it, the acknowledgement, the window
and the text of the segment having been processed. -/
def atFinStep (now : Nat) (g : Seg) (c : Conn) : Conn :=
  tcpInputText now g (tcpInputSend now g c)

/-- What a segment offers before its FIN is looked at. -/
def ackCause (g : Seg) : SendCause where
  seg := some g
  ackAt := fun _ => True
  finAt := fun _ => False

theorem atFinStep_moves (hout : c.out = [])
    (hsync : c.tcb.state ≠ .synSent ∧ c.tcb.state ≠ .synRcvd)
    (hle : seqGt g.ack c.tcb.sndNxt = false) :
    SendMoves (ackCause g) c.send (atFinStep now g c).send :=
  (tcpInputSend_moves now g c ⟨rfl, fun _ => trivial, hout, hsync⟩ hle).trans
    (tcpInputText_moves now g _)

/-- The segment that completed the handshake is then processed as in
ESTABLISHED, where it acknowledges nothing further. -/
theorem tcpInputSynced_established_moves (hseg : κ.seg = some g) (hout : c.out = [])
    (hst : c.tcb.state = .established) (huna : c.tcb.sndUna = g.ack)
    (hfin : ∀ s : SendView, s.state = .established → κ.finAt s) :
    SendMoves κ c.send (tcpInputSynced now g c).send := by
  have hsync : c.tcb.state ≠ .synSent ∧ c.tcb.state ≠ .synRcvd := by
    rw [hst]
    exact ⟨by decide, by decide⟩
  refine tcpInputSynced_moves now g c ⟨hseg, ?_, hout, hsync⟩ ?_
  · intro hgt
    rw [huna, seqGt_iff, UInt32.sub_self] at hgt
    exact absurd hgt.1 (by decide)
  · intro hle _
    exact hfin _ ((atFinStep_moves now g c hout hsync hle).established (fun _ h => h) hst)

theorem tcpInputSynRcvd_moves (lroom : Option Bool) (g : Seg) (c : Conn) (hseg : κ.seg = some g)
    (hout : c.out = []) (hst : c.tcb.state = .synRcvd)
    (hfin : ∀ s : SendView, s.state = .established → κ.finAt s) :
    SendMoves κ c.send (tcpInputSynRcvd now lroom g c).send := by
  unfold tcpInputSynRcvd
  split
  · rename_i hin
    rw [Bool.and_eq_true] at hin
    apply Relation.ReflTransGen.head (answered_move hseg hout hst hin.1 hin.2)
    cases lroom with
    | none =>
      exact (tcpInputSynced_established_moves now g (tcpEstablish (c.setUna g.ack) g)
        hseg hout rfl rfl hfin).of_view rfl
    | some room =>
      cases room with
      | true =>
        exact (tcpInputSynced_established_moves now g
          { tcpEstablish (c.setUna g.ack) g with queued := true } hseg hout rfl rfl
            hfin).of_view rfl
      | false => exact SendMoves.of_onlyCtl ((tcpAppAbort_onlyCtl _).of_view rfl)
  · exact SendMoves.of_onlyCtl (tcpSendResetFor_onlyCtl c g)

theorem tcpSimultaneousOpen_moves (hst : c.tcb.state = .synSent) :
    SendMoves κ c.send (tcpSimultaneousOpen now c).send := by
  unfold tcpSimultaneousOpen
  simp only [tcpArmRto_send]
  exact .head (SendMove.synRcvd c.send hst)
    (SendMoves.of_onlyCtl (tcpSendCtl_onlyCtl (c.setState .synRcvd) _ (by decide)))

/-- A SYN in SYN_SENT that got past the check of its acknowledgement: with an
acknowledgement it completes the handshake, without one both sides opened. -/
theorem tcpSynSentSyn_eq (huna : c.tcb.sndUna = c.tcb.iss)
    (hack : g.has tcpAck = true → seqLe g.ack c.tcb.iss = false) :
    tcpSynSentSyn now g c =
      if g.has tcpAck then tcpSendCtl (tcpEstablish ((tcpTakeSyn g c).setUna g.ack) g) tcpAck
      else tcpSimultaneousOpen now (tcpTakeSyn g c) := by
  have hview := tcpTakeSyn_send g c
  have huna' : (tcpTakeSyn g c).tcb.sndUna = c.tcb.sndUna := congrArg SendView.una hview
  have hiss' : (tcpTakeSyn g c).tcb.iss = c.tcb.iss := congrArg SendView.iss hview
  unfold tcpSynSentSyn
  simp only
  by_cases ha : g.has tcpAck = true
  · have hlo : ¬ seqLe g.ack c.tcb.iss = true := by simp [hack ha]
    have hgt : seqGt ((tcpTakeSyn g c).setUna g.ack).tcb.sndUna
        ((tcpTakeSyn g c).setUna g.ack).tcb.iss = true := by
      change seqGt g.ack (tcpTakeSyn g c).tcb.iss = true
      rw [seqLe_iff] at hlo
      rw [hiss', seqGt_iff]
      omega
    rw [if_pos ha, if_pos hgt, if_pos ha]
  · have hgt : ¬ seqGt (tcpTakeSyn g c).tcb.sndUna (tcpTakeSyn g c).tcb.iss = true := by
      rw [huna', hiss', huna, seqGt_iff, UInt32.sub_self]
      decide
    rw [if_neg ha, if_neg hgt, if_neg ha]

theorem tcpSynSentSyn_moves (hseg : κ.seg = some g) (hout : c.out = [])
    (hst : c.tcb.state = .synSent) (huna : c.tcb.sndUna = c.tcb.iss)
    (hack :
      g.has tcpAck = true → seqLe g.ack c.tcb.iss = false ∧ seqGt g.ack c.tcb.sndNxt = false) :
    SendMoves κ c.send (tcpSynSentSyn now g c).send := by
  have hview := tcpTakeSyn_send g c
  rw [tcpSynSentSyn_eq now g c huna (fun ha => (hack ha).1)]
  split
  · rename_i ha
    exact opened_moves hseg hout hst huna (hack ha).1 (hack ha).2
  · exact (tcpSimultaneousOpen_moves now (tcpTakeSyn g c)
      ((congrArg SendView.state hview).trans hst)).of_view hview

theorem tcpInputSynSent_moves (hseg : κ.seg = some g) (hout : c.out = [])
    (hst : c.tcb.state = .synSent) (huna : c.tcb.sndUna = c.tcb.iss) :
    SendMoves κ c.send (tcpInputSynSent now g c).send := by
  unfold tcpInputSynSent
  split
  · split
    · exact .refl
    · exact SendMoves.of_onlyCtl (tcpSendResetFor_onlyCtl c g)
  rename_i hbad
  split
  · split <;> exact .refl
  split
  · refine tcpSynSentSyn_moves now g c hseg hout hst huna ?_
    intro ha
    simpa [ha] using hbad
  · exact .refl

theorem tcpInputRst_onlyCtl : OnlyCtl c.send (tcpInputRst g c).send := by
  unfold tcpInputRst
  simp only
  split
  · split <;> exact OnlyCtl.refl _
  · exact ackSent_onlyCtl rfl

/-- The segment passes every check before the fifth step. -/
def reachesAck (t : Tcb) (g : Seg) : Bool :=
  segAcceptable t g && !g.has tcpRst && !g.has tcpSyn && g.has tcpAck && !seqGt g.ack t.sndNxt

/-- What a segment offers the sending side of the connection it reaches. Its
acknowledgement takes effect before anything else, and its FIN after its
acknowledgement, window and text. -/
def segCause (now : Nat) (g : Seg) (c : Conn) : SendCause where
  seg := some g
  ackAt := fun s => s = c.send
  finAt := fun s => s.state = .finWait1 →
    s = (atFinStep now g c).send ∧ (c.tcb.state ≠ .synSent ∧ c.tcb.state ≠ .synRcvd) ∧
      reachesAck c.tcb g = true ∧ finInOrder (atFinStep now g c).tcb g = true

theorem tcpInputConn_moves (lroom : Option Bool) (g : Seg) (c : Conn) (hout : c.out = [])
    (huna : c.tcb.state = .synSent → c.tcb.sndUna = c.tcb.iss) :
    SendMoves (segCause now g c) c.send (tcpInputConn now lroom g c).send := by
  unfold tcpInputConn
  split
  · rename_i hst
    exact tcpInputSynSent_moves now g c rfl hout hst (huna hst)
  rename_i hsent
  split
  · simp only
    split
    · exact .refl
    · exact ackSent_moves rfl
  rename_i hacc
  split
  · exact SendMoves.of_onlyCtl (tcpInputRst_onlyCtl g c)
  rename_i hrst
  split
  · exact ackSent_moves rfl
  rename_i hsyn
  split
  · exact .refl
  rename_i hack
  split
  · rename_i hst
    refine tcpInputSynRcvd_moves now lroom g c rfl hout hst ?_
    intro s hs hfw
    rw [hs] at hfw
    cases hfw
  · rename_i hrcvd
    refine tcpInputSynced_moves now g c ⟨rfl, fun _ => rfl, hout, hsent, hrcvd⟩ ?_
    intro hle hfin _
    refine ⟨rfl, ⟨hsent, hrcvd⟩, ?_, hfin⟩
    simp only [Bool.not_eq_true', Bool.not_eq_false, Bool.not_eq_true] at hacc hrst hsyn hack
    simp [reachesAck, hacc, hrst, hsyn, hack, hle]

/-! ### Timer -/

theorem tcpRtoRetransmit_moves : SendMoves κ c.send (tcpRtoRetransmit now c).send := by
  have htimer (c' : Conn) (n : Nat) :
      { c' with tcb := { c'.tcb with rtoDeadline := n } }.send = c'.send := rfl
  have hback : { c with tcb := rtoBackoff c.tcb }.send = c.send := by
    unfold rtoBackoff
    simp only
    split <;> rfl
  unfold tcpRtoRetransmit
  simp only [htimer]
  exact (tcpRetransmit_moves _).of_view hback

theorem countTimeout_send : (countTimeout c).send = c.send := rfl

theorem tcpRtoFire_moves : SendMoves κ c.send (tcpRtoFire now c).send := by
  unfold tcpRtoFire
  split
  · rw [tcpConnError_send]
    exact SendMoves.of_onlyCtl (resetSent_onlyCtl (by rw [Conn.count_send, countTimeout_send]))
  · exact (tcpRtoRetransmit_moves now _).of_view (countTimeout_send c)

theorem tcpTickProbe_moves (hseg : κ.seg = none) :
    SendMoves κ c.send (tcpTickProbe now c).send := by
  unfold tcpTickProbe
  split
  · rename_i hwants
    simp only [wantsProbe, Bool.and_eq_true, decide_eq_true_eq] at hwants
    obtain ⟨⟨⟨⟨-, hlen⟩, hwnd⟩, hidle⟩, hst⟩ := hwants
    simp only [tcpArmRto_send]
    exact SendMoves.single (tcpSendProbe_move (c.count .tcpZeroWndProbes) hst hlen hidle hwnd hseg)
  · exact .refl

theorem tcpTickDelack_moves : SendMoves κ c.send (tcpTickDelack now c).send := by
  unfold tcpTickDelack
  split
  · exact ackSent_moves rfl
  · exact .refl

theorem tcpTickConn_moves (hseg : κ.seg = none) : SendMoves κ c.send (tcpTickConn now c).send := by
  unfold tcpTickConn
  split
  · split <;> exact .refl
  split
  · exact tcpRtoFire_moves now c
  · exact (tcpTickProbe_moves now c hseg).trans (tcpTickDelack_moves now _)

/-! ### Application -/

namespace SendView

/-- The sending side with `xs` copied behind the bytes in the ring. -/
def append (s : SendView) (xs : List UInt8) : SendView :=
  { s with
    buf := RingBuf.write tcpSndbuf s.buf ((s.head + s.len).toNat % tcpSndbuf) xs
    len := s.len + UInt32.ofNat xs.length }

def closed (s : SendView) : SendView :=
  match s.state with
  | .synRcvd | .established => { s with state := .finWait1, finQueued := true }
  | .closeWait => { s with state := .lastAck, finQueued := true }
  | _ => s

theorem append_nil (s : SendView) : s.append [] = s := by
  simp [append, RingBuf.write_nil]

end SendView

theorem sndAppend_send (xs : List UInt8) (c : Conn) : (sndAppend xs c).send = c.send.append xs :=
  rfl

theorem queueFin_send (st : TcpState) (c : Conn) :
    (queueFin st c).send = { c.send with state := st, finQueued := true } := rfl

theorem tcpAppClose_outMoves (now : Nat) (c : Conn) :
    OutMoves c.send.closed (tcpAppClose now c).send := by
  have hstate : c.send.state = c.tcb.state := rfl
  have hqueue (st : TcpState) :
      OutMoves { c.send with state := st, finQueued := true }
        (tcpOutput now (queueFin st c)).send := by
    rw [← queueFin_send]
    exact tcpOutput_outMoves now _
  unfold tcpAppClose SendView.closed
  rw [hstate]
  cases c.tcb.state with
  | synRcvd | established | closeWait => exact hqueue _
  | _ => exact .refl

theorem pfRecvCopy_onlyCtl (cap : Nat) (c : Conn) : OnlyCtl c.send (pfRecvCopy cap c).send := by
  have hview (n : UInt32) : (rcvRelease n c).send = c.send := rfl
  unfold pfRecvCopy
  split
  · unfold announceWindow
    split
    · exact ackSent_onlyCtl (hview _)
    · exact OnlyCtl.of_eq (hview _)
  · exact OnlyCtl.refl _

/-- A round of `pf_send` appends its bytes, then runs `tcp_output`. -/
theorem pfSendCopy_outMoves (now : Nat) (data : List UInt8) (c : Conn) (halive : c.fate = .alive) :
    OutMoves (c.send.append (appended c (.send now data))) (pfSendCopy now data c).send := by
  unfold pfSendCopy
  split
  · rename_i hskip
    have hnone : appended c (.send now data) = [] := by
      simp only [appended]
      split
      · rename_i hcan
        simp only [Bool.or_eq_true, Bool.not_eq_true', decide_eq_true_eq, List.isEmpty_iff,
          Bool.and_eq_true] at hskip hcan
        rcases hskip with (hempty | hno) | hfull
        · simp [hempty]
        · rw [hcan.2] at hno
          cases hno
        · have hzero : sendAmount c.tcb data = 0 := by
            apply UInt32.toNat_inj.mp
            rw [sendAmount, pfMin_toNat, hfull]
            exact Nat.min_zero _
          simp [hzero]
      · rfl
    rw [hnone, SendView.append_nil]
  · rename_i hgo
    simp only [Bool.or_eq_true, Bool.not_eq_true', not_or, Bool.not_eq_false] at hgo
    have hsome : appended c (.send now data) = data.take (sendAmount c.tcb data).toNat := by
      simp [appended, halive, hgo.1.2]
    rw [hsome, ← sndAppend_send]
    exact tcpOutput_outMoves now _

/-! ### Events -/

/-- The sending side an event starts its moves from. -/
def eventView (c : Conn) (e : ConnEvent) : SendView :=
  match e with
  | .send _ _ => (Conn.start c.tcb c.stats).send.append (appended c e)
  | .close _ => (Conn.start c.tcb c.stats).send.closed
  | _ => (Conn.start c.tcb c.stats).send

def eventCause (c : Conn) (e : ConnEvent) : SendCause :=
  match e with
  | .segment now _ g => segCause now g (Conn.start c.tcb c.stats)
  | _ => .internal

/-- Every event is a sequence of moves of the sending side, after the bytes of
`pf_send` were appended or the FIN of a close queued. -/
theorem connStep_moves (c : Conn) (e : ConnEvent) (halive : c.fate = .alive)
    (huna : c.tcb.state = .synSent → c.tcb.sndUna = c.tcb.iss) :
    SendMoves (eventCause c e) (eventView c e) (connStep c e).send := by
  simp only [connStep, halive]
  cases e with
  | segment now lroom g => exact tcpInputConn_moves now lroom g _ rfl huna
  | tick now => exact tcpTickConn_moves now _ rfl
  | send now data =>
    have happ : appended c (.send now data) =
        appended (Conn.start c.tcb c.stats) (.send now data) := by
      simp [appended, halive, Conn.start]
    simp only [eventView, happ]
    exact SendMoves.of_output (pfSendCopy_outMoves now data _ rfl)
  | recv cap => exact SendMoves.of_onlyCtl (pfRecvCopy_onlyCtl cap _)
  | close now => exact SendMoves.of_output (tcpAppClose_outMoves now _)
  | nodelay on => exact .refl
  | attach sock => exact .refl

end PacketForge
