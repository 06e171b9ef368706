import PacketForge.Tcp.Flight
import PacketForge.Tcp.ReceiverRun

/-!
The connection state against the FIN bookkeeping. The eleven states of the
code are a summary of four facts: whether the application closed, whether our
FIN was sent and acknowledged, and whether the peer's FIN was consumed. One
segment may settle several of these at once, so the two directions are treated
apart: what the state says about the peer's FIN is a fact of the receiving
side, and what it says about ours is a fact of the sending side.
-/

namespace PacketForge

/-- Our FIN was sent, and all we sent is acknowledged. -/
def finDone (t : Tcb) : Bool := t.finSent && t.sndUna = t.sndNxt

/-- What the state of a connection says about the two FINs. -/
def FinBook (t : Tcb) : Prop :=
  match t.state with
  | .established => t.finQueued = false ∧ t.rcvEof = false
  | .closeWait => t.finQueued = false ∧ t.rcvEof = true
  | .finWait1 => t.finQueued = true ∧ t.rcvEof = false ∧ finDone t = false
  | .finWait2 => t.finQueued = true ∧ t.rcvEof = false ∧ finDone t = true
  | .closing | .lastAck => t.finQueued = true ∧ t.rcvEof = true ∧ finDone t = false
  | .timeWait => t.finQueued = true ∧ t.rcvEof = true ∧ finDone t = true
  | .closed | .listen | .synSent | .synRcvd => t.rcvEof = false

/-! ### Our FIN -/

def SendView.finDone (s : SendView) : Bool := s.finSent && s.una = s.nxt

/-- What the state says about our FIN, and during the handshake about the ring. -/
structure FinStates (s : SendView) : Prop where
  queued : s.finSent = true → s.finQueued = true
  opening : s.state = .synSent ∨ s.state = .synRcvd → s.finQueued = false ∧ s.len = 0
  opened : s.state = .established ∨ s.state = .closeWait → s.finQueued = false
  waiting : s.state = .finWait1 ∨ s.state = .closing ∨ s.state = .lastAck →
    s.finQueued = true ∧ s.finDone = false
  done : s.state = .finWait2 ∨ s.state = .timeWait → s.finQueued = true ∧ s.finDone = true

namespace FinStates

variable {s s' : SendView}

theorem congr (h : FinStates s) (hst : s'.state = s.state) (hq : s'.finQueued = s.finQueued)
    (hsent : s'.finSent = true → s'.finQueued = true) (hlen : s'.len = s.len)
    (hd : s'.finDone = s.finDone) : FinStates s' := by
  refine ⟨hsent, ?_, ?_, ?_, ?_⟩ <;> rw [hst, hq]
  · rw [hlen]
    exact h.opening
  · exact h.opened
  · rw [hd]
    exact h.waiting
  · rw [hd]
    exact h.done

theorem unsent (h : FinStates s) (hq : s.finQueued = false) : s.finSent = false := by
  cases hsent : s.finSent with
  | false => rfl
  | true => exact absurd (hq.symm.trans (h.queued hsent)) Bool.false_ne_true

/-- Who may still send has not had its FIN acknowledged. -/
theorem not_done (h : FinStates s) (hst : s.state.sends = true) (hidle : s.una = s.nxt) :
    s.finSent = false := by
  have hwaiting (hw : s.state = .finWait1 ∨ s.state = .closing ∨ s.state = .lastAck) :
      s.finSent = false := by
    have hd := (h.waiting hw).2
    simpa [SendView.finDone, hidle] using hd
  cases hs : s.state <;> rw [hs] at hst
  case established => exact h.unsent (h.opened (Or.inl hs))
  case closeWait => exact h.unsent (h.opened (Or.inr hs))
  case finWait1 => exact hwaiting (Or.inl hs)
  case lastAck => exact hwaiting (Or.inr (Or.inr hs))
  all_goals cases hst

theorem rxFin (h : FinStates s) (ht : s.state.takesData = true) :
    FinStates { s with state := rxFinState s.state } := by
  have hopened := h.opened
  have hwaiting := h.waiting
  have hdone := h.done
  cases hst : s.state <;> rw [hst] at hopened hwaiting hdone ht
  case established =>
    exact ⟨h.queued, by simp [rxFinState], fun _ => hopened (Or.inl rfl), by simp [rxFinState],
      by simp [rxFinState]⟩
  case finWait1 =>
    exact ⟨h.queued, by simp [rxFinState], by simp [rxFinState], fun _ => hwaiting (Or.inl rfl),
      by simp [rxFinState]⟩
  case finWait2 =>
    exact ⟨h.queued, by simp [rxFinState], by simp [rxFinState], by simp [rxFinState],
      fun _ => hdone (Or.inl rfl)⟩
  all_goals cases ht

end FinStates

variable {s s' : SendView} {c d : Conn} {e : ConnEvent}

theorem SendView.finDone_of_unsent (h : s.finSent = false) : s.finDone = false := by
  simp [SendView.finDone, h]

/-- Moves that acknowledge nothing keep what the state says about our FIN: data is only
sent before the FIN, and the FIN itself is then in flight. -/
theorem SendMove.finStates {κ : SendCause} (hmove : SendMove κ s s') (hquiet : ∀ s, ¬ κ.ackAt s)
    (hf : Flight s) (h : FinStates s) : FinStates s' := by
  cases hmove with
  | output hout =>
    cases hout with
    | data g n hstate hfin hpos havail hwnd hg =>
      refine h.congr rfl rfl h.queued rfl ?_
      rw [SendView.finDone_of_unsent hfin]
      exact SendView.finDone_of_unsent hfin
    | fin g hstate hq hfin hall hg =>
      refine h.congr rfl rfl (fun _ => hq) rfl ?_
      rw [SendView.finDone_of_unsent hfin]
      simpa [SendView.finDone] using hf.next_ne
  | probe g hstate hlen hidle hwnd hseg hg =>
    have hun := h.not_done hstate hidle
    refine h.congr rfl rfl h.queued rfl ?_
    rw [SendView.finDone_of_unsent hun]
    exact SendView.finDone_of_unsent hun
  | ack g hseg hat => exact absurd hat (hquiet s)
  | rxFin hat ht => exact h.rxFin ht
  | synRcvd hst => exact ⟨h.queued, fun _ => h.opening (Or.inl hst), by simp, by simp, by simp⟩
  | establish g hseg hst =>
    exact ⟨h.queued, by simp, fun _ => (h.opening hst).1, by simp, by simp⟩
  | ctl | rtxData | rtxFin | wnd => exact h.congr rfl rfl h.queued rfl rfl

theorem SendMoves.finStates {κ : SendCause} (hm : SendMoves κ s s') (hquiet : ∀ s, ¬ κ.ackAt s)
    (hf : Flight s) (h : FinStates s) : FinStates s' := by
  have hboth : Flight s' ∧ FinStates s' := by
    refine SendMoves.invariant (P := fun s => Flight s ∧ FinStates s) ?_ hm ⟨hf, h⟩
    rintro x x' hmove ⟨hx, hfin⟩
    exact ⟨hmove.flight hx, hmove.finStates hquiet hx hfin⟩
  exact hboth.2

/-- An acknowledgement of something new finds our FIN unacknowledged, and moves
the state on exactly if it covers the FIN. -/
theorem FinStates.acked (h : FinStates s) {x : UInt32}
    (hsync : s.state ≠ .synSent ∧ s.state ≠ .synRcvd) (hgt : seqGt x s.una = true)
    (hle : seqGt x s.nxt = false) (hlast : ¬ (s.finAcked x = true ∧ s.state = .lastAck)) :
    FinStates { s.acked x with state := ackedState (s.finAcked x) s.state } := by
  have hopened := h.opened
  have hwaiting := h.waiting
  have hopening (hst : ackedState (s.finAcked x) s.state = .synSent ∨
      ackedState (s.finAcked x) s.state = .synRcvd) : False :=
    not_or_intro (ackedState_sync hsync).1 (ackedState_sync hsync).2 hst
  have hdone' : ¬ (s.state = .finWait2 ∨ s.state = .timeWait) := by
    intro hst
    have hd := (h.done hst).2
    simp only [SendView.finDone, Bool.and_eq_true, decide_eq_true_eq] at hd
    rw [hd.2, hle] at hgt
    cases hgt
  have hnew : (SendView.finDone { s.acked x with state := ackedState (s.finAcked x) s.state }) =
      s.finAcked x := rfl
  cases hfin : s.finAcked x with
  | false =>
    rw [hfin] at hnew hopening
    exact ⟨h.queued, fun hst => absurd hst hopening, hopened,
      fun hst => ⟨(hwaiting hst).1, hnew⟩, fun hst => absurd hst hdone'⟩
  | true =>
    rw [hfin] at hnew hopening
    have hq : s.finQueued = true := by
      simp only [SendView.finAcked, Bool.and_eq_true] at hfin
      exact h.queued hfin.1
    have hclosed : ¬ (s.state = .established ∨ s.state = .closeWait) := by
      intro hst
      rw [hopened hst] at hq
      cases hq
    have hstill (hst : ackedState true s.state = .established ∨
        ackedState true s.state = .closeWait) : False := hclosed (ackedState_open hst)
    refine ⟨h.queued, fun hst => absurd hst hopening, fun hst => absurd hst hstill, ?_,
      fun _ => ⟨hq, hnew⟩⟩
    -- FIN_WAIT_1 and CLOSING have moved on, and LAST_ACK is excluded
    intro hst
    cases hs : s.state <;> simp_all [ackedState]

/-- A close finds the stream open, so that our FIN is still unsent. -/
theorem FinStates.queueFin {st : TcpState} (h : FinStates c.send)
    (hst : ClosesTo c.tcb.state st) : FinStates (queueFin st c).send := by
  have hnq : c.send.finQueued = false := by
    cases hs : c.tcb.state <;> rw [hs] at hst <;> cases hst
    · exact (h.opening (Or.inr hs)).1
    · exact h.opened (Or.inl hs)
    · exact h.opened (Or.inr hs)
  have hun := h.unsent hnq
  rw [queueFin_send]
  have htarget := hst.target
  refine ⟨fun _ => rfl, ?_, ?_, fun _ => ⟨rfl, SendView.finDone_of_unsent hun⟩, ?_⟩
  all_goals rintro (rfl | rfl) <;> simp at htarget

theorem SendStage.finStates (h : SendStage e c d) (hf : Flight c.send) (hs : FinStates c.send) :
    FinStates d.send := by
  cases h with
  | quiet e κ hquiet hmoves => exact hmoves.finStates hquiet hf hs
  | acked now lroom g hsync hempty hgt hle hlast =>
    rw [finAckedNew_send]
    exact hs.acked hsync hgt hle hlast
  | append now data hempty hcan =>
    have hopen := (canAppend_iff _).mp hcan
    have hring (buf : Nat → UInt8) (len : UInt32) :
        FinStates { c.send with buf := buf, len := len } := by
      refine ⟨hs.queued, fun hst => ?_, hs.opened, hs.waiting, hs.done⟩
      have hst' : c.tcb.state = .synSent ∨ c.tcb.state = .synRcvd := hst
      rcases hopen with ho | ho <;> rw [ho] at hst' <;> simp at hst'
    exact hring _ _
  | close now st hempty hst => exact hs.queueFin hst

theorem Act.finStates (h : Act e c d) (hf : Flight c.send) (hs : FinStates c.send) :
    FinStates d.send :=
  (h.sendStage hf.synWaits).finStates hf hs

theorem Stage.finStates (h : Stage e c d) (hf : Flight c.send) (hs : FinStates c.send) :
    FinStates d.send := by
  refine (Acts.invariant (P := fun c => Flight c.send ∧ FinStates c.send) ?_ h.acts ⟨hf, hs⟩).2
  rintro x y hact ⟨hx, hfin⟩
  exact ⟨hact.flight hx, hact.finStates hx hfin⟩

/-! ### The peer's FIN -/

/-- The end of the peer's stream is noted exactly in the states past its FIN. -/
def EofState (v : RecvView) : Prop := v.eof = v.state.pastFin

theorem ClosesTo.pastFin {st st' : TcpState} (h : ClosesTo st st') : st'.pastFin = st.pastFin := by
  cases h <;> rfl

theorem SameStream.eofState {v v' : RecvView} (h : SameStream v v') (hv : EofState v) :
    EofState v' := by
  rw [EofState, h.eof, h.state]
  exact hv

theorem RecvStage.eofState {v : RecvView} (h : RecvStage c v) (hc : EofState c.recv) :
    EofState v := by
  have hc' : c.tcb.rcvEof = c.tcb.state.pastFin := hc
  cases h with
  | same => exact hc
  | syn st g hst hst' =>
    have hno : c.tcb.rcvEof = false := by rw [hc', hst]; rfl
    rcases hst' with rfl | rfl <;> exact hno
  | answered hst =>
    have hno : c.tcb.rcvEof = false := by rw [hc', hst]; rfl
    exact hno
  | acked g hsync hgt hle hlast => exact hc'.trans (ackedState_pastFin _ _).symm
  | text data hst hpos hfit =>
    exact ((rcvAppend_same c data).trans (oooDrainLoop_same _ _)).eofState hc
  | park => exact hc
  | fin g hfin =>
    simp only [finInOrder, Bool.and_eq_true, Bool.or_eq_true, decide_eq_true_eq] at hfin
    rcases hfin.2 with ht | ht
    · exact (rxFinState_pastFin ht).symm
    · change true = (rxFinState c.tcb.state).pastFin
      rw [ht]
      rfl
  | close st hst => exact hc'.trans hst.pastFin.symm
  | read => exact hc

/-! ### Whole runs -/

theorem FinBook.of_sides (hf : FinStates c.send) (he : EofState c.recv) : FinBook c.tcb := by
  have heof : c.tcb.rcvEof = c.tcb.state.pastFin := he
  have hopened : c.tcb.state = .established ∨ c.tcb.state = .closeWait → c.tcb.finQueued = false :=
    hf.opened
  have hwaiting : c.tcb.state = .finWait1 ∨ c.tcb.state = .closing ∨ c.tcb.state = .lastAck →
      c.tcb.finQueued = true ∧ finDone c.tcb = false := hf.waiting
  have hdone : c.tcb.state = .finWait2 ∨ c.tcb.state = .timeWait →
      c.tcb.finQueued = true ∧ finDone c.tcb = true := hf.done
  unfold FinBook
  cases hst : c.tcb.state <;> rw [hst] at heof hopened hwaiting hdone <;>
    simp_all [TcpState.pastFin]

theorem Opened.finStates (h : Opened c) : FinStates c.send := by
  have hu := (h.sendOk.unopened h.state).2
  have hst : c.send.state = .synSent ∨ c.send.state = .synRcvd := h.state
  refine ⟨fun hsent => ?_, fun _ => ⟨hu.queued, hu.len⟩, ?_, ?_, ?_⟩
  · exact absurd (hu.finSent.symm.trans hsent) Bool.false_ne_true
  all_goals intro hs; rcases hst with hst | hst <;> rw [hst] at hs <;> simp at hs

theorem Opened.eofState (h : Opened c) : EofState c.recv := by
  rcases h.recvOk [] with hb | hr
  · rw [EofState, hb.eof, hb.state]
    rfl
  · exact hr.eof_state

theorem SendHist.Reach.finBook {h : SendHist} (hr : SendHist.Reach h)
    (halive : h.conn.fate = .alive) : FinBook h.conn.tcb := by
  have hboth : FinStates h.conn.send ∧ EofState h.conn.recv := by
    refine SendHist.Reach.live (P := fun c => FinStates c.send ∧ EofState c.recv) ?_ ?_ ?_ hr halive
    · exact fun c hopen => ⟨hopen.finStates, hopen.eofState⟩
    · rintro c ⟨hf, he⟩
      exact ⟨hf.congr rfl rfl hf.queued rfl rfl, he⟩
    · rintro e c d hstage hf ⟨hs, he⟩
      exact ⟨hstage.finStates hf hs, Acts.invariant (P := fun c => EofState c.recv)
        (fun _ _ hact he => hact.recvStage.eofState he) hstage.acts he⟩
  exact FinBook.of_sides hboth.1 hboth.2

/-! ### How LAST_ACK ends -/

/-- In LAST_ACK a segment without RST frees the block only if it acknowledges
our FIN, and it does nothing else then. -/
theorem lastAck_freed (hst : c.tcb.state = .lastAck) (hstart : c = Conn.start c.tcb c.stats)
    (now : Nat) (lroom : Option Bool) {g : Seg} (hrst : g.has tcpRst = false)
    (hend : (tcpInputConn now lroom g c).fate ≠ .alive) :
    finAcked c.tcb g.ack = true ∧
      tcpInputConn now lroom g c = (ackNew now g.ack c).free .none := by
  have hends : Ends (.segment now lroom g) c (tcpInputConn now lroom g c) := by
    rw [hstart] at hend ⊢
    exact connHandle_ends (e := .segment now lroom g) hend
  generalize tcpInputConn now lroom g c = d at hends
  cases hends with
  | refused _ _ _ hsent =>
    rw [hst] at hsent
    cases hsent
  | reset _ _ _ _ _ hat =>
    simp only [resetAt, hrst, Bool.and_false, Bool.false_and, Bool.false_eq_true] at hat
  | full _ _ hrcvd =>
    rw [hst] at hrcvd
    cases hrcvd
  | lastAck _ _ _ _ _ hfin => exact ⟨hfin, rfl⟩

/-- The state agrees with the FIN bookkeeping in every run, and neither
TIME_WAIT nor the end of LAST_ACK comes before both FINs were exchanged. -/
theorem state_agrees_with_fins {h : SendHist} (hr : SendHist.Reach h)
    (halive : h.conn.fate = .alive) :
    FinBook h.conn.tcb ∧
    (∀ e, CloseAfterHandshake h.conn e → (connStep h.conn e).fate = .alive →
      (connStep h.conn e).tcb.state = .timeWait →
      (connStep h.conn e).tcb.rcvEof = true ∧ finDone (connStep h.conn e).tcb = true) ∧
    ∀ now lroom g, h.conn.tcb.state = .lastAck → g.has tcpRst = false →
      (connStep h.conn (.segment now lroom g)).fate ≠ .alive →
      (connStep h.conn (.segment now lroom g)).fate = .freed .none ∧
        (connStep h.conn (.segment now lroom g)).tcb.rcvEof = true ∧
        finDone (connStep h.conn (.segment now lroom g)).tcb = true := by
  refine ⟨hr.finBook halive, ?_, ?_⟩
  · intro e hclose hlive hst
    have hnext : SendHist.Reach (h.step e) := .next hr e hclose
    have hbook : FinBook (connStep h.conn e).tcb := SendHist.Reach.finBook hnext hlive
    rw [FinBook, hst] at hbook
    exact hbook.2
  · intro now lroom g hst hrst hend
    have hbook := hr.finBook halive
    rw [FinBook, hst] at hbook
    have heq : connStep h.conn (.segment now lroom g) =
        tcpInputConn now lroom g (Conn.start h.conn.tcb h.conn.stats) := by
      simp only [connStep, halive, connHandle]
    rw [heq] at hend ⊢
    obtain ⟨hfin, hfree⟩ := lastAck_freed (c := Conn.start h.conn.tcb h.conn.stats) hst rfl now
      lroom hrst hend
    have hview := ackNew_send now g.ack (Conn.start h.conn.tcb h.conn.stats)
    have hrecv := Conn.recv_of_noSend (ackNew_noSend now g.ack (Conn.start h.conn.tcb h.conn.stats))
    rw [hfree]
    refine ⟨rfl, (congrArg RecvView.eof hrecv).trans hbook.2.1, ?_⟩
    have hdone := congrArg SendView.finDone hview
    exact hdone.trans hfin

/-- A connection in LAST_ACK: the peer closed first, then we did, and our FIN
is in flight. -/
def lastAckHist : SendHist :=
  ((establishedHist 1000).step (.segment 2 none (peerSeg (tcpFin ||| tcpAck) 301 101 1000))).step
    (.close 3)

theorem lastAckHist_reach : SendHist.Reach lastAckHist := by
  refine .next (.next (establishedHist_reach 1000) _ (CloseAfterHandshake.segment _ _ _ _)) _ ?_
  intro now _
  exact ⟨by decide +kernel, by decide +kernel⟩

/-- The acknowledgement of that FIN ends the connection, with both FINs
exchanged. -/
theorem state_agrees_with_fins_last_ack :
    let e : ConnEvent := .segment 4 none (peerSeg tcpAck 302 102 1000)
    lastAckHist.conn.tcb.state = .lastAck ∧ FinBook lastAckHist.conn.tcb ∧
      (connStep lastAckHist.conn e).fate = .freed .none ∧
      finDone (connStep lastAckHist.conn e).tcb = true := by
  have hall := state_agrees_with_fins lastAckHist_reach (by decide +kernel)
  have hst : lastAckHist.conn.tcb.state = .lastAck := by decide +kernel
  have hend := hall.2.2 4 none (peerSeg tcpAck 302 102 1000) hst (by decide +kernel)
    (by decide +kernel)
  exact ⟨hst, hall.1, hend.1, hend.2.2⟩

end PacketForge
