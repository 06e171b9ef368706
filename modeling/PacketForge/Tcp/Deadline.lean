import PacketForge.Tcp.Congestion
import PacketForge.Tcp.Timer

/-!
Connections without a deadline. After the application's close only the peer and the
timers can bring a block to its end, so a block whose peer falls silent must have a
timer running or be probing a closed window. A segment takes this from it in three
ways: it acknowledges our FIN and does not bring the peer's, which leads to FIN_WAIT_2;
it brings the peer's FIN to FIN_WAIT_1 before ours is sent; or it makes the congestion
window wrap. No tick and no call does.
-/

namespace PacketForge

/-- A timer of the block is running, or the next tick probes the peer's window. -/
def HasDeadline (t : Tcb) : Prop :=
  t.rtoDeadline ≠ 0 ∨ (t.state = .timeWait ∧ t.timewaitDeadline ≠ 0) ∨ wantsProbe t = true

/-! ### The states of a closed connection -/

/-- The states the application's close leads to, and those after them. -/
def TcpState.shut : TcpState → Bool
  | .closed | .finWait1 | .finWait2 | .closing | .lastAck | .timeWait => true
  | .listen | .synSent | .synRcvd | .established | .closeWait => false

theorem ackedState_shut (fin : Bool) (st : TcpState) : (ackedState fin st).shut = st.shut := by
  cases fin <;> cases st <;> rfl

theorem rxFinState_shut (st : TcpState) : (rxFinState st).shut = st.shut := by
  cases st <;> rfl

theorem SendMoves.shut {κ : SendCause} {s s' : SendView} (h : SendMoves κ s s') :
    s'.state.shut = s.state.shut := by
  refine SendMoves.invariant (P := fun x => x.state.shut = s.state.shut) ?_ h rfl
  intro x x' hmove hx
  rw [← hx]
  cases hmove with
  | ack => exact ackedState_shut _ _
  | rxFin => exact rxFinState_shut _
  | synRcvd hst =>
    rw [hst]
    rfl
  | establish g hseg hst => rcases hst with hst | hst <;> rw [hst] <;> rfl
  | output hout => cases hout <;> rfl
  | _ => rfl

theorem tcpAppClose_shut {now : Nat} {c : Conn} (halive : (tcpAppClose now c).fate = .alive) :
    (tcpAppClose now c).tcb.state.shut = true := by
  have hqueue (st : TcpState) : (tcpOutput now (queueFin st c)).tcb.state = st :=
    Conn.rest_state (tcpOutput_rest now (queueFin st c))
  unfold tcpAppClose at halive ⊢
  cases hst : c.tcb.state with
  | listen | synSent =>
    rw [hst] at halive
    cases halive
  | synRcvd | established | closeWait =>
    simp only
    rw [hqueue]
    rfl
  | closed | finWait1 | finWait2 | closing | lastAck | timeWait =>
    simp only
    rw [hst]
    rfl

/-! ### Blocks in order -/

/-- The timers of a connection are in order, it sends its FIN before it falls silent, and
its congestion window is open. -/
structure Orderly (t : Tcb) : Prop where
  timed : Timed t
  finFirst : FinFirst (Conn.start t Stats.zero).send
  sized : t.control.Sized
  cwnd : 0 < t.cwnd.toNat

theorem Opened.orderly {c : Conn} (h : Opened c) : Orderly c.tcb := by
  refine ⟨h.timed, h.finFirst.quiet _, ?_, ?_⟩
  · exact @ConnReach.sized (fun _ _ => True) c (.start h)
  · change 0 < c.tcb.control.cwnd.toNat
    have hfresh : 0 < Control.fresh.cwnd.toNat := by decide
    rcases h.control with hc | ⟨m, hc⟩ <;> rw [hc] <;> exact hfresh

/-- The owner of a connection is not among its timers and queues. -/
theorem Orderly.owned {t : Tcb} (h : Orderly t) (q : List (Fin tcpMaxConns))
    (sock : Option (Fin pfSockMax)) (l : Option (Fin tcpMaxConns)) :
    Orderly { t with acceptq := q, sockIdx := sock, listener := l } :=
  ⟨⟨⟨h.timed.clocked.flight, h.timed.clocked.armed, h.timed.clocked.lingers⟩, h.timed.fins,
    h.timed.flows⟩, h.finFirst, h.sized, h.cwnd⟩

/-- Of the states after the close only FIN_WAIT_2 has no deadline. -/
theorem Orderly.hasDeadline {t : Tcb} (h : Orderly t) (hshut : t.state.shut = true)
    (hst : t.state ≠ .finWait2) : HasDeadline t := by
  have hfins := h.timed.fins
  by_cases hidle : t.sndUna = t.sndNxt
  · -- our FIN is still to be sent, behind data that waits for the window
    have hprobe (hsends : t.state.sends = true) (hq : t.finQueued = true) : HasDeadline t := by
      have hunsent : Unsent t := Or.inr ⟨hq, hfins.not_done hsends hidle⟩
      exact Or.inr (Or.inr (h.timed.probed hsends hidle hunsent h.cwnd).2.2.2)
    cases hs : t.state with
    | finWait1 =>
      exact hprobe (by rw [hs]; rfl) (hfins.waiting (Or.inl hs)).1
    | lastAck =>
      exact hprobe (by rw [hs]; rfl) (hfins.waiting (Or.inr (Or.inr hs))).1
    | closing =>
      have hsent : t.finSent = true := h.finFirst.sent (Or.inl hs)
      have hdone : (t.finSent && t.sndUna = t.sndNxt) = false :=
        (hfins.waiting (Or.inr (Or.inl hs))).2
      simp [hsent, hidle] at hdone
    | timeWait => exact Or.inr (Or.inl ⟨hs, h.timed.clocked.lingers hs⟩)
    | finWait2 => exact absurd hs hst
    | closed => exact absurd hs h.finFirst.life.1
    | listen | synSent | synRcvd | established | closeWait =>
      rw [hs] at hshut
      cases hshut
  · exact Or.inl (fun hoff => hidle (h.timed.clocked.armed.timer.mpr hoff))

/-! ### Segments -/

/-- The segment acknowledges our FIN in FIN_WAIT_1 and is not the peer's FIN in order, or
it is the peer's FIN and ours is not sent yet, or the congestion window has come to the
end of its 32 bits. -/
def SegStrands (t : Tcb) (g : Seg) : Prop :=
  reachesAck t g = true ∧ t.state = .finWait1 ∧
      (t.finSent = true ∧ g.ack = t.sndNxt ∧
          ¬ (g.has tcpFin = true ∧ g.payload = [] ∧ g.seq = t.rcvNxt) ∨
        t.finSent = false ∧ g.has tcpFin = true) ∨
    2 ^ 32 ≤ t.cwnd.toNat + t.mss.toNat

instance (t : Tcb) (g : Seg) : Decidable (SegStrands t g) := inferInstanceAs (Decidable (_ ∨ _))

section Input

variable {now : Nat} {lroom : Option Bool} {g : Seg} {c : Conn}

/-- A segment that fails a check before the fifth step leaves our sending side alone. -/
theorem tcpInputConn_unreached (hsync : Synced c.tcb) (hun : reachesAck c.tcb g = false)
    (halive : (tcpInputConn now lroom g c).fate = .alive) :
    (tcpInputConn now lroom g c).noRecv = c.noRecv := by
  unfold tcpInputConn at halive ⊢
  rw [if_neg hsync.1] at halive ⊢
  split
  · simp only
    split
    · rfl
    · exact tcpSendCtl_noRecv _ _
  rename_i hacc
  rw [if_neg hacc] at halive
  split
  · rename_i hrst
    rw [if_pos hrst] at halive
    simp only [tcpInputRst] at halive ⊢
    split
    · rename_i hseq
      rw [if_pos hseq] at halive
      split at halive <;> cases halive
    · exact tcpSendCtl_noRecv _ _
  rename_i hrst
  split
  · exact tcpSendCtl_noRecv _ _
  rename_i hsyn
  split
  · rfl
  rename_i hack
  rw [if_neg hsync.2]
  have hbad : seqGt g.ack c.tcb.sndNxt = true := by
    by_contra hle
    simp_all [reachesAck]
  rw [tcpInputSynced, if_pos hbad]
  exact tcpSendCtl_noRecv _ _

/-- One that passes them has its acknowledgement, window, text and FIN processed. -/
theorem tcpInputConn_reached (hsync : Synced c.tcb) (hreach : reachesAck c.tcb g = true)
    (halive : (tcpInputConn now lroom g c).fate = .alive) :
    tcpInputConn now lroom g c = tcpInputFin now g (atFinStep now g c) := by
  simp only [reachesAck, Bool.and_eq_true, Bool.not_eq_true'] at hreach
  obtain ⟨⟨⟨⟨hacc, hrst⟩, hsyn⟩, hack⟩, hle⟩ := hreach
  have heq : tcpInputConn now lroom g c = tcpInputSynced now g c := by
    simp [tcpInputConn, hsync.1, hsync.2, hacc, hrst, hsyn, hack]
  rw [heq] at halive ⊢
  simp only [tcpInputSynced, hle, Bool.false_eq_true, if_false] at halive ⊢
  split
  · rfl
  · rename_i hend
    rw [if_neg hend] at halive
    exact absurd halive hend

/-- An empty FIN in order does not leave the connection in FIN_WAIT_2. -/
theorem tcpInputFin_finWait2 (hfin : g.has tcpFin = true) (hpay : g.payload = [])
    (hseq : g.seq = c.tcb.rcvNxt) :
    (tcpInputFin now g (atFinStep now g c)).tcb.state ≠ .finWait2 := by
  obtain ⟨st, -, hrecv⟩ := tcpInputSend_recv now g c
  have htext : atFinStep now g c = tcpInputSend now g c := by
    simp [atFinStep, tcpInputText, hpay]
  have hnxt : (tcpInputSend now g c).tcb.rcvNxt = c.tcb.rcvNxt := congrArg RecvView.nxt hrecv
  rw [htext, tcpInputFin]
  split
  · obtain ⟨x, -, hsend⟩ := tcpTakeFin_send now (g.seq + g.paylen) (tcpInputSend now g c)
    have hst := congrArg SendView.state hsend
    change _ = rxFinState (tcpInputSend now g c).tcb.state at hst
    intro hbad
    have hno : rxFinState (tcpInputSend now g c).tcb.state = .finWait2 := hst.symm.trans hbad
    cases hs : (tcpInputSend now g c).tcb.state <;> rw [hs] at hno <;> cases hno
  · rename_i hlate
    intro hbad
    apply hlate
    simp [finInOrder, hfin, hpay, Seg.paylen, hseq, hnxt, hbad, TcpState.takesData]

end Input

/-! ### Events -/

section Events

variable {t : Tcb} {st : Stats} {e : ConnEvent}

/-- A segment that does not strand the connection does not bring the peer's FIN too early,
and its growth of the congestion window fits. -/
theorem Orderly.handle (h : Orderly t)
    (hgood : ∀ now lroom g, e = .segment now lroom g → ¬ SegStrands t g)
    (halive : (connHandle (Conn.start t st) e).fate = .alive) :
    Orderly (connHandle (Conn.start t st) e).tcb := by
  have hclean : ¬ FinBeforeOurs (Conn.start t st) e := by
    intro hbad
    cases e with
    | segment now lroom g =>
      obtain ⟨-, hst, hun, hfin, hreach⟩ := hbad
      exact hgood now lroom g rfl (Or.inl ⟨hreach, hst, Or.inr ⟨hun, hfin⟩⟩)
    | tick | send | recv | close | nodelay | attach => exact hbad
  have hfits (now : Nat) (lroom : Option Bool) (g : Seg) (he : e = .segment now lroom g) :
      t.cwnd.toNat + t.mss.toNat < 2 ^ 32 := by
    by_contra hbig
    exact hgood now lroom g he (Or.inr (Nat.le_of_not_lt hbig))
  have hfirst : FinFirst (connHandle (Conn.start t st) e).send :=
    connStep_finFirst (c := Conn.start t st) h.timed.clocked.flight.synWaits
      (FinFirst.quiet (c := Conn.start t Stats.zero) h.finFirst st) e hclean
  refine ⟨connHandle_timed h.timed halive, hfirst.quiet _, ?_, connHandle_cwnd h.sized h.cwnd hfits⟩
  rw [connHandle_control]
  exact h.sized.foldl _

/-- The state changes of an event other than a close stay on one side of it. -/
theorem Orderly.handle_shut (h : Orderly t) (he : ∀ now, e ≠ .close now) :
    (connHandle (Conn.start t st) e).tcb.state.shut = t.state.shut := by
  have hview : (eventView (Conn.start t st) e).state = t.state := by
    cases e with
    | close now => exact absurd rfl (he now)
    | segment | tick | send | recv | nodelay | attach => rfl
  have hmoves := connStep_moves (Conn.start t st) e rfl h.timed.clocked.flight.synWaits
  exact hmoves.shut.trans (congrArg TcpState.shut hview)

/-- Only the acknowledgement of our FIN leads to FIN_WAIT_2. -/
theorem Orderly.handle_finWait2 (h : Orderly t) (hst : t.state ≠ .finWait2)
    (hbad : (connHandle (Conn.start t st) e).tcb.state = .finWait2) :
    ∃ now lroom g, e = .segment now lroom g ∧ t.state = .finWait1 ∧ t.finSent = true ∧
      g.ack = t.sndNxt := by
  have hmoves := connStep_moves (Conn.start t st) e rfl h.timed.clocked.flight.synWaits
  have hview : (eventView (Conn.start t st) e).state ≠ .finWait2 := by
    cases e with
    | close now =>
      change (Conn.start t st).send.closed.state ≠ .finWait2
      unfold SendView.closed
      split <;> first | exact hst | simp
    | segment | tick | send | recv | nodelay | attach => exact hst
  by_contra hno
  refine SendMoves.invariant (P := fun s => s.state ≠ .finWait2) ?_ hmoves hview hbad
  intro s s' hmove hs
  cases hmove with
  | ack g hseg hat hout hsync hgt hle =>
    intro hlast
    cases e with
    | segment now lroom g' =>
      cases hseg
      subst hat
      change ackedState (finAcked t g.ack) t.state = .finWait2 at hlast
      cases hfin : finAcked t g.ack with
      | false =>
        rw [hfin] at hlast
        exact hst hlast
      | true =>
        rw [hfin] at hlast
        simp only [finAcked, Bool.and_eq_true, decide_eq_true_eq] at hfin
        have hwas : t.state = .finWait1 := by
          cases hs : t.state <;> rw [hs] at hlast <;> first | rfl | cases hlast
          exact absurd hs hst
        exact hno ⟨now, lroom, g, rfl, hwas, hfin.1, hfin.2⟩
    | tick | send | recv | close | nodelay | attach => exact hat
  | rxFin hat ht =>
    intro hlast
    change rxFinState s.state = .finWait2 at hlast
    cases hs : s.state <;> rw [hs] at hlast <;> cases hlast
  | synRcvd => simp
  | establish => simp
  | output hout => cases hout <;> exact hs
  | _ => exact hs

theorem Orderly.not_finWait2 (h : Orderly t) (hst : t.state ≠ .finWait2)
    (hgood : ∀ now lroom g, e = .segment now lroom g → ¬ SegStrands t g)
    (halive : (connHandle (Conn.start t st) e).fate = .alive) :
    (connHandle (Conn.start t st) e).tcb.state ≠ .finWait2 := by
  intro hbad
  obtain ⟨now, lroom, g, rfl, hwas, hsent, hack⟩ := h.handle_finWait2 hst hbad
  have hsync : Synced (Conn.start t st).tcb := by
    change t.state ≠ _ ∧ t.state ≠ _
    rw [hwas]
    exact ⟨by decide, by decide⟩
  change (tcpInputConn now lroom g (Conn.start t st)).fate = .alive at halive
  change (tcpInputConn now lroom g (Conn.start t st)).tcb.state = .finWait2 at hbad
  cases hreach : reachesAck t g with
  | false =>
    have hkeep := Conn.of_noRecv (fun x => x.tcb.state) (fun _ => rfl)
      (tcpInputConn_unreached hsync hreach halive)
    exact hst (hkeep.symm.trans hbad)
  | true =>
    rw [tcpInputConn_reached hsync hreach halive] at hbad
    refine hgood now lroom g rfl (Or.inl ⟨hreach, hwas, Or.inl ⟨hsent, hack, ?_⟩⟩)
    rintro ⟨hfin, hpay, hseq⟩
    exact tcpInputFin_finWait2 (c := Conn.start t st) hfin hpay hseq hbad

end Events

end PacketForge
