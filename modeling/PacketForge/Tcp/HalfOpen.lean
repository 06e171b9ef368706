import PacketForge.Tcp.SenderRun

/-!
Closing a connection in SYN_RCVD. `tcp_app_close` moves such a connection to
FIN_WAIT_1 at once. Its SYN is still unacknowledged then, and outside the two
states before the handshake the send engine takes every sequence number in flight
for a byte of the ring, the FIN apart. No other event upsets the accounting.
-/

namespace PacketForge

open SeqSpace (pos)
open Stream (slice)

/-- The application closes a connection that is in SYN_RCVD. -/
def ClosesHalfOpen (c : Conn) (e : ConnEvent) : Prop :=
  c.fate = .alive ∧ c.tcb.state = .synRcvd ∧ ∃ now, e = .close now

/-- The accounting of the sending side: what is in flight is in the ring, and the
ring holds no more than it can; only bytes that were written are sent, and the FIN
stands behind them. A FIN behind no bytes goes out once the SYN is acknowledged. -/
structure SendHist.Sound (h : SendHist) : Prop where
  flight : h.conn.tcb.state ≠ .synSent → h.conn.tcb.state ≠ .synRcvd →
    (tcpDataInFlight h.conn.tcb).toNat ≤ h.conn.tcb.sndLen.toNat
  room : h.conn.tcb.sndLen.toNat ≤ tcpSndbuf
  data : ∀ g ∈ h.log, g.payload ≠ [] →
    ∃ k, g.seq = pos (h.conn.tcb.iss + 1) k ∧ k + g.payload.length ≤ h.written.length ∧
      g.payload = slice h.written k g.payload.length
  fin : ∀ g ∈ h.log, g.has tcpFin = true → g.seq = pos (h.conn.tcb.iss + 1) h.written.length
  closed : h.conn.tcb.finQueued = true → h.written = [] → h.conn.tcb.sndUna ≠ h.conn.tcb.iss →
    ∃ g ∈ h.log, g.has tcpFin = true ∧ g.seq = h.conn.tcb.iss + 1

/-! ### Closing after the handshake -/

section Close

variable {c : Conn} {now : Nat}

/-- Where everything in the ring is in flight, `tcp_output` sends the queued FIN and
nothing else. -/
theorem tcpOutput_sends_fin (hst : c.tcb.state.sends = true) (hq : c.tcb.finQueued = true)
    (hfin : c.tcb.finSent = false) (hall : c.tcb.sndLen = tcpDataInFlight c.tcb) :
    tcpOutput now c = tcpSendFin now c := by
  have hnone (wnd : UInt32) : tcpNextChunk c.tcb wnd = none := by
    unfold tcpNextChunk
    simp only
    rw [hall, UInt32.sub_self]
    rfl
  have hloop (wnd : UInt32) (fuel : Nat) : tcpOutputLoop now wnd fuel c = c := by
    cases fuel with
    | zero => rfl
    | succ fuel => rw [tcpOutputLoop, hnone]
  have hguard :
      (c.tcb.finQueued && !c.tcb.finSent && c.tcb.sndLen = tcpDataInFlight c.tcb) = true := by
    rw [hq, hfin, hall]
    simp
  rw [tcpOutput, if_pos hst]
  simp only [hloop]
  rw [tcpOutputFin, if_pos hguard]

/-- A close before anything was written sends the FIN right after the SYN. -/
theorem queueFin_sends_fin (hok : SendOk [] c.send) (now : Nat) {st : TcpState}
    (hst : st.sends = true) (hopen : c.tcb.state = .established ∨ c.tcb.state = .closeWait) :
    ∃ g ∈ (tcpOutput now (queueFin st c)).out, g.has tcpFin = true ∧ g.seq = c.tcb.iss + 1 := by
  have hsync : c.send.state ≠ .synSent ∧ c.send.state ≠ .synRcvd := by
    change c.tcb.state ≠ _ ∧ c.tcb.state ≠ _
    rcases hopen with h | h <;> rw [h] <;> exact ⟨by decide, by decide⟩
  obtain ⟨a, ha, hr⟩ := hok.represents hsync
  have hunsent : c.tcb.finSent = false := by
    cases hsent : c.tcb.finSent with
    | false => rfl
    | true => cases (hr.queued hsent).symm.trans (hr.open_ hopen)
  have hlen := hr.len
  have hbound := a.bound
  rw [ha] at hlen hbound
  change a.acked + c.tcb.sndLen.toNat = 0 at hlen
  change a.acked + a.flight ≤ 0 at hbound
  have hflight : (tcpDataInFlight c.tcb).toNat = a.flight := hr.dataInFlight
  have hall : c.tcb.sndLen = tcpDataInFlight c.tcb := UInt32.toNat_inj.mp (by omega)
  have hnxt : c.tcb.sndNxt = c.tcb.iss + 1 := by
    have hpos : c.tcb.sndNxt = pos (c.tcb.iss + 1) (a.acked + a.flight + a.fin.sentLen) := hr.nxt
    rw [hpos, hr.fin_unsent hunsent, show a.acked + a.flight = 0 by omega]
    exact SeqSpace.pos_zero _
  have hout : (tcpSendFin now (queueFin st c)).out =
      c.out ++ [tcpSegment (queueFin st c).tcb (tcpFin ||| tcpAck) c.tcb.sndNxt 0 0] :=
    congrArg SendView.out (tcpSendFin_send now (queueFin st c))
  have hflag : (tcpFin ||| tcpAck) &&& tcpFin != 0 := by decide
  rw [tcpOutput_sends_fin (c := queueFin st c) hst rfl hunsent hall, hout]
  exact ⟨_, List.mem_append_right _ List.mem_cons_self, hflag, hnxt⟩

/-- Only a close queues the FIN. -/
theorem connStep_queues {W : List UInt8} {e : ConnEvent} (hok : SendOk W c.send)
    (hold : c.tcb.finQueued = false) (hnew : (connStep c e).tcb.finQueued = true) :
    c.fate = .alive ∧ (∃ now, e = .close now) ∧
      (c.tcb.state = .synRcvd ∨ c.tcb.state = .established ∨ c.tcb.state = .closeWait) := by
  cases hfate : c.fate with
  | freed err =>
    simp only [connStep, hfate] at hnew
    cases hold.symm.trans hnew
  | alive =>
    have hmoves := connStep_moves c e hfate fun hst => (hok.unopened (Or.inl hst)).2.una
    have hview : (eventView c e).finQueued = true := hmoves.fixed.2.symm.trans hnew
    cases e with
    | close now =>
      refine ⟨rfl, ⟨now, rfl⟩, ?_⟩
      simp only [eventView, SendView.closed] at hview
      split at hview
      · rename_i hst
        exact Or.inl hst
      · rename_i hst
        exact Or.inr (Or.inl hst)
      · rename_i hst
        exact Or.inr (Or.inr hst)
      · cases hold.symm.trans hview
    | segment | tick | send | recv | nodelay | attach => cases hold.symm.trans hview

end Close

/-! ### Closing in SYN_RCVD -/

/-- The SYN is in flight in FIN_WAIT_1, where it counts as a byte. -/
structure Miscounts (s : SendView) : Prop where
  state : s.state = .finWait1
  len : s.len = 0
  finSent : s.finSent = false
  flight : 0 < (s.nxt - s.una).toNat

theorem Miscounts.dataInFlight {s : SendView} (h : Miscounts s) :
    s.dataInFlight = s.nxt - s.una := by
  rw [SendView.dataInFlight, h.finSent]
  rfl

/-- `tcp_output` sends what lies in the ring behind its end, and no FIN. -/
theorem OutMove.miscounts {s s' : SendView} (hmove : OutMove s s') (h : Miscounts s) :
    Miscounts s' := by
  cases hmove with
  | data g n hstate hfin hpos havail hwnd hg =>
    refine ⟨h.state, h.len, hfin, ?_⟩
    have hlt := s.wnd.toNat_lt
    have hflight := h.flight
    have hsum : s.nxt + n - s.una = s.nxt - s.una + n := by grind
    change 0 < (s.nxt + n - s.una).toNat
    rw [hsum, UInt32.toNat_add, Nat.mod_eq_of_lt (by omega)]
    omega
  | fin g hstate hq hfin hall hg =>
    have hflight := h.flight
    rw [h.len, h.dataInFlight] at hall
    rw [← hall] at hflight
    exact absurd hflight (lt_irrefl 0)

theorem tcpAppClose_miscounts {c : Conn} (now : Nat) (hst : c.tcb.state = .synRcvd)
    (hu : Unopened c.send) : Miscounts (tcpAppClose now c).send := by
  have hstart : Miscounts (queueFin .finWait1 c).send := by
    have huna : c.tcb.sndUna = c.tcb.iss := hu.una
    have hnxt : c.tcb.sndNxt = c.tcb.iss + 1 := hu.nxt
    refine ⟨rfl, hu.len, hu.finSent, ?_⟩
    change 0 < (c.tcb.sndNxt - c.tcb.sndUna).toNat
    rw [hnxt, huna, show c.tcb.iss + 1 - c.tcb.iss = 1 by grind]
    decide
  have hclose : tcpAppClose now c = tcpOutput now (queueFin .finWait1 c) := by
    simp only [tcpAppClose, hst]
  rw [hclose]
  have hmoves := tcpOutput_outMoves now (queueFin .finWait1 c)
  generalize (tcpOutput now (queueFin .finWait1 c)).send = s' at hmoves
  induction hmoves with
  | refl => exact hstart
  | tail _ hmove ih => exact hmove.miscounts ih

/-! ### Whole runs -/

namespace SendHist

variable {h : SendHist} {e : ConnEvent}

/-- The histories of all runs in which no half-open connection is closed. -/
abbrev ReachOpen : SendHist → Prop := Run.Reach Opens (fun h e => ¬ ClosesHalfOpen h.conn e) step

/-- A FIN that follows no bytes was sent when it was queued. -/
def FinOut (h : SendHist) : Prop :=
  h.conn.tcb.finQueued = true → h.written = [] →
    ∃ g ∈ h.log, g.has tcpFin = true ∧ g.seq = h.conn.tcb.iss + 1

/-- The event only ends the connection, or finds it ended. -/
structure Silent (h : SendHist) (e : ConnEvent) : Prop where
  send : (connStep h.conn e).send = { h.conn.send with out := [] }
  written : appended h.conn e = []

/-- Apart from SYN_RCVD a close comes after the handshake, or the connection is
dropped and nothing is sent. -/
theorem silent_of_not_closes (hno : ¬ ClosesHalfOpen h.conn e)
    (hclose : ¬ CloseAfterHandshake h.conn e) : Silent h e := by
  simp only [CloseAfterHandshake, not_forall, not_and_or, not_not] at hclose
  obtain ⟨now, rfl, hst⟩ := hclose
  refine ⟨?_, rfl⟩
  cases hfate : h.conn.fate with
  | freed err =>
    simp only [connStep, hfate]
    rfl
  | alive =>
    have hsent : h.conn.tcb.state = .synSent :=
      hst.resolve_right fun hr => hno ⟨hfate, hr, now, rfl⟩
    have hfree : tcpAppClose now (Conn.start h.conn.tcb h.conn.stats) =
        (Conn.start h.conn.tcb h.conn.stats).free .none := by
      simp only [tcpAppClose, Conn.start, hsent]
    simp only [connStep, hfate, connHandle, hfree]
    rfl

theorem Silent.step_eq (hs : Silent h e) :
    (h.step e).written = h.written ∧ (h.step e).log = h.log ∧
      (h.step e).conn.tcb.iss = h.conn.tcb.iss ∧
      (h.step e).conn.tcb.finQueued = h.conn.tcb.finQueued := by
  have hout : (connStep h.conn e).out = [] := congrArg SendView.out hs.send
  refine ⟨?_, ?_, congrArg SendView.iss hs.send, congrArg SendView.finQueued hs.send⟩
  · rw [step, hs.written, List.append_nil]
  · rw [step, hout, List.append_nil]

theorem Silent.sendOk (hs : Silent h e) (hok : SendOk h.written h.conn.send) :
    SendOk (h.step e).written (h.step e).conn.send := by
  rw [hs.step_eq.1]
  exact hs.send ▸ hok.quiet

theorem Silent.logOk (hs : Silent h e) (hl : LogOk h) : LogOk (h.step e) := by
  obtain ⟨hwritten, hlog, hiss, hq⟩ := hs.step_eq
  refine ⟨?_, ?_, ?_⟩ <;> rw [hlog, hiss]
  · rw [hwritten]
    exact hl.data
  · rw [hwritten, hq]
    exact hl.fin
  · exact hl.syn

/-- The FIN is queued by a close and sent with it, and then stays in the log. -/
theorem FinOut.step (hf : FinOut h) (hok : SendOk h.written h.conn.send)
    (hno : ¬ ClosesHalfOpen h.conn e) : FinOut (h.step e) := by
  intro hq hempty
  obtain ⟨hwritten, happ⟩ := List.append_eq_nil_iff.mp hempty
  have hiss : (h.step e).conn.tcb.iss = h.conn.tcb.iss := (connStep_fixed hok e).1
  rw [hiss]
  cases hold : h.conn.tcb.finQueued with
  | true =>
    obtain ⟨g, hg, hfin⟩ := hf hold hwritten
    exact ⟨g, List.mem_append_left _ hg, hfin⟩
  | false =>
    obtain ⟨hfate, ⟨now, rfl⟩, hst⟩ := connStep_queues hok hold hq
    have hquiet : SendOk [] (Conn.start h.conn.tcb h.conn.stats).send := hwritten ▸ hok.quiet
    have hopen := hst.resolve_left fun hr => hno ⟨hfate, hr, now, rfl⟩
    have hsends (st : TcpState) (hsend : st.sends = true) (heq : connStep h.conn (.close now) =
        tcpOutput now (queueFin st (Conn.start h.conn.tcb h.conn.stats))) :
        ∃ g ∈ (h.step (.close now)).log, g.has tcpFin = true ∧ g.seq = h.conn.tcb.iss + 1 := by
      obtain ⟨g, hg, hfin⟩ := queueFin_sends_fin hquiet now hsend hopen
      exact ⟨g, List.mem_append_right _ (heq ▸ hg), hfin⟩
    rcases hopen with hopen | hopen
    · refine hsends .finWait1 rfl ?_
      simp only [connStep, hfate, connHandle, tcpAppClose, Conn.start, hopen]
    · refine hsends .lastAck rfl ?_
      simp only [connStep, hfate, connHandle, tcpAppClose, Conn.start, hopen]

/-- What every history has in which no half-open connection is closed. -/
structure Kept (h : SendHist) : Prop where
  sendOk : SendOk h.written h.conn.send
  logOk : LogOk h
  finOut : FinOut h

theorem Kept.step (hk : Kept h) (hno : ¬ ClosesHalfOpen h.conn e) : Kept (h.step e) := by
  have hfin := hk.finOut.step hk.sendOk hno
  by_cases hclose : CloseAfterHandshake h.conn e
  · exact ⟨connStep_sendOk hk.sendOk e hclose, hk.logOk.step hk.sendOk e hclose, hfin⟩
  · have hs := silent_of_not_closes hno hclose
    exact ⟨hs.sendOk hk.sendOk, hs.logOk hk.logOk, hfin⟩

theorem Opens.kept (ho : Opens h) : Kept h := by
  obtain ⟨hconn, hwritten, hlog⟩ := ho
  have hok : SendOk h.written h.conn.send := hwritten ▸ hconn.sendOk
  refine ⟨hok, LogOk.of_emitted hok hlog, fun hq => ?_⟩
  cases (hok.unopened hconn.state).2.queued.symm.trans hq

theorem ReachOpen.kept (hr : ReachOpen h) : Kept h :=
  Run.Reach.invariant Kept (fun _ => Opens.kept) (fun _ _ hno hk => hk.step hno) hr

theorem Kept.sound (hk : Kept h) : Sound h := by
  refine ⟨?_, hk.sendOk.len_le, hk.logOk.data, fun g hg hfin => (hk.logOk.fin g hg hfin).2.2,
    fun hq hempty _ => hk.finOut hq hempty⟩
  intro hsent hrcvd
  obtain ⟨a, -, hrep⟩ := hk.sendOk.represents ⟨hsent, hrcvd⟩
  have hflight : (tcpDataInFlight h.conn.tcb).toNat = a.flight := hrep.dataInFlight
  exact hflight ▸ hrep.flight_le

/-- A close in SYN_RCVD leaves a byte in flight that is not in the ring. -/
theorem Kept.unsound (hk : Kept h) (hbad : ClosesHalfOpen h.conn e) : ¬ Sound (h.step e) := by
  obtain ⟨hfate, hst, now, rfl⟩ := hbad
  intro hsound
  have hu : Unopened (Conn.start h.conn.tcb h.conn.stats).send :=
    (hk.sendOk.quiet.unopened (Or.inr hst)).2
  have hmis : Miscounts (tcpAppClose now (Conn.start h.conn.tcb h.conn.stats)).send :=
    tcpAppClose_miscounts now hst hu
  have hstep :
      (h.step (.close now)).conn = tcpAppClose now (Conn.start h.conn.tcb h.conn.stats) := by
    simp only [SendHist.step, connStep, hfate, connHandle]
  have hflight := hsound.flight
  rw [hstep] at hflight
  generalize tcpAppClose now (Conn.start h.conn.tcb h.conn.stats) = c at hmis hflight
  have hstate : c.tcb.state = .finWait1 := hmis.state
  have hlen : c.tcb.sndLen = 0 := hmis.len
  have hdata : tcpDataInFlight c.tcb = c.tcb.sndNxt - c.tcb.sndUna := hmis.dataInFlight
  have hpos : 0 < (c.tcb.sndNxt - c.tcb.sndUna).toNat := hmis.flight
  rw [hstate, hlen, hdata] at hflight
  exact absurd (hflight (by decide) (by decide)) (Nat.not_le.mpr hpos)

end SendHist

/-- Along every run the accounting holds until a connection is closed in SYN_RCVD,
and that close upsets it. -/
theorem close_keeps_accounting_iff {h : SendHist} (hr : SendHist.ReachOpen h) :
    h.Sound ∧ ∀ e, (h.step e).Sound ↔ ¬ ClosesHalfOpen h.conn e := by
  have hk := hr.kept
  exact ⟨hk.sound, fun e => ⟨fun hs hbad => hk.unsound hbad hs, fun hno => (hk.step hno).sound⟩⟩

/-! ### A simultaneous open -/

def simultaneousHist : SendHist :=
  let c := tcpOpenActiveConn 0 none 1 5000 2 80 100 Stats.zero
  SendHist.step { conn := c, written := [], log := c.out }
    (.segment 1 none (peerSeg tcpSyn 300 0 1000))

theorem simultaneousHist_reach : SendHist.ReachOpen simultaneousHist := by
  refine .next (.start ⟨.active 0 none 1 5000 2 80 100 Stats.zero, rfl, rfl⟩) _ ?_
  rintro ⟨-, -, now, ⟨⟩⟩

/-- The peer's acknowledgement of the SYN keeps the accounting; then a close sends the
FIN. -/
theorem close_keeps_accounting_iff_acked :
    let h := simultaneousHist.step (.segment 2 none (peerSeg tcpAck 301 101 1000))
    simultaneousHist.conn.tcb.state = .synRcvd ∧ h.conn.tcb.state = .established ∧ h.Sound ∧
      (h.step (.close 3)).Sound := by
  have hack :
      ¬ ClosesHalfOpen simultaneousHist.conn (.segment 2 none (peerSeg tcpAck 301 101 1000)) := by
    rintro ⟨-, -, now, ⟨⟩⟩
  have hr := Run.Reach.next simultaneousHist_reach _ hack
  have hst :
      (simultaneousHist.step (.segment 2 none (peerSeg tcpAck 301 101 1000))).conn.tcb.state =
        .established := by decide +kernel
  refine ⟨by decide +kernel, hst, (close_keeps_accounting_iff hr).1,
    ((close_keeps_accounting_iff hr).2 (.close 3)).2 ?_⟩
  rintro ⟨-, hrcvd, -⟩
  cases hst.symm.trans hrcvd

/-- Closed in SYN_RCVD, the connection has a byte in flight and none in the ring; when
the SYN is acknowledged, the length of the ring wraps and bytes are sent that were
never written. -/
theorem close_in_synRcvd_underflows :
    let h := simultaneousHist.step (.close 2)
    let h' := h.step (.segment 3 none (peerSeg tcpAck 301 101 1000))
    simultaneousHist.conn.tcb.state = .synRcvd ∧ tcpDataInFlight h.conn.tcb = 1 ∧
      h.conn.tcb.sndLen = 0 ∧ h'.written = [] ∧ h'.conn.tcb.sndLen = 0xffffffff ∧
      h'.conn.out.map (fun g => (g.seq, g.payload.length, g.has tcpFin)) =
        [(101, 536, false), (637, 464, false)] := by
  refine ⟨?_, ?_, ?_, ?_, ?_, ?_⟩ <;> decide +kernel

end PacketForge
