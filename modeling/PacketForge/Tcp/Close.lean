import PacketForge.Tcp.Frame
import PacketForge.Tcp.SenderRun

/-!
What a close leaves behind. In CLOSING, FIN_WAIT_2 and TIME_WAIT `tcp_output`
transmits nothing, so a connection must not get there before its FIN is sent,
which in turn waits for the last byte of the ring. The one transition that
does not look at this is the peer's FIN in FIN_WAIT_1: it takes the connection
to CLOSING even while data or our FIN is still held back by the window, the
congestion window or Nagle's algorithm.
-/

namespace PacketForge

/-- In the states in which nothing is transmitted any more, our FIN is sent and
no byte in the ring was never transmitted. -/
def Flushed (t : Tcb) : Prop :=
  t.state = .closing ∨ t.state = .finWait2 ∨ t.state = .timeWait →
    t.finSent = true ∧ t.sndLen = tcpDataInFlight t

/-- The same from the other side: while bytes or a queued FIN are unsent, the
connection stays in a state in which `tcp_output` transmits. -/
def StaysSending (t : Tcb) : Prop :=
  t.state ≠ .synSent → t.state ≠ .synRcvd →
    t.sndLen ≠ tcpDataInFlight t ∨ t.finQueued = true ∧ t.finSent = false → t.state.sends = true

/-- The peer's FIN comes to FIN_WAIT_1 before our own FIN is sent, in a segment that
passes the checks up to the acknowledgement. -/
def FinBeforeOurs (c : Conn) : ConnEvent → Prop
  | .segment _ _ g => c.fate = .alive ∧ c.tcb.state = .finWait1 ∧ c.tcb.finSent = false ∧
      g.has tcpFin = true ∧ reachesAck c.tcb g = true
  | _ => False

instance (c : Conn) : DecidablePred (FinBeforeOurs c)
  | .segment _ _ _ => inferInstanceAs (Decidable (_ ∧ _))
  | .tick _ | .close _ | .send _ _ | .recv _ | .nodelay _ | .attach _ => .isFalse id

/-! ### The invariant -/

/-- Our FIN precedes the states in which nothing is transmitted, and is queued
from the close on. -/
structure FinFirst (s : SendView) : Prop where
  sent : s.state = .closing ∨ s.state = .finWait2 ∨ s.state = .timeWait → s.finSent = true
  queued : s.state ≠ .synSent → s.state ≠ .synRcvd → s.state ≠ .established →
    s.state ≠ .closeWait → s.finQueued = true
  life : s.state ≠ .closed ∧ s.state ≠ .listen

namespace FinFirst

variable {κ : SendCause} {s s' : SendView}

theorem of_same (h : FinFirst s) (hst : s'.state = s.state)
    (hfin : s.finSent = true → s'.finSent = true) (hq : s'.finQueued = s.finQueued) :
    FinFirst s' := by
  refine ⟨?_, ?_, ?_⟩
  · rw [hst]
    exact fun hs => hfin (h.sent hs)
  · rw [hst, hq]
    exact h.queued
  · rw [hst]
    exact h.life

theorem acked (h : FinFirst s) (a : UInt32) :
    FinFirst { s.acked a with state := ackedState (s.finAcked a) s.state } := by
  cases hfin : s.finAcked a with
  | false => exact ⟨h.sent, h.queued, h.life⟩
  | true =>
    have hsent : s.finSent = true := by
      simp only [SendView.finAcked, Bool.and_eq_true] at hfin
      exact hfin.1
    refine ⟨fun _ => hsent, ?_, ?_⟩
    · change _ → _ → _ → _ → s.finQueued = true
      have hq := h.queued
      cases hst : s.state <;> simp_all [ackedState]
    · have hl := h.life
      change ackedState true s.state ≠ _ ∧ ackedState true s.state ≠ _
      cases hst : s.state <;> simp_all [ackedState]

theorem rxFin (h : FinFirst s) (ht : s.state.takesData = true)
    (hsent : s.state = .finWait1 → s.finSent = true) :
    FinFirst { s with state := rxFinState s.state } := by
  have hq (hst : s.state = .finWait1 ∨ s.state = .finWait2) : s.finQueued = true := by
    rcases hst with hst | hst <;> exact h.queued (by simp [hst]) (by simp [hst]) (by simp [hst])
      (by simp [hst])
  cases hst : s.state with
  | established => exact ⟨by simp [rxFinState], by simp [rxFinState], by simp [rxFinState]⟩
  | finWait1 => exact ⟨fun _ => hsent hst, fun _ _ _ _ => hq (Or.inl hst), by simp [rxFinState]⟩
  | finWait2 =>
    exact ⟨fun _ => h.sent (by simp [hst]), fun _ _ _ _ => hq (Or.inr hst), by simp [rxFinState]⟩
  | _ =>
    rw [hst] at ht
    cases ht

/-- A move keeps our FIN first unless it consumes the peer's FIN too early. -/
theorem move (hclean : ∀ s, κ.finAt s → s.state = .finWait1 → s.finSent = true)
    (hmove : SendMove κ s s') (h : FinFirst s) : FinFirst s' := by
  cases hmove with
  | ack g _ _ _ _ _ _ => exact h.acked g.ack
  | rxFin hat ht => exact h.rxFin ht (hclean s hat)
  | synRcvd hst => exact ⟨by simp, by simp, by simp⟩
  | establish g _ _ _ _ _ => exact ⟨by simp, by simp, by simp⟩
  | output hout =>
    cases hout with
    | data => exact h.of_same rfl id rfl
    | fin => exact h.of_same rfl (fun _ => rfl) rfl
  | ctl | rtxData | rtxFin | probe | wnd => exact h.of_same rfl id rfl

end FinFirst

/-! ### The step of the peer's FIN -/

theorem reachesAck_le {t : Tcb} {g : Seg} (h : reachesAck t g = true) :
    seqGt g.ack t.sndNxt = false := by
  simp only [reachesAck, Bool.and_eq_true, Bool.not_eq_true'] at h
  exact h.2

section AtFinStep

variable (now : Nat) (g : Seg) (c : Conn) (hout : c.out = []) (hreach : reachesAck c.tcb g = true)

include hout hreach

/-- A connection the FIN step finds in FIN_WAIT_1 was there before. -/
theorem finWait1_of_atFinStep (hsync : c.tcb.state ≠ .synSent ∧ c.tcb.state ≠ .synRcvd)
    (hst : (atFinStep now g c).send.state = .finWait1) : c.tcb.state = .finWait1 := by
  have hmoves := atFinStep_moves now g c hout hsync (reachesAck_le hreach)
  by_contra hne
  refine SendMoves.invariant (P := fun s => s.state ≠ .finWait1) ?_ hmoves hne hst
  intro s s' hmove hs
  cases hmove with
  | ack x _ _ _ _ _ _ =>
    change ackedState _ s.state ≠ _
    cases s.finAcked x.ack <;> cases hst : s.state <;> simp_all [ackedState]
  | rxFin hat _ => exact absurd hat id
  | synRcvd _ => simp
  | establish => simp
  | output hmove => cases hmove <;> exact hs
  | ctl | rtxData | rtxFin | probe | wnd => exact hs

/-- A FIN of ours that was sent before the segment is sent at the FIN step. -/
theorem atFinStep_finSent (hsync : c.tcb.state ≠ .synSent ∧ c.tcb.state ≠ .synRcvd)
    (hfin : c.tcb.finSent = true) : (atFinStep now g c).send.finSent = true := by
  have hmoves := atFinStep_moves now g c hout hsync (reachesAck_le hreach)
  refine SendMoves.invariant (P := fun s => s.finSent = true) ?_ hmoves hfin
  intro s s' hmove hs
  cases hmove with
  | output hmove =>
    cases hmove with
    | data => exact hs
    | fin => rfl
  | ack | rxFin | synRcvd | establish | ctl | rtxData | rtxFin | probe | wnd => exact hs

end AtFinStep

variable {c : Conn}

theorem FinFirst.quiet (h : FinFirst c.send) (st : Stats) : FinFirst (Conn.start c.tcb st).send :=
  h.of_same rfl id rfl

/-- The views a close and a `pf_send` start from. -/
theorem eventView_finFirst (h : FinFirst c.send) (e : ConnEvent) : FinFirst (eventView c e) := by
  have hquiet := h.quiet c.stats
  cases e with
  | send now data => exact hquiet.of_same rfl id rfl
  | close now =>
    simp only [eventView, SendView.closed]
    split
    · exact ⟨by simp, fun _ _ _ _ => rfl, by simp⟩
    · exact ⟨by simp, fun _ _ _ _ => rfl, by simp⟩
    · exact ⟨by simp, fun _ _ _ _ => rfl, by simp⟩
    · exact hquiet
  | segment | tick | recv | nodelay | attach => exact hquiet

/-- An event that does not bring the peer's FIN too early keeps our FIN first. -/
theorem connStep_finFirst (huna : c.tcb.state = .synSent → c.tcb.sndUna = c.tcb.iss)
    (h : FinFirst c.send) (e : ConnEvent) (hclean : ¬ FinBeforeOurs c e) :
    FinFirst (connStep c e).send := by
  cases hfate : c.fate with
  | freed err =>
    simp only [connStep, hfate]
    exact h.of_same rfl id rfl
  | alive =>
    have hmoves := connStep_moves c e hfate huna
    refine SendMoves.invariant (fun s s' hmove hs => hs.move ?_ hmove) hmoves
      (eventView_finFirst h e)
    intro s hat hst
    cases e with
    | segment now lroom g =>
      obtain ⟨hs, hsync, hreach, hin⟩ := hat hst
      rw [hs] at hst ⊢
      by_contra hnot
      have hfin : g.has tcpFin = true := by
        simp only [finInOrder, Bool.and_eq_true] at hin
        exact hin.1.1
      refine hclean ⟨hfate, ?_, ?_, hfin, hreach⟩
      · exact finWait1_of_atFinStep now g (Conn.start c.tcb c.stats) rfl hreach hsync hst
      · by_contra hsent
        exact hnot (atFinStep_finSent now g (Conn.start c.tcb c.stats) rfl hreach hsync
          (Bool.not_eq_false _ ▸ hsent))
    | tick | send | recv | close | nodelay | attach => exact absurd hat id

/-! ### Runs -/

theorem Opened.finFirst (h : Opened c) : FinFirst c.send := by
  rcases h.sendOk.rel with ⟨-, hu⟩ | ⟨a, -, hr⟩
  · rcases hu.state with hst | hst <;> exact ⟨by simp [hst], by simp [hst], by simp [hst]⟩
  · rcases h.state with hst | hst
    · exact absurd hst hr.sync.1
    · exact absurd hst hr.sync.2

section Invariant

variable {W : List UInt8} {t : Tcb} {c : Conn} (hok : SendOk W c.send) (h : FinFirst c.send)

include hok h

theorem FinFirst.flushed : Flushed c.tcb := by
  intro hst
  have hsent := h.sent hst
  have hsync : c.tcb.state ≠ .synSent ∧ c.tcb.state ≠ .synRcvd := by
    rcases hst with hst | hst | hst <;> rw [hst] <;> exact ⟨by decide, by decide⟩
  obtain ⟨a, -, hr⟩ := hok.represents hsync
  have hunsent : a.fin ≠ .unsent := by
    intro hph
    have hs := hr.finSent
    rw [hsent, hph] at hs
    cases hs
  have hlen := hr.len
  have hall := a.drained hunsent
  refine ⟨hsent, UInt32.toNat_inj.mp ?_⟩
  have hflight : (tcpDataInFlight c.tcb).toNat = a.flight := hr.dataInFlight
  change a.acked + c.tcb.sndLen.toNat = a.written.length at hlen
  omega

theorem FinFirst.staysSending : StaysSending c.tcb := by
  intro hsent hrcvd hmore
  have hl := h.life
  have hq := h.queued
  have hf := h.flushed hok
  by_contra hno
  have hst : c.tcb.state = .closing ∨ c.tcb.state = .finWait2 ∨ c.tcb.state = .timeWait := by
    change c.tcb.state ≠ .closed ∧ c.tcb.state ≠ .listen at hl
    cases hst : c.tcb.state <;> simp_all [TcpState.sends]
  obtain ⟨hfin, hlen⟩ := hf hst
  rcases hmore with hne | ⟨-, hunsent⟩
  · exact hne hlen
  · rw [hfin] at hunsent
    cases hunsent

end Invariant

/-- The runs in which the peer's FIN does not come to FIN_WAIT_1 before ours is sent. -/
abbrev SendHist.CleanReach : SendHist → Prop :=
  Run.Reach Opens (fun h e => CloseAfterHandshake h.conn e ∧ ¬ FinBeforeOurs h.conn e) step

/-- As long as no segment brings the peer's FIN to FIN_WAIT_1 before our own FIN
is sent, a close abandons nothing. -/
theorem close_abandons_nothing {h : SendHist} (hr : h.CleanReach) :
    Flushed h.conn.tcb ∧ StaysSending h.conn.tcb := by
  have hinv : SendOk h.written h.conn.send ∧ FinFirst h.conn.send := by
    refine Run.Reach.invariant
      (fun h : SendHist => SendOk h.written h.conn.send ∧ FinFirst h.conn.send) ?_ ?_ hr
    · rintro h ⟨hopen, hwritten, -⟩
      rw [hwritten]
      exact ⟨hopen.sendOk, hopen.finFirst⟩
    · rintro h e ⟨hclose, hclean⟩ ⟨hok, hfirst⟩
      refine ⟨connStep_sendOk hok e hclose, connStep_finFirst ?_ hfirst e hclean⟩
      exact fun hst => (hok.unopened (Or.inl hst)).2.una
  obtain ⟨hok, hfirst⟩ := hinv
  exact ⟨hfirst.flushed hok, hfirst.staysSending hok⟩

/-- Three bytes wait for a closed window when the application closes. The window
opens, and only then the peer closes too. -/
def drainedEvents : List ConnEvent :=
  [.send 2 [1, 2, 3], .close 3, .segment 4 none (peerSeg tcpAck 301 101 1000),
    .segment 5 none (peerSeg (tcpFin ||| tcpAck) 301 105 1000)]

theorem drained_reach : (drainedEvents.foldl SendHist.step (establishedHist 0)).CleanReach := by
  have hopened : (establishedHist 0).CleanReach :=
    .next (.start ⟨.active 0 none 1 5000 2 80 100 Stats.zero, rfl, rfl⟩) _
      ⟨CloseAfterHandshake.segment _ _ _ _, by decide +kernel⟩
  refine hopened.foldl drainedEvents ⟨?_, ?_, ?_, ?_, trivial⟩
  · exact ⟨CloseAfterHandshake.send _ _ _, by decide +kernel⟩
  · exact ⟨fun _ _ => by decide +kernel, by decide +kernel⟩
  · exact ⟨CloseAfterHandshake.segment _ _ _ _, by decide +kernel⟩
  · exact ⟨CloseAfterHandshake.segment _ _ _ _, by decide +kernel⟩

/-- In TIME_WAIT the FIN and all three bytes are sent. -/
theorem close_abandons_nothing_drained :
    let h := drainedEvents.foldl SendHist.step (establishedHist 0)
    h.written = [1, 2, 3] ∧ h.conn.tcb.state = .timeWait ∧ h.conn.tcb.finSent = true ∧
      h.conn.tcb.sndLen = tcpDataInFlight h.conn.tcb := by
  intro h
  have hstate : h.conn.tcb.state = .timeWait := by decide +kernel
  have hflushed := (close_abandons_nothing drained_reach).1 (Or.inr (Or.inr hstate))
  exact ⟨by decide +kernel, hstate, hflushed.1, hflushed.2⟩

/-- Three bytes wait for a closed window when the application closes. The
peer's FIN then takes the connection to CLOSING, where neither the bytes nor
the FIN will ever be sent. -/
theorem close_abandons_three_bytes :
    ∃ h : SendHist, SendHist.Reach h ∧ h.written = [1, 2, 3] ∧ h.conn.tcb.state = .closing ∧
      h.conn.tcb.finQueued = true ∧ h.conn.tcb.finSent = false ∧ h.conn.tcb.sndLen = 3 ∧
      tcpDataInFlight h.conn.tcb = 0 ∧ ¬ Flushed h.conn.tcb := by
  refine ⟨(((establishedHist 0).step (.send 2 [1, 2, 3])).step (.close 3)).step
    (.segment 4 none (peerSeg (tcpFin ||| tcpAck) 301 101 0)), ?_, ?_⟩
  · refine .next (.next (.next (establishedHist_reach 0) _ ?_) _ ?_) _ ?_
    · exact CloseAfterHandshake.send _ _ _
    · exact fun _ _ => by decide +kernel
    · exact CloseAfterHandshake.segment _ _ _ _
  · refine ⟨by decide +kernel, by decide +kernel, by decide +kernel, by decide +kernel,
      by decide +kernel, by decide +kernel, ?_⟩
    intro hflushed
    have hsent := (hflushed (Or.inl (by decide +kernel))).1
    revert hsent
    decide +kernel

end PacketForge
