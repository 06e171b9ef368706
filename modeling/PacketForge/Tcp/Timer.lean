import PacketForge.Tcp.Clock
import PacketForge.Tcp.FinBook

/-!
The end of silence. When nothing is in flight although something waits to be
sent, the reason is a closed window, which the next tick probes. The wake-ups
come from different events, and the acknowledgement runs the send engine before
the new window is installed; the invariant below holds between all of them.
-/

namespace PacketForge

/-! ### Waiting to be sent -/

/-- Bytes that were never transmitted, or a FIN. -/
def Unsent (t : Tcb) : Prop :=
  t.sndLen ≠ tcpDataInFlight t ∨ t.finQueued = true ∧ t.finSent = false

/-- If nothing is in flight although something waits, it is data held back by a
closed window. -/
def Flows (t : Tcb) : Prop :=
  t.state.sends = true → t.sndUna = t.sndNxt → Unsent t →
    t.sndLen ≠ 0 ∧ (t.sndWnd = 0 ∨ t.cwnd = 0)

variable (now : Nat) {g : Seg} {c : Conn} {t : Tcb}

theorem tcpDataInFlight_idle (h : t.sndUna = t.sndNxt) : tcpDataInFlight t = 0 := by
  simp [tcpDataInFlight, h]

/-- With nothing in flight the send loop breaks off only at a closed window:
Nagle's algorithm holds back nothing then. -/
theorem tcpNextChunk_idle {wnd : UInt32} (hmss : t.mss ≠ 0) (hidle : t.sndUna = t.sndNxt)
    (hlen : t.sndLen ≠ 0) (hfin : t.finSent = false) (hnone : tcpNextChunk t wnd = none) :
    wnd = 0 := by
  have hdata := tcpDataInFlight_idle hidle
  have hlen0 : t.sndLen.toNat ≠ 0 := fun h => hlen (UInt32.toNat_inj.mp h)
  have hmss0 : t.mss.toNat ≠ 0 := fun h => hmss (UInt16.toNat_inj.mp h)
  by_contra hwnd
  have hwnd0 : wnd.toNat ≠ 0 := fun h => hwnd (UInt32.toNat_inj.mp h)
  have hchunk : 0 < chunkLen t wnd := by
    unfold chunkLen
    rw [hdata, hidle, UInt32.sub_zero, UInt32.sub_self, UInt32.toNat_zero]
    omega
  rw [tcpNextChunk_eq, if_pos] at hnone
  · cases hnone
  · refine ⟨hfin, hchunk, ?_⟩
    rintro ⟨-, hflight, -⟩
    rw [hdata] at hflight
    exact absurd hflight (by decide)

/-- What is sent is bounded, and the state agrees with our FIN. -/
structure Paced (s : SendView) : Prop where
  flight : Flight s
  fins : FinStates s

theorem Act.paced {e : ConnEvent} {c d : Conn} (h : Act e c d) (hc : Paced c.send) :
    Paced d.send :=
  ⟨h.flight hc.flight, h.finStates hc.flight hc.fins⟩

theorem OutMove.paced {s s' : SendView} (h : OutMove s s') (hs : Paced s) : Paced s' :=
  ⟨h.flight hs.flight,
    (SendMove.output (κ := .internal) h).finStates (fun _ => id) hs.flight hs.fins⟩

/-- After the send engine has run, only a closed window holds anything back. -/
theorem tcpOutput_flows (hs : Paced c.send) (hmss : c.tcb.mss ≠ 0) :
    Flows (tcpOutput now c).tcb := by
  intro hst
  rw [Conn.rest_state (tcpOutput_rest now c)] at hst
  set w := pfMin c.tcb.sndWnd c.tcb.cwnd with hw
  set d := tcpOutputLoop now w w.toNat c with hd
  have hrest : d.rest = c.rest := tcpOutputLoop_rest now w w.toNat c
  have heq : tcpOutput now c = tcpOutputFin now d := by rw [tcpOutput, if_pos hst]
  have hdone : tcpNextChunk d.tcb w = none :=
    tcpOutputLoop_done now w w.toNat c (Nat.le_add_left _ _)
  have hwnd : w.toNat ≤ c.send.wnd.toNat := by
    rw [hw, pfMin_toNat]
    exact Nat.min_le_left _ _
  have hds : Paced d.send :=
    tcpOutputLoop_rule (P := fun c => Paced c.send)
      (fun x chunk hst hwnd hnext hx =>
        (tcpOutputChunk_move now x w chunk hst hwnd hnext).paced hx) hst hwnd hs w.toNat
  have hst' : d.tcb.state.sends = true := by
    rw [Conn.rest_state hrest]
    exact hst
  have hmss' : d.tcb.mss = c.tcb.mss := Conn.rest_mss hrest
  have hwnd' : (d.tcb.sndWnd, d.tcb.cwnd) = (c.tcb.sndWnd, c.tcb.cwnd) :=
    Conn.of_rest (fun x => (x.tcb.sndWnd, x.tcb.cwnd)) (fun _ => rfl) hrest
  rw [Prod.mk.injEq] at hwnd'
  rw [heq, tcpOutputFin]
  split
  · rename_i hgo
    simp only [Bool.and_eq_true, Bool.not_eq_true', decide_eq_true_eq] at hgo
    intro hidle
    have hclock := tcpSendFin_clock now d
    have huna := congrArg ClockView.una hclock
    have hnxt := congrArg ClockView.nxt hclock
    exact absurd (huna.symm.trans (hidle.trans hnxt)) hds.flight.next_ne
  · rename_i hstay
    simp only [Bool.and_eq_true, Bool.not_eq_true', decide_eq_true_eq] at hstay
    intro hidle hunsent
    have hdata := tcpDataInFlight_idle hidle
    have hlen : d.tcb.sndLen ≠ 0 := by
      intro hz
      rcases hunsent with hne | hfin
      · exact hne (hz.trans hdata.symm)
      · exact hstay ⟨hfin, hz.trans hdata.symm⟩
    refine ⟨hlen, ?_⟩
    have hfin : d.tcb.finSent = false := hds.fins.not_done hst' hidle
    have hzero := tcpNextChunk_idle (by rw [hmss']; exact hmss) hidle hlen hfin hdone
    rw [hwnd'.1, hwnd'.2]
    have hmin : min c.tcb.sndWnd.toNat c.tcb.cwnd.toNat = 0 := by
      rw [← pfMin_toNat, ← hw, hzero]
      rfl
    rcases Nat.le_total c.tcb.sndWnd.toNat c.tcb.cwnd.toNat with hle | hle
    · left
      rw [Nat.min_eq_left hle] at hmin
      exact UInt32.toNat_inj.mp hmin
    · right
      rw [Nat.min_eq_right hle] at hmin
      exact UInt32.toNat_inj.mp hmin

theorem Flows.of_busy (h : t.sndUna ≠ t.sndNxt) : Flows t := fun _ hidle => absurd hidle h

theorem Flows.of_clock {v : ClockView} (h : t.clock = v) (hne : v.una ≠ v.nxt) : Flows t := by
  subst h
  exact Flows.of_busy hne

theorem Flows.of_silent (h : t.state.sends = false) : Flows t := by
  intro hst
  rw [h] at hst
  cases hst

theorem Flows.of_noRecv {c d : Conn} (h : Flows c.tcb) (heq : d.noRecv = c.noRecv) :
    Flows d.tcb :=
  (Conn.of_noRecv (fun x => Flows x.tcb) (fun _ => rfl) heq).mpr h

/-! ### Every stage -/

theorem tcpEstablish_flows {g : Seg} (hs : FinStates c.send)
    (hst : c.tcb.state = .synSent ∨ c.tcb.state = .synRcvd) :
    Flows (tcpEstablish (c.setUna g.ack) g).tcb := by
  intro _ hidle hunsent
  have hdata := tcpDataInFlight_idle hidle
  have hlen : c.tcb.sndLen = 0 := (hs.opening hst).2
  have hq : c.tcb.finQueued = false := (hs.opening hst).1
  rcases hunsent with hne | hfin
  · exact absurd (hlen.trans hdata.symm) hne
  · exact absurd (hq.symm.trans hfin.1) Bool.false_ne_true

theorem tcpInputDupAck_flows (hs : Paced c.send) (hmss : c.tcb.mss ≠ 0)
    (hdup : isDupAck c.tcb g = true) : Flows (tcpInputDupAck now c).tcb := by
  have hbusy := isDupAck_busy hdup
  unfold tcpInputDupAck
  set y := (c.count .tcpDupacksRx).setDupacks (c.tcb.dupacks + 1) with hy
  have hsy : y.send = c.send := by simp [hy]
  unfold tcpDupAckCounted
  split
  · -- the fast retransmission sends again what is in flight
    exact Flows.of_clock (tcpRetransmit_clock (y.setSsthresh _)) hbusy
  split
  · refine tcpOutput_flows now ?_ hmss
    rw [Conn.setCwnd_send, hsy]
    exact hs
  · exact Flows.of_busy hbusy

/-- A window that reopens runs the send engine; any other change of the window
leaves what is held back held back. -/
theorem tcpInputWnd_flows (hs : Paced c.send) (hmss : c.tcb.mss ≠ 0) (h : Flows c.tcb) :
    Flows (tcpInputWnd now g c).tcb := by
  unfold tcpInputWnd
  split
  · rename_i hin
    rw [Bool.and_eq_true] at hin
    have hs' : Paced (takeWnd g c).send := (Act.window now none g hin.1 hin.2).paced hs
    split
    · split
      · exact tcpOutput_flows now hs' hmss
      · rename_i hclosed
        intro hst hidle hunsent
        obtain ⟨hlen, hwnd⟩ := h hst hidle hunsent
        refine ⟨hlen, ?_⟩
        rcases hwnd with hwnd | hcwnd
        · left
          have hzero : ¬ g.wnd > 0 := fun hpos => hclosed ⟨hwnd, hpos⟩
          have hw : g.wnd = 0 := by
            rw [gt_iff_lt, UInt16.not_lt] at hzero
            exact UInt16.le_zero_iff.mp hzero
          change g.wnd.toUInt32 = 0
          rw [hw]
          rfl
        · exact Or.inr hcwnd
    · exact h
  · exact h

theorem tcpTakeFin_flows (finSeq : UInt32) {c : Conn} (h : Flows c.tcb) :
    Flows (tcpTakeFin now finSeq c).tcb := by
  unfold tcpTakeFin
  set x := tcpSendCtl (consumeFin finSeq c) tcpAck with hx
  have hfx : Flows x.tcb := h.of_noRecv (finAck_noRecv finSeq c)
  simp only [tcpFinState]
  cases hstate : x.tcb.state with
  | established =>
    intro _ hidle hunsent
    exact hfx (by rw [hstate]; rfl) hidle hunsent
  | finWait1 | finWait2 | timeWait => exact Flows.of_silent rfl
  | closed | listen | synSent | synRcvd | closeWait | closing | lastAck => exact hfx

theorem Quiet.flows {e : ConnEvent} {c d : Conn} (h : Quiet e c d) (hs : FinStates c.send)
    (hf : Flows c.tcb) : Flows d.tcb := by
  cases h with
  | heard h => exact hf.of_noRecv h.noRecv
  | opened now lroom g hout hst hlo hhi =>
    have hview := tcpTakeSyn_send g c
    have hst' : (tcpTakeSyn g c).tcb.state = .synSent := (congrArg SendView.state hview).trans hst
    have hest := tcpEstablish_flows (g := g) (hview ▸ hs) (Or.inl hst')
    exact hest.of_noRecv (tcpSendCtl_noRecv _ _)
  | crossed now lroom g hst =>
    have hst' : (tcpSimultaneousOpen now (tcpTakeSyn g c)).tcb.state = .synRcvd :=
      congrArg RecvView.state (tcpSimultaneousOpen_recv now _)
    apply Flows.of_silent
    rw [hst']
    rfl
  | answered now lroom g queued hout hst hlo hhi =>
    exact tcpEstablish_flows hs (Or.inr hst)
  | rxFin now lroom g hfin => exact tcpTakeFin_flows now _ hf
  | probe now hprobe =>
    simp only [wantsProbe, Bool.and_eq_true, decide_eq_true_eq] at hprobe
    refine Flows.of_clock (tcpProbed_clock now c) ?_
    apply una_ne_of_flight (by decide)
    change (c.tcb.sndNxt - c.tcb.sndUna).toNat + _ < _
    rw [hprobe.1.2, UInt32.sub_self]
    decide
  | nodelay on => exact hf
  | attach sock => exact hf

theorem Stage.flows {e : ConnEvent} {c d : Conn} (h : Stage e c d) (hs : Paced c.send)
    (ha : Armed c.tcb.clock) (hf : Flows c.tcb) : Flows d.tcb := by
  have hmss : c.tcb.mss ≠ 0 := ha.mss
  cases h with
  | quiet h => exact h.flows hs.fins hf
  | newAck now lroom g hsync hout hgt hle hlast =>
    exact tcpOutput_flows now ((Act.acked now lroom g hsync hout hgt hle hlast).paced hs)
      (tcpFinAcked_armed now g ha).mss
  | dupAck now lroom g hdup => exact tcpInputDupAck_flows now hs hmss hdup
  | window now lroom g => exact tcpInputWnd_flows now hs hmss hf
  | timeout now harmed =>
    have hbusy : c.tcb.sndUna ≠ c.tcb.sndNxt := fun hidle => harmed (ha.timer.mp hidle)
    obtain ⟨cwnd, ssthresh, dup, rto, hsent⟩ := tcpRtoRetransmit_noRecv now (countTimeout c)
    exact Flows.of_clock (Conn.clock_of_noRecv hsent) hbusy
  | send now data hout hcan =>
    have hring (buf : Nat → UInt8) (len : UInt32) :
        ({ c.tcb with sndbuf := buf, sndLen := len } : Tcb).mss ≠ 0 := hmss
    exact tcpOutput_flows now ((Act.append now data hout hcan).paced hs) (hring _ _)
  | close now st hout hst =>
    exact tcpOutput_flows now ((Act.close now st hout hst).paced hs) hmss

/-! ### Whole runs -/

/-- The invariant of the timers and the send queue. -/
structure Timed (t : Tcb) : Prop where
  clocked : Clocked t
  fins : FinStates (Conn.start t Stats.zero).send
  flows : Flows t

/-- The handshake holds back everything. -/
theorem Opened.timed (h : Opened c) : Timed c.tcb := by
  refine ⟨h.clocked, h.finStates.congr rfl rfl h.finStates.queued rfl rfl, Flows.of_silent ?_⟩
  rcases h.state with hst | hst <;> rw [hst] <;> rfl

/-- The timers and the send queue after any event that leaves the block in use. -/
theorem connHandle_timed {t : Tcb} {st : Stats} {e : ConnEvent} (h : Timed t)
    (hend : (connHandle (Conn.start t st) e).fate = .alive) :
    Timed (connHandle (Conn.start t st) e).tcb := by
  have hflight : Flight (Conn.start t st).send :=
    Flight.quiet (c := Conn.start t Stats.zero) h.clocked.flight st
  have hall := hflight.stages
    (P := fun c => Armed c.tcb.clock ∧ FinStates c.send ∧ Flows c.tcb) ?_
    ⟨h.clocked.armed, h.fins.congr rfl rfl h.fins.queued rfl rfl, h.flows⟩ hend
  · obtain ⟨-, hfins, hflows⟩ := hall
    exact ⟨connHandle_clocked h.clocked hend, hfins.congr rfl rfl hfins.queued rfl rfl, hflows⟩
  · rintro c d hstage hf ⟨ha, hs, hc⟩
    have hboth := Acts.invariant (P := fun c => Flight c.send ∧ Armed c.tcb.clock)
      (fun x y hact hx => ⟨hact.flight hx.1, hact.armed hx.1 hx.2⟩) hstage.acts ⟨hf, ha⟩
    exact ⟨hboth.2, hstage.finStates hf hs, hstage.flows ⟨hf, hs⟩ ha hc⟩

theorem SendHist.Reach.timed {h : SendHist} (hr : SendHist.Reach h)
    (halive : h.conn.fate = .alive) : Timed h.conn.tcb := by
  induction hr with
  | start hinit => exact hinit.1.timed
  | @next h hr e _ ih =>
    have hlive : h.conn.fate = .alive := connStep_live halive
    have heq : connStep h.conn e = connHandle (Conn.start h.conn.tcb h.conn.stats) e := by
      simp only [connStep, hlive]
    change Timed (connStep h.conn e).tcb
    change (connStep h.conn e).fate = .alive at halive
    rw [heq] at halive ⊢
    exact connHandle_timed (ih hlive) halive

/-- What waits although nothing is in flight waits for the probe. -/
theorem Timed.probed (h : Timed t) (hst : t.state.sends = true) (hidle : t.sndUna = t.sndNxt)
    (hunsent : Unsent t) (hcwnd : 0 < t.cwnd) :
    0 < t.sndLen ∧ t.sndWnd = 0 ∧ t.rtoDeadline = 0 ∧ wantsProbe t = true := by
  obtain ⟨hlen, hwnd⟩ := h.flows hst hidle hunsent
  have hpos : 0 < t.sndLen := by
    rw [UInt32.lt_iff_toNat_lt]
    exact Nat.pos_of_ne_zero (fun hz => hlen (UInt32.toNat_inj.mp hz))
  have hzero : t.sndWnd = 0 := by
    rcases hwnd with hwnd | hc
    · exact hwnd
    · rw [hc] at hcwnd
      exact absurd hcwnd (by decide)
  have hoff : t.rtoDeadline = 0 := h.clocked.armed.timer.mp hidle
  refine ⟨hpos, hzero, hoff, ?_⟩
  simp [wantsProbe, hoff, hpos, hzero, hidle, hst]

/-- No run stalls. While anything is in flight the retransmission timer is
armed; and where nothing is in flight although something waits to be sent, the
condition of the zero-window probe holds. -/
theorem no_transmission_stall {h : SendHist} (hr : SendHist.Reach h)
    (halive : h.conn.fate = .alive) :
    (h.conn.tcb.state ≠ .timeWait → h.conn.tcb.sndUna ≠ h.conn.tcb.sndNxt →
      h.conn.tcb.rtoDeadline ≠ 0) ∧
    (h.conn.tcb.state.sends = true → 0 < h.conn.tcb.cwnd →
      h.conn.tcb.sndUna = h.conn.tcb.sndNxt → Unsent h.conn.tcb →
      0 < h.conn.tcb.sndLen ∧ h.conn.tcb.sndWnd = 0 ∧ h.conn.tcb.rtoDeadline = 0 ∧
        wantsProbe h.conn.tcb = true) := by
  have ht := hr.timed halive
  refine ⟨fun _ hbusy hoff => hbusy (ht.clocked.armed.timer.mpr hoff), ?_⟩
  exact fun hst hcwnd hidle hunsent => ht.probed hst hidle hunsent hcwnd

/-- Bytes written into a closed window wait for the probe. -/
theorem no_transmission_stall_closed_window :
    let h := (establishedHist 0).step (.send 2 [1, 2, 3])
    h.conn.tcb.sndUna = h.conn.tcb.sndNxt ∧ Unsent h.conn.tcb ∧ wantsProbe h.conn.tcb = true := by
  have hreach : SendHist.Reach ((establishedHist 0).step (.send 2 [1, 2, 3])) :=
    .next (establishedHist_reach 0) _ (CloseAfterHandshake.send _ _ _)
  have hidle : ((establishedHist 0).step (.send 2 [1, 2, 3])).conn.tcb.sndUna =
      ((establishedHist 0).step (.send 2 [1, 2, 3])).conn.tcb.sndNxt := by decide +kernel
  have hunsent : Unsent ((establishedHist 0).step (.send 2 [1, 2, 3])).conn.tcb :=
    Or.inl (by decide +kernel)
  have hall := (no_transmission_stall hreach (by decide +kernel)).2 (by decide +kernel)
    (by decide +kernel) hidle hunsent
  exact ⟨hidle, hunsent, hall.2.2.2⟩

end PacketForge
