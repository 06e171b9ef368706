import PacketForge.Tcp.StageViews

/-!
What is in flight is bounded by the peer's window, of 16 bits, and the FIN, so that
`snd_nxt` never runs around the sequence space into `snd_una`. This holds of every
block the code opens, whatever is then done with it, also where the ring no longer
accounts for what was sent.
-/

namespace PacketForge

/-- Sequence numbers that fit the window do not catch up with `snd_una`. -/
theorem una_ne_of_flight {una nxt n : UInt32} (hpos : 0 < n.toNat)
    (hlt : (nxt - una).toNat + n.toNat < 2 ^ 32) : una ≠ nxt + n := by
  intro heq
  have hsum : (nxt - una) + n = 0 := by grind
  have hval : ((nxt - una) + n).toNat = (nxt - una).toNat + n.toNat := by
    rw [UInt32.toNat_add]
    exact Nat.mod_eq_of_lt hlt
  rw [hsum, UInt32.toNat_zero] at hval
  omega

theorem self_ne_add_one (x : UInt32) : x ≠ x + 1 := by
  intro heq
  have hone : (1 : UInt32) = 0 := by grind
  exact absurd hone (by decide)

/-- Who sends data is past the handshake. -/
theorem sends_not_opening {st : TcpState} (h : st.sends = true) :
    ¬ (st = .synSent ∨ st = .synRcvd) := by
  rintro (rfl | rfl) <;> cases h

/-- Who sends data has not had its FIN acknowledged. -/
theorem sends_not_done {st : TcpState} (h : st.sends = true) :
    ¬ (st = .finWait2 ∨ st = .timeWait) := by
  rintro (rfl | rfl) <;> cases h

theorem UInt16.toUInt32_le (n : UInt16) : n.toUInt32.toNat ≤ 65535 := by
  have hlt := n.toNat_lt
  rw [UInt16.toNat_toUInt32]
  omega

/-! ### What is in flight -/

/-- The sequence numbers in flight fit the window and the FIN; during the handshake
the SYN alone is in flight, and nothing is once our FIN was acknowledged. -/
structure Flight (s : SendView) : Prop where
  wnd : s.wnd.toNat ≤ 65535
  len : (s.nxt - s.una).toNat ≤ 65535 + s.finSent.toNat
  opening : s.state = .synSent ∨ s.state = .synRcvd →
    s.una = s.iss ∧ s.nxt = s.iss + 1 ∧ s.finSent = false
  done : s.state = .finWait2 ∨ s.state = .timeWait → s.una = s.nxt

namespace Flight

variable {s : SendView}

theorem lt (h : Flight s) : (s.nxt - s.una).toNat < 65537 := by
  have hlen := h.len
  have hfin : s.finSent.toNat ≤ 1 := Bool.toNat_le _
  omega

/-- One more sequence number does not catch up with `snd_una`. -/
theorem next_ne (h : Flight s) : s.una ≠ s.nxt + 1 := by
  have hlt := h.lt
  have hone : (1 : UInt32).toNat = 1 := rfl
  exact una_ne_of_flight (by decide) (by omega)

theorem opening_busy (h : Flight s) (hst : s.state = .synSent ∨ s.state = .synRcvd) :
    s.una ≠ s.nxt := by
  obtain ⟨huna, hnxt, -⟩ := h.opening hst
  rw [huna, hnxt]
  exact self_ne_add_one _

/-- An acknowledgement that is accepted lies between `snd_una` and `snd_nxt`. -/
theorem ack_split (h : Flight s) {x : UInt32} (hgt : seqGt x s.una = true)
    (hle : seqGt x s.nxt = false) :
    (x - s.una).toNat + (s.nxt - x).toNat = (s.nxt - s.una).toNat := by
  have hlt := h.lt
  have hle : ¬ seqGt x s.nxt = true := by simp [hle]
  rw [seqGt_iff] at hgt hle
  rw [UInt32.toNat_sub] at hlt hgt hle ⊢
  rw [UInt32.toNat_sub, UInt32.toNat_sub]
  have hx := x.toNat_lt
  have huna := s.una.toNat_lt
  have hnxt := s.nxt.toNat_lt
  omega

theorem ack_le (h : Flight s) {x : UInt32} (hgt : seqGt x s.una = true)
    (hle : seqGt x s.nxt = false) : (x - s.una).toNat ≤ (s.nxt - s.una).toNat :=
  Nat.le.intro (h.ack_split hgt hle)

theorem una_le_nxt (h : Flight s) : seqLe s.una s.nxt = true := by
  have hlt := h.lt
  have hneg : (s.una - s.nxt).toNat = (2 ^ 32 - (s.nxt - s.una).toNat) % 2 ^ 32 := by
    rw [← UInt32.neg_sub, UInt32.toNat_neg]
    rfl
  rw [seqLe_iff]
  omega

/-- An acknowledgement of our SYN acknowledges all there is. -/
theorem syn_acked (h : Flight s) (hst : s.state = .synSent ∨ s.state = .synRcvd) {x : UInt32}
    (hlo : 0 < (x - s.una).toNat ∧ (x - s.una).toNat ≤ 2 ^ 31)
    (hhi : x = s.nxt ∨ 2 ^ 31 ≤ (x - s.nxt).toNat) : x = s.nxt := by
  obtain ⟨huna, hnxt, -⟩ := h.opening hst
  rcases hhi with hx | hbig
  · exact hx
  · rw [huna] at hlo
    rw [hnxt] at hbig
    have hsub : x - (s.iss + 1) = (x - s.iss) - 1 := by grind
    rw [hsub, UInt32.toNat_sub_of_le _ _ (by rw [UInt32.le_iff_toNat_le]; exact hlo.1)] at hbig
    change 2 ^ 31 ≤ (x - s.iss).toNat - 1 at hbig
    omega

/-- The acknowledgement that SYN_SENT accepts. -/
theorem opened_ack (h : Flight s) (hst : s.state = .synSent) {x : UInt32}
    (hlo : seqLe x s.iss = false) (hhi : seqGt x s.nxt = false) : x = s.nxt := by
  refine h.syn_acked (Or.inl hst) ?_ (ack_not_ahead hhi)
  rw [(h.opening (Or.inl hst)).1]
  exact synSent_ack_pos hlo

/-- The acknowledgement that SYN_RCVD accepts. -/
theorem answered_ack (h : Flight s) (hst : s.state = .synRcvd) {x : UInt32}
    (hlo : seqLt s.una x = true) (hhi : seqLe x s.nxt = true) : x = s.nxt :=
  h.syn_acked (Or.inr hst) ((seqLt_iff_rev _ _).mp hlo) (ack_not_beyond hhi)

theorem advance_toNat {una nxt n : UInt32} (hlt : (nxt - una).toNat + n.toNat < 2 ^ 32) :
    (nxt + n - una).toNat = (nxt - una).toNat + n.toNat := by
  have hsub : nxt + n - una = (nxt - una) + n := by grind
  rw [hsub, UInt32.toNat_add]
  exact Nat.mod_eq_of_lt hlt

theorem acked (h : Flight s) (hsync : s.state ≠ .synSent ∧ s.state ≠ .synRcvd) {x : UInt32}
    (hgt : seqGt x s.una = true) (hle : seqGt x s.nxt = false) :
    Flight { s.acked x with state := ackedState (s.finAcked x) s.state } := by
  have hsplit := h.ack_split hgt hle
  have hlen := h.len
  refine ⟨h.wnd, ?_, ?_, ?_⟩
  · change (s.nxt - x).toNat ≤ 65535 + s.finSent.toNat
    omega
  · intro hst
    have hsame : ackedState (s.finAcked x) s.state = .synSent ∨
        ackedState (s.finAcked x) s.state = .synRcvd := hst
    unfold ackedState at hsame
    split at hsame
    · split at hsame
      · rcases hsame with hs | hs <;> cases hs
      · rcases hsame with hs | hs <;> cases hs
      · exact absurd hsame (by simp [hsync.1, hsync.2])
    · exact absurd hsame (by simp [hsync.1, hsync.2])
  · intro hst
    change x = s.nxt
    cases hfin : s.finAcked x with
    | true =>
      simp only [SendView.finAcked, Bool.and_eq_true, decide_eq_true_eq] at hfin
      exact hfin.2
    | false =>
      -- without our FIN the state is as it was, and nothing was in flight
      rw [hfin] at hst
      have hdone := h.done hst
      rw [hdone, hle] at hgt
      cases hgt

theorem established {ack : UInt32} (hack : ack = s.nxt) (wnd : UInt16) :
    Flight { s with state := .established, una := ack, wnd := wnd.toUInt32 } := by
  refine ⟨UInt16.toUInt32_le wnd, ?_, by simp, by simp⟩
  change (s.nxt - ack).toNat ≤ _
  rw [hack, UInt32.sub_self]
  exact Nat.zero_le _

end Flight

theorem OutMove.flight {s s' : SendView} (hmove : OutMove s s') (h : Flight s) : Flight s' := by
  have hlt := h.lt
  cases hmove with
  | data g n hstate hfin hpos havail hwnd hg =>
    have hw := h.wnd
    refine ⟨h.wnd, ?_, ?_, ?_⟩
    · change (s.nxt + n - s.una).toNat ≤ _
      rw [Flight.advance_toNat (by omega)]
      omega
    · exact fun hst => absurd hst (sends_not_opening hstate)
    · exact fun hst => absurd hst (sends_not_done hstate)
  | fin g hstate hq hfin hall hg =>
    have hlen := h.len
    rw [hfin] at hlen
    change _ ≤ 65535 + 0 at hlen
    refine ⟨h.wnd, ?_, ?_, ?_⟩
    · change (s.nxt + 1 - s.una).toNat ≤ 65535 + 1
      have hone : (1 : UInt32).toNat = 1 := rfl
      rw [Flight.advance_toNat (by omega)]
      omega
    · exact fun hst => absurd hst (sends_not_opening hstate)
    · exact fun hst => absurd hst (sends_not_done hstate)

variable {s : SendView} {c : Conn}

theorem Flight.rxFin (h : Flight s) (ht : s.state.takesData = true) :
    Flight { s with state := rxFinState s.state } := by
  have hdone := h.done
  refine ⟨h.wnd, h.len, ?_, ?_⟩
  · intro hst
    have hsync := rxFinState_sync (takesData_sync ht)
    rcases hst with hst | hst
    · exact absurd hst hsync.1
    · exact absurd hst hsync.2
  · cases hst : s.state <;> rw [hst] at ht hdone
    case established => simp [rxFinState]
    case finWait1 => simp [rxFinState]
    case finWait2 => exact fun _ => hdone (Or.inl rfl)
    all_goals cases ht

theorem SendMove.flight {κ : SendCause} {s s' : SendView} (hmove : SendMove κ s s')
    (h : Flight s) : Flight s' := by
  cases hmove with
  | output hout => exact hout.flight h
  | probe g hstate hlen hidle hwnd hseg hg =>
    refine ⟨h.wnd, ?_, ?_, ?_⟩
    · change (s.nxt + 1 - s.una).toNat ≤ _
      have hone : s.nxt + 1 - s.una = 1 := by grind
      rw [hone]
      exact Nat.le_trans (by decide) (Nat.le_add_right _ _)
    · exact fun hst => absurd hst (sends_not_opening hstate)
    · exact fun hst => absurd hst (sends_not_done hstate)
  | ack g hseg hat hout hsync hgt hle => exact h.acked hsync hgt hle
  | wnd g hseg hlo hhi => exact ⟨UInt16.toUInt32_le g.wnd, h.len, h.opening, h.done⟩
  | rxFin hat ht => exact h.rxFin ht
  | synRcvd hst => exact ⟨h.wnd, h.len, fun _ => h.opening (Or.inl hst), by simp⟩
  | establish g hseg hst hout hlo hhi => exact Flight.established (h.syn_acked hst hlo hhi) g.wnd
  | ctl | rtxData | rtxFin => exact ⟨h.wnd, h.len, h.opening, h.done⟩

theorem Flight.append (h : Flight s) (buf : Nat → UInt8) (len : UInt32) :
    Flight { s with buf := buf, len := len } :=
  ⟨h.wnd, h.len, h.opening, h.done⟩

theorem Flight.close (h : Flight s) {st : TcpState} (hst : ClosesTo s.state st) :
    Flight { s with state := st, finQueued := true } := by
  refine ⟨h.wnd, h.len, ?_, ?_⟩
  · rintro (hs | hs)
    · exact absurd hs hst.synced.1
    · exact absurd hs hst.synced.2
  · intro hs
    have hs : st = .finWait2 ∨ st = .timeWait := hs
    rcases hst.target with rfl | rfl <;> simp at hs

theorem Flight.synWaits (h : Flight s) : SynWaits s :=
  fun hst => (h.opening (Or.inl hst)).1

theorem Act.flight {e : ConnEvent} {c d : Conn} (h : Act e c d) (hc : Flight c.send) :
    Flight d.send :=
  (h.sendStage hc.synWaits).keeps (fun _ _ _ hmove hs => hmove.flight hs)
    (fun _ buf len hs => hs.append buf len) (fun _ _ _ _ hst hs => hs.close hst) hc

theorem Stage.flight {e : ConnEvent} {c d : Conn} (h : Stage e c d) (hc : Flight c.send) :
    Flight d.send :=
  Acts.invariant (P := fun c => Flight c.send) (fun _ _ hact hf => hact.flight hf) h.acts hc

theorem SendMoves.flight {κ : SendCause} {s s' : SendView} (hmoves : SendMoves κ s s')
    (h : Flight s) : Flight s' :=
  SendMoves.invariant (fun _ _ hmove hs => hmove.flight hs) hmoves h

/-! ### Opening and events -/

theorem tcpStartSyn_flight (now : Nat) (flags : UInt8) (hflags : flags &&& tcpFin = 0) {c : Conn}
    (hwnd : c.tcb.sndWnd.toNat ≤ 65535) (hu : Unopened c.send) :
    Flight (tcpStartSyn now flags c).send := by
  have hc : Flight c.send := by
    refine ⟨hwnd, ?_, fun _ => ⟨hu.una, hu.nxt, hu.finSent⟩, ?_⟩
    · have hone : c.send.nxt - c.send.una = 1 := by
        rw [hu.una, hu.nxt]
        grind
      rw [hone]
      exact Nat.le_trans (by decide) (Nat.le_add_right _ _)
    · intro hst
      rcases hu.state with hopen | hopen <;> rw [hopen] at hst <;> simp at hst
  simp only [tcpStartSyn, tcpArmRto_send]
  exact (SendMoves.of_onlyCtl (κ := .internal) (tcpSendCtl_onlyCtl c flags hflags)).flight hc

theorem Opened.flight (h : Opened c) : Flight c.send := by
  cases h with
  | active now sock lip lport rip rport iss st =>
    exact tcpStartSyn_flight _ _ (by decide) (Nat.zero_le _)
      ⟨Or.inl rfl, rfl, rfl, rfl, rfl, rfl, rfl⟩
  | passive now l lport iss g st =>
    have hview := tcpTakeMss_send
      ((Conn.start (passiveTcb l lport iss g) st).count .tcpPassiveOpens) g
    have hwnd := UInt16.toUInt32_le g.wnd
    apply tcpStartSyn_flight _ _ (by decide)
    · exact Nat.le_trans (Nat.le_of_eq (congrArg (fun s => s.wnd.toNat) hview)) hwnd
    · rw [Conn.setState_send, hview]
      exact ⟨Or.inr rfl, rfl, rfl, rfl, rfl, rfl, rfl⟩

theorem Flight.quiet {c : Conn} (h : Flight c.send) (st : Stats) :
    Flight (Conn.start c.tcb st).send :=
  ⟨h.wnd, h.len, h.opening, h.done⟩

theorem Flight.stages {P : Conn → Prop} {t : Tcb} {st : Stats} {e : ConnEvent}
    (h : Flight (Conn.start t st).send) (hstage : ∀ c d, Stage e c d → Flight c.send → P c → P d)
    (hstart : P (Conn.start t st)) (hend : (connHandle (Conn.start t st) e).fate = .alive) :
    P (connHandle (Conn.start t st) e) := by
  refine (Stages.invariant (P := fun c => Flight c.send ∧ P c) ?_
    (connHandle_stages (t := t) h.synWaits hend) ⟨h, hstart⟩).2
  rintro c d hcd ⟨hf, hp⟩
  exact ⟨hcd.flight hf, hstage c d hcd hf hp⟩

theorem eventView_flight (h : Flight c.send) (e : ConnEvent) : Flight (eventView c e) := by
  have hstart := h.quiet c.stats
  cases e with
  | send now data => exact hstart.append _ _
  | close now =>
    simp only [eventView, SendView.closed]
    split <;> rename_i hst
    · exact hstart.close (hst ▸ .synRcvd)
    · exact hstart.close (hst ▸ .established)
    · exact hstart.close (hst ▸ .closeWait)
    · exact hstart
  | segment | tick | recv | nodelay | attach => exact hstart

theorem connStep_flight (h : Flight c.send) (e : ConnEvent) : Flight (connStep c e).send := by
  cases hfate : c.fate with
  | freed err =>
    simp only [connStep, hfate]
    exact h.quiet c.stats
  | alive => exact (connStep_moves c e hfate h.synWaits).flight (eventView_flight h e)

theorem SendHist.Reach.flight {h : SendHist} (hr : SendHist.Reach h) : Flight h.conn.send :=
  Run.Reach.invariant (fun h : SendHist => Flight h.conn.send) (fun _ hopen => hopen.1.flight)
    (fun _ e _ hf => connStep_flight hf e) hr

/-- What every stage keeps holds of live connections over whole runs. -/
theorem SendHist.Reach.live {P : Conn → Prop} (hopen : ∀ c, Opened c → P c)
    (hstart : ∀ c, P c → P (Conn.start c.tcb c.stats))
    (hstage : ∀ e c d, Stage e c d → Flight c.send → P c → P d) {h : SendHist}
    (hr : SendHist.Reach h) (halive : h.conn.fate = .alive) : P h.conn := by
  induction hr with
  | start hinit => exact hopen _ hinit.1
  | @next h hr e hclose ih =>
    have hlive : h.conn.fate = .alive := connStep_live halive
    have heq : connStep h.conn e = connHandle (Conn.start h.conn.tcb h.conn.stats) e := by
      simp only [connStep, hlive]
    change P (connStep h.conn e)
    change (connStep h.conn e).fate = .alive at halive
    rw [heq] at halive ⊢
    exact ((SendHist.Reach.flight hr).quiet _).stages (hstage e) (hstart _ (ih hlive)) halive

end PacketForge
