import PacketForge.Tcp.Window

/-!
The peer's window over whole runs. A run that meets no stale window keeps all
its new data inside the edges the peer offered; one acknowledgement that
shrinks the window relative to the data it acknowledges is enough to leave
them.
-/

namespace PacketForge

section Handshake

variable {a E : Nat}

theorem Room.of_not_sends {s : SendView} (h : s.state.sends = false) : Room a E s := by
  intro hs
  rw [h] at hs
  cases hs

/-- SYN_SENT: the peer's answer sets `snd_una` and the window together. -/
theorem tcpInputSynSent_kept (now : Nat) (g : Seg) (c : Conn) (hout : c.out = [])
    (hst : c.tcb.state = .synSent) (huna : c.tcb.sndUna = c.tcb.iss)
    (hoffer : acceptsAck c.tcb g = true → a + (g.ack - c.tcb.sndUna).toNat + g.wnd.toNat ≤ E) :
    EventKept a E c (tcpInputSynSent now g c) := by
  have hclosed : c.send.state.sends = false := by
    change c.tcb.state.sends = false
    rw [hst]
    rfl
  have hroom : Room a E c.send := Room.of_not_sends hclosed
  unfold tcpInputSynSent
  split
  · split
    · exact EventKept.of_onlyCtl (OnlyCtl.refl _) hout hroom
    · exact EventKept.of_onlyCtl (tcpSendResetFor_onlyCtl c g) hout hroom
  rename_i hbad
  split
  · split <;> exact EventKept.of_onlyCtl (OnlyCtl.refl _) hout hroom
  rename_i hrst
  split
  · rename_i hsyn
    have hview := tcpTakeSyn_send g c
    have hack (ha : g.has tcpAck = true) :
        seqLe g.ack c.tcb.iss = false ∧ seqGt g.ack c.tcb.sndNxt = false := by
      simpa [ha] using hbad
    rw [tcpSynSentSyn_eq now g c huna (fun ha => (hack ha).1)]
    split
    · rename_i ha
      obtain ⟨hlo, hhi⟩ := hack ha
      have hacc : acceptsAck c.tcb g = true := by
        simp [acceptsAck, hst, ha, hsyn, hrst, hlo, hhi]
      have hctl : OnlyCtl
          { c.send with state := .established, una := g.ack, wnd := g.wnd.toUInt32 }
          (tcpSendCtl (tcpEstablish ((tcpTakeSyn g c).setUna g.ack) g) tcpAck).send := by
        refine (tcpSendCtl_onlyCtl _ _ (by decide)).of_view ?_
        rw [tcpEstablish_send, hview]
      refine EventKept.of_ctl hctl hout (fun _ _ => ?_)
      rw [UInt16.toNat_toUInt32]
      exact hoffer hacc
    · have hctl : OnlyCtl { c.send with state := .synRcvd }
          (tcpSimultaneousOpen now (tcpTakeSyn g c)).send := by
        simp only [tcpSimultaneousOpen, tcpArmRto_send]
        refine (tcpSendCtl_onlyCtl _ _ (by decide)).of_view ?_
        rw [Conn.setState_send, hview]
      exact EventKept.of_ctl hctl hout (Room.of_not_sends rfl)
  · exact EventKept.of_onlyCtl (OnlyCtl.refl _) hout hroom

theorem seqGt_self (x : UInt32) : seqGt x x = false := by
  rw [← Bool.not_eq_true, seqGt_iff, UInt32.sub_self]
  decide

/-- The rest of the segment that completed the handshake, processed as in
ESTABLISHED. -/
theorem tcpInputSynced_established_kept (now : Nat) (g : Seg) (c e : Conn) (hok : Flight e.send)
    (hout : e.out = [])
    (hview : e.send =
      { c.send with state := .established, una := g.ack, wnd := g.wnd.toUInt32 })
    (hoffer : a + (g.ack - c.tcb.sndUna).toNat + g.wnd.toNat ≤ E) :
    EventKept a E c (tcpInputSynced now g e) := by
  have hst : e.tcb.state = .established := congrArg SendView.state hview
  have huna : e.tcb.sndUna = g.ack := congrArg SendView.una hview
  have hnxt : e.tcb.sndNxt = c.tcb.sndNxt := congrArg SendView.nxt hview
  set a₁ := a + (g.ack - c.tcb.sndUna).toNat with ha₁
  have hold : seqGt g.ack e.tcb.sndUna = false := by rw [huna, seqGt_self]
  obtain ⟨hkept, hsame⟩ := tcpInputSynced_kept now g e hok hout (a := a₁) (E := E)
    (by rw [hst]; exact ⟨by decide, by decide⟩)
    (fun _ _ => by rw [huna, UInt32.sub_self, UInt32.toNat_zero]; omega)
    (fun _ hgt => by rw [hold] at hgt; cases hgt)
    (fun _ _ => by rw [hview, UInt16.toNat_toUInt32]; exact hoffer)
  have huna' := hsame hold
  have hin := hkept.within
  have hroom := hkept.room
  rw [huna', UInt32.sub_self, UInt32.toNat_zero, Nat.add_zero] at hin hroom
  refine ⟨?_, fun halive => ?_⟩
  · rw [huna', huna, ← hnxt]
    exact hin
  · rw [huna', huna]
    exact hroom halive

theorem tcpInputSynRcvd_kept (now : Nat) (lroom : Option Bool) (g : Seg) (c : Conn)
    (hok : Flight c.send) (hout : c.out = []) (hst : c.tcb.state = .synRcvd)
    (hreach : seqGt g.ack c.tcb.sndNxt = false → reachesAck c.tcb g = true)
    (hoffer : acceptsAck c.tcb g = true → a + (g.ack - c.tcb.sndUna).toNat + g.wnd.toNat ≤ E) :
    EventKept a E c (tcpInputSynRcvd now lroom g c) := by
  unfold tcpInputSynRcvd
  split
  · rename_i hin
    rw [Bool.and_eq_true] at hin
    have hacc : acceptsAck c.tcb g = true := by
      have hle : seqLe c.tcb.sndUna g.ack = true := by
        rw [seqLe_iff]
        exact Or.inr ((seqLt_iff _ _).mp hin.1)
      have hgt : seqGt g.ack c.tcb.sndNxt = false := by
        have hhi := hin.2
        rw [seqLe_iff] at hhi
        rw [← Bool.not_eq_true, seqGt_iff]
        omega
      simp [acceptsAck, hst, hreach hgt, hle, hin.1]
    have hedge := hoffer hacc
    rw [seqLt_iff_rev, seqLe_iff, SeqSpace.toNat_sub_eq_zero_iff] at hin
    have hmove : SendMove (ackCause g) c.send
        { c.send with state := .established, una := g.ack, wnd := g.wnd.toUInt32 } :=
      SendMove.establish c.send g rfl (Or.inr hst) hout hin.1 hin.2
    have hok' := hmove.flight hok
    cases lroom with
    | none =>
      exact tcpInputSynced_established_kept now g c (tcpEstablish (c.setUna g.ack) g) hok' hout
        rfl hedge
    | some room =>
      cases room with
      | true =>
        exact tcpInputSynced_established_kept now g c
          { tcpEstablish (c.setUna g.ack) g with queued := true } hok' hout rfl hedge
      | false =>
        have hctl : OnlyCtl
            { c.send with state := .established, una := g.ack, wnd := g.wnd.toUInt32 }
            (tcpAppAbort ((tcpEstablish (c.setUna g.ack) g).count .tcpAcceptDrops)).send :=
          (tcpAppAbort_onlyCtl _).of_view rfl
        refine EventKept.of_ctl hctl hout (fun _ _ => ?_)
        rw [UInt16.toNat_toUInt32]
        exact hedge
  · refine EventKept.of_onlyCtl (tcpSendResetFor_onlyCtl c g) hout (Room.of_not_sends ?_)
    change c.tcb.state.sends = false
    rw [hst]
    rfl

end Handshake

/-! ### Events -/

theorem tcpInputConn_kept {a E : Nat} (now : Nat) (lroom : Option Bool) (g : Seg)
    (c : Conn) (hok : Flight c.send) (hout : c.out = []) (hroom : Room a E c.send)
    (hoffer : acceptsAck c.tcb g = true → a + (g.ack - c.tcb.sndUna).toNat + g.wnd.toNat ≤ E)
    (hsafe : reachesAck c.tcb g = true → AckHarmless a E c g) :
    EventKept a E c (tcpInputConn now lroom g c) := by
  unfold tcpInputConn
  split
  · rename_i hst
    exact tcpInputSynSent_kept now g c hout hst (hok.opening (Or.inl hst)).1 hoffer
  rename_i hsent
  split
  · simp only
    split
    · exact EventKept.of_onlyCtl (OnlyCtl.refl _) hout hroom
    · exact EventKept.of_onlyCtl (ackSent_onlyCtl rfl) hout hroom
  rename_i hacc
  split
  · exact EventKept.of_onlyCtl (tcpInputRst_onlyCtl g c) hout hroom
  rename_i hrst
  split
  · exact EventKept.of_onlyCtl (ackSent_onlyCtl rfl) hout hroom
  rename_i hsyn
  split
  · exact EventKept.of_onlyCtl (OnlyCtl.refl _) hout hroom
  rename_i hack
  have hreach (hle : seqGt g.ack c.tcb.sndNxt = false) : reachesAck c.tcb g = true := by
    simp only [Bool.not_eq_true', Bool.not_eq_false, Bool.not_eq_true] at hacc hrst hsyn hack
    simp [reachesAck, hacc, hrst, hsyn, hack, hle]
  split
  · rename_i hst
    exact tcpInputSynRcvd_kept now lroom g c hok hout hst hreach hoffer
  · rename_i hrcvd
    refine (tcpInputSynced_kept now g c hok hout ⟨hsent, hrcvd⟩ ?_ (fun hle => hsafe (hreach hle))
      hroom).1
    intro hle hlo
    apply hoffer
    simp [acceptsAck, hsent, hrcvd, hreach hle, hlo]

/-- Nothing but a segment moves `snd_una` or the window. -/
theorem SendMoves.internal_room {a E : Nat} {s s' : SendView} (h : SendMoves .internal s s')
    (hroom : Room a E s) : s'.una = s.una ∧ Room a E s' := by
  have hkept : s'.una = s.una ∧ s'.wnd = s.wnd ∧ (s'.finSent = false → s.finSent = false) ∧
      (s'.state.sends = true → s.state.sends = true) := by
    refine SendMoves.invariant (P := fun x => x.una = s.una ∧ x.wnd = s.wnd ∧
      (x.finSent = false → s.finSent = false) ∧ (x.state.sends = true → s.state.sends = true))
      ?_ h ⟨rfl, rfl, id, id⟩
    rintro x x' hmove ⟨huna, hwnd, hfin, hsends⟩
    cases hmove with
    | output hout =>
      cases hout with
      | data => exact ⟨huna, hwnd, hfin, hsends⟩
      | fin => exact ⟨huna, hwnd, by simp, hsends⟩
    | ack g hseg | wnd g hseg | establish g hseg => cases hseg
    | rxFin hat => exact absurd hat id
    | synRcvd hst => exact ⟨huna, hwnd, hfin, by simp [TcpState.sends]⟩
    | _ => exact ⟨huna, hwnd, hfin, hsends⟩
  obtain ⟨huna, hwnd, hfin, hsends⟩ := hkept
  refine ⟨huna, fun hs hf => ?_⟩
  rw [hwnd]
  exact hroom (hsends hs) (hfin hf)

theorem eventView_room {a E : Nat} {c : Conn} (hroom : Room a E c.send) (e : ConnEvent)
    (hclose : ∀ now, e = .close now → c.tcb.state = .synRcvd → a + c.tcb.sndWnd.toNat ≤ E) :
    Room a E (eventView c e) := by
  cases e with
  | close now =>
    have hst : (Conn.start c.tcb c.stats).send.state = c.tcb.state := rfl
    simp only [eventView, SendView.closed]
    split
    · rename_i heq
      exact fun _ _ => hclose now rfl (hst ▸ heq)
    · rename_i heq
      exact fun _ hfin => hroom (by change c.tcb.state.sends = true; rw [← hst, heq]; rfl) hfin
    · rename_i heq
      exact fun _ hfin => hroom (by change c.tcb.state.sends = true; rw [← hst, heq]; rfl) hfin
    · exact hroom
  | send | segment | tick | recv | nodelay | attach => exact hroom

/-! ### Runs -/

/-- The invariant of a run. -/
structure WndHist.Ok (w : WndHist) : Prop where
  flight : Flight w.conn.send
  room : w.conn.fate = .alive → Room w.acked w.edge w.conn.send

theorem Room.mono {a E E' : Nat} {s : SendView} (h : Room a E s) (hle : E ≤ E') : Room a E' s :=
  fun hs hf => (h hs hf).trans hle

/-- The calls of the application run `tcp_output`, or emit no data. -/
theorem connStep_app (c : Conn) (e : ConnEvent) (halive : c.fate = .alive)
    (hseg : ∀ now lroom g, e ≠ .segment now lroom g) (htick : ∀ now, e ≠ .tick now) :
    OutMoves (eventView c e) (connStep c e).send ∨ OnlyCtl (eventView c e) (connStep c e).send := by
  simp only [connStep, halive]
  cases e with
  | segment now lroom g => exact absurd rfl (hseg now lroom g)
  | tick now => exact absurd rfl (htick now)
  | send now data =>
    have happ : appended c (.send now data) =
        appended (Conn.start c.tcb c.stats) (.send now data) := by
      simp [appended, halive, Conn.start]
    left
    simp only [eventView, happ]
    exact pfSendCopy_outMoves now data _ rfl
  | close now => exact Or.inl (tcpAppClose_outMoves now _)
  | recv cap => exact Or.inr (pfRecvCopy_onlyCtl cap _)
  | nodelay | attach => exact Or.inr (OnlyCtl.refl _)

/-- What one event leaves behind: its new data and the window in force end inside
the edge. -/
structure WndHist.StepKept (w : WndHist) (e : ConnEvent) : Prop where
  within : (∀ now, e ≠ .tick now) →
    Within w.conn.tcb.sndNxt (w.step e).acked (w.step e).edge (w.step e).conn.send
  room : (w.step e).conn.fate = .alive →
    Room (w.step e).acked (w.step e).edge (w.step e).conn.send

theorem WndHist.segment_kept {w : WndHist} (hok : w.Ok) (now : Nat) (lroom : Option Bool) (g : Seg)
    (halive : w.conn.fate = .alive) (hclean : ¬ StaleWindow w (.segment now lroom g)) :
    w.StepKept (.segment now lroom g) := by
  set e : ConnEvent := .segment now lroom g with he
  set c := Conn.start w.conn.tcb w.conn.stats with hc
  have hedge : w.edge ≤ w.offered e := by
    simp only [he, WndHist.offered]
    split
    · exact Nat.le_max_left _ _
    · exact Nat.le_refl _
  have hflight : Flight c.send := eventView_flight hok.flight e
  have hroom : Room w.acked (w.offered e) c.send := (hok.room halive).mono hedge
  have hkept : EventKept w.acked (w.offered e) c (tcpInputConn now lroom g c) := by
    refine tcpInputConn_kept now lroom g c hflight rfl hroom ?_ ?_
    · intro hacc
      have hoff : w.offered e = max w.edge (w.edgeOf g) := if_pos ⟨halive, hacc⟩
      rw [hoff]
      exact Nat.le_max_right _ _
    · intro hreach hgt hsends hfin
      by_contra hno
      simp only [not_or, not_and, Nat.not_le, UInt32.not_le] at hno
      refine hclean ⟨halive, hsends, hfin, hreach, hgt, hno.1, ?_⟩
      by_cases hring : w.acked + w.conn.tcb.sndLen.toNat ≤ w.offered e
      · cases hnew : wndIsNewer w.conn.tcb g with
        | false => exact Or.inr (Or.inl rfl)
        | true => exact Or.inr (Or.inr (hno.2 hring hnew))
      · exact Or.inl (by omega)
  have hstep : (w.step e).conn = tcpInputConn now lroom g c := by
    simp only [WndHist.step, connStep, halive, he]
    rfl
  have hacked : (w.step e).acked =
      w.acked + ((tcpInputConn now lroom g c).tcb.sndUna - c.tcb.sndUna).toNat := by
    rw [← hstep]
    rfl
  refine ⟨fun _ => ?_, fun hfate => ?_⟩
  · rw [hacked, hstep]
    exact hkept.within
  · rw [hacked, hstep]
    exact hkept.room (hstep ▸ hfate)

theorem WndHist.step_kept {w : WndHist} (hok : w.Ok) (e : ConnEvent)
    (halive : w.conn.fate = .alive) (hclean : ¬ StaleWindow w e) : w.StepKept e := by
  have hflight := hok.flight
  have hmoves := connStep_moves w.conn e halive (fun hst => (hflight.opening (Or.inl hst)).1)
  have hview : Room w.acked w.edge (eventView w.conn e) := by
    refine eventView_room (hok.room halive) e ?_
    rintro now rfl hst
    by_contra hlt
    exact hclean ⟨halive, hst, by omega⟩
  by_cases hseg : ∃ now lroom g, e = .segment now lroom g
  · obtain ⟨now, lroom, g, rfl⟩ := hseg
    exact WndHist.segment_kept hok now lroom g halive hclean
  have hnoseg : ∀ now lroom g, e ≠ .segment now lroom g := fun now lroom g h =>
    hseg ⟨now, lroom, g, h⟩
  -- without a segment `snd_una` and the edge stay where they are
  have hcause : eventCause w.conn e = .internal := by
    cases e <;> first | rfl | exact absurd rfl (hnoseg _ _ _)
  have hedge : (w.step e).edge = w.edge := by
    cases e <;> first | rfl | exact absurd rfl (hnoseg _ _ _)
  have huna : (eventView w.conn e).una = w.conn.tcb.sndUna := by
    cases e with
    | close now =>
      simp only [eventView, SendView.closed]
      split <;> rfl
    | _ => rfl
  have hout : (eventView w.conn e).out = [] := by
    cases e with
    | close now =>
      simp only [eventView, SendView.closed]
      split <;> rfl
    | _ => rfl
  rw [hcause] at hmoves
  obtain ⟨hsame, hroom⟩ := hmoves.internal_room hview
  have hacked : (w.step e).acked = w.acked := by
    have hun : (connStep w.conn e).tcb.sndUna = w.conn.tcb.sndUna := hsame.trans huna
    simp [WndHist.step, hun]
  refine ⟨fun htick => ?_, fun _ => ?_⟩
  · rw [hacked, hedge]
    rcases connStep_app w.conn e halive hnoseg htick with hrun | hctl
    · exact (hrun.kept (eventView_flight hflight e) (Within.of_out_nil hout) (Or.inl hview)).within
    · exact (Within.of_out_nil hout).of_onlyCtl hctl
  · rw [hacked, hedge]
    exact hroom

theorem WndHist.Opens.ok {w : WndHist} (h : w.Opens) : w.Ok := by
  obtain ⟨hopen, -, -⟩ := h
  have hst := hopen.state
  refine ⟨hopen.flight, fun _ => Room.of_not_sends ?_⟩
  change w.conn.tcb.state.sends = false
  rcases hst with hst | hst <;> rw [hst] <;> rfl

theorem WndHist.Ok.step {w : WndHist} (hok : w.Ok) (e : ConnEvent) (hclean : ¬ StaleWindow w e) :
    (w.step e).Ok := by
  refine ⟨connStep_flight hok.flight e, fun hfate => ?_⟩
  cases hlive : w.conn.fate with
  | alive => exact (WndHist.step_kept hok e hlive hclean).room hfate
  | freed err =>
    have hdead : (w.step e).conn.fate = .freed err := by
      simp only [WndHist.step, connStep, hlive]
    rw [hdead] at hfate
    cases hfate

/-- The runs in which no step meets a stale window. -/
abbrev WndHist.CleanReach : WndHist → Prop :=
  Run.Reach WndHist.Opens (fun w e => ¬ StaleWindow w e) WndHist.step

theorem WndHist.CleanReach.ok {w : WndHist} (hr : WndHist.CleanReach w) : w.Ok :=
  Run.Reach.invariant WndHist.Ok (fun _ h => h.ok) (fun _ e he hok => hok.step e he) hr

/-- New data and the peer's window. In every run without a stale window, all new
data ends at or below the right edge most favourable to us among all segments
accepted so far, the one being processed included. -/
theorem respects_of_cleanReach {w : WndHist} (hr : WndHist.CleanReach w) (e : ConnEvent)
    (hclean : ¬ StaleWindow w e) : w.Respects e := by
  rintro g ⟨hg, hpay, hnew, htick⟩
  cases hlive : w.conn.fate with
  | alive => exact (WndHist.step_kept hr.ok e hlive hclean).within htick g hg hpay hnew
  | freed err =>
    simp only [connStep, hlive] at hg
    cases hg

/-- An active open whose SYN was answered with a window of ten bytes. -/
def tenByteWindow : WndHist :=
  WndHist.step
    { conn := tcpOpenActiveConn 0 none 1 5000 2 80 100 Stats.zero, acked := 0, edge := 0 }
      (.segment 1 none (peerSeg (tcpSyn ||| tcpAck) 300 101 10))

theorem tenByteWindow_cleanReach : WndHist.CleanReach tenByteWindow := by
  refine .next (.start ⟨.active 0 none 1 5000 2 80 100 Stats.zero, rfl, rfl⟩) _ ?_
  rintro ⟨-, hsends, -⟩
  cases hsends

/-- Of twenty bytes written into a window of ten, ten go out. -/
theorem respects_of_cleanReach_ten_bytes :
    let e : ConnEvent := .send 2 (List.replicate 20 7)
    ((tenByteWindow.step e).conn.out.map fun g => (g.seq, g.payload.length)) = [(101, 10)] ∧
      tenByteWindow.Respects e :=
  ⟨by decide +kernel, respects_of_cleanReach tenByteWindow_cleanReach _ (fun h => h.2)⟩

/-- Those ten bytes are acknowledged and the window is closed: the next ten are
sent all the same, because `tcp_output` still sees the old window. -/
theorem closed_window_overrun :
    let w := tenByteWindow.step (.send 2 (List.replicate 20 7))
    let e : ConnEvent := .segment 3 none (peerSeg tcpAck 301 111 0)
    WndHist.CleanReach w ∧ StaleWindow w e ∧ ¬ w.Respects e := by
  intro w e
  have hstale : w.conn.tcb.state.sends = true ∧ w.conn.tcb.finSent = false ∧
      reachesAck w.conn.tcb (peerSeg tcpAck 301 111 0) = true ∧
      seqGt 111 w.conn.tcb.sndUna = true ∧
      w.offered e < w.acked + (111 - w.conn.tcb.sndUna).toNat + w.conn.tcb.sndWnd.toNat ∧
      w.offered e < w.acked + w.conn.tcb.sndLen.toNat := by
    decide +kernel
  have hover : ∃ g ∈ (connStep w.conn e).out, g.payload ≠ [] ∧
      seqGe g.seq w.conn.tcb.sndNxt = true ∧
      (w.step e).edge <
        (w.step e).acked + (g.seq - (w.step e).conn.tcb.sndUna).toNat + g.payload.length := by
    decide +kernel
  refine ⟨.next tenByteWindow_cleanReach _ (fun h => h.2), ?_, fun hresp => ?_⟩
  · obtain ⟨h1, h2, h3, h4, h5, h6⟩ := hstale
    exact ⟨by decide +kernel, h1, h2, h3, h4, h5, Or.inl h6⟩
  · obtain ⟨g, hg, hpay, hnew, hlt⟩ := hover
    have hle := hresp g ⟨hg, hpay, hnew, by simp⟩
    omega

end PacketForge
