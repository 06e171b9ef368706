import PacketForge.Tcp.Trimming

/-!
A receiver that gets everything in order. All it has taken lies below `rcv_nxt`, and
nothing is parked. A segment that starts at or below `rcv_nxt`, and whose end the
window covers, is then taken to its end, text and FIN. What the segments carry plays
no part here, only where they lie; a segment must not be further from `rcv_nxt` than a
quarter of the sequence space, so that the comparisons of sequence numbers mean what
they say.
-/

namespace PacketForge

open SeqSpace (pos)

/-- `rcv_nxt` stands at position `n`, and nothing is parked. -/
structure Level (base : UInt32) (n : Nat) (v : RecvView) : Prop where
  nxt : v.nxt = pos base n
  room : v.state.pastFin = false → v.len.toNat ≤ 65535 ∧ v.ooo = []

theorem RoomTo.wndEnd {base : UInt32} {n hi : Nat} {c : Conn} (h : RoomTo base n hi c.recv) :
    rcvWndEnd c.tcb = pos base hi := by
  have hlen := h.len_le
  have hedge := h.edge
  have hwnd : (tcpRcvWindow c.tcb).toUInt32 = UInt32.ofNat (65535 - c.recv.len.toNat) := by
    apply UInt32.toNat_inj.mp
    have hfree : (tcpRcvWindow c.tcb).toNat = 65535 - c.recv.len.toNat := windowOf_toNat hlen
    rw [UInt16.toNat_toUInt32, hfree, UInt32.toNat_ofNat']
    omega
  have hnxt : c.tcb.rcvNxt = pos base n := h.nxt
  rw [rcvWndEnd, hwnd, hnxt, SeqSpace.pos_add]
  exact congrArg (pos base) (by omega)

namespace Level

variable {base : UInt32} {n : Nat} {v : RecvView}

theorem stateOnly (h : Level base n v) {w : RecvView} (hs : StateOnly v w) : Level base n w := by
  obtain ⟨st, -, hpast, rfl⟩ := hs
  exact ⟨h.nxt, fun hno => h.room (hpast.symm.trans hno)⟩

/-- The peer's SYN is taken by a receiver that holds nothing. -/
theorem syn (hlen : v.len = 0) (hooo : v.ooo = []) (st : TcpState) (irs : UInt32) :
    Level irs 1 { v with state := st, irs := irs, nxt := irs + 1 } := by
  refine ⟨rfl, fun _ => ⟨?_, hooo⟩⟩
  change v.len.toNat ≤ 65535
  rw [hlen]
  exact Nat.zero_le _

theorem read (h : Level base n v) {k head : UInt32} (hk : k ≤ v.len) :
    Level base n { v with head := head, len := v.len - k } := by
  have hsub : (v.len - k).toNat = v.len.toNat - k.toNat := UInt32.toNat_sub_of_le _ _ hk
  refine ⟨h.nxt, fun hpast => ?_⟩
  obtain ⟨hlen, hooo⟩ := h.room hpast
  refine ⟨?_, hooo⟩
  change (v.len - k).toNat ≤ 65535
  omega

theorem roomTo (h : Level base n v) (hpast : v.state.pastFin = false) :
    ∃ hi, RoomTo base n hi v := by
  have hlen := (h.room hpast).1
  exact ⟨n + 65535 - v.len.toNat, hlen, h.nxt, by omega⟩

end Level

/-! ### The text of a segment -/

section Text

variable {base : UInt32} {n p : Nat} {c : Conn} {g : Seg} (now : Nat)

theorem tcpRxTrimmed_level {data : List UInt8} (h : Level base n c.recv)
    (hpast : c.tcb.state.pastFin = false) (hpos : 0 < data.length)
    (hfit : data.length + c.tcb.rcvLen.toNat ≤ 65535) :
    Level base (n + data.length) (tcpRxTrimmed c c.tcb.rcvNxt data now).recv := by
  obtain ⟨hi, hroom⟩ := h.roomTo hpast
  have hedge : n + 65535 = hi + c.tcb.rcvLen.toNat := hroom.edge
  have hwnd := hroom.wndEnd
  have hnxt : c.tcb.rcvNxt = pos base n := h.nxt
  have hin : seqGe c.tcb.rcvNxt (rcvWndEnd c.tcb) = false := by
    rw [Bool.eq_false_iff, Ne, hwnd, hnxt, seqGe_pos _ (by omega) (by omega)]
    omega
  have hwhole : trimTail c.tcb c.tcb.rcvNxt data = data := by
    unfold trimTail
    rw [if_neg]
    rw [hwnd, hnxt, SeqSpace.pos_add, seqGt_pos _ (by omega) (by omega)]
    omega
  have happ : RoomTo base (n + data.length) hi (rcvAppend c data).recv := hroom.append (by omega)
  have hview (d : Conn) : d.tcb.ooo = d.recv.ooo := rfl
  have hdrain (d : Conn) : (oooDrainLoop [] d).recv = { d.recv with ooo := [] } := rfl
  have hooo : (rcvAppend c data).tcb.ooo = [] := by
    rw [hview, rcvAppend_recv]
    exact (h.room hpast).2
  unfold tcpRxTrimmed
  rw [if_neg (by simp [hin]), hwhole, tcpRxInWindow, if_neg (Nat.ne_of_gt hpos), if_pos rfl,
    tcpDelayAck_recv, tcpOooDrain, hooo, hdrain]
  exact ⟨happ.nxt, fun _ => ⟨happ.len_le, rfl⟩⟩

theorem tcpRxPayload_level {seq : UInt32} {data : List UInt8} (h : Level base n c.recv)
    (hpast : c.tcb.state.pastFin = false) (hseq : seq = pos base p) (hp : p ≤ n)
    (hnear : n ≤ p + 2 ^ 30) (hlen : data.length < 2 ^ 16) (hpos : 0 < data.length)
    (hfit : n < p + data.length → p + data.length + c.tcb.rcvLen.toNat ≤ n + 65535) :
    Level base (max n (p + data.length)) (tcpRxPayload c seq data now).recv := by
  have hnxt : c.tcb.rcvNxt = pos base n := h.nxt
  have hskip : (c.tcb.rcvNxt - seq).toNat = n - p := by
    rw [hseq, hnxt]
    exact SeqSpace.pos_sub_toNat _ hp (by omega)
  have hlt : seqLt seq c.tcb.rcvNxt = true ↔ p < n := by
    rw [hseq, hnxt]
    exact seqLt_pos _ (by omega) (by omega)
  unfold tcpRxPayload
  split
  · rename_i hbefore
    rw [hlt] at hbefore
    simp only
    have hdup : c.tcb.rcvNxt - seq ≥ UInt32.ofNat data.length ↔ p + data.length ≤ n := by
      rw [ge_iff_le, UInt32.le_iff_toNat_le, hskip, UInt32.toNat_ofNat',
        Nat.mod_eq_of_lt (by omega)]
      omega
    split
    · rename_i hall
      rw [Nat.max_eq_left (hdup.mp hall), tcpSendCtl_recv]
      exact h
    · rename_i hmore
      rw [hdup] at hmore
      have hdrop : (data.drop (c.tcb.rcvNxt - seq).toNat).length = p + data.length - n := by
        rw [List.length_drop, hskip]
        omega
      have hwnd := hfit (by omega)
      have htaken := tcpRxTrimmed_level now h hpast (by rw [hdrop]; omega) (by rw [hdrop]; omega)
      rw [hdrop] at htaken
      rw [Nat.max_eq_right (by omega)]
      exact (Nat.add_sub_of_le (Nat.le_of_not_le hmore)) ▸ htaken
  · rename_i hafter
    rw [hlt] at hafter
    obtain rfl : p = n := Nat.le_antisymm hp (Nat.le_of_not_lt hafter)
    have hwnd := hfit (by omega)
    rw [Nat.max_eq_right (by omega), hseq, ← hnxt]
    exact tcpRxTrimmed_level now h hpast hpos (by omega)

theorem tcpInputText_level (h : Level base n c.recv) (hseq : g.seq = pos base p) (hp : p ≤ n)
    (hnear : n ≤ p + 2 ^ 30)
    (hfit : n < p + g.payload.length → c.tcb.state.takesData = true ∧
      p + g.payload.length + c.tcb.rcvLen.toNat ≤ n + 65535) :
    Level base (max n (p + g.payload.length)) (tcpInputText now g c).recv := by
  have hold (hle : p + g.payload.length ≤ n) :
      Level base (max n (p + g.payload.length)) c.recv := by
    rw [Nat.max_eq_left hle]
    exact h
  unfold tcpInputText
  split
  · rename_i hpos
    split
    · rename_i hst
      exact tcpRxPayload_level now h (TcpState.takesData_pastFin hst) hseq hp hnear g.payload_lt
        hpos fun hlt => (hfit hlt).2
    · rename_i hst
      exact hold (Nat.le_of_not_lt fun hlt => hst (hfit hlt).1)
  · exact hold (by omega)

theorem tcpInputText_state (g : Seg) (c : Conn) :
    (tcpInputText now g c).tcb.state = c.tcb.state := by
  obtain ⟨gs, hview, -⟩ := tcpInputText_onlyCtl now g c
  exact congrArg SendView.state hview

theorem tcpInputFin_level (h : Level base n c.recv) (hseq : g.seq = pos base p)
    (hp : p + g.payload.length ≤ n) (hnear : n ≤ p + 2 ^ 30)
    (hfit : n < p + g.payload.length + (g.has tcpFin).toNat → c.tcb.state.takesData = true) :
    Level base (max n (p + g.payload.length + (g.has tcpFin).toNat))
      (tcpInputFin now g c).recv := by
  have hnxt : c.tcb.rcvNxt = pos base n := h.nxt
  have hfinSeq : g.seq + g.paylen = pos base (p + g.payload.length) := by
    rw [hseq, Seg.paylen, SeqSpace.pos_add]
  have hat : g.seq + g.paylen = c.tcb.rcvNxt ↔ p + g.payload.length = n := by
    rw [hfinSeq, hnxt]
    exact SeqSpace.pos_inj _ (by omega) (by omega)
  unfold tcpInputFin
  split
  · rename_i hfin
    simp only [finInOrder, Bool.and_eq_true, decide_eq_true_eq, hat] at hfin
    obtain ⟨⟨hhas, rfl⟩, -⟩ := hfin
    rw [hhas, Bool.toNat_true] at hfit ⊢
    have hst := hfit (Nat.lt_succ_self _)
    have hwait : c.recv.state ≠ .timeWait := by
      intro hw
      change c.tcb.state = .timeWait at hw
      rw [hw] at hst
      cases hst
    rw [tcpTakeFin_recv, if_pos hwait, Nat.max_eq_right (Nat.le_succ _)]
    refine ⟨?_, fun hno => absurd ((rxFinState_pastFin hst).symm.trans hno) (by simp)⟩
    change g.seq + g.paylen + 1 = _
    rw [hfinSeq, SeqSpace.pos_succ]
  · rename_i hlate
    have hle : p + g.payload.length + (g.has tcpFin).toNat ≤ n := by
      by_contra hmore
      have hst := hfit (Nat.lt_of_not_le hmore)
      cases hhas : g.has tcpFin with
      | false =>
        rw [hhas, Bool.toNat_false] at hmore
        exact hmore hp
      | true =>
        rw [hhas, Bool.toNat_true] at hmore
        have heq : g.seq + g.paylen = c.tcb.rcvNxt := hat.mpr (by omega)
        exact hlate (by simp [finInOrder, hhas, heq, hst])
    rw [Nat.max_eq_left hle]
    exact h

end Text

/-! ### A whole segment -/

/-- A segment from position `p` on is taken to its end by a receiver at position `n`. -/
structure Welcome (c : Conn) (g : Seg) (n p : Nat) : Prop where
  syn : g.has tcpSyn = false
  ack : g.has tcpAck = true
  state : c.tcb.state.takesData = true ∨ c.tcb.state = .synRcvd
  fits : p + g.span + c.tcb.rcvLen.toNat ≤ n + 65535
  acks : seqGt g.ack c.tcb.sndNxt = false
  opens : c.tcb.state = .synRcvd →
    (seqLt c.tcb.sndUna g.ack && seqLe g.ack c.tcb.sndNxt) = true

section Segment

variable {base : UInt32} {n p : Nat} {c : Conn} {g : Seg} {now : Nat} {lroom : Option Bool}

theorem textStepSynced_takes (hst : c.tcb.state.takesData = true)
    (hack : seqGt g.ack c.tcb.sndNxt = false) (halive : (tcpInputSynced now g c).fate = .alive) :
    ∃ d, textStepSynced now g c = some d ∧ d.tcb.state.takesData = true := by
  unfold tcpInputSynced at halive
  unfold textStepSynced
  simp only [hack, Bool.false_eq_true, if_false] at halive ⊢
  split at halive
  · rename_i hlive
    obtain ⟨st, hto, hview⟩ := tcpInputSend_recv now g c
    have hstate : (tcpInputSend now g c).tcb.state = st := congrArg RecvView.state hview
    refine ⟨_, if_pos hlive, ?_⟩
    rw [hstate]
    generalize c.tcb.state = st₀ at hto hst
    cases hto with
    | same => exact hst
    | finWait => rfl
    | closing => cases hst
  · rename_i hdead
    exact absurd halive hdead

/-- Such a segment comes to its text. -/
theorem Welcome.textStep (hw : Welcome c g n p) (h : Level base n c.recv)
    (hseq : g.seq = pos base p) (hp : p ≤ n) (hnear : n ≤ p + 2 ^ 30) (hrst : g.has tcpRst = false)
    (hlt : n < p + g.span) (halive : (tcpInputConn now lroom g c).fate = .alive) :
    ∃ d, textStep now lroom g c = some d ∧ d.tcb.state.takesData = true := by
  have hsent : c.tcb.state ≠ .synSent := by
    rcases hw.state with hst | hst
    · exact (takesData_sync hst).1
    · rw [hst]
      exact TcpState.noConfusion
  have hacc : segAcceptable c.tcb g = true := by
    have hnxt : c.tcb.rcvNxt = pos base n := h.nxt
    have hback : (c.tcb.rcvNxt - g.seq).toNat = n - p := by
      rw [hseq, hnxt]
      exact SeqSpace.pos_sub_toNat _ hp (by omega)
    have hdist : (g.seq - c.tcb.rcvNxt).toNat = (2 ^ 32 - (n - p)) % 2 ^ 32 := by
      rw [← hback, ← UInt32.neg_sub, UInt32.toNat_neg]
      rfl
    have hfits := hw.fits
    have hwnd : (tcpRcvWindow c.tcb).toNat = 65535 - c.tcb.rcvLen.toNat :=
      windowOf_toNat (by omega)
    rw [segAcceptable_iff, hdist, hwnd]
    obtain ⟨k, hk⟩ : ∃ k, g.span = k + 1 := ⟨g.span - 1, by omega⟩
    obtain ⟨m, hm⟩ : ∃ m, 65535 - c.tcb.rcvLen.toNat = m + 1 :=
      ⟨65534 - c.tcb.rcvLen.toNat, by omega⟩
    rw [hk, hm]
    exact Or.inr (by omega)
  unfold PacketForge.textStep
  unfold tcpInputConn at halive
  simp only [hsent, hacc, hrst, hw.syn, hw.ack, Bool.not_true, Bool.or_false, Bool.false_eq_true,
    if_false] at halive ⊢
  split at halive
  · rename_i hst
    rw [if_pos hst, if_pos (hw.opens hst)]
    rw [tcpInputSynRcvd, if_pos (hw.opens hst)] at halive
    cases lroom with
    | none => exact textStepSynced_takes rfl hw.acks halive
    | some room =>
      cases room with
      | true => exact textStepSynced_takes rfl hw.acks halive
      | false => cases halive
  · rename_i hst
    rw [if_neg hst]
    exact textStepSynced_takes (hw.state.resolve_right hst) hw.acks halive

theorem tcpInputConn_level (h : Level base n c.recv) (hst : c.tcb.state ≠ .synSent)
    (hseq : g.seq = pos base p) (hp : p ≤ n) (hnear : n ≤ p + 2 ^ 30) (hrst : g.has tcpRst = false)
    (hw : n < p + g.span → Welcome c g n p)
    (halive : (tcpInputConn now lroom g c).fate = .alive) :
    Level base (max n (p + g.span)) (tcpInputConn now lroom g c).recv := by
  have hread (hlt : n < p + g.span) := (hw hlt).textStep h hseq hp hnear hrst hlt halive
  cases htext : textStep now lroom g c with
  | none =>
    have hle : p + g.span ≤ n := by
      by_contra hmore
      obtain ⟨d, hd, -⟩ := hread (Nat.lt_of_not_le hmore)
      rw [hd] at htext
      cases htext
    rw [Nat.max_eq_left hle]
    exact h.stateOnly (textStep_started hst htext)
  | some d =>
    obtain ⟨honly, heq⟩ := textStep_eq htext
    have hspan : g.span = g.payload.length + (g.has tcpFin).toNat := by
      rw [Seg.span, textStep_syn htext, Bool.toNat_false, Nat.add_zero]
    have hlen : d.tcb.rcvLen = c.tcb.rcvLen := by
      obtain ⟨st, -, -, hview⟩ := honly
      exact congrArg RecvView.len hview
    have htakes (hlt : n < p + g.span) : d.tcb.state.takesData = true := by
      obtain ⟨x, hx, hst⟩ := hread hlt
      rw [htext] at hx
      cases hx
      exact hst
    have htext' := tcpInputText_level now (h.stateOnly honly) hseq hp hnear (by
      intro hlt
      have hfits := (hw (by omega)).fits
      rw [hlen]
      exact ⟨htakes (by omega), by omega⟩)
    have hfin := tcpInputFin_level now htext' hseq (Nat.le_max_right _ _)
      (by have hpay := g.payload_lt; omega) (by
        intro hlt
        rw [tcpInputText_state]
        exact htakes (by omega))
    have hmax : max (max n (p + g.payload.length)) (p + g.payload.length + (g.has tcpFin).toNat) =
        max n (p + g.span) := by omega
    rw [heq, ← hmax]
    exact hfin

theorem tcpInputConn_level_rst (h : Level base n c.recv) (hst : c.tcb.state ≠ .synSent)
    (hrst : g.has tcpRst = true) : Level base n (tcpInputConn now lroom g c).recv := by
  have hnone : textStep now lroom g c = none := by
    unfold textStep
    rw [if_neg hst, if_pos (by simp [hrst])]
  exact h.stateOnly (textStep_started hst hnone)

end Segment

/-! ### Events -/

section Events

variable {base : UInt32} {n : Nat} {c : Conn} {e : ConnEvent}

/-- Nothing but a segment moves `rcv_nxt`. -/
theorem connHandle_level_quiet (h : Level base n c.recv)
    (he : ∀ now lroom g, e ≠ .segment now lroom g) : Level base n (connHandle c e).recv := by
  have hw := connHandle_unheard c he
  generalize (connHandle c e).recv = w at hw
  cases hw with
  | same => exact h
  | read cap =>
    refine h.read ?_
    change recvAmount c.tcb cap ≤ c.tcb.rcvLen
    rw [UInt32.le_iff_toNat_le]
    exact recvAmount_le c.tcb cap
  | closes now hst hw => exact h.stateOnly hw

/-- In SYN_SENT nothing is taken but a SYN. -/
theorem connHandle_syn (hst : c.tcb.state = .synSent)
    (hleft : (connHandle c e).tcb.state ≠ .synSent) :
    ∃ now lroom g st, e = .segment now lroom g ∧ g.has tcpSyn = true ∧ g.has tcpRst = false ∧
      (connHandle c e).recv = { c.recv with state := st, irs := g.seq, nxt := g.seq + 1 } := by
  have hkeep {v : RecvView} (hv : (connHandle c e).recv = v) (hst' : v.state = .synSent) : False :=
    hleft ((congrArg RecvView.state hv).trans hst')
  by_cases hseg : ∃ now lroom g, e = .segment now lroom g
  · obtain ⟨now, lroom, g, rfl⟩ := hseg
    have hin : connHandle c (.segment now lroom g) = tcpInputSynSent now g c := if_pos hst
    rcases tcpInputSynSent_recv now g c with hview | ⟨hsyn, hrst, st, -, hview⟩ <;>
      rw [← hin] at hview
    · exact (hkeep hview hst).elim
    · exact ⟨now, lroom, g, st, rfl, hsyn, hrst, hview⟩
  · have hw := connHandle_unheard c (e := e) fun now lroom g he => hseg ⟨now, lroom, g, he⟩
    generalize hv : (connHandle c e).recv = w at hw
    cases hw with
    | same | read => exact (hkeep hv hst).elim
    | closes now hne => exact absurd hst hne

end Events

end PacketForge
