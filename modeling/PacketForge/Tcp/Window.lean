import PacketForge.Tcp.Flight

/-!
New data and the peer's window. `tcp_output` compares what is in flight with
`snd_wnd`, so it respects the window the peer offered last as long as the pair
(`snd_una`, `snd_wnd`) comes from one segment. Inside `tcp_input` it runs after
`snd_una` has moved and before `snd_wnd` has, and an old segment may move the
one and not the other: the right edge it then fills up to is one the peer never
offered.

Sequence numbers are counted from the ISS, so that edges can be compared as
numbers: `acked` of them are acknowledged, and `edge` is the largest
acknowledgement plus window among all accepted segments.
-/

namespace PacketForge

/-! ### Edges -/

/-- The segment's acknowledgement is accepted: it opens the connection, or it
passes the checks of the input processing and is not older than `snd_una`. -/
def acceptsAck (t : Tcb) (g : Seg) : Bool :=
  if t.state = .synSent then
    g.has tcpAck && !(seqLe g.ack t.iss || seqGt g.ack t.sndNxt) && !g.has tcpRst && g.has tcpSyn
  else
    reachesAck t g && seqLe t.sndUna g.ack && (t.state ≠ .synRcvd || seqLt t.sndUna g.ack)

/-- A connection with the number of sequence numbers acknowledged since its ISS
and the right edge most favourable to us among all accepted segments. -/
structure WndHist where
  conn : Conn
  acked : Nat
  edge : Nat

namespace WndHist

def edgeOf (w : WndHist) (g : Seg) : Nat :=
  w.acked + (g.ack - w.conn.tcb.sndUna).toNat + g.wnd.toNat

/-- The most favourable edge, the segment being processed included. -/
def offered (w : WndHist) : ConnEvent → Nat
  | .segment _ _ g =>
    if w.conn.fate = .alive ∧ acceptsAck w.conn.tcb g = true then max w.edge (w.edgeOf g)
    else w.edge
  | _ => w.edge

def step (w : WndHist) (e : ConnEvent) : WndHist where
  conn := connStep w.conn e
  acked := w.acked + ((connStep w.conn e).tcb.sndUna - w.conn.tcb.sndUna).toNat
  edge := w.offered e

def Opens (w : WndHist) : Prop := Opened w.conn ∧ w.acked = 0 ∧ w.edge = 0

end WndHist

/-- A segment of new data, as opposed to a retransmission, which starts below
`snd_nxt`, and a zero-window probe, which only the timer sends. -/
def NewData (c : Conn) (e : ConnEvent) (g : Seg) : Prop :=
  g ∈ (connStep c e).out ∧ g.payload ≠ [] ∧ seqGe g.seq c.tcb.sndNxt = true ∧ ∀ now, e ≠ .tick now

/-- All new data an event transmits ends inside the most favourable window. -/
def WndHist.Respects (w : WndHist) (e : ConnEvent) : Prop :=
  ∀ g, NewData w.conn e g →
    (w.step e).acked + (g.seq - (w.step e).conn.tcb.sndUna).toNat + g.payload.length ≤
      (w.step e).edge

/-- The event acknowledges new data while the window in force, counted from the
new `snd_una`, reaches beyond every edge offered so far; and there may be bytes
beyond that edge to send, or the segment is too old to replace the window. The
rest is about a connection closed before its SYN was acknowledged: the window of
the peer's SYN is not one it acknowledged, and the length of the ring wraps
around. -/
def StaleWindow (w : WndHist) (e : ConnEvent) : Prop :=
  w.conn.fate = .alive ∧
    match e with
    | .segment _ _ g =>
      w.conn.tcb.state.sends = true ∧ w.conn.tcb.finSent = false ∧
        reachesAck w.conn.tcb g = true ∧ seqGt g.ack w.conn.tcb.sndUna = true ∧
        w.offered e < w.acked + (g.ack - w.conn.tcb.sndUna).toNat + w.conn.tcb.sndWnd.toNat ∧
        (w.offered e < w.acked + w.conn.tcb.sndLen.toNat ∨ wndIsNewer w.conn.tcb g = false ∨
          w.conn.tcb.sndLen < tcpDataInFlight w.conn.tcb)
    | .close _ => w.conn.tcb.state = .synRcvd ∧ w.edge < w.acked + w.conn.tcb.sndWnd.toNat
    | _ => False

/-! ### Inside one event -/

/-- The window in force ends inside the edge `E`; `a` counts the sequence
numbers up to `snd_una`. Where nothing more is transmitted this is not asked. -/
def Room (a E : Nat) (s : SendView) : Prop :=
  s.state.sends = true → s.finSent = false → a + s.wnd.toNat ≤ E

/-- The new data emitted so far in this event ends inside the edge `E`. -/
def Within (n₀ : UInt32) (a E : Nat) (s : SendView) : Prop :=
  ∀ g ∈ s.out, g.payload ≠ [] → seqGe g.seq n₀ = true →
    a + (g.seq - s.una).toNat + g.payload.length ≤ E

section Stages

variable {n₀ : UInt32} {a E : Nat} {s s' : SendView}

theorem Within.of_onlyCtl (h : Within n₀ a E s) (hctl : OnlyCtl s s') : Within n₀ a E s' := by
  obtain ⟨gs, rfl, hgs⟩ := hctl
  intro g hg hpay hnew
  rcases List.mem_append.mp hg with hg | hg
  · exact h g hg hpay hnew
  · exact absurd (hgs g hg).1 hpay

theorem Within.of_out_nil (hout : s.out = []) : Within n₀ a E s := by
  intro g hg
  rw [hout] at hg
  cases hg

theorem Room.of_onlyCtl (h : Room a E s) (hctl : OnlyCtl s s') : Room a E s' := by
  obtain ⟨gs, rfl, -⟩ := hctl
  exact h

/-- What `tcp_output` does with a window or a ring that ends inside `E`. -/
structure OutputKept (n₀ : UInt32) (a E : Nat) (s s' : SendView) : Prop where
  ok : Flight s'
  within : Within n₀ a E s'
  una : s'.una = s.una
  wnd : s'.wnd = s.wnd
  len : s'.len = s.len
  state : s'.state = s.state
  fin : s'.finSent = false → s.finSent = false
  ring : (s.nxt - s.una).toNat ≤ s.len.toNat → s'.finSent = false →
    (s'.nxt - s'.una).toNat ≤ s'.len.toNat

/-- `tcp_output` stays inside the edge if the window in force does, or the end of
a ring that accounts for what is in flight. -/
theorem OutMoves.kept (h : OutMoves s s') (hok : Flight s) (hin : Within n₀ a E s)
    (hroom : Room a E s ∨ (s.nxt - s.una).toNat ≤ s.len.toNat ∧ a + s.len.toNat ≤ E) :
    OutputKept n₀ a E s s' := by
  induction h with
  | refl => exact ⟨hok, hin, rfl, rfl, rfl, rfl, id, fun h _ => h⟩
  | @tail t t' _ hmove ih =>
    have hok' : Flight t' := hmove.flight ih.ok
    cases hmove with
    | data g n hst hfin hpos havail hwnd hg =>
      have hsum : t.nxt + n - t.una = (t.nxt - t.una) + n := by grind
      -- a chunk never reaches beyond the ring if the flight does not
      have hring (hacc : (s.nxt - s.una).toNat ≤ s.len.toNat) :
          (t.nxt - t.una).toNat + n.toNat ≤ t.len.toNat := by
        have hfl := ih.ring hacc hfin
        have hnone : t.dataInFlight = t.nxt - t.una := by simp [SendView.dataInFlight, hfin]
        rw [hnone, UInt32.le_iff_toNat_le,
          UInt32.toNat_sub_of_le _ _ (by rw [UInt32.le_iff_toNat_le]; exact hfl)] at havail
        omega
      refine ⟨hok', ?_, ih.una, ih.wnd, ih.len, ih.state, ih.fin, fun hacc _ => ?_⟩
      · intro x hx hpay hnew
        rcases List.mem_append.mp hx with hx | hx
        · exact ih.within x hx hpay hnew
        · rw [List.mem_singleton] at hx
          subst hx
          have hlen : x.payload.length = n.toNat := by rw [hg.2.1, ringCopyOut_length]
          change a + (x.seq - t.una).toNat + x.payload.length ≤ E
          rw [hg.1, hlen]
          rcases hroom with hroom | ⟨hacc, hend⟩
          · have hw := hroom (ih.state ▸ hst) (ih.fin hfin)
            rw [← ih.wnd] at hw
            omega
          · have hfit := hring hacc
            rw [← ih.len] at hend
            omega
      · have hfit := hring hacc
        have hlt := t.len.toNat_lt
        change (t.nxt + n - t.una).toNat ≤ t.len.toNat
        rw [hsum, UInt32.toNat_add]
        omega
    | fin g hst hq hfin hall hg =>
      refine ⟨hok', ?_, ih.una, ih.wnd, ih.len, ih.state, by simp, by simp⟩
      intro x hx hpay hnew
      rcases List.mem_append.mp hx with hx | hx
      · exact ih.within x hx hpay hnew
      · rw [List.mem_singleton] at hx
        subst hx
        exact absurd hg.2.1 hpay

end Stages

/-! ### The acknowledgement -/

section Ack

variable {a E : Nat}

theorem seqLe_of_seqGt {x y : UInt32} (h : seqGt x y = true) : seqLe y x = true := by
  have hneg : (y - x).toNat = (2 ^ 32 - (x - y).toNat) % 2 ^ 32 := by
    rw [← UInt32.neg_sub, UInt32.toNat_neg]
    rfl
  rw [seqGt_iff] at h
  rw [seqLe_iff]
  omega

/-- The end of a ring that accounts for what is in flight does not move when data
is acknowledged. -/
theorem acked_len {s : SendView} (h : Flight s) {x : UInt32} (hgt : seqGt x s.una = true)
    (hle : seqGt x s.nxt = false) (hfin : s.finSent = false)
    (hacc : (s.nxt - s.una).toNat ≤ s.len.toNat) :
    (x - s.una).toNat + (s.acked x).len.toNat = s.len.toNat ∧
      ((s.acked x).nxt - (s.acked x).una).toNat ≤ (s.acked x).len.toNat := by
  have hsplit := h.ack_split hgt hle
  have hnone : s.finAcked x = false := by simp [SendView.finAcked, hfin]
  have hbytes : s.ackedBytes x = x - s.una := by simp [SendView.ackedBytes, hnone]
  have hlen : (s.acked x).len.toNat = s.len.toNat - (x - s.una).toNat := by
    change (s.len - s.ackedBytes x).toNat = _
    rw [hbytes, UInt32.toNat_sub_of_le s.len (x - s.una) (by rw [UInt32.le_iff_toNat_le]; omega)]
  rw [hlen]
  refine ⟨by omega, ?_⟩
  change (s.nxt - x).toNat ≤ _
  omega

theorem ackedState_sends {fin : Bool} {st : TcpState} (h : (ackedState fin st).sends = true) :
    st.sends = true := by
  cases fin with
  | false => exact h
  | true => cases st <;> simp_all [ackedState, TcpState.sends]

theorem rxFinState_sends {st : TcpState} (ht : st.takesData = true)
    (h : (rxFinState st).sends = true) : st.sends = true := by
  cases st <;> simp_all [rxFinState, TcpState.sends, TcpState.takesData]

/-- What the acknowledgement stage leaves behind: the new data is inside the
edge, and so is the window in force, or it is about to be replaced. -/
structure AckStage (a E : Nat) (g : Seg) (c c' : Conn) : Prop where
  ok : Flight c'.send
  within : Within c.tcb.sndNxt (a + (c'.tcb.sndUna - c.tcb.sndUna).toNat) E c'.send
  una : c'.tcb.sndUna = c.tcb.sndUna ∨
    c'.tcb.sndUna = g.ack ∧ seqGt g.ack c.tcb.sndUna = true
  room : Room (a + (c'.tcb.sndUna - c.tcb.sndUna).toNat) E c'.send ∨
    c'.tcb.sndUna = g.ack ∧ wndIsNewer c.tcb g = true
  sync : c'.tcb.state ≠ .synSent ∧ c'.tcb.state ≠ .synRcvd

/-- The condition under which an acknowledgement of new data is harmless. -/
def AckHarmless (a E : Nat) (c : Conn) (g : Seg) : Prop :=
  seqGt g.ack c.tcb.sndUna = true → c.tcb.state.sends = true → c.tcb.finSent = false →
    a + (g.ack - c.tcb.sndUna).toNat + c.tcb.sndWnd.toNat ≤ E ∨
      (a + c.tcb.sndLen.toNat ≤ E ∧ wndIsNewer c.tcb g = true ∧
        tcpDataInFlight c.tcb ≤ c.tcb.sndLen)

variable (now : Nat) (g : Seg) (c : Conn)

theorem tcpInputNewAck_stage (hok : Flight c.send) (hout : c.out = [])
    (hsync : c.tcb.state ≠ .synSent ∧ c.tcb.state ≠ .synRcvd)
    (hle : seqGt g.ack c.tcb.sndNxt = false) (hgt : seqGt g.ack c.tcb.sndUna = true)
    (hsafe : AckHarmless a E c g) : AckStage a E g c (tcpInputNewAck now g c) := by
  set s₁ : SendView :=
    { c.send.acked g.ack with state := ackedState (c.send.finAcked g.ack) c.send.state } with hs₁
  have hmove : SendMove (ackCause g) c.send s₁ :=
    SendMove.ack c.send g rfl trivial hout hsync hgt hle
  have hok₁ : Flight s₁ := hmove.flight hok
  set a₁ := a + (g.ack - c.tcb.sndUna).toNat with ha₁
  -- either the window in force or the end of the ring is inside the edge
  have hroom : (Room a₁ E s₁ ∨ (s₁.nxt - s₁.una).toNat ≤ s₁.len.toNat ∧ a₁ + s₁.len.toNat ≤ E) ∧
      (Room a₁ E s₁ ∨ wndIsNewer c.tcb g = true) := by
    by_cases hlive : s₁.state.sends = true ∧ s₁.finSent = false
    · have hsends := ackedState_sends hlive.1
      have hunsent : c.tcb.finSent = false := hlive.2
      rcases hsafe hgt hsends hunsent with hw | ⟨hring, hnewer, hacc⟩
      · exact ⟨Or.inl (fun _ _ => hw), Or.inl (fun _ _ => hw)⟩
      · have hflight : tcpDataInFlight c.tcb = c.tcb.sndNxt - c.tcb.sndUna := by
          simp [tcpDataInFlight, hunsent]
        rw [hflight, UInt32.le_iff_toNat_le] at hacc
        obtain ⟨hlen, hfit⟩ := acked_len hok hgt hle hunsent hacc
        refine ⟨Or.inr ⟨hfit, ?_⟩, Or.inr hnewer⟩
        change (g.ack - c.tcb.sndUna).toNat + s₁.len.toNat = c.tcb.sndLen.toNat at hlen
        omega
    · have hdead : Room a₁ E s₁ := fun h1 h2 => absurd ⟨h1, h2⟩ hlive
      exact ⟨Or.inl hdead, Or.inl hdead⟩
  have hkept : OutputKept c.tcb.sndNxt a₁ E s₁ (tcpInputNewAck now g c).send :=
    OutMoves.kept (tcpInputNewAck_outMoves now g c) hok₁ (Within.of_out_nil hout) hroom.1
  have huna : (tcpInputNewAck now g c).tcb.sndUna = g.ack := hkept.una
  refine ⟨hkept.ok, ?_, Or.inr ⟨huna, hgt⟩, ?_, ?_⟩
  · rw [huna]
    exact hkept.within
  · rw [huna]
    rcases hroom.2 with h | hnewer
    · left
      intro hsends hfin
      rw [hkept.wnd]
      exact h (hkept.state ▸ hsends) (hkept.fin hfin)
    · exact Or.inr ⟨rfl, hnewer⟩
  · have hst : (tcpInputNewAck now g c).tcb.state = s₁.state := hkept.state
    rw [hst]
    exact ackedState_sync hsync

theorem tcpResend_seqs :
    ∃ gs : List Seg, (tcpResend c).send = { c.send with out := c.send.out ++ gs } ∧
      ∀ x ∈ gs, x.payload ≠ [] → x.seq = c.tcb.sndUna := by
  have hctl (flags : UInt8) (hfin : flags &&& tcpFin = 0) :
      ∃ gs : List Seg, (tcpSendCtl c flags).send = { c.send with out := c.send.out ++ gs } ∧
        ∀ x ∈ gs, x.payload ≠ [] → x.seq = c.tcb.sndUna := by
    obtain ⟨gs, hview, hgs⟩ := tcpSendCtl_onlyCtl c flags hfin
    exact ⟨gs, hview, fun x hx hpay => absurd (hgs x hx).1 hpay⟩
  have hseg (flags : UInt8) (off : UInt32) (n : UInt16) :
      ∃ gs : List Seg, (tcpSendSegment c flags c.tcb.sndUna off n).send =
          { c.send with out := c.send.out ++ gs } ∧
        ∀ x ∈ gs, x.payload ≠ [] → x.seq = c.tcb.sndUna := by
    refine ⟨_, tcpSendSegment_send c flags c.tcb.sndUna off n, ?_⟩
    intro x hx _
    rw [List.mem_singleton] at hx
    rw [hx]
    rfl
  unfold tcpResend
  split
  · exact hctl _ (by decide)
  split
  · exact hctl _ (by decide)
  split
  · exact hseg _ _ _
  split
  · exact hseg _ _ _
  · exact ⟨[], by rw [List.append_nil], by simp⟩

theorem tcpRetransmit_seqs :
    ∃ gs : List Seg, (tcpRetransmit c).send = { c.send with out := c.send.out ++ gs } ∧
      ∀ x ∈ gs, x.payload ≠ [] → x.seq = c.send.una :=
  tcpResend_seqs { c.count .tcpRtxSegs with tcb := { c.tcb with rttTiming := false } }

/-- A duplicate acknowledgement retransmits, or runs `tcp_output`. -/
theorem tcpInputDupAck_cases :
    OutMoves c.send (tcpInputDupAck now c).send ∨
      ∃ gs : List Seg, (tcpInputDupAck now c).send = { c.send with out := c.send.out ++ gs } ∧
        ∀ x ∈ gs, x.payload ≠ [] → x.seq = c.tcb.sndUna := by
  have hcounted (c' : Conn) :
      OutMoves c'.send (tcpDupAckCounted now c').send ∨
        ∃ gs : List Seg,
          (tcpDupAckCounted now c').send = { c'.send with out := c'.send.out ++ gs } ∧
          ∀ x ∈ gs, x.payload ≠ [] → x.seq = c'.send.una := by
    unfold tcpDupAckCounted
    split
    · right
      unfold tcpFastRetransmit
      simp only [Conn.setCwnd_send, Conn.count_send]
      have hresent := tcpRetransmit_seqs (c'.setSsthresh
        (pfMax ((c'.tcb.sndNxt - c'.tcb.sndUna) / 2) (2 * c'.tcb.mss.toUInt32)))
      rw [Conn.setSsthresh_send] at hresent
      exact hresent
    split
    · left
      have hout := tcpOutput_outMoves now (c'.setCwnd (c'.tcb.cwnd + c'.tcb.mss.toUInt32))
      rw [Conn.setCwnd_send] at hout
      exact hout
    · exact Or.inl .refl
  have h := hcounted ((c.count .tcpDupacksRx).setDupacks (c.tcb.dupacks + 1))
  rw [Conn.setDupacks_send, Conn.count_send] at h
  exact h

/-- A stage that is nothing but `tcp_output`. -/
theorem AckStage.of_kept {g : Seg} {c c' : Conn} (h : OutputKept c.tcb.sndNxt a E c.send c'.send)
    (hsync : c.tcb.state ≠ .synSent ∧ c.tcb.state ≠ .synRcvd) (hroom : Room a E c.send) :
    AckStage a E g c c' := by
  have huna : c'.tcb.sndUna = c.tcb.sndUna := h.una
  have hst : c'.tcb.state = c.tcb.state := h.state
  have hzero : a + (c'.tcb.sndUna - c.tcb.sndUna).toNat = a := by simp [huna]
  refine ⟨h.ok, ?_, Or.inl huna, Or.inl ?_, by rw [hst]; exact hsync⟩
  · rw [hzero]
    exact h.within
  · rw [hzero]
    intro hsends hfin
    rw [h.wnd]
    exact hroom (h.state ▸ hsends) (h.fin hfin)

theorem tcpInputDupAck_stage (hok : Flight c.send) (hout : c.out = [])
    (hsync : c.tcb.state ≠ .synSent ∧ c.tcb.state ≠ .synRcvd)
    (hflight : seqLt c.tcb.sndUna c.tcb.sndNxt = true) (hroom : Room a E c.send) :
    AckStage a E g c (tcpInputDupAck now c) := by
  rcases tcpInputDupAck_cases now c with hmoves | ⟨gs, hgs, hseq⟩
  · exact AckStage.of_kept (hmoves.kept hok (Within.of_out_nil hout) (Or.inl hroom)) hsync hroom
  · have huna : (tcpInputDupAck now c).tcb.sndUna = c.tcb.sndUna := congrArg SendView.una hgs
    have hst : (tcpInputDupAck now c).tcb.state = c.tcb.state := congrArg SendView.state hgs
    have hzero : a + ((tcpInputDupAck now c).tcb.sndUna - c.tcb.sndUna).toNat = a := by simp [huna]
    refine ⟨(tcpInputDupAck_moves (κ := .internal) now c).flight hok, ?_, Or.inl huna, Or.inl ?_,
      by rw [hst]; exact hsync⟩
    · rw [hzero, hgs]
      intro x hx hpay hnew
      change x ∈ c.out ++ gs at hx
      rw [hout, List.nil_append] at hx
      -- it starts below the `snd_nxt` the event began with
      rw [hseq x hx hpay, seqGe_iff] at hnew
      rw [seqLt_iff] at hflight
      omega
    · rw [hzero, hgs]
      exact hroom

theorem tcpInputAck_stage (hok : Flight c.send) (hout : c.out = [])
    (hsync : c.tcb.state ≠ .synSent ∧ c.tcb.state ≠ .synRcvd)
    (hle : seqGt g.ack c.tcb.sndNxt = false) (hsafe : AckHarmless a E c g)
    (hroom : Room a E c.send) :
    AckStage a E g c (tcpInputAck now g c) := by
  unfold tcpInputAck
  split
  · rename_i hgt
    exact tcpInputNewAck_stage now g c hok hout hsync hle hgt hsafe
  split
  · rename_i hdup
    simp only [isDupAck, Bool.and_eq_true] at hdup
    exact tcpInputDupAck_stage now g c hok hout hsync hdup.2 hroom
  · exact AckStage.of_kept
      ⟨hok, Within.of_out_nil hout, rfl, rfl, rfl, rfl, id, fun h _ => h⟩ hsync hroom

/-- The segment that set the window in force. -/
def wndOrigin (t : Tcb) : UInt32 × UInt32 := (t.sndWl1, t.sndWl2)

theorem wndOrigin_of_noSend {c c' : Conn} (h : c'.noSend = c.noSend) :
    wndOrigin c'.tcb = wndOrigin c.tcb := by
  obtain ⟨h1, h2⟩ := Conn.noSend_wl h
  rw [wndOrigin, wndOrigin, h1, h2]

theorem tcpInputAck_wndOrigin : wndOrigin (tcpInputAck now g c).tcb = wndOrigin c.tcb := by
  have hfin (fin : Bool) (c' : Conn) :
      wndOrigin (tcpFinAcked now fin c').tcb = wndOrigin c'.tcb := by
    unfold tcpFinAcked
    split
    · rfl
    split <;> rfl
  have hnew := wndOrigin_of_noSend (ackNew_noSend now g.ack c)
  unfold tcpInputAck
  split
  · simp only [tcpInputNewAck]
    split
    · exact hnew
    · rw [wndOrigin_of_noSend (Conn.noSend_of_rest (tcpOutput_rest now _)), hfin, hnew]
  split
  · exact wndOrigin_of_noSend (tcpInputDupAck_noSend now c)
  · rfl

theorem wndIsNewer_congr {t t' : Tcb} (h : wndOrigin t' = wndOrigin t) (g : Seg) :
    wndIsNewer t' g = wndIsNewer t g := by
  simp only [wndOrigin, Prod.mk.injEq] at h
  rw [wndIsNewer, wndIsNewer, h.1, h.2]

/-- Stages that follow the acknowledgement leave `snd_una` alone. -/
structure WndStage (n₀ : UInt32) (a E : Nat) (u : UInt32) (s : SendView) : Prop where
  ok : Flight s
  within : Within n₀ a E s
  room : Room a E s
  una : s.una = u

/-- The window update. The segment's own edge is inside `E`; if it is too old to
replace the window in force, that one was inside already. -/
theorem tcpInputWnd_stage {n₀ : UInt32} (hok : Flight c.send) (hin : Within n₀ a E c.send)
    (hoffer : seqLe c.tcb.sndUna g.ack = true → a + g.wnd.toNat ≤ E)
    (hroom : Room a E c.send ∨ c.tcb.sndUna = g.ack ∧ wndIsNewer c.tcb g = true) :
    WndStage n₀ a E c.tcb.sndUna (tcpInputWnd now g c).send := by
  unfold tcpInputWnd
  split
  · rename_i hrange
    simp only [Bool.and_eq_true] at hrange
    split
    · have hmove := SendMove.wnd (κ := ackCause g) c.send g rfl hrange.1 hrange.2
      rw [← takeWnd_send] at hmove
      have hok' := hmove.flight hok
      have hroom' : Room a E (takeWnd g c).send := by
        intro _ _
        rw [takeWnd_send, UInt16.toNat_toUInt32]
        exact hoffer hrange.1
      have hin' : Within n₀ a E (takeWnd g c).send := hin
      split
      · have hkept := (tcpOutput_outMoves now (takeWnd g c)).kept hok' hin' (Or.inl hroom')
        refine ⟨hkept.ok, hkept.within, ?_, hkept.una⟩
        intro hsends hfin
        rw [hkept.wnd]
        exact hroom' (hkept.state ▸ hsends) (hkept.fin hfin)
      · exact ⟨hok', hin', hroom', rfl⟩
    · rename_i hold
      rcases hroom with hroom | ⟨-, hnewer⟩
      · exact ⟨hok, hin, hroom, rfl⟩
      · exact absurd hnewer hold
  · rename_i hrange
    rcases hroom with hroom | ⟨huna, -⟩
    · exact ⟨hok, hin, hroom, rfl⟩
    · exfalso
      apply hrange
      have hnxt : seqLe c.tcb.sndUna c.tcb.sndNxt = true := hok.una_le_nxt
      have hself : seqLe g.ack g.ack = true := by rw [seqLe_iff, UInt32.sub_self]; left; rfl
      rw [huna] at hnxt ⊢
      rw [hself, hnxt]
      rfl

/-- The text of the segment and its FIN. -/
theorem tcpInputFin_stage {n₀ u : UInt32} (h : WndStage n₀ a E u c.send) :
    Within n₀ a E (tcpInputFin now g (tcpInputText now g c)).send ∧
      Room a E (tcpInputFin now g (tcpInputText now g c)).send ∧
      (tcpInputFin now g (tcpInputText now g c)).tcb.sndUna = u := by
  have hctl := tcpInputText_onlyCtl now g c
  set c' := tcpInputText now g c with hc'
  have hin := h.within.of_onlyCtl hctl
  have hroom := h.room.of_onlyCtl hctl
  have huna : c'.send.una = u := by
    obtain ⟨gs, hview, -⟩ := hctl
    rw [hview]
    exact h.una
  unfold tcpInputFin
  split
  · rename_i hfin
    obtain ⟨x, hx, hview⟩ := tcpTakeFin_send now (g.seq + g.paylen) c'
    refine ⟨?_, ?_, ?_⟩
    · rw [hview]
      intro y hy hpay hnew
      rcases List.mem_append.mp hy with hy | hy
      · exact hin y hy hpay hnew
      · rw [List.mem_singleton] at hy
        exact absurd (hy ▸ hx.1) hpay
    · rw [hview]
      intro hsends hunsent
      simp only [finInOrder, Bool.and_eq_true, Bool.or_eq_true, decide_eq_true_eq] at hfin
      rcases hfin.2 with ht | ht
      · exact hroom (rxFinState_sends ht hsends) hunsent
      · have hst : c'.send.state = .timeWait := ht
        rw [hst] at hsends
        cases hsends
    · exact (congrArg SendView.una hview).trans huna
  · exact ⟨hin, hroom, huna⟩

/-- What a whole event leaves behind, seen from the connection it started on. -/
structure EventKept (a E : Nat) (c c' : Conn) : Prop where
  within : Within c.tcb.sndNxt (a + (c'.tcb.sndUna - c.tcb.sndUna).toNat) E c'.send
  room : c'.fate = .alive → Room (a + (c'.tcb.sndUna - c.tcb.sndUna).toNat) E c'.send

/-- An event that emits no data after some change of the sending side. -/
theorem EventKept.of_ctl {c c' : Conn} {s : SendView} (hctl : OnlyCtl s c'.send) (hout : s.out = [])
    (hroom : Room (a + (s.una - c.tcb.sndUna).toNat) E s) : EventKept a E c c' := by
  have huna : c'.tcb.sndUna = s.una := by
    obtain ⟨gs, hview, -⟩ := hctl
    exact congrArg SendView.una hview
  refine ⟨(Within.of_out_nil hout).of_onlyCtl hctl, fun _ => ?_⟩
  rw [huna]
  exact hroom.of_onlyCtl hctl

theorem OnlyCtl.sndUna {c c' : Conn} (hctl : OnlyCtl c.send c'.send) :
    c'.tcb.sndUna = c.tcb.sndUna := by
  obtain ⟨gs, hview, -⟩ := hctl
  exact congrArg SendView.una hview

theorem EventKept.of_onlyCtl {c c' : Conn} (hctl : OnlyCtl c.send c'.send) (hout : c.out = [])
    (hroom : Room a E c.send) : EventKept a E c c' := by
  apply EventKept.of_ctl hctl hout
  change Room (a + (c.tcb.sndUna - c.tcb.sndUna).toNat) E c.send
  simpa using hroom

/-- The steps from the acknowledgement on keep all new data inside the edge. -/
theorem tcpInputSynced_kept (hok : Flight c.send) (hout : c.out = [])
    (hsync : c.tcb.state ≠ .synSent ∧ c.tcb.state ≠ .synRcvd)
    (hoffer : seqGt g.ack c.tcb.sndNxt = false → seqLe c.tcb.sndUna g.ack = true →
      a + (g.ack - c.tcb.sndUna).toNat + g.wnd.toNat ≤ E)
    (hsafe : seqGt g.ack c.tcb.sndNxt = false → AckHarmless a E c g) (hroom : Room a E c.send) :
    EventKept a E c (tcpInputSynced now g c) ∧
      (seqGt g.ack c.tcb.sndUna = false →
        (tcpInputSynced now g c).tcb.sndUna = c.tcb.sndUna) := by
  unfold tcpInputSynced
  split
  · have hctl : OnlyCtl c.send (tcpSendCtl (c.count .tcpRxBadAck) tcpAck).send :=
      ackSent_onlyCtl (Conn.count_send _ _)
    exact ⟨EventKept.of_onlyCtl hctl hout hroom, fun _ => hctl.sndUna⟩
  rename_i hgt
  have hle : seqGt g.ack c.tcb.sndNxt = false := by simpa using hgt
  have hack := tcpInputAck_stage now g c hok hout hsync hle (hsafe hle) hroom
  have horigin := tcpInputAck_wndOrigin now g c
  set c₁ := tcpInputAck now g c with hc₁
  have hsame : seqGt g.ack c.tcb.sndUna = false → c₁.tcb.sndUna = c.tcb.sndUna := by
    intro hold
    rcases hack.una with huna | ⟨-, hnew⟩
    · exact huna
    · rw [hold] at hnew
      cases hnew
  simp only
  by_cases halive : c₁.fate = .alive
  · have hsend : tcpInputSend now g c = tcpInputWnd now g c₁ := if_pos halive
    rw [hsend]
    set a₁ := a + (c₁.tcb.sndUna - c.tcb.sndUna).toNat with ha₁
    have hoffer₁ : seqLe c₁.tcb.sndUna g.ack = true → a₁ + g.wnd.toNat ≤ E := by
      intro hlo
      rcases hack.una with huna | ⟨huna, hnew⟩
      · rw [huna] at hlo
        have hin := hoffer hle hlo
        rw [ha₁, huna, UInt32.sub_self, UInt32.toNat_zero]
        omega
      · rw [ha₁, huna]
        exact hoffer hle (seqLe_of_seqGt hnew)
    have hroom₁ : Room a₁ E c₁.send ∨ c₁.tcb.sndUna = g.ack ∧ wndIsNewer c₁.tcb g = true := by
      rw [wndIsNewer_congr horigin]
      exact hack.room
    have hwnd := tcpInputWnd_stage now g c₁ hack.ok hack.within hoffer₁ hroom₁
    have hkept {c' : Conn} (hin : Within c.tcb.sndNxt a₁ E c'.send) (hroom : Room a₁ E c'.send)
        (huna : c'.tcb.sndUna = c₁.tcb.sndUna) :
        EventKept a E c c' ∧ (seqGt g.ack c.tcb.sndUna = false → c'.tcb.sndUna = c.tcb.sndUna) := by
      refine ⟨⟨?_, fun _ => ?_⟩, fun hold => ?_⟩ <;> rw [huna]
      · exact hin
      · exact hroom
      · exact hsame hold
    split
    · obtain ⟨hin, hroom', huna⟩ := tcpInputFin_stage now g (tcpInputWnd now g c₁) hwnd
      exact hkept hin hroom' huna
    · exact hkept hwnd.within hwnd.room hwnd.una
  · have hsend : tcpInputSend now g c = c₁ := if_neg halive
    rw [hsend, if_neg halive]
    exact ⟨⟨hack.within, fun h => absurd h halive⟩, hsame⟩

end Ack

end PacketForge
