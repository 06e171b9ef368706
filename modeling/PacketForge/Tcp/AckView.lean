import PacketForge.Tcp.Receiver
import PacketForge.Tcp.StageViews

/-!
The acknowledging side of a connection: `rcv_nxt`, the fill of the receive
ring, the delayed acknowledgement and the segments sent. Every segment with the
ACK flag names the `rcv_nxt` and the window of its moment and settles the
delayed acknowledgement. `rcv_nxt` moves over a SYN, over text and over a FIN;
all of these are acknowledged at once, except that text may be delayed.
-/

namespace PacketForge

structure AckView where
  state : TcpState
  nxt : UInt32
  len : UInt32
  pending : UInt8
  deadline : Nat
  out : List Seg

def Conn.acks (c : Conn) : AckView where
  state := c.tcb.state
  nxt := c.tcb.rcvNxt
  len := c.tcb.rcvLen
  pending := c.tcb.delackPending
  deadline := c.tcb.delackDeadline
  out := c.out

/-- The window a receive ring that holds `len` bytes leaves open. -/
def windowOf (len : UInt32) : UInt16 := (pfMin (65535 - len) 0xffff).toUInt16

namespace AckView

/-- The segment acknowledges all that has arrived and advertises all that is
free. -/
def Says (v : AckView) (g : Seg) : Prop := g.ack = v.nxt ∧ g.wnd = windowOf v.len

def sent (v : AckView) (g : Seg) : AckView :=
  if g.has tcpAck then { v with pending := 0, deadline := 0, out := v.out ++ [g] }
  else { v with out := v.out ++ [g] }

theorem sent_ack {g : Seg} (v : AckView) (h : g.has tcpAck = true) :
    v.sent g = { v with pending := 0, deadline := 0, out := v.out ++ [g] } := if_pos h

theorem sent_other {g : Seg} (v : AckView) (h : g.has tcpAck = false) :
    v.sent g = { v with out := v.out ++ [g] } := if_neg (by simp [h])

def advance (v : AckView) (k : UInt32) : AckView := { v with nxt := v.nxt + k, len := v.len + k }

/-- Text of `k` bytes goes into the ring, unless the ring was broken before. -/
def Takes (v : AckView) (k : UInt32) : Prop :=
  v.len.toNat ≤ 65535 → 0 < k.toNat ∧ v.len.toNat + k.toNat ≤ 65535

end AckView

/-- What moves `rcv_nxt`. -/
inductive AckShift : AckView → AckView → Prop where
  | syn {v : AckView} (st : TcpState) (seq : UInt32) (hst : v.state = .synSent)
      (hst' : st = .established ∨ st = .synRcvd) : AckShift v { v with state := st, nxt := seq }
  | text {v : AckView} (k : UInt32) (hst : v.state.takesData = true) (hk : v.Takes k) :
      AckShift v (v.advance k)
  | fin {v : AckView} (hst : v.state.takesData = true ∨ v.state = .timeWait) :
      AckShift v
        { v with
          state := rxFinState v.state
          nxt := if v.state ≠ .timeWait then v.nxt + 1 else v.nxt }

inductive AckMove : ConnEvent → AckView → AckView → Prop where
  | sent (e : ConnEvent) {v : AckView} (g : Seg)
      (hsaid : g.has tcpAck = true → v.state ≠ .synSent ∧ v.Says g) : AckMove e v (v.sent g)
  | state (e : ConnEvent) {v : AckView} (st : TcpState) (hst : v.state ≠ .synSent)
      (hst' : st ≠ .synSent) (hfin : st.pastFin = v.state.pastFin) :
      AckMove e v { v with state := st }
  /-- Our FIN is acknowledged in CLOSING. -/
  | timeWait (e : ConnEvent) {v : AckView} (hst : v.state = .closing) :
      AckMove e v { v with state := .timeWait, deadline := 0 }
  /-- `rcv_nxt` moves and is acknowledged at once. -/
  | shift (e : ConnEvent) {v v' : AckView} (g : Seg) (hshift : AckShift v v')
      (hack : g.has tcpAck = true) (hsaid : v'.Says g) : AckMove e v (v'.sent g)
  /-- The acknowledgement of text is delayed. -/
  | delay (now : Nat) (lroom : Option Bool) (g : Seg) {v : AckView} (k : UInt32)
      (hst : v.state.takesData = true) (hk : v.Takes k) (hone : ¬ v.pending + 1 ≥ 2) :
      AckMove (.segment now lroom g) v
        { v.advance k with
          pending := v.pending + 1
          deadline := if v.deadline = 0 then now + tcpDelackMs else v.deadline }
  | read (e : ConnEvent) {v : AckView} (n : UInt32) (hn : n ≤ v.len) :
      AckMove e v { v with len := v.len - n }

abbrev AckMoves (e : ConnEvent) : AckView → AckView → Prop := Relation.ReflTransGen (AckMove e)

namespace AckMoves

variable {e : ConnEvent} {v v' : AckView}

theorem of_eq (h : v' = v) : AckMoves e v v' := h ▸ .refl

theorem single (h : AckMove e v v') : AckMoves e v v' := Relation.ReflTransGen.single h

theorem invariant {P : AckView → Prop} (hmove : ∀ v v', AckMove e v v' → P v → P v')
    (h : AckMoves e v v') (hv : P v) : P v' := by
  induction h with
  | refl => exact hv
  | tail _ hlast ih => exact hmove _ _ hlast ih

end AckMoves

/-! ### Transmission -/

section Transmission

variable {e : ConnEvent}

variable (now : Nat) (c : Conn) (t : Tcb) (flags : UInt8)

theorem tcpSegment_has (flags f : UInt8) (seq off : UInt32) (n : UInt16) :
    (tcpSegment t flags seq off n).has f = (flags &&& f != 0) := rfl

theorem tcpSegment_ack (seq off : UInt32) (n : UInt16) :
    (tcpSegment t tcpAck seq off n).has tcpAck = true := by
  rw [tcpSegment_has]
  decide

theorem tcpSegment_says {flags : UInt8} (seq off : UInt32) (n : UInt16)
    (hack : (flags &&& tcpAck != 0) = true) : c.acks.Says (tcpSegment c.tcb flags seq off n) := by
  constructor
  · exact if_pos hack
  · rfl

theorem ackSent_acks :
    { c with tcb := ackSent flags c.tcb }.acks =
      if flags &&& tcpAck != 0 then { c.acks with pending := 0, deadline := 0 } else c.acks := by
  unfold ackSent
  split <;> rfl

theorem tcpSendSegment_acks (seq off : UInt32) (n : UInt16) :
    (tcpSendSegment c flags seq off n).acks = c.acks.sent (tcpSegment c.tcb flags seq off n) := by
  have hemit (d : Conn) (g : Seg) (x : UInt64) :
      (((d.count .tcpTxSegs).countBy .tcpTxBytes x).emit g).acks =
        { d.acks with out := d.out ++ [g] } := rfl
  unfold tcpSendSegment AckView.sent
  rw [hemit, ackSent_acks, tcpSegment_has]
  split <;> rfl

theorem tcpSendSegment_ackMove (seq off : UInt32) (n : UInt16)
    (hst : (flags &&& tcpAck != 0) = true → c.tcb.state ≠ .synSent) :
    AckMove e c.acks (tcpSendSegment c flags seq off n).acks := by
  rw [tcpSendSegment_acks]
  exact .sent e _ (fun hack => ⟨hst hack, tcpSegment_says c seq off n hack⟩)

theorem count_acks (x : Stat) : (c.count x).acks = c.acks := rfl

theorem tcpSendCtl_acks :
    ∃ seq, (tcpSendCtl c flags).acks = c.acks.sent (tcpSegment c.tcb flags seq 0 0) := by
  unfold tcpSendCtl
  simp only
  rw [tcpSendSegment_acks]
  split
  · exact ⟨_, rfl⟩
  · exact ⟨_, rfl⟩

theorem tcpSendCtl_ackMove {flags : UInt8}
    (hst : (flags &&& tcpAck != 0) = true → c.tcb.state ≠ .synSent) :
    AckMove e c.acks (tcpSendCtl c flags).acks := by
  obtain ⟨seq, hacks⟩ := tcpSendCtl_acks c flags
  rw [hacks]
  exact .sent e _ (fun hack => ⟨hst hack, tcpSegment_says c seq 0 0 hack⟩)

theorem tcpArmRto_acks (now : Nat) :
    { c with tcb := tcpArmRto t now }.acks = { c with tcb := t }.acks := by
  rw [tcpArmRto_eq]
  rfl

theorem TcpState.sends_started {st : TcpState} (h : st.sends = true) : st ≠ .synSent := by
  rintro rfl
  cases h

theorem tcpOutputChunk_ackMove (chunk : UInt16) (hst : c.tcb.state.sends = true) :
    AckMove e c.acks (tcpOutputChunk now c chunk).acks := by
  have hnxt (d : Conn) (x : UInt32) :
      { d with tcb := rttStart { d.tcb with sndNxt := x } now }.acks = d.acks := by
    rw [rttStart_eq]
    rfl
  simp only [tcpOutputChunk]
  rw [tcpArmRto_acks, hnxt]
  exact tcpSendSegment_ackMove c _ _ _ _ (fun _ => TcpState.sends_started hst)

theorem tcpSendFin_ackMove (hst : c.tcb.state.sends = true) :
    AckMove e c.acks (tcpSendFin now c).acks := by
  have harm (d : Conn) :
      { d with
        tcb := tcpArmRto { d.tcb with finSent := true, sndNxt := d.tcb.sndNxt + 1 } now }.acks =
        d.acks := tcpArmRto_acks d _ now
  have hview : (tcpSendFin now c).acks =
      (tcpSendSegment c (tcpFin ||| tcpAck) c.tcb.sndNxt 0 0).acks := harm _
  rw [hview]
  exact tcpSendSegment_ackMove c _ _ _ _ (fun _ => TcpState.sends_started hst)

theorem tcpResend_ackMoves : AckMoves e c.acks (tcpResend c).acks := by
  unfold tcpResend
  split
  · exact AckMoves.single (tcpSendCtl_ackMove c (fun h => absurd h (by decide)))
  rename_i hsent
  split
  · exact AckMoves.single (tcpSendCtl_ackMove c (fun _ => hsent))
  split
  · exact AckMoves.single (tcpSendSegment_ackMove c _ _ _ _ (fun _ => hsent))
  split
  · exact AckMoves.single (tcpSendSegment_ackMove c _ _ _ _ (fun _ => hsent))
  · exact .refl

theorem tcpRetransmit_ackMoves : AckMoves e c.acks (tcpRetransmit c).acks := by
  have hkarn :
      { c.count .tcpRtxSegs with tcb := { c.tcb with rttTiming := false } }.acks = c.acks :=
    rfl
  rw [← hkarn]
  exact tcpResend_ackMoves _

end Transmission

/-! ### Acknowledgements received -/

section Acknowledgements

variable {e : ConnEvent}

theorem ackNew_acks (now : Nat) (ack : UInt32) (c : Conn) : (ackNew now ack c).acks = c.acks := by
  obtain ⟨st, srtt, rttvar, rto, rtx, cwnd, dup, dl, timing, heq, -⟩ := ackNew_eq now ack c
  rw [heq]
  rfl

theorem tcpFinAcked_ackMoves (now : Nat) (fin : Bool) (c : Conn) :
    AckMoves e c.acks (tcpFinAcked now fin c).acks := by
  unfold tcpFinAcked
  split
  · rename_i h
    simp only [Bool.and_eq_true, decide_eq_true_eq] at h
    have hst : c.acks.state = .finWait1 := h.2
    refine AckMoves.single (AckMove.state e .finWait2 ?_ (by simp) ?_) <;> rw [hst]
    · simp
    · rfl
  split
  · rename_i h
    simp only [Bool.and_eq_true, decide_eq_true_eq] at h
    exact AckMoves.single (AckMove.timeWait e h.2)
  · exact .refl

end Acknowledgements

/-! ### SYN, text and FIN -/

section Arrivals

variable {e : ConnEvent}

theorem tcpTakeSyn_acks (g : Seg) (c : Conn) :
    (tcpTakeSyn g c).acks = { c.acks with nxt := g.seq + 1 } := by
  unfold tcpTakeSyn tcpTakeMss
  simp only
  split <;> rfl

theorem syn_ackMove {c d : Conn} {st : TcpState} {seq : UInt32} {flags : UInt8}
    (hst : c.tcb.state = .synSent) (hst' : st = .established ∨ st = .synRcvd)
    (hd : d.acks = { c.acks with state := st, nxt := seq })
    (hack : (flags &&& tcpAck != 0) = true) : AckMove e c.acks (tcpSendCtl d flags).acks := by
  obtain ⟨x, hacks⟩ := tcpSendCtl_acks d flags
  have hsaid := tcpSegment_says d x 0 0 hack
  rw [hacks]
  rw [hd] at hsaid ⊢
  exact .shift e _ (.syn st seq hst hst') hack hsaid

theorem rcvAppend_acks (c : Conn) (data : List UInt8) :
    (rcvAppend c data).acks = c.acks.advance (rcvRingTake c.tcb data) := by
  have hset (buf : Nat → UInt8) (len nxt : UInt32) (n : UInt64) :
      ({ c with tcb := { c.tcb with rcvbuf := buf, rcvLen := len, rcvNxt := nxt } }.countBy
        .tcpRxBytes n).acks = { c.acks with len := len, nxt := nxt } := rfl
  have hcap : tcpRcvbuf = 65535 := rfl
  have hlen : c.tcb.rcvLen = c.acks.len := rfl
  have hnxt : c.tcb.rcvNxt = c.acks.nxt := rfl
  simp only [rcvAppend, rcvRingPut, hcap]
  rw [hset, hlen, hnxt, AckView.advance]

theorem rcvRingTake_le (t : Tcb) (data : List UInt8) (hlen : t.rcvLen.toNat ≤ 65535) :
    t.rcvLen.toNat + (rcvRingTake t data).toNat ≤ 65535 := by
  have hspace : (65535 - t.rcvLen).toNat = 65535 - t.rcvLen.toNat := by
    rw [UInt32.toNat_sub_of_le _ _ (by rw [UInt32.le_iff_toNat_le]; exact hlen)]
    rfl
  rw [rcvRingTake, pfMin_toNat, hspace]
  omega

theorem AckView.advance_advance (v : AckView) (k m : UInt32) :
    (v.advance k).advance m = v.advance (k + m) := by
  simp only [AckView.advance, UInt32.add_assoc]

theorem AckView.advance_len {v : AckView} {k : UInt32} (h : v.len.toNat + k.toNat ≤ 65535) :
    (v.advance k).len.toNat = v.len.toNat + k.toNat := by
  rw [AckView.advance, UInt32.toNat_add]
  omega

/-- Draining the queue moves `rcv_nxt` over what it puts into the ring. -/
theorem oooDrainLoop_acks (qs : List OooPkt) (c : Conn) :
    ∃ k, (oooDrainLoop qs c).acks = c.acks.advance k ∧
      (c.tcb.rcvLen.toNat ≤ 65535 → c.tcb.rcvLen.toNat + k.toNat ≤ 65535) := by
  have hooo (d : Conn) (rs : List OooPkt) :
      { d with tcb := { d.tcb with ooo := rs } }.acks = d.acks :=
    rfl
  have hzero (d : Conn) : d.acks = d.acks.advance 0 := by simp [AckView.advance]
  induction qs generalizing c with
  | nil => exact ⟨0, hzero c, id⟩
  | cons q qs ih =>
    unfold oooDrainLoop
    simp only
    split
    · exact ⟨0, hzero c, id⟩
    split
    · exact ih c
    set data := q.data.drop (c.tcb.rcvNxt - q.seq).toNat
    have happ := rcvAppend_acks c data
    split
    · rw [hooo]
      exact ⟨_, happ, rcvRingTake_le c.tcb data⟩
    · obtain ⟨k, hk, hle⟩ := ih (rcvAppend c data)
      refine ⟨rcvRingTake c.tcb data + k, ?_, ?_⟩
      · rw [hk, happ, AckView.advance_advance]
      · intro hlen
        have hone := rcvRingTake_le c.tcb data hlen
        have hmid : (rcvAppend c data).tcb.rcvLen.toNat =
            c.tcb.rcvLen.toNat + (rcvRingTake c.tcb data).toNat :=
          (congrArg (fun v : AckView => v.len.toNat) happ).trans (AckView.advance_len hone)
        have htwo := hle (by omega)
        rw [UInt32.toNat_add]
        omega

theorem windowOf_toNat {len : UInt32} (h : len.toNat ≤ 65535) :
    (windowOf len).toNat = 65535 - len.toNat := by
  have hfree : (65535 - len).toNat = 65535 - len.toNat := by
    rw [UInt32.toNat_sub_of_le _ _ (by rw [UInt32.le_iff_toNat_le]; exact h)]
    rfl
  have hmax : (0xffff : UInt32).toNat = 65535 := rfl
  rw [windowOf, UInt32.toNat_toUInt16, pfMin_toNat, hfree, hmax]
  omega

/-- Text that fits the window goes into the ring, with what was parked behind
it. -/
theorem text_acks (c : Conn) {data : List UInt8} (hpos : data ≠ [])
    (hfit : data.length ≤ (tcpRcvWindow c.tcb).toNat) :
    ∃ k, (tcpOooDrain (rcvAppend c data)).acks = c.acks.advance k ∧ c.acks.Takes k := by
  obtain ⟨k, hk, hle⟩ := oooDrainLoop_acks (rcvAppend c data).tcb.ooo (rcvAppend c data)
  have happ := rcvAppend_acks c data
  refine ⟨rcvRingTake c.tcb data + k, ?_, ?_⟩
  · rw [tcpOooDrain, hk, happ, AckView.advance_advance]
  · intro hlen
    have hone := rcvRingTake_le c.tcb data hlen
    have hmid : (rcvAppend c data).tcb.rcvLen.toNat =
        c.tcb.rcvLen.toNat + (rcvRingTake c.tcb data).toNat :=
      (congrArg (fun v : AckView => v.len.toNat) happ).trans (AckView.advance_len hone)
    have htwo := hle (by omega)
    have hwnd : (tcpRcvWindow c.tcb).toNat = 65535 - c.tcb.rcvLen.toNat := windowOf_toNat hlen
    have htake := rcvRingTake_toNat c.tcb data hlen (by omega)
    have hlenpos := List.length_pos_iff.mpr hpos
    have hlen' : c.acks.len = c.tcb.rcvLen := rfl
    rw [UInt32.toNat_add, hlen']
    omega

theorem tcpDelayAck_ackMove (now : Nat) (lroom : Option Bool) (g : Seg) {c d : Conn} {k : UInt32}
    (hst : c.tcb.state.takesData = true) (hd : d.acks = c.acks.advance k) (hk : c.acks.Takes k) :
    AckMove (.segment now lroom g) c.acks (tcpDelayAck d now).acks := by
  have hpend (n : UInt8) :
      { d with tcb := { d.tcb with delackPending := n } }.acks = { d.acks with pending := n } := rfl
  have hboth (n : UInt8) (t : Nat) :
      { d with tcb := { d.tcb with delackPending := n, delackDeadline := t } }.acks =
        { d.acks with pending := n, deadline := t } := rfl
  have hp : d.tcb.delackPending = c.acks.pending := congrArg AckView.pending hd
  have hdl : d.tcb.delackDeadline = c.acks.deadline := congrArg AckView.deadline hd
  simp only [tcpDelayAck]
  split
  · -- the second segment in a row
    obtain ⟨x, hacks⟩ := tcpSendCtl_acks
      { d with tcb := { d.tcb with delackPending := d.tcb.delackPending + 1 } } tcpAck
    have hsaid : d.acks.Says (tcpSegment d.tcb tcpAck x 0 0) := tcpSegment_says d x 0 0 (by decide)
    have hack := tcpSegment_ack d.tcb x 0 0
    have hsent (n : UInt8) : { d.acks with pending := n }.sent (tcpSegment d.tcb tcpAck x 0 0) =
        d.acks.sent (tcpSegment d.tcb tcpAck x 0 0) := by
      rw [AckView.sent_ack _ hack, AckView.sent_ack _ hack]
    rw [hacks, hpend]
    change AckMove _ _ ({ d.acks with pending := _ }.sent (tcpSegment d.tcb tcpAck x 0 0))
    rw [hsent]
    rw [hd] at hsaid ⊢
    exact .shift _ _ (.text k hst hk) hack hsaid
  · rename_i hone
    rw [hp] at hone
    have hmove := AckMove.delay now lroom g k hst hk hone
    split
    · rename_i hz
      rw [hdl] at hz
      rw [if_pos hz] at hmove
      rw [hboth, hd, hp]
      exact hmove
    · rename_i hz
      rw [hdl] at hz
      rw [if_neg hz] at hmove
      rw [hpend, hd, hp]
      exact hmove

theorem tcpOooInsert_acks (c : Conn) (seq : UInt32) (data : List UInt8) :
    (tcpOooInsert c seq data).acks = c.acks := by
  unfold tcpOooInsert
  split
  · rfl
  split <;> rfl

theorem tcpFinState_acks (now : Nat) (c : Conn) (hdl : c.tcb.delackDeadline = 0) :
    { c with tcb := tcpFinState now c.tcb }.acks =
      { c.acks with state := rxFinState c.acks.state } := by
  have hst : c.acks.state = c.tcb.state := rfl
  unfold tcpFinState
  rw [hst]
  cases h : c.tcb.state <;> simp only [rxFinState] <;>
    simp only [Conn.acks, tcpEnterTimewait, h, hdl]

theorem tcpTakeFin_ackMove (now : Nat) (g : Seg) (c : Conn) (hfin : finInOrder c.tcb g = true) :
    AckMove e c.acks (tcpTakeFin now (g.seq + g.paylen) c).acks := by
  simp only [finInOrder, Bool.and_eq_true, Bool.or_eq_true, decide_eq_true_eq] at hfin
  obtain ⟨⟨-, hat⟩, hst⟩ := hfin
  set d := consumeFin (g.seq + g.paylen) c with hd
  have hdv : d.acks =
      { c.acks with nxt := if c.acks.state ≠ .timeWait then c.acks.nxt + 1 else c.acks.nxt } := by
    rw [hd, consumeFin, hat]
    rfl
  obtain ⟨x, hacks⟩ := tcpSendCtl_acks d tcpAck
  have hsaid : d.acks.Says (tcpSegment d.tcb tcpAck x 0 0) := tcpSegment_says d x 0 0 (by decide)
  have hack := tcpSegment_ack d.tcb x 0 0
  rw [AckView.sent_ack _ hack] at hacks
  have hclear : (tcpSendCtl d tcpAck).tcb.delackDeadline = 0 := congrArg AckView.deadline hacks
  have hview : (tcpTakeFin now (g.seq + g.paylen) c).acks =
      { d.acks with state := rxFinState d.acks.state }.sent (tcpSegment d.tcb tcpAck x 0 0) := by
    unfold tcpTakeFin
    simp only
    rw [← hd, tcpFinState_acks now _ hclear, hacks, AckView.sent_ack _ hack]
  rw [hview]
  rw [hdv] at hsaid ⊢
  exact .shift e _ (.fin hst) hack hsaid

end Arrivals

/-! ### Every action -/

theorem tcpSendResetFor_ackMoves {e : ConnEvent} (c : Conn) (g : Seg) (hack : g.has tcpAck = true) :
    AckMoves e c.acks (tcpSendResetFor c g).acks := by
  unfold tcpSendResetFor
  split
  · exact .refl
  · rename_i r hr
    have hno : r.has tcpAck = false := by
      unfold tcpResetFor at hr
      split at hr
      · cases hr
      · cases hr
        simp only [Seg.has]
        decide
    have hview : ((c.count .tcpRstTx).emit r).acks = c.acks.sent r := (c.acks.sent_other hno).symm
    rw [hview]
    exact AckMoves.single (.sent e r (fun h => absurd h (by simp [hno])))

theorem announceWindow_ackMoves {e : ConnEvent} (c : Conn) (hst : c.tcb.state ≠ .synSent) :
    AckMoves e c.acks (announceWindow c).acks := by
  unfold announceWindow
  split
  · exact AckMoves.single (tcpSendCtl_ackMove c (fun _ => hst))
  · exact .refl

/-- Before the peer's SYN nothing has arrived and nothing is owed. -/
structure Unanswered (v : AckView) : Prop where
  state : v.state = .synSent
  len : v.len = 0
  pending : v.pending = 0
  deadline : v.deadline = 0

theorem Heard.ackMoves {e : ConnEvent} {c d : Conn} (h : Heard e c d)
    (hblank : c.tcb.state = .synSent → Unanswered c.acks) : AckMoves e c.acks d.acks := by
  have hstarted (h0 : c.tcb.delackDeadline ≠ 0 ∨ c.tcb.rcvLen > 0) : c.tcb.state ≠ .synSent := by
    intro hst
    rcases h0 with hdl | hlen
    · exact hdl (hblank hst).deadline
    · rw [show c.tcb.rcvLen = 0 from (hblank hst).len] at hlen
      exact absurd hlen (by decide)
  cases h with
  | stat st => exact .refl
  | ack e hst =>
    exact AckMoves.single (tcpSendCtl_ackMove c (fun _ hs => hstarted (Or.inl (hst hs)) hs))
  | reset now lroom g hst hack => exact tcpSendResetFor_ackMoves c g hack
  | text now lroom g data hst hpos hfit =>
    obtain ⟨k, hview, hk⟩ := text_acks c hpos hfit
    exact AckMoves.single (tcpDelayAck_ackMove now lroom g hst hview hk)
  | park now lroom g seq data hst hpos hgap hfit =>
    have hview := tcpOooInsert_acks c seq data
    have hst' : (tcpOooInsert c seq data).tcb.state ≠ .synSent := by
      rw [show (tcpOooInsert c seq data).tcb.state = c.tcb.state from congrArg AckView.state hview]
      exact (takesData_sync hst).1
    rw [← hview]
    exact AckMoves.single (tcpSendCtl_ackMove _ (fun _ => hst'))
  | recv cap hlen =>
    have hst := hstarted (Or.inr hlen)
    have hread : AckMove (.recv cap) c.acks (rcvRelease (recvAmount c.tcb cap) c).acks := by
      refine AckMove.read _ (recvAmount c.tcb cap) ?_
      rw [UInt32.le_iff_toNat_le, recvAmount, pfMin_toNat]
      exact Nat.min_le_right _ _
    exact .head hread (announceWindow_ackMoves _ hst)

theorem Act.ackMoves {e : ConnEvent} {c d : Conn} (h : Act e c d)
    (hblank : c.tcb.state = .synSent → Unanswered c.acks) : AckMoves e c.acks d.acks := by
  cases h with
  | quiet h =>
    cases h with
    | heard h => exact h.ackMoves hblank
    | opened now lroom g hout hst hlo hhi =>
      have hest (f : Conn) : (tcpEstablish (f.setUna g.ack) g).acks =
          { f.acks with state := .established } := rfl
      have hview : (tcpEstablish ((tcpTakeSyn g c).setUna g.ack) g).acks =
          { c.acks with state := .established, nxt := g.seq + 1 } := by rw [hest, tcpTakeSyn_acks]
      exact AckMoves.single (syn_ackMove hst (Or.inl rfl) hview (by decide))
    | crossed now lroom g hst =>
      have hset (f : Conn) : (f.setState .synRcvd).acks = { f.acks with state := .synRcvd } := rfl
      have hview : ((tcpTakeSyn g c).setState .synRcvd).acks =
          { c.acks with state := .synRcvd, nxt := g.seq + 1 } := by rw [hset, tcpTakeSyn_acks]
      simp only [tcpSimultaneousOpen]
      rw [tcpArmRto_acks]
      exact AckMoves.single (syn_ackMove hst (Or.inr rfl) hview (by decide))
    | answered now lroom g queued hout hst hlo hhi =>
      have hs : c.acks.state = .synRcvd := hst
      have hne : c.acks.state ≠ .synSent := by simp [hs]
      exact AckMoves.single (AckMove.state _ .established hne (by simp) (by rw [hs]; rfl))
    | rxFin now lroom g hfin => exact AckMoves.single (tcpTakeFin_ackMove now g c hfin)
    | probe now hprobe =>
      have hsends : c.tcb.state.sends = true := by
        simp only [wantsProbe, Bool.and_eq_true] at hprobe
        exact hprobe.2
      have harm (f : Conn) :
          { f with tcb := tcpArmRto { f.tcb with sndNxt := f.tcb.sndNxt + 1 } now }.acks = f.acks :=
        tcpArmRto_acks f _ now
      have hview : (tcpProbed now c).acks =
          (tcpSendSegment (c.count .tcpZeroWndProbes) tcpAck c.tcb.sndNxt
            (c.tcb.sndNxt - c.tcb.sndUna) 1).acks := harm _
      rw [hview, ← count_acks c .tcpZeroWndProbes]
      exact AckMoves.single
        (tcpSendSegment_ackMove (c.count .tcpZeroWndProbes) _ _ _ _
          (fun _ => TcpState.sends_started hsends))
    | nodelay on => exact .refl
    | attach sock => exact .refl
  | tune | window | backoff | rearm => exact .refl
  | chunk now wnd chunk hnow hst => exact AckMoves.single (tcpOutputChunk_ackMove now c chunk hst)
  | fin now hnow hst => exact AckMoves.single (tcpSendFin_ackMove now c hst)
  | resend => exact tcpRetransmit_ackMoves c
  | acked now lroom g hsync hout hgt hle hlast =>
    have hfin := tcpFinAcked_ackMoves (e := .segment now lroom g) now (finAcked c.tcb g.ack)
      (ackNew now g.ack c)
    rw [ackNew_acks] at hfin
    exact hfin
  | append now data hout hcan =>
    have hring (buf : Nat → UInt8) (len : UInt32) :
        { c with tcb := { c.tcb with sndbuf := buf, sndLen := len } }.acks = c.acks := rfl
    exact AckMoves.of_eq (hring _ _)
  | close now st hout hst =>
    have hs : c.acks.state = c.tcb.state := rfl
    refine AckMoves.single (AckMove.state _ st ?_ hst.synced.1 ?_) <;> rw [hs]
    · intro hsent
      rw [hsent] at hst
      cases hst
    · revert hst
      generalize c.tcb.state = st0
      intro hst
      cases hst <;> rfl

/-! ### Opening -/

theorem tcpStartSyn_acks (now : Nat) (c : Conn) (flags : UInt8) :
    ∃ seq, (tcpStartSyn now flags c).acks = c.acks.sent (tcpSegment c.tcb flags seq 0 0) := by
  obtain ⟨seq, hsent⟩ := tcpSendCtl_acks c flags
  exact ⟨seq, (tcpArmRto_acks (tcpSendCtl c flags) (tcpSendCtl c flags).tcb now).trans hsent⟩

/-- A connection is opened with a SYN, or with one that acknowledges the
peer's. -/
theorem Opened.acks {c : Conn} (h : Opened c) :
    (∃ g, g.has tcpAck = false ∧ c.acks = ⟨.synSent, 0, 0, 0, 0, [g]⟩) ∨
      ∃ (nxt : UInt32) (g : Seg), g.has tcpAck = true ∧
        AckView.Says ⟨.synRcvd, nxt, 0, 0, 0, []⟩ g ∧
        c.acks = AckView.sent ⟨.synRcvd, nxt, 0, 0, 0, []⟩ g := by
  cases h with
  | active now sock lip lport rip rport iss st =>
    left
    set c := (Conn.start (activeTcb sock lip lport rip rport iss) st).count .tcpActiveOpens with hc
    have hview : c.acks = ⟨.synSent, 0, 0, 0, 0, []⟩ := rfl
    obtain ⟨seq, hsent⟩ := tcpStartSyn_acks now c tcpSyn
    have hno : (tcpSegment c.tcb tcpSyn seq 0 0).has tcpAck = false := by
      rw [tcpSegment_has]
      decide
    rw [AckView.sent_other _ hno, hview] at hsent
    exact ⟨_, hno, hsent⟩
  | passive now l lport iss g st =>
    right
    have hmss (d : Conn) : ((tcpTakeMss d g).setState .synRcvd).acks =
        { d.acks with state := .synRcvd } := by
      unfold tcpTakeMss
      simp only
      split <;> rfl
    set c :=
      (tcpTakeMss ((Conn.start (passiveTcb l lport iss g) st).count .tcpPassiveOpens) g).setState
        .synRcvd with hc
    have hview : c.acks = ⟨.synRcvd, g.seq + 1, 0, 0, 0, []⟩ := (hmss _).trans rfl
    obtain ⟨seq, hsent⟩ := tcpStartSyn_acks now c (tcpSyn ||| tcpAck)
    have hack : (tcpSegment c.tcb (tcpSyn ||| tcpAck) seq 0 0).has tcpAck = true := by
      rw [tcpSegment_has]
      decide
    have hsaid := tcpSegment_says c seq 0 0 hack
    rw [hview] at hsent hsaid
    exact ⟨_, _, hack, hsaid, hsent⟩

end PacketForge
