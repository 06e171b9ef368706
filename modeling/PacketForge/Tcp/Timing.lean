import PacketForge.Tcp.Clock

/-!
The segment a connection times. One data segment at a time is timed, from its
transmission to an acknowledgement that covers it, and a retransmission stops
the timing. What the code does to the fields that keep this is a sequence of a
few moves; only an acknowledgement of something new does more.
-/

namespace PacketForge

def Conn.dataOut (c : Conn) : List Seg := c.out.filter fun g => g.payload ≠ []

def ConnEvent.seg : ConnEvent → Option Seg
  | .segment _ _ g => some g
  | _ => none

/-- What the timing of segments depends on. -/
structure RttView where
  opening : Bool
  una : UInt32
  nxt : UInt32
  timing : Bool
  seq : UInt32
  start : Nat
  data : List Seg

def Conn.rtt (c : Conn) : RttView where
  opening := c.tcb.state = .synSent || c.tcb.state = .synRcvd
  una := c.tcb.sndUna
  nxt := c.tcb.sndNxt
  timing := c.tcb.rttTiming
  seq := c.tcb.rttSeq
  start := c.tcb.rttStartMs
  data := c.dataOut

namespace RttView

/-- `n` new bytes go out as `g`, and are timed unless others are. -/
def sendData (v : RttView) (now : Nat) (g : Seg) (n : UInt32) : RttView :=
  { v with
    nxt := v.nxt + n
    timing := true
    seq := if v.timing then v.seq else v.nxt + n
    start := if v.timing then v.start else now
    data := v.data ++ [g] }

/-- An acknowledgement takes effect; a measurement it completes is taken. -/
def acked (v : RttView) (ack : UInt32) : RttView :=
  { v with una := ack, timing := v.timing && !seqGe ack v.seq }

end RttView

/-- What an event does to the timing but for acknowledgements. -/
inductive RttMove (now : Nat) (v : RttView) : RttView → Prop where
  | data (g : Seg) (n : UInt32) (hopen : v.opening = false) (hseq : g.seq = v.nxt)
      (hlen : g.payload.length = n.toNat) (hpos : 0 < n.toNat)
      (hfit : (v.nxt - v.una).toNat + n.toNat < 2 ^ 32) : RttMove now v (v.sendData now g n)
  | fin (hfit : (v.nxt - v.una).toNat + 1 < 2 ^ 32) : RttMove now v { v with nxt := v.nxt + 1 }
  | probe (g : Seg) (hidle : v.una = v.nxt) (hseq : g.seq = v.nxt) (hlen : g.payload.length = 1) :
      RttMove now v { v with nxt := v.nxt + 1, data := v.data ++ [g] }
  /-- A retransmission is not timed. -/
  | forget : RttMove now v { v with timing := false }
  | resend (g : Seg) (hoff : v.timing = false) (hseq : g.seq = v.una)
      (hlen : g.payload.length ≤ (v.nxt - v.una).toNat) :
      RttMove now v { v with data := v.data ++ [g] }
  | opened : RttMove now v { v with opening := false }

abbrev RttMoves (now : Nat) : RttView → RttView → Prop := Relation.ReflTransGen (RttMove now)

section Moves

variable {now : Nat} {v w : RttView}

theorem RttMove.una (h : RttMove now v w) : w.una = v.una := by
  cases h <;> rfl

theorem RttMoves.una (h : RttMoves now v w) : w.una = v.una := by
  induction h with
  | refl => rfl
  | tail _ hmove ih => exact hmove.una.trans ih

end Moves

/-! ### The timing as the code keeps it -/

/-- The fields of the view that neither the output nor the receive path holds. -/
theorem Conn.rtt_of_noRecv {c d : Conn} (h : d.noRecv = c.noRecv) :
    d.rtt = { c.rtt with data := d.dataOut } := by
  have hview : d.noRecv.rtt = c.noRecv.rtt := congrArg Conn.rtt h
  have hdata (x : Conn) : x.rtt = { x.noRecv.rtt with data := x.dataOut } := rfl
  rw [hdata d, hview]
  rfl

theorem dataOut_onlyCtl {c d : Conn} (h : OnlyCtl c.send d.send) : d.dataOut = c.dataOut := by
  obtain ⟨gs, hview, hgs⟩ := h
  have hout : d.out = c.out ++ gs := congrArg SendView.out hview
  have hnone : gs.filter (fun g => decide (g.payload ≠ [])) = [] := by
    rw [List.filter_eq_nil_iff]
    intro g hg
    simp [(hgs g hg).1]
  rw [Conn.dataOut, hout, List.filter_append, hnone, List.append_nil]
  rfl

theorem Conn.rtt_of_onlyCtl {c d : Conn} (h : OnlyCtl c.send d.send) (heq : d.noRecv = c.noRecv) :
    d.rtt = c.rtt := by
  rw [Conn.rtt_of_noRecv heq, dataOut_onlyCtl h]
  rfl

variable (now : Nat) (c : Conn) (flags : UInt8)

theorem tcpSendCtl_rtt (hfin : flags &&& tcpFin = 0) : (tcpSendCtl c flags).rtt = c.rtt :=
  Conn.rtt_of_onlyCtl (tcpSendCtl_onlyCtl c flags hfin) (tcpSendCtl_noRecv c flags)

theorem tcpArmRto_rtt (t : Tcb) (now : Nat) :
    { c with tcb := tcpArmRto t now }.rtt = { c with tcb := t }.rtt := by
  unfold tcpArmRto
  split <;> rfl

theorem tcpSendSegment_rtt (seq off : UInt32) (n : UInt16) (hpos : n ≠ 0) :
    (tcpSendSegment c flags seq off n).rtt =
      { c.rtt with data := c.dataOut ++ [tcpSegment c.tcb flags seq off n] } := by
  have hout :
      (tcpSendSegment c flags seq off n).out = c.out ++ [tcpSegment c.tcb flags seq off n] :=
    congrArg SendView.out (tcpSendSegment_send c flags seq off n)
  have hne : (tcpSegment c.tcb flags seq off n).payload ≠ [] := by
    intro hnil
    have hlen := tcpSegment_payload_length c.tcb flags seq off n
    rw [hnil] at hlen
    exact hpos (UInt16.toNat_inj.mp hlen.symm)
  rw [Conn.rtt_of_noRecv (tcpSendSegment_noRecv c flags seq off n), Conn.dataOut, hout,
    List.filter_append]
  simp [hne, Conn.dataOut]

theorem tcpSendSegment_rtt_empty (seq off : UInt32) :
    (tcpSendSegment c flags seq off 0).rtt = c.rtt := by
  have hout :
      (tcpSendSegment c flags seq off 0).out = c.out ++ [tcpSegment c.tcb flags seq off 0] :=
    congrArg SendView.out (tcpSendSegment_send c flags seq off 0)
  have hnil : (tcpSegment c.tcb flags seq off 0).payload = [] :=
    List.eq_nil_of_length_eq_zero (tcpSegment_payload_length c.tcb flags seq off 0)
  rw [Conn.rtt_of_noRecv (tcpSendSegment_noRecv c flags seq off 0), Conn.dataOut, hout,
    List.filter_append]
  simp [hnil, Conn.rtt, Conn.dataOut]

/-- The send loop times a chunk unless another segment is being timed. -/
theorem tcpOutputChunk_rtt {chunk : UInt16} (hpos : chunk ≠ 0) :
    (tcpOutputChunk now c chunk).rtt =
      c.rtt.sendData now
        (tcpSegment c.tcb (dataFlags (chunk.toUInt32 == c.tcb.sndLen - tcpDataInFlight c.tcb))
          c.tcb.sndNxt (tcpDataInFlight c.tcb) chunk) chunk.toUInt32 := by
  have hstart (d : Conn) : { d with tcb := rttStart d.tcb now }.rtt =
      { d.rtt with
        timing := true
        seq := if d.rtt.timing then d.rtt.seq else d.rtt.nxt
        start := if d.rtt.timing then d.rtt.start else now } := by
    rw [rttStart_eq]
    rfl
  have hnxt (d : Conn) (n : UInt32) :
      { d with tcb := { d.tcb with sndNxt := d.tcb.sndNxt + n } }.rtt =
        { d.rtt with nxt := d.rtt.nxt + n } := rfl
  simp only [tcpOutputChunk]
  rw [tcpArmRto_rtt, hstart { tcpSendSegment c _ _ _ _ with tcb := _ }, hnxt,
    tcpSendSegment_rtt _ _ _ _ _ hpos]
  rfl

theorem tcpSendFin_rtt : (tcpSendFin now c).rtt = { c.rtt with nxt := c.tcb.sndNxt + 1 } := by
  have hnxt (d : Conn) :
      { d with tcb := { d.tcb with finSent := true, sndNxt := d.tcb.sndNxt + 1 } }.rtt =
        { d.rtt with nxt := d.rtt.nxt + 1 } := rfl
  simp only [tcpSendFin]
  rw [tcpArmRto_rtt, hnxt, tcpSendSegment_rtt_empty]
  rfl

theorem sends_rtt {c : Conn} (h : c.tcb.state.sends = true) : c.rtt.opening = false := by
  cases hst : c.tcb.state <;> rw [hst] at h <;> simp_all [Conn.rtt, TcpState.sends]

theorem tcpOutputChunk_rttMove {c : Conn} {wnd : UInt32} {chunk : UInt16}
    (hst : c.tcb.state.sends = true) (hnext : tcpNextChunk c.tcb wnd = some chunk) :
    RttMove now c.rtt (tcpOutputChunk now c chunk).rtt := by
  obtain ⟨-, hpos, -, -, hfit⟩ := tcpNextChunk_some hnext
  rw [UInt32.lt_iff_toNat_lt, UInt32.toNat_zero] at hpos
  have hne : chunk ≠ 0 := by
    rintro rfl
    exact absurd hpos (by decide)
  have hlt := wnd.toNat_lt
  rw [tcpOutputChunk_rtt now c hne]
  refine RttMove.data _ _ (sends_rtt hst) rfl ?_ hpos ?_
  · rw [tcpSegment_payload_length, UInt16.toNat_toUInt32]
  · rw [UInt16.toNat_toUInt32]
    exact Nat.lt_of_le_of_lt hfit hlt

/-- A retransmission covers nothing that was not in flight. -/
theorem tcpDataInFlight_le (t : Tcb) :
    (tcpDataInFlight t).toNat ≤ (t.sndNxt - t.sndUna).toNat := by
  simp only [tcpDataInFlight]
  split
  · rename_i h
    rw [Bool.and_eq_true, decide_eq_true_eq, gt_iff_lt, UInt32.lt_iff_toNat_lt] at h
    have hone : 1 ≤ t.sndNxt - t.sndUna := UInt32.le_iff_toNat_le.mpr h.2
    rw [UInt32.toNat_sub_of_le _ _ hone]
    exact Nat.sub_le _ _
  · exact Nat.le_refl _

theorem tcpResend_rtt {c : Conn} (hoff : c.rtt.timing = false) :
    RttMoves now c.rtt (tcpResend c).rtt := by
  unfold tcpResend
  split
  · rw [tcpSendCtl_rtt c _ (by decide)]
  split
  · rw [tcpSendCtl_rtt c _ (by decide)]
  split
  · simp only
    set m := (pfMin (tcpDataInFlight c.tcb) c.tcb.mss.toUInt32).toUInt16 with hm
    by_cases hz : m = 0
    · rw [hz, tcpSendSegment_rtt_empty]
    · rw [tcpSendSegment_rtt _ _ _ _ _ hz]
      refine .single (RttMove.resend _ hoff rfl ?_)
      have hle : m.toNat ≤ (pfMin (tcpDataInFlight c.tcb) c.tcb.mss.toUInt32).toNat := by
        rw [hm, UInt32.toNat_toUInt16]
        exact Nat.mod_le _ _
      rw [pfMin_toNat] at hle
      rw [tcpSegment_payload_length]
      exact hle.trans ((Nat.min_le_left _ _).trans (tcpDataInFlight_le c.tcb))
  split
  · rw [tcpSendSegment_rtt_empty]
  · exact .refl

theorem tcpRetransmit_rtt : RttMoves now c.rtt (tcpRetransmit c).rtt := by
  have hoff : { c.count .tcpRtxSegs with tcb := { c.tcb with rttTiming := false } }.rtt =
      { c.rtt with timing := false } := rfl
  refine .head RttMove.forget ?_
  rw [← hoff]
  exact tcpResend_rtt now rfl

theorem tcpProbed_rtt (t : Nat) {c : Conn} (hprobe : wantsProbe c.tcb = true) :
    RttMove now c.rtt (tcpProbed t c).rtt := by
  simp only [wantsProbe, Bool.and_eq_true, decide_eq_true_eq] at hprobe
  have hnxt (d : Conn) :
      { d with tcb := { d.tcb with sndNxt := d.tcb.sndNxt + 1 } }.rtt =
        { d.rtt with nxt := d.rtt.nxt + 1 } := rfl
  simp only [tcpProbed, tcpSendProbe]
  rw [tcpArmRto_rtt, hnxt, tcpSendSegment_rtt _ _ _ _ _ (by decide)]
  exact RttMove.probe _ hprobe.1.2 rfl (tcpSegment_payload_length _ _ _ _ 1)

/-! ### Acknowledgements -/

theorem tcpFinAckedNew_rtt (fin : Bool) (ack : UInt32) (c : Conn)
    (hopen : c.rtt.opening = false) :
    (tcpFinAcked now fin (ackNew now ack c)).rtt = c.rtt.acked ack := by
  obtain ⟨st, srtt, rttvar, rto, rtx, cwnd, dup, dl, timing, heq, -, rfl, -⟩ := ackNew_eq now ack c
  obtain ⟨rto', tw, dl', hfin⟩ := tcpFinAcked_eq now fin (ackNew now ack c)
  have hview : { c.rtt with opening := false } = c.rtt := by rw [← hopen]
  rw [hfin, heq, ← hview]
  have hclosed : (ackedState fin c.tcb.state = .synSent || ackedState fin c.tcb.state = .synRcvd) =
      false := by
    cases hst : c.tcb.state <;> cases fin <;> simp_all [Conn.rtt, ackedState]
  have hstate : (ackRing c.tcb ack).state = c.tcb.state := rfl
  simp only [Conn.rtt, RttView.acked, hstate, hclosed]
  rfl

theorem tcpTakeSyn_rtt (g : Seg) (c : Conn) : (tcpTakeSyn g c).rtt = c.rtt := by
  unfold tcpTakeSyn tcpTakeMss
  simp only
  split <;> rfl

theorem tcpTakeFin_rtt (finSeq : UInt32) (c : Conn) : (tcpTakeFin now finSeq c).rtt = c.rtt := by
  have hack : (tcpSendCtl (consumeFin finSeq c) tcpAck).rtt = c.rtt :=
    tcpSendCtl_rtt (consumeFin finSeq c) _ (by decide)
  have hstate (d : Conn) : { d with tcb := tcpFinState now d.tcb }.rtt = d.rtt := by
    unfold tcpFinState
    cases hst : d.tcb.state <;> simp [Conn.rtt, Conn.dataOut, tcpEnterTimewait, hst]
  exact (hstate _).trans hack

/-- An acknowledgement that establishes the connection. Nothing was timed
before. -/
theorem tcpEstablish_rtt {c : Conn} {ack : UInt32} (g : Seg) (hoff : c.rtt.timing = false) :
    (tcpEstablish (c.setUna ack) g).rtt = { c.rtt.acked ack with opening := false } := by
  have hoff' : c.tcb.rttTiming = false := hoff
  simp [tcpEstablish, tcpCwndInit, RttView.acked, Conn.rtt, Conn.dataOut, Conn.setUna, Conn.count,
    hoff']

/-- The timing an action leaves behind. -/
inductive RttStage (now : Nat) (e : ConnEvent) (c d : Conn) : Prop where
  | quiet (hmoves : RttMoves now c.rtt d.rtt) : RttStage now e c d
  | acked (g : Seg) (hg : e.seg = some g) (hout : c.out = [])
      (hne : g.ack ≠ c.tcb.sndUna)
      (hle : (g.ack - c.tcb.sndUna).toNat ≤ (c.tcb.sndNxt - c.tcb.sndUna).toNat)
      (hmoves : RttMoves now (c.rtt.acked g.ack) d.rtt) : RttStage now e c d

theorem Quiet.rtt {e : ConnEvent} {c d : Conn} (h : Quiet e c d) (hf : Flight c.send)
    (hopen : c.rtt.opening = true → c.rtt.timing = false) (now : Nat) : RttStage now e c d := by
  have hsame (h : d.rtt = c.rtt) : RttStage now e c d := by
    refine .quiet ?_
    rw [h]
  -- the SYN is acknowledged
  have hest {g : Seg} (hg : e.seg = some g) (hout : c.out = [])
      (hst : c.tcb.state = .synSent ∨ c.tcb.state = .synRcvd) (hnxt : g.ack = c.tcb.sndNxt)
      (hview : d.rtt = { c.rtt.acked g.ack with opening := false }) : RttStage now e c d := by
    refine .acked g hg hout ?_ (by rw [hnxt]) ?_
    · rw [hnxt]
      exact fun heq => hf.opening_busy hst heq.symm
    · rw [hview]
      exact .single RttMove.opened
  cases h with
  | heard h => exact hsame (Conn.rtt_of_onlyCtl h.onlyCtl h.noRecv)
  | opened t lroom g hout hst hlo hhi =>
    have hview := tcpTakeSyn_rtt g c
    have hoff : c.rtt.timing = false := hopen (by simp [Conn.rtt, hst])
    refine hest rfl hout (Or.inl hst) (hf.opened_ack hst hlo hhi) ?_
    rw [tcpSendCtl_rtt _ _ (by decide), tcpEstablish_rtt g (hview ▸ hoff), hview]
  | crossed t lroom g hst =>
    refine hsame ?_
    have hset : ((tcpTakeSyn g c).setState .synRcvd).rtt = c.rtt := by
      have hview : { c.rtt with opening := true } = c.rtt := by simp [Conn.rtt, hst]
      rw [← hview, ← tcpTakeSyn_rtt g c]
      rfl
    simp only [tcpSimultaneousOpen]
    rw [tcpArmRto_rtt]
    exact (tcpSendCtl_rtt _ _ (by decide)).trans hset
  | answered t lroom g queued hout hst hlo hhi =>
    have hoff : c.rtt.timing = false := hopen (by simp [Conn.rtt, hst])
    exact hest rfl hout (Or.inr hst) (hf.answered_ack hst hlo hhi) (tcpEstablish_rtt g hoff)
  | rxFin t lroom g hfin => exact hsame (tcpTakeFin_rtt t _ c)
  | probe t hprobe => exact .quiet (.single (tcpProbed_rtt now t hprobe))
  | nodelay on => exact hsame rfl
  | attach sock => exact hsame rfl

theorem Act.rtt {e : ConnEvent} {c d : Conn} (h : Act e c d) (hf : Flight c.send)
    (hopen : c.rtt.opening = true → c.rtt.timing = false) {now : Nat}
    (hnow : ∀ t, e.time = some t → t = now) : RttStage now e c d := by
  have hsame (h : d.rtt = c.rtt) : RttStage now e c d := by
    refine .quiet ?_
    rw [h]
  cases h with
  | quiet h => exact h.rtt hf hopen now
  | tune | window | backoff | rearm => exact hsame rfl
  | chunk t wnd chunk ht hst hwnd hnext =>
    obtain rfl := hnow t ht
    exact .quiet (.single (tcpOutputChunk_rttMove t hst hnext))
  | fin t =>
    refine .quiet (.single ?_)
    rw [tcpSendFin_rtt]
    exact RttMove.fin (Nat.lt_of_le_of_lt (Nat.succ_le_of_lt hf.lt) (by decide))
  | resend => exact .quiet (tcpRetransmit_rtt now c)
  | acked t lroom g hsync hout hgt hle hlast =>
    have hopen : c.rtt.opening = false := by simp [Conn.rtt, hsync.1, hsync.2]
    have hne : g.ack ≠ c.tcb.sndUna := by
      intro heq
      rw [heq, seqGt_iff, UInt32.sub_self] at hgt
      exact absurd hgt.1 (by decide)
    refine .acked g rfl hout hne (hf.ack_le hgt hle) ?_
    rw [tcpFinAckedNew_rtt t _ _ _ hopen]
  | append t data =>
    have hview (xs : List UInt8) : (sndAppend xs c).rtt = c.rtt := rfl
    exact hsame (hview _)
  | close t st hout hst =>
    have hview : (queueFin st c).rtt = { c.rtt with opening := false } := by
      rcases hst.target with rfl | rfl <;> rfl
    refine .quiet (.single ?_)
    rw [hview]
    exact RttMove.opened

theorem Opened.rttTiming {c : Conn} (h : Opened c) : c.tcb.rttTiming = false := by
  have hstart (now : Nat) (flags : UInt8) (hfin : flags &&& tcpFin = 0) (d : Conn) :
      (tcpStartSyn now flags d).tcb.rttTiming = d.tcb.rttTiming := by
    have hview : (tcpStartSyn now flags d).rtt = d.rtt := by
      simp only [tcpStartSyn]
      rw [tcpArmRto_rtt]
      exact tcpSendCtl_rtt d flags hfin
    exact congrArg RttView.timing hview
  cases h with
  | active now sock lip lport rip rport iss st => exact hstart now tcpSyn (by decide) _
  | passive now l lport iss g st =>
    have hmss (d : Conn) : (tcpTakeMss d g).tcb.rttTiming = d.tcb.rttTiming := by
      unfold tcpTakeMss
      simp only
      split <;> rfl
    exact (hstart now (tcpSyn ||| tcpAck) (by decide) _).trans (hmss _)

end PacketForge
