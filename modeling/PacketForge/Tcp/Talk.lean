import PacketForge.Tcp.Landing
import PacketForge.Tcp.Timing
import PacketForge.Tcp.Trimming

/-!
Where the segments of a connection lie. Every segment a connection emits starts
at or after `snd_una` and ends at or before `snd_nxt`, and what is new starts at
`snd_nxt`; one without text, SYN and FIN stands there; and what it acknowledges is
`rcv_nxt` at that moment. In
the middle of an event `snd_una` moves only before anything was emitted, and
`rcv_nxt` only forward, by no more than the ring has room for.
-/

namespace PacketForge

/-- A segment without text whose only flag is ACK. -/
def Seg.PureAck (g : Seg) : Prop := g.flags = tcpAck ∧ g.payload = []

instance (g : Seg) : Decidable g.PureAck := inferInstanceAs (Decidable (_ ∧ _))

/-- How far `rcv_nxt` can still move before the application reads: over text, a
FIN and the peer's SYN. -/
def Tcb.room (t : Tcb) : Nat :=
  (65535 - t.rcvLen.toNat) + (!t.state.pastFin).toNat + (decide (t.state = .synSent)).toNat

/-- What the numbers in the segments depend on. -/
structure TalkView where
  state : TcpState
  iss : UInt32
  una : UInt32
  nxt : UInt32
  rcv : UInt32
  room : Nat
  out : List Seg

def Conn.talk (c : Conn) : TalkView where
  state := c.tcb.state
  iss := c.tcb.iss
  una := c.tcb.sndUna
  nxt := c.tcb.sndNxt
  rcv := c.tcb.rcvNxt
  room := c.tcb.room
  out := c.out

/-- The connection may emit `g`, which takes `n` new sequence numbers. -/
structure TalkView.Says (v : TalkView) (g : Seg) (n : UInt32) : Prop where
  rst : g.has tcpRst = false
  fit : (v.nxt - v.una).toNat + n.toNat ≤ 65536
  span : n = 0 ∧ (g.seq - v.una).toNat + g.span ≤ (v.nxt - v.una).toNat ∨
    g.seq = v.nxt ∧ g.span = n.toNat
  pure : g.PureAck → g.seq = v.nxt
  flag : g.has tcpAck = true ∨ g.has tcpSyn = true
  ack : g.has tcpAck = true → v.state ≠ .synSent ∧ g.ack = v.rcv
  syn : g.has tcpSyn = true →
    (v.state = .synSent ∨ v.state = .synRcvd) ∧ g.seq = v.iss ∧ g.span = 1

/-- What a connection does between the arrivals of an event. -/
inductive TalkMove (v : TalkView) : TalkView → Prop where
  | say (g : Seg) (n : UInt32) (h : v.Says g n) :
      TalkMove v { v with nxt := v.nxt + n, out := v.out ++ [g] }
  | reset (g : Seg) (hrst : g.has tcpRst = true) (hsyn : g.has tcpSyn = false) :
      TalkMove v { v with out := v.out ++ [g] }
  | state (st : TcpState) (hst : v.state ≠ .synSent) (hst' : st ≠ .synSent ∧ st ≠ .synRcvd) :
      TalkMove v { v with state := st }

abbrev TalkMoves : TalkView → TalkView → Prop := Relation.ReflTransGen TalkMove

theorem TalkMoves.of_eq {v w : TalkView} (h : w = v) : TalkMoves v w := h ▸ .refl

/-! ### Transmission -/

section Transmission

variable {c : Conn}

theorem tcpSegment_span (t : Tcb) (flags : UInt8) (seq off : UInt32) (n : UInt16) :
    (tcpSegment t flags seq off n).span =
      n.toNat + (flags &&& tcpSyn != 0).toNat + (flags &&& tcpFin != 0).toNat := by
  rw [Seg.span, tcpSegment_payload_length, tcpSegment_has, tcpSegment_has]

theorem tcpSendSegment_talk (c : Conn) (flags : UInt8) (seq off : UInt32) (n : UInt16) :
    (tcpSendSegment c flags seq off n).talk =
      { c.talk with out := c.out ++ [tcpSegment c.tcb flags seq off n] } := by
  obtain ⟨st, pend, dl, adv, heq⟩ := tcpSendSegment_eq c flags seq off n
  rw [heq]
  rfl

theorem tcpArmRto_talk (c : Conn) (t : Tcb) (now : Nat) :
    { c with tcb := tcpArmRto t now }.talk = { c with tcb := t }.talk := by
  rw [tcpArmRto_eq]
  rfl

variable {flags : UInt8} (now : Nat)

/-- A segment that `tcp_send_segment` builds, by its flags and its length. -/
theorem tcpSegment_talks {seq off n : UInt32} {len : UInt16}
    (hrst : (flags &&& tcpRst != 0) = false)
    (hfit : (c.tcb.sndNxt - c.tcb.sndUna).toNat + n.toNat ≤ 65536) {size : Nat}
    (hsize : size = len.toNat + (flags &&& tcpSyn != 0).toNat + (flags &&& tcpFin != 0).toNat)
    (hspan : n = 0 ∧ (seq - c.tcb.sndUna).toNat + size ≤ (c.tcb.sndNxt - c.tcb.sndUna).toNat ∨
      seq = c.tcb.sndNxt ∧ size = n.toNat)
    (hpure : flags = tcpAck → len = 0 → seq = c.tcb.sndNxt)
    (hflag : (flags &&& tcpAck != 0) = true ∨ (flags &&& tcpSyn != 0) = true)
    (hack : (flags &&& tcpAck != 0) = true → c.tcb.state ≠ .synSent)
    (hsyn : (flags &&& tcpSyn != 0) = true →
      (c.tcb.state = .synSent ∨ c.tcb.state = .synRcvd) ∧ seq = c.tcb.iss ∧ size = 1) :
    c.talk.Says (tcpSegment c.tcb flags seq off len) n := by
  have hlen : (tcpSegment c.tcb flags seq off len).span = size := by
    rw [tcpSegment_span, hsize]
  refine ⟨hrst, hfit, hlen ▸ hspan, ?_, hflag, ?_, hlen ▸ hsyn⟩
  · rintro ⟨hflags, hnil⟩
    refine hpure hflags (UInt16.toNat_inj.mp ?_)
    rw [← tcpSegment_payload_length c.tcb flags seq off len, hnil]
    rfl
  · intro h
    exact ⟨hack h, if_pos h⟩

theorem tcpSendSegment_talkMove {seq off : UInt32} {len : UInt16}
    (h : c.talk.Says (tcpSegment c.tcb flags seq off len) 0) :
    TalkMove c.talk (tcpSendSegment c flags seq off len).talk := by
  rw [tcpSendSegment_talk]
  have hmove := TalkMove.say _ _ h
  rw [UInt32.add_zero] at hmove
  exact hmove

theorem tcpSendCtl_ack_talk (hf : Flight c.send) (hst : c.tcb.state ≠ .synSent) :
    TalkMove c.talk (tcpSendCtl c tcpAck).talk := by
  have hlt : (c.tcb.sndNxt - c.tcb.sndUna).toNat < 65537 := hf.lt
  exact tcpSendSegment_talkMove (tcpSegment_talks (by decide) (Nat.le_of_lt_succ hlt) rfl
    (Or.inl ⟨rfl, Nat.le_refl _⟩) (fun _ _ => rfl) (Or.inl (by decide)) (fun _ => hst)
    (fun h => absurd h (by decide)))

theorem tcpSendCtl_syn_talk (hflags : flags = tcpSyn ∨ flags = tcpSyn ||| tcpAck)
    (hf : Flight c.send) (hst : c.tcb.state = .synSent ∨ c.tcb.state = .synRcvd)
    (hack : flags = tcpSyn ||| tcpAck → c.tcb.state = .synRcvd) :
    TalkMove c.talk (tcpSendCtl c flags).talk := by
  have hbits : (flags &&& tcpSyn != 0) = true ∧ (flags &&& tcpRst != 0) = false ∧
      (flags &&& tcpFin != 0) = false ∧ flags ≠ tcpAck := by
    rcases hflags with rfl | rfl <;> decide
  obtain ⟨hsyn, hrst, hfin, hne⟩ := hbits
  have hopen : c.tcb.sndUna = c.tcb.iss ∧ c.tcb.sndNxt = c.tcb.iss + 1 :=
    ⟨(hf.opening hst).1, (hf.opening hst).2.1⟩
  have hone : (c.tcb.sndNxt - c.tcb.sndUna).toNat = 1 := by
    have hsub : c.tcb.iss + 1 - c.tcb.iss = 1 := by grind
    rw [hopen.1, hopen.2, hsub]
    rfl
  have heq : tcpSendCtl c flags = tcpSendSegment c flags c.tcb.iss 0 0 := by
    simp [tcpSendCtl, hsyn, hrst]
  rw [heq]
  refine tcpSendSegment_talkMove (tcpSegment_talks hrst ?_ ?_ (Or.inl ⟨rfl, ?_⟩)
    (fun h => absurd h hne) (Or.inr hsyn) ?_ (fun _ => ⟨hst, rfl, rfl⟩))
  · rw [hone]
    decide
  · rw [hsyn, hfin]
    rfl
  · rw [hone, hopen.1, UInt32.sub_self]
    decide
  · intro h
    have hrcvd : c.tcb.state = .synRcvd := by
      rcases hflags with rfl | rfl
      · exact absurd h (by decide)
      · exact hack rfl
    rw [hrcvd]
    exact TcpState.noConfusion

theorem tcpOutputChunk_talk (c : Conn) (chunk : UInt16) :
    (tcpOutputChunk now c chunk).talk =
      { c.talk with
        nxt := c.tcb.sndNxt + chunk.toUInt32
        out := c.out ++
          [tcpSegment c.tcb (dataFlags (chunk.toUInt32 == c.tcb.sndLen - tcpDataInFlight c.tcb))
            c.tcb.sndNxt (tcpDataInFlight c.tcb) chunk] } := by
  obtain ⟨st, pend, dl, adv, heq⟩ := tcpOutputChunk_eq now c chunk
  rw [heq]
  rfl

theorem tcpSendFin_talk (c : Conn) :
    (tcpSendFin now c).talk =
      { c.talk with
        nxt := c.tcb.sndNxt + 1
        out := c.out ++ [tcpSegment c.tcb (tcpFin ||| tcpAck) c.tcb.sndNxt 0 0] } := by
  have hnxt (d : Conn) :
      { d with tcb := { d.tcb with finSent := true, sndNxt := d.tcb.sndNxt + 1 } }.talk =
        { d.talk with nxt := d.talk.nxt + 1 } := rfl
  simp only [tcpSendFin]
  rw [tcpArmRto_talk, hnxt, tcpSendSegment_talk]
  rfl

theorem dataFlags_bits (b : Bool) : (dataFlags b &&& tcpSyn != 0) = false ∧
    (dataFlags b &&& tcpFin != 0) = false ∧ (dataFlags b &&& tcpRst != 0) = false ∧
    (dataFlags b &&& tcpAck != 0) = true := by
  cases b <;> decide

/-- Text from `snd_una` on, or from `snd_nxt`. -/
theorem data_talks {b : Bool} {seq off n : UInt32} {len : UInt16} (hst : c.tcb.state ≠ .synSent)
    (hpos : len ≠ 0) (hfit : (c.tcb.sndNxt - c.tcb.sndUna).toNat + n.toNat ≤ 65536)
    (hspan : n = 0 ∧ (seq - c.tcb.sndUna).toNat + len.toNat ≤ (c.tcb.sndNxt - c.tcb.sndUna).toNat ∨
      seq = c.tcb.sndNxt ∧ len.toNat = n.toNat) :
    c.talk.Says (tcpSegment c.tcb (dataFlags b) seq off len) n := by
  obtain ⟨hsyn, hfin, hrst, hack⟩ := dataFlags_bits b
  refine tcpSegment_talks hrst hfit ?_ hspan (fun _ h => absurd h hpos) (Or.inl hack)
    (fun _ => hst) ?_
  · rw [hsyn, hfin]
    rfl
  · intro h
    exact absurd (hsyn.symm.trans h) (by decide)

theorem tcpOutputChunk_talkMove {wnd : UInt32} {chunk : UInt16} (hst : c.tcb.state.sends = true)
    (hwnd : wnd.toNat ≤ 65535) (hnext : tcpNextChunk c.tcb wnd = some chunk) :
    TalkMove c.talk (tcpOutputChunk now c chunk).talk := by
  obtain ⟨-, hpos, -, -, hfit⟩ := tcpNextChunk_some hnext
  have hne : chunk ≠ 0 := by
    rintro rfl
    exact absurd hpos (by decide)
  have hcast : chunk.toUInt32.toNat = chunk.toNat := UInt16.toNat_toUInt32 _
  rw [tcpOutputChunk_talk]
  exact TalkMove.say _ _ (data_talks (TcpState.sends_started hst) hne (by omega)
    (Or.inr ⟨rfl, hcast.symm⟩))

theorem tcpSendFin_talkMove (hst : c.tcb.state.sends = true)
    (hlen : (c.tcb.sndNxt - c.tcb.sndUna).toNat ≤ 65535) :
    TalkMove c.talk (tcpSendFin now c).talk := by
  rw [tcpSendFin_talk]
  exact TalkMove.say _ 1 (tcpSegment_talks (by decide) (Nat.succ_le_succ hlen) rfl
    (Or.inr ⟨rfl, rfl⟩) (fun h => absurd h (by decide)) (Or.inl (by decide))
    (fun _ => TcpState.sends_started hst) (fun h => absurd h (by decide)))

/-- Whoever retransmits puts nothing new in flight. -/
theorem tcpResend_talk (hf : Flight c.send) (hmss : c.tcb.mss ≠ 0) :
    TalkMoves c.talk (tcpResend c).talk := by
  have hlt : (c.tcb.sndNxt - c.tcb.sndUna).toNat < 65537 := hf.lt
  have hfit := Nat.le_of_lt_succ hlt
  have hself : (c.tcb.sndUna - c.tcb.sndUna).toNat = 0 := by
    rw [UInt32.sub_self]
    rfl
  unfold tcpResend
  split
  · rename_i hst
    exact .single
      (tcpSendCtl_syn_talk (Or.inl rfl) hf (Or.inl hst) (fun h => absurd h (by decide)))
  rename_i hsent
  split
  · rename_i hst
    exact .single
      (tcpSendCtl_syn_talk (Or.inr rfl) hf (Or.inr hst) (fun _ => hst))
  split
  · rename_i hdata
    set m := (pfMin (tcpDataInFlight c.tcb) c.tcb.mss.toUInt32).toUInt16 with hm
    have hlen : m.toNat = min (tcpDataInFlight c.tcb).toNat c.tcb.mss.toNat := by
      have hmax := c.tcb.mss.toNat_lt
      rw [hm, UInt32.toNat_toUInt16, pfMin_toNat, UInt16.toNat_toUInt32]
      exact Nat.mod_eq_of_lt (by omega)
    have hpos : m ≠ 0 := by
      intro hz
      have hz' : m.toNat = 0 := by
        rw [hz]
        rfl
      have hd : 0 < (tcpDataInFlight c.tcb).toNat := UInt32.lt_iff_toNat_lt.mp hdata
      have hmss' : c.tcb.mss.toNat ≠ 0 := fun h => hmss (UInt16.toNat_inj.mp h)
      omega
    have hflight := tcpDataInFlight_le c.tcb
    refine .single (tcpSendSegment_talkMove (data_talks hsent hpos hfit (Or.inl ⟨rfl, ?_⟩)))
    rw [hself]
    omega
  split
  · rename_i hfin
    rw [Bool.and_eq_true, seqLt_iff_rev] at hfin
    refine .single (tcpSendSegment_talkMove (tcpSegment_talks (by decide) hfit rfl
      (Or.inl ⟨rfl, ?_⟩) (fun h => absurd h (by decide)) (Or.inl (by decide)) (fun _ => hsent)
      (fun h => absurd h (by decide))))
    rw [hself]
    exact hfin.2.1
  · exact .refl

theorem tcpRetransmit_talk (hf : Flight c.send) (hmss : c.tcb.mss ≠ 0) :
    TalkMoves c.talk (tcpRetransmit c).talk :=
  tcpResend_talk
    (c := { c.count .tcpRtxSegs with tcb := { c.tcb with rttTiming := false } }) hf hmss

theorem tcpProbed_talk (hprobe : wantsProbe c.tcb = true) :
    TalkMove c.talk (tcpProbed now c).talk := by
  simp only [wantsProbe, Bool.and_eq_true, decide_eq_true_eq] at hprobe
  obtain ⟨⟨-, hidle⟩, hst⟩ := hprobe
  have hzero : (c.tcb.sndNxt - c.tcb.sndUna).toNat = 0 := by
    rw [hidle, UInt32.sub_self]
    rfl
  have hnxt (d : Conn) :
      { d with tcb := { d.tcb with sndNxt := d.tcb.sndNxt + 1 } }.talk =
        { d.talk with nxt := d.talk.nxt + 1 } := rfl
  simp only [tcpProbed, tcpSendProbe]
  rw [tcpArmRto_talk, hnxt, tcpSendSegment_talk]
  refine TalkMove.say _ 1 (data_talks (b := false) (TcpState.sends_started hst) (by decide) ?_
    (Or.inr ⟨rfl, rfl⟩))
  rw [hzero]
  decide

theorem tcpResetFor_bits {g r : Seg} (h : tcpResetFor g = some r) :
    r.has tcpRst = true ∧ r.has tcpSyn = false := by
  unfold tcpResetFor at h
  split at h
  · cases h
  · cases h
    have hbits (b : Bool) :
        ((if b then tcpRst else tcpRst ||| tcpAck) &&& tcpRst != 0) = true ∧
          ((if b then tcpRst else tcpRst ||| tcpAck) &&& tcpSyn != 0) = false := by
      cases b <;> decide
    exact hbits (g.has tcpAck)

theorem tcpSendResetFor_talk (g : Seg) : TalkMoves c.talk (tcpSendResetFor c g).talk := by
  unfold tcpSendResetFor
  split
  · exact .refl
  · rename_i r hr
    have hbits := tcpResetFor_bits hr
    exact .single (TalkMove.reset r hbits.1 hbits.2)

end Transmission

/-! ### Arrivals -/

section Arrivals

variable {c : Conn}

theorem Conn.talk_of_noRecv {c d : Conn} (h : d.noRecv = c.noRecv) :
    d.talk = { c.talk with rcv := d.tcb.rcvNxt, room := d.tcb.room, out := d.out } := by
  have hview : d.noRecv.talk = c.noRecv.talk := congrArg Conn.talk h
  have hrest (x : Conn) : x.talk =
      { x.noRecv.talk with rcv := x.tcb.rcvNxt, room := x.tcb.room, out := x.out } := rfl
  rw [hrest d, hview]
  rfl

theorem Tcb.room_eq {t : Tcb} (hst : t.state ≠ .synSent) :
    t.room = (65535 - t.rcvLen.toNat) + (!t.state.pastFin).toNat := by
  rw [Tcb.room, decide_eq_false hst]
  rfl

/-- The room depends on the state only through the peer's SYN and FIN. -/
theorem Conn.talk_state {c : Conn} {st : TcpState} (hst : c.tcb.state ≠ .synSent)
    (hst' : st ≠ .synSent) (hpast : st.pastFin = c.tcb.state.pastFin) {d : Conn}
    (hd : d.talk = { c with tcb := { c.tcb with state := st } }.talk) :
    d.talk = { c.talk with state := st } := by
  have hroom : ({ c.tcb with state := st } : Tcb).room = c.tcb.room := by
    rw [Tcb.room_eq hst, Tcb.room_eq (t := { c.tcb with state := st }) hst']
    exact congrArg (fun b : Bool => 65535 - c.tcb.rcvLen.toNat + (!b).toNat) hpast
  rw [hd]
  exact congrArg (fun r => { c.talk with state := st, room := r }) hroom

theorem tcpFinAckedNew_talk (now : Nat) (fin : Bool) (ack : UInt32) (hsync : Synced c.tcb) :
    (tcpFinAcked now fin (ackNew now ack c)).talk =
      { c.talk with una := ack, state := ackedState fin c.tcb.state } := by
  obtain ⟨st, srtt, rttvar, rto, rtx, cwnd, dup, dl, timing, heq, -⟩ := ackNew_eq now ack c
  obtain ⟨rto', tw, dl', hfin⟩ := tcpFinAcked_eq now fin (ackNew now ack c)
  refine Conn.talk_state (c := c.setUna ack) hsync.1 (ackedState_sync hsync).1
    (ackedState_pastFin fin c.tcb.state) ?_
  rw [hfin, heq]
  rfl

/-- The peer's SYN uses up the room kept for it. -/
theorem tcpTakeSyn_talk (g : Seg) {st : TcpState} (hst : c.tcb.state = .synSent)
    (hst' : st = .established ∨ st = .synRcvd) :
    ∃ room, room + 1 = c.tcb.room ∧
      ((tcpTakeSyn g c).setState st).talk =
        { c.talk with state := st, rcv := g.seq + 1, room := room } := by
  have hview : ((tcpTakeSyn g c).setState st).talk =
      { c with tcb := { c.tcb with rcvNxt := g.seq + 1, state := st } }.talk := by
    unfold tcpTakeSyn tcpTakeMss
    simp only
    split <;> rfl
  refine ⟨_, ?_, hview⟩
  have hold : c.tcb.room = 65535 - c.tcb.rcvLen.toNat + 1 + 1 := by
    rw [Tcb.room, hst]
    rfl
  rw [hold]
  rcases hst' with rfl | rfl <;> rfl

/-- In-order text takes as much room as it moves `rcv_nxt`. -/
theorem text_talk {data : List UInt8} (hst : c.tcb.state.takesData = true)
    (hlen : c.tcb.rcvLen.toNat ≤ 65535) (hpos : data ≠ [])
    (hfit : data.length ≤ (tcpRcvWindow c.tcb).toNat) :
    ∃ (k : UInt32) (room : Nat), k.toNat + room ≤ c.tcb.room ∧
      (tcpOooDrain (rcvAppend c data)).talk =
        { c.talk with rcv := c.tcb.rcvNxt + k, room := room } := by
  obtain ⟨k, hview, hk⟩ := text_acks c hpos hfit
  obtain ⟨-, hroom⟩ := hk hlen
  set d := tcpOooDrain (rcvAppend c data) with hd
  have hsame : d.noRecv = c.noRecv := by
    rw [hd, tcpOooDrain, oooDrainLoop_noRecv, rcvAppend_noRecv]
  have hstate : d.tcb.state = c.tcb.state := congrArg AckView.state hview
  have hnxt : d.tcb.rcvNxt = c.tcb.rcvNxt + k := congrArg AckView.nxt hview
  have hdlen : d.tcb.rcvLen = c.tcb.rcvLen + k := congrArg AckView.len hview
  have hout : d.out = c.out := congrArg AckView.out hview
  refine ⟨k, d.tcb.room, ?_, ?_⟩
  · have hsent := (takesData_sync hst).1
    rw [Tcb.room_eq hsent, Tcb.room_eq (hstate ▸ hsent), hstate, hdlen, UInt32.toNat_add]
    change c.tcb.rcvLen.toNat + k.toNat ≤ 65535 at hroom
    rw [Nat.mod_eq_of_lt (by omega)]
    omega
  · rw [Conn.talk_of_noRecv hsame, hnxt, hout]
    rfl

theorem tcpDelayAck_talk (now : Nat) (hf : Flight c.send) (hst : c.tcb.state ≠ .synSent) :
    TalkMoves c.talk (tcpDelayAck c now).talk := by
  simp only [tcpDelayAck]
  split
  · exact .single (tcpSendCtl_ack_talk
      (c := { c with tcb := { c.tcb with delackPending := c.tcb.delackPending + 1 } }) hf hst)
  split
  · exact .refl
  · exact .refl

theorem tcpFinState_talk (now : Nat) (c : Conn)
    (hst : c.tcb.state.takesData = true ∨ c.tcb.state = .timeWait) :
    { c with tcb := tcpFinState now c.tcb }.talk =
      { c.talk with state := rxFinState c.tcb.state, room := 65535 - c.tcb.rcvLen.toNat } := by
  have hstate (t : Tcb) (hsame : t.rcvLen = c.tcb.rcvLen) (hpast : t.state.pastFin = true) :
      t.room = 65535 - c.tcb.rcvLen.toNat := by
    have hsent : t.state ≠ .synSent := by
      intro h
      rw [h] at hpast
      cases hpast
    rw [Tcb.room_eq hsent, hpast, hsame]
    rfl
  have hview (t : Tcb) (hiss : t.iss = c.tcb.iss) (huna : t.sndUna = c.tcb.sndUna)
      (hnxt : t.sndNxt = c.tcb.sndNxt) (hrcv : t.rcvNxt = c.tcb.rcvNxt)
      (hlen : t.rcvLen = c.tcb.rcvLen) (hpast : t.state.pastFin = true) :
      { c with tcb := t }.talk =
        { c.talk with state := t.state, room := 65535 - c.tcb.rcvLen.toNat } := by
    simp only [Conn.talk, hiss, huna, hnxt, hrcv, hstate t hlen hpast]
  unfold tcpFinState
  cases hcase : c.tcb.state <;> rw [hcase] at hst
  case established => exact hview _ rfl rfl rfl rfl rfl rfl
  case finWait1 => exact hview _ rfl rfl rfl rfl rfl rfl
  case finWait2 => exact hview _ rfl rfl rfl rfl rfl rfl
  case timeWait => exact hview _ rfl rfl rfl rfl rfl rfl
  all_goals rcases hst with h | h <;> cases h

theorem TalkMove.setRoom {v w : TalkView} (h : TalkMove v w) (r : Nat) :
    TalkMove { v with room := r } { w with room := r } := by
  cases h with
  | say g n h => exact .say g n ⟨h.rst, h.fit, h.span, h.pure, h.flag, h.ack, h.syn⟩
  | reset g hrst hsyn => exact .reset g hrst hsyn
  | state st hst hst' => exact .state st hst hst'

/-- The peer's FIN takes the room kept for it, unless it was taken before. -/
theorem tcpTakeFin_talk (now : Nat) {g : Seg} (hf : Flight c.send)
    (hfin : finInOrder c.tcb g = true) :
    c.tcb.state ≠ .synSent ∧ ∃ (k : UInt32) (room : Nat), k.toNat + room ≤ c.tcb.room ∧
      TalkMoves { c.talk with rcv := c.tcb.rcvNxt + k, room := room }
        (tcpTakeFin now (g.seq + g.paylen) c).talk := by
  simp only [finInOrder, Bool.and_eq_true, Bool.or_eq_true, decide_eq_true_eq] at hfin
  obtain ⟨⟨-, hat⟩, hst⟩ := hfin
  have hsent : c.tcb.state ≠ .synSent := by
    rintro h
    rw [h] at hst
    rcases hst with h | h <;> cases h
  have hto : rxFinState c.tcb.state ≠ .synSent ∧ rxFinState c.tcb.state ≠ .synRcvd := by
    rcases hst with h | h
    · exact rxFinState_sync (takesData_sync h)
    · rw [h]
      exact ⟨TcpState.noConfusion, TcpState.noConfusion⟩
  set x := consumeFin (g.seq + g.paylen) c with hx
  set y := tcpSendCtl x tcpAck with hy
  have hsay : TalkMove x.talk y.talk := tcpSendCtl_ack_talk hf hsent
  have hsame : y.noRecv = x.noRecv := tcpSendCtl_noRecv x tcpAck
  have hystate : y.noRecv.tcb.state = x.noRecv.tcb.state := by rw [hsame]
  change y.tcb.state = c.tcb.state at hystate
  have hyrecv : y.recv = x.recv := tcpSendCtl_recv x tcpAck
  have hylen : y.tcb.rcvLen = c.tcb.rcvLen := congrArg RecvView.len hyrecv
  have hend : (tcpTakeFin now (g.seq + g.paylen) c).talk =
      { y.talk with state := rxFinState c.tcb.state, room := 65535 - c.tcb.rcvLen.toNat } := by
    rw [← hystate, ← hylen]
    exact tcpFinState_talk now y (hystate ▸ hst)
  refine ⟨hsent, if c.tcb.state = .timeWait then 0 else 1, 65535 - c.tcb.rcvLen.toNat, ?_, ?_⟩
  · rw [Tcb.room_eq hsent]
    split
    · exact Nat.le_trans (Nat.le_of_eq (Nat.zero_add _)) (Nat.le_add_right _ _)
    · rename_i hno
      rw [TcpState.takesData_pastFin (hst.resolve_right hno)]
      exact Nat.le_of_eq (Nat.add_comm _ _)
  · have hrcv : x.tcb.rcvNxt = c.tcb.rcvNxt + if c.tcb.state = .timeWait then 0 else 1 := by
      rw [hx, consumeFin]
      by_cases h : c.tcb.state = .timeWait
      · simp [h]
      · simp [h, hat]
    have hstart : { x.talk with room := 65535 - c.tcb.rcvLen.toNat } =
        { c.talk with
          rcv := c.tcb.rcvNxt + if c.tcb.state = .timeWait then 0 else 1
          room := 65535 - c.tcb.rcvLen.toNat } := by
      rw [← hrcv]
      rfl
    rw [hend, ← hstart]
    refine (Relation.ReflTransGen.single (hsay.setRoom _)).tail ?_
    refine TalkMove.state (v := { y.talk with room := _ }) _ ?_ hto
    exact fun h => hsent (hystate.symm.trans h)

theorem announceWindow_talk (hf : Flight c.send) (hst : c.tcb.state ≠ .synSent) :
    TalkMoves c.talk (announceWindow c).talk := by
  unfold announceWindow
  split
  · exact .single (tcpSendCtl_ack_talk hf hst)
  · exact .refl

end Arrivals

/-! ### Every action -/

/-- What an action takes in before the connection goes on talking. -/
inductive TalkStage (e : ConnEvent) (c d : Conn) : Prop where
  | quiet (h : TalkMoves c.talk d.talk)
  | acked (g : Seg) (hg : e.seg = some g) (hout : c.out = []) (hst : c.tcb.state ≠ .synSent)
      (hle : (g.ack - c.tcb.sndUna).toNat ≤ (c.tcb.sndNxt - c.tcb.sndUna).toNat) (st : TcpState)
      (hst' : st ≠ .synSent ∧ st ≠ .synRcvd)
      (h : TalkMoves { c.talk with una := g.ack, state := st } d.talk)
  /-- The peer's SYN, with or without an acknowledgement of ours. -/
  | syn (g : Seg) (hg : e.seg = some g) (hst : c.tcb.state = .synSent) (una : UInt32)
      (st : TcpState) (room : Nat)
      (huna : una = c.tcb.sndUna ∧ st = .synRcvd ∨
        una = g.ack ∧ st = .established ∧ c.out = [] ∧
          (g.ack - c.tcb.sndUna).toNat ≤ (c.tcb.sndNxt - c.tcb.sndUna).toNat)
      (hroom : room + 1 = c.tcb.room)
      (h : TalkMoves { c.talk with una := una, state := st, rcv := g.seq + 1, room := room } d.talk)
  | take (g : Seg) (hg : e.seg = some g) (hst : c.tcb.state ≠ .synSent) (k : UInt32) (room : Nat)
      (hroom : k.toNat + room ≤ c.tcb.room)
      (h : TalkMoves { c.talk with rcv := c.tcb.rcvNxt + k, room := room } d.talk)
  | read (he : e.seg = none) (room : Nat) (h : TalkMoves { c.talk with room := room } d.talk)

theorem Heard.talk {e : ConnEvent} {c d : Conn} (h : Heard e c d) (hf : Flight c.send)
    (hblank : c.tcb.state = .synSent → Unanswered c.acks) (hlen : c.tcb.rcvLen.toNat ≤ 65535) :
    TalkStage e c d := by
  cases h with
  | stat st => exact .quiet .refl
  | ack e hst =>
    refine .quiet (.single (tcpSendCtl_ack_talk hf ?_))
    exact fun hs => hst hs (hblank hs).deadline
  | reset t lroom g hst hack => exact .quiet (tcpSendResetFor_talk g)
  | text t lroom g data hst hpos hfit =>
    have hview : (tcpOooDrain (rcvAppend c data)).send = c.send := by
      rw [tcpOooDrain, oooDrainLoop_send, rcvAppend_send]
    have hsent := (takesData_sync hst).1
    obtain ⟨k, room, hroom, htalk⟩ := text_talk hst hlen hpos hfit
    have hstate : (tcpOooDrain (rcvAppend c data)).tcb.state = c.tcb.state :=
      congrArg TalkView.state htalk
    refine .take g rfl hsent k room hroom ?_
    rw [← htalk]
    exact tcpDelayAck_talk t (hview ▸ hf) (hstate ▸ hsent)
  | park t lroom g seq data hst hpos hgap hfit =>
    have hview := tcpOooInsert_acks c seq data
    set x := tcpOooInsert c seq data with hx
    have hstate : x.tcb.state = c.tcb.state := congrArg AckView.state hview
    have hlen' : x.tcb.rcvLen = c.tcb.rcvLen := congrArg AckView.len hview
    have htalk : x.talk = c.talk := by
      have hnxt : x.tcb.rcvNxt = c.tcb.rcvNxt := congrArg AckView.nxt hview
      have hout : x.out = c.out := congrArg AckView.out hview
      have hroom : x.tcb.room = c.tcb.room := by rw [Tcb.room, Tcb.room, hstate, hlen']
      rw [Conn.talk_of_noRecv (tcpOooInsert_noRecv c seq data), hnxt, hout, hroom]
      rfl
    have hxf : Flight x.send := by
      rw [hx, tcpOooInsert_send]
      exact hf
    refine .quiet ?_
    rw [← htalk]
    exact .single
      (tcpSendCtl_ack_talk hxf (hstate ▸ (takesData_sync hst).1))
  | recv cap hpos =>
    have hsent : c.tcb.state ≠ .synSent := by
      intro h
      rw [show c.tcb.rcvLen = 0 from (hblank h).len] at hpos
      exact absurd hpos (by decide)
    exact .read rfl _ (announceWindow_talk (c := rcvRelease (recvAmount c.tcb cap) c) hf hsent)

theorem Quiet.talk {e : ConnEvent} {c d : Conn} (h : Quiet e c d) (hf : Flight c.send)
    (hblank : c.tcb.state = .synSent → Unanswered c.acks) (hlen : c.tcb.rcvLen.toNat ≤ 65535) :
    TalkStage e c d := by
  cases h with
  | heard h => exact h.talk hf hblank hlen
  | opened t lroom g hout hst hlo hhi =>
    have hnxt : g.ack = c.tcb.sndNxt := hf.opened_ack hst hlo hhi
    obtain ⟨room, hroom, hview⟩ := tcpTakeSyn_talk g hst (Or.inl rfl)
    set x := tcpEstablish ((tcpTakeSyn g c).setUna g.ack) g with hx
    have htalk : x.talk =
        { c.talk with una := g.ack, state := .established, rcv := g.seq + 1, room := room } :=
      congrArg (fun v : TalkView => { v with una := g.ack }) hview
    have hsend :
        x.send = { c.send with state := .established, una := g.ack, wnd := g.wnd.toUInt32 } := by
      rw [hx, tcpEstablish_send, tcpTakeSyn_send]
    refine .syn g rfl hst g.ack .established room (Or.inr ⟨rfl, rfl, hout, by rw [hnxt]⟩) hroom ?_
    rw [← htalk]
    exact .single
      (tcpSendCtl_ack_talk
        (hsend ▸ Flight.established (s := c.send) hnxt g.wnd) TcpState.noConfusion)
  | crossed t lroom g hst =>
    obtain ⟨room, hroom, hview⟩ := tcpTakeSyn_talk g hst (Or.inr rfl)
    set x := (tcpTakeSyn g c).setState .synRcvd with hx
    have hsend : x.send = { c.send with state := .synRcvd } :=
      congrArg (fun s : SendView => { s with state := .synRcvd }) (tcpTakeSyn_send g c)
    have hxf : Flight x.send := by
      rw [hsend]
      exact ⟨hf.wnd, hf.len, fun _ => hf.opening (Or.inl hst), by simp⟩
    refine .syn g rfl hst c.tcb.sndUna .synRcvd room (Or.inl ⟨rfl, rfl⟩) hroom ?_
    simp only [tcpSimultaneousOpen]
    rw [tcpArmRto_talk]
    have hsay := tcpSendCtl_syn_talk (c := x) (Or.inr rfl) hxf (Or.inr rfl) (fun _ => rfl)
    rw [hview] at hsay
    exact .single hsay
  | answered t lroom g queued hout hst hlo hhi =>
    have hsent : c.tcb.state ≠ .synSent := by
      rw [hst]
      exact TcpState.noConfusion
    have hview : { tcpEstablish (c.setUna g.ack) g with queued := queued }.talk =
        { (c.setUna g.ack).talk with state := .established } := by
      have hne : TcpState.established ≠ .synSent := TcpState.noConfusion
      have hpast : TcpState.established.pastFin = c.tcb.state.pastFin := by
        rw [hst]
        rfl
      exact Conn.talk_state (c := c.setUna g.ack) hsent hne hpast rfl
    have hnxt : g.ack = c.tcb.sndNxt := hf.answered_ack hst hlo hhi
    exact .acked g rfl hout hsent (by rw [hnxt]) .established
      ⟨TcpState.noConfusion, TcpState.noConfusion⟩ (TalkMoves.of_eq hview)
  | rxFin t lroom g hfin =>
    obtain ⟨hsent, k, room, hroom, htalk⟩ := tcpTakeFin_talk t hf hfin
    exact .take g rfl hsent k room hroom htalk
  | probe t hprobe => exact .quiet (.single (tcpProbed_talk t hprobe))
  | nodelay on => exact .quiet .refl
  | attach sock => exact .quiet .refl

theorem Act.talk {e : ConnEvent} {c d : Conn} (h : Act e c d) (hf : Flight c.send)
    (hmss : c.tcb.mss ≠ 0) (hblank : c.tcb.state = .synSent → Unanswered c.acks)
    (hlen : c.tcb.rcvLen.toNat ≤ 65535) : TalkStage e c d := by
  cases h with
  | quiet h => exact h.talk hf hblank hlen
  | tune | window | backoff | rearm => exact .quiet .refl
  | chunk now wnd chunk hnow hst hwnd hnext =>
    have hle : c.tcb.sndWnd.toNat ≤ 65535 := hf.wnd
    exact .quiet (.single (tcpOutputChunk_talkMove now hst (hwnd.trans hle) hnext))
  | fin now hnow hst hq hfin hall =>
    have hle := hf.len
    have hno : c.send.finSent = false := hfin
    rw [hno] at hle
    exact .quiet (.single (tcpSendFin_talkMove now hst hle))
  | resend => exact .quiet (tcpRetransmit_talk hf hmss)
  | acked t lroom g hsync hout hgt hle hlast =>
    exact .acked g rfl hout hsync.1 (hf.ack_le hgt hle) _ (ackedState_sync hsync)
      (TalkMoves.of_eq (tcpFinAckedNew_talk t (finAcked c.tcb g.ack) g.ack hsync))
  | append t data =>
    have hview (xs : List UInt8) : (sndAppend xs c).talk = c.talk := rfl
    exact .quiet (TalkMoves.of_eq (hview _))
  | close t st hout hst =>
    have hsent : c.tcb.state ≠ .synSent := by
      intro h
      rw [h] at hst
      cases hst
    have hpast : st.pastFin = c.tcb.state.pastFin := by
      revert hst
      generalize c.tcb.state = st₀
      intro hst
      cases hst <;> rfl
    have hview : (queueFin st c).talk = { c.talk with state := st } :=
      Conn.talk_state hsent hst.synced.1 hpast rfl
    refine .quiet (.single ?_)
    rw [hview]
    exact TalkMove.state st hsent hst.synced

end PacketForge
