import PacketForge.Tcp.Frame

/-!
What the code can do to the sending side of a connection. The sending side is
a projection of the control block together with the segments emitted in the
current event, and `SendMove` lists its elementary changes with their guards.
Every function of the send engine, the input processing, the timer and the
socket layer is a sequence of these moves, so that an invariant of the sending
side needs one case per move and no further look at the code.
-/

namespace PacketForge

/-- The fields of a control block that the sending side reads and writes, and
the segments emitted so far in this event. -/
structure SendView where
  state : TcpState
  iss : UInt32
  una : UInt32
  nxt : UInt32
  wnd : UInt32
  buf : Nat → UInt8
  head : UInt32
  len : UInt32
  finQueued : Bool
  finSent : Bool
  out : List Seg

def Conn.send (c : Conn) : SendView where
  state := c.tcb.state
  iss := c.tcb.iss
  una := c.tcb.sndUna
  nxt := c.tcb.sndNxt
  wnd := c.tcb.sndWnd
  buf := c.tcb.sndbuf
  head := c.tcb.sndHead
  len := c.tcb.sndLen
  finQueued := c.tcb.finQueued
  finSent := c.tcb.finSent
  out := c.out

namespace SendView

def dataInFlight (s : SendView) : UInt32 :=
  if s.finSent && s.nxt - s.una > 0 then s.nxt - s.una - 1 else s.nxt - s.una

def finAcked (s : SendView) (a : UInt32) : Bool := s.finSent && a = s.nxt

def ackedBytes (s : SendView) (a : UInt32) : UInt32 :=
  a - s.una - (if s.finAcked a then 1 else 0)

/-- The ring after `a` was acknowledged. -/
def acked (s : SendView) (a : UInt32) : SendView :=
  { s with
    head := (s.head + s.ackedBytes a) % 65535
    len := s.len - s.ackedBytes a
    una := a }

end SendView

/-- A segment that carries neither data nor FIN. -/
def Seg.IsCtl (g : Seg) (iss : UInt32) : Prop :=
  g.payload = [] ∧ g.has tcpFin = false ∧ (g.has tcpSyn = true → g.seq = iss)

/-- A segment that carries data and neither SYN nor FIN. -/
def Seg.IsData (g : Seg) (seq : UInt32) (bytes : List UInt8) : Prop :=
  g.seq = seq ∧ g.payload = bytes ∧ g.has tcpFin = false ∧ g.has tcpSyn = false

def Seg.IsFin (g : Seg) (seq : UInt32) : Prop :=
  g.seq = seq ∧ g.payload = [] ∧ g.has tcpSyn = false

/-- What an event offers the sending side: the segment being processed, the
sending sides at which its acknowledgement may take effect, and those at which
its FIN may be consumed. -/
structure SendCause where
  seg : Option Seg
  ackAt : SendView → Prop
  finAt : SendView → Prop

/-- An event that brings no segment. -/
def SendCause.internal : SendCause where
  seg := none
  ackAt := fun _ => False
  finAt := fun _ => False

/-- What `tcp_output` does: new data inside the window, then the FIN. -/
inductive OutMove : SendView → SendView → Prop where
  | data (s : SendView) (g : Seg) (n : UInt32) (hstate : s.state.sends = true)
      (hfin : s.finSent = false) (hpos : 0 < n) (havail : n ≤ s.len - s.dataInFlight)
      (hwnd : (s.nxt - s.una).toNat + n.toNat ≤ s.wnd.toNat)
      (hg : g.IsData s.nxt (ringCopyOut s.buf (s.head + s.dataInFlight) n.toNat)) :
      OutMove s { s with nxt := s.nxt + n, out := s.out ++ [g] }
  | fin (s : SendView) (g : Seg) (hstate : s.state.sends = true) (hq : s.finQueued = true)
      (hfin : s.finSent = false) (hall : s.len = s.dataInFlight) (hg : g.IsFin s.nxt) :
      OutMove s { s with nxt := s.nxt + 1, finSent := true, out := s.out ++ [g] }

abbrev OutMoves : SendView → SendView → Prop := Relation.ReflTransGen OutMove

/-- Only segments without data and FIN were emitted. -/
def OnlyCtl (s s' : SendView) : Prop :=
  ∃ gs : List Seg, s' = { s with out := s.out ++ gs } ∧ ∀ g ∈ gs, g.IsCtl s.iss

inductive SendMove (κ : SendCause) : SendView → SendView → Prop where
  | ctl (s : SendView) (g : Seg) (hg : g.IsCtl s.iss) :
      SendMove κ s { s with out := s.out ++ [g] }
  | output {s s' : SendView} (h : OutMove s s') : SendMove κ s s'
  | rtxData (s : SendView) (g : Seg) (n : UInt32) (hpos : 0 < n) (hn : n ≤ s.dataInFlight)
      (hsync : s.state ≠ .synSent ∧ s.state ≠ .synRcvd)
      (hg : g.IsData s.una (ringCopyOut s.buf s.head n.toNat)) :
      SendMove κ s { s with out := s.out ++ [g] }
  | rtxFin (s : SendView) (g : Seg) (hfin : s.finSent = true) (hzero : s.dataInFlight = 0)
      (hlt : s.una ≠ s.nxt) (hg : g.IsFin s.una) :
      SendMove κ s { s with out := s.out ++ [g] }
  /-- One byte beyond a zero window. -/
  | probe (s : SendView) (g : Seg) (hstate : s.state.sends = true) (hlen : 0 < s.len)
      (hidle : s.una = s.nxt) (hwnd : s.wnd = 0) (hseg : κ.seg = none)
      (hg : g.IsData s.nxt (ringCopyOut s.buf s.head 1)) :
      SendMove κ s { s with nxt := s.nxt + 1, out := s.out ++ [g] }
  /-- New data acknowledged, before anything was sent in this event. -/
  | ack (s : SendView) (g : Seg) (hseg : κ.seg = some g) (hat : κ.ackAt s) (hout : s.out = [])
      (hsync : s.state ≠ .synSent ∧ s.state ≠ .synRcvd)
      (hgt : seqGt g.ack s.una = true) (hle : seqGt g.ack s.nxt = false) :
      SendMove κ s { s.acked g.ack with state := ackedState (s.finAcked g.ack) s.state }
  | wnd (s : SendView) (g : Seg) (hseg : κ.seg = some g) (hlo : seqLe s.una g.ack = true)
      (hhi : seqLe g.ack s.nxt = true) : SendMove κ s { s with wnd := g.wnd.toUInt32 }
  /-- The peer's FIN is consumed. -/
  | rxFin (s : SendView) (hat : κ.finAt s) (hstate : s.state.takesData = true) :
      SendMove κ s { s with state := rxFinState s.state }
  /-- A simultaneous open. -/
  | synRcvd (s : SendView) (hstate : s.state = .synSent) :
      SendMove κ s { s with state := .synRcvd }
  /-- Our SYN is acknowledged. -/
  | establish (s : SendView) (g : Seg) (hseg : κ.seg = some g)
      (hstate : s.state = .synSent ∨ s.state = .synRcvd) (hout : s.out = [])
      (hlo : 0 < (g.ack - s.una).toNat ∧ (g.ack - s.una).toNat ≤ 2 ^ 31)
      (hhi : g.ack = s.nxt ∨ 2 ^ 31 ≤ (g.ack - s.nxt).toNat) :
      SendMove κ s { s with state := .established, una := g.ack, wnd := g.wnd.toUInt32 }

abbrev SendMoves (κ : SendCause) : SendView → SendView → Prop := Relation.ReflTransGen (SendMove κ)

namespace SendMoves

variable {κ : SendCause}

theorem single {s s' : SendView} (h : SendMove κ s s') : SendMoves κ s s' :=
  Relation.ReflTransGen.single h

/-- Moves of a connection, seen from an earlier one with the same sending
side. -/
theorem of_view {s s' : SendView} {c : Conn} (hm : SendMoves κ c.send s') (h : c.send = s) :
    SendMoves κ s s' :=
  h ▸ hm

theorem of_output {s s' : SendView} (h : OutMoves s s') : SendMoves κ s s' :=
  Relation.ReflTransGen.mono (fun _ _ hmove => SendMove.output hmove) _ _ h

theorem invariant {P : SendView → Prop} (hstep : ∀ s s', SendMove κ s s' → P s → P s')
    {s s' : SendView} (h : SendMoves κ s s') (hs : P s) : P s' := by
  induction h with
  | refl => exact hs
  | tail _ hmove ih => exact hstep _ _ hmove ih

theorem of_onlyCtl {s s' : SendView} (h : OnlyCtl s s') : SendMoves κ s s' := by
  obtain ⟨gs, rfl, hgs⟩ := h
  induction gs generalizing s with
  | nil =>
    rw [List.append_nil]
  | cons g rest ih =>
    have htail := ih (s := { s with out := s.out ++ [g] })
      (fun x hx => hgs x (List.mem_cons_of_mem _ hx))
    rw [List.append_assoc, List.singleton_append] at htail
    exact .head (SendMove.ctl s g (hgs g List.mem_cons_self)) htail

end SendMoves

namespace OnlyCtl

theorem refl (s : SendView) : OnlyCtl s s := ⟨[], by rw [List.append_nil], by simp⟩

theorem of_eq {s s' : SendView} (h : s' = s) : OnlyCtl s s' := by
  subst h
  exact refl _

theorem of_view {s s' : SendView} {c : Conn} (h : OnlyCtl c.send s') (hs : c.send = s) :
    OnlyCtl s s' :=
  hs ▸ h

end OnlyCtl

/-! ### Updates the sending side does not see -/

namespace Conn

variable (c : Conn)

@[simp] theorem count_send (x : Stat) : (c.count x).send = c.send := rfl

@[simp] theorem setCwnd_send (n : UInt32) : (c.setCwnd n).send = c.send := rfl

@[simp] theorem setSsthresh_send (n : UInt32) : (c.setSsthresh n).send = c.send := rfl

@[simp] theorem setDupacks_send (n : UInt32) : (c.setDupacks n).send = c.send := rfl

@[simp] theorem free_send (err : PfErr) : (c.free err).send = c.send := rfl

@[simp] theorem setState_send (st : TcpState) :
    (c.setState st).send = { c.send with state := st } := rfl

end Conn

/-! ### Segment construction -/

variable {κ : SendCause}

theorem ringCopyOut_zero (ring : Nat → UInt8) (start : UInt32) : ringCopyOut ring start 0 = [] := by
  simp [ringCopyOut, RingBuf.read, RingBuf.copyOut]

theorem ringCopyOut_length (ring : Nat → UInt8) (start : UInt32) (n : Nat) :
    (ringCopyOut ring start n).length = n := by
  rw [ringCopyOut, RingBuf.read_length]

variable (now : Nat) (c : Conn) (t : Tcb) (wnd : UInt32) (fuel : Nat) (flags : UInt8)

theorem tcpSegment_payload_length (seq off : UInt32) (n : UInt16) :
    (tcpSegment t flags seq off n).payload.length = n.toNat :=
  ringCopyOut_length _ _ _

/-- Building a segment leaves the sending side alone but for the output. -/
theorem tcpSendSegment_send (seq off : UInt32) (n : UInt16) :
    (tcpSendSegment c flags seq off n).send =
      { c.send with out := c.out ++ [tcpSegment c.tcb flags seq off n] } := by
  obtain ⟨st, pend, dl, adv, heq⟩ := tcpSendSegment_eq c flags seq off n
  rw [heq]
  rfl

theorem tcpSegment_isCtl (seq off : UInt32) (hfin : flags &&& tcpFin = 0)
    (hsyn : flags &&& tcpSyn ≠ 0 → seq = t.iss) : (tcpSegment t flags seq off 0).IsCtl t.iss := by
  refine ⟨ringCopyOut_zero _ _, ?_, ?_⟩
  · simp [Seg.has, tcpSegment, hfin]
  · intro h
    apply hsyn
    simpa [Seg.has, tcpSegment] using h

theorem tcpSegment_isData (seq off : UInt32) (n : UInt16) (hfin : flags &&& tcpFin = 0)
    (hsyn : flags &&& tcpSyn = 0) :
    (tcpSegment t flags seq off n).IsData seq
      (ringCopyOut t.sndbuf (t.sndHead + off) n.toNat) := by
  refine ⟨rfl, rfl, ?_, ?_⟩
  · simp [Seg.has, tcpSegment, hfin]
  · simp [Seg.has, tcpSegment, hsyn]

theorem tcpSegment_isFin (seq : UInt32) : (tcpSegment t (tcpFin ||| tcpAck) seq 0 0).IsFin seq :=
  ⟨rfl, ringCopyOut_zero _ _, by
    change ((tcpFin ||| tcpAck) &&& tcpSyn != 0) = false
    decide⟩

def ctlSeq (t : Tcb) (flags : UInt8) : UInt32 := if flags &&& tcpSyn != 0 then t.iss else t.sndNxt

theorem tcpSendCtl_send :
    (tcpSendCtl c flags).send =
      { c.send with out := c.out ++ [tcpSegment c.tcb flags (ctlSeq c.tcb flags) 0 0] } := by
  unfold tcpSendCtl
  by_cases hrst : (flags &&& tcpRst != 0) = true
  · rw [if_pos hrst, tcpSendSegment_send]
    rfl
  · rw [if_neg hrst, tcpSendSegment_send]
    rfl

theorem tcpSendCtl_onlyCtl (hfin : flags &&& tcpFin = 0) :
    OnlyCtl c.send (tcpSendCtl c flags).send := by
  refine ⟨_, tcpSendCtl_send c flags, ?_⟩
  intro g hg
  rw [List.mem_singleton] at hg
  subst hg
  apply tcpSegment_isCtl _ _ _ _ hfin
  intro hsyn
  simp [ctlSeq, hsyn]

private theorem resetFlags_clear (ack : Bool) :
    ((if ack then tcpRst else tcpRst ||| tcpAck) &&& tcpFin != 0) = false ∧
      ((if ack then tcpRst else tcpRst ||| tcpAck) &&& tcpSyn != 0) = false := by
  cases ack <;> decide

/-- A reset carries neither text nor SYN nor FIN. -/
theorem tcpResetFor_plain {g r : Seg} (h : tcpResetFor g = some r) :
    r.payload = [] ∧ r.has tcpFin = false ∧ r.has tcpSyn = false := by
  unfold tcpResetFor at h
  split at h
  · cases h
  · cases h
    exact ⟨rfl, resetFlags_clear (g.has tcpAck)⟩

theorem tcpResetFor_isCtl {g r : Seg} (h : tcpResetFor g = some r) (iss : UInt32) :
    r.IsCtl iss := by
  obtain ⟨hpay, hfin, hsyn⟩ := tcpResetFor_plain h
  refine ⟨hpay, hfin, fun hs => ?_⟩
  rw [hsyn] at hs
  cases hs

theorem tcpSendResetFor_onlyCtl (g : Seg) : OnlyCtl c.send (tcpSendResetFor c g).send := by
  unfold tcpSendResetFor
  split
  · exact OnlyCtl.refl _
  · rename_i r hr
    refine ⟨[r], rfl, ?_⟩
    intro x hx
    rw [List.mem_singleton] at hx
    exact hx ▸ tcpResetFor_isCtl hr _

/-! ### The send engine -/

theorem tcpArmRto_send (now : Nat) :
    { c with tcb := tcpArmRto t now }.send = { c with tcb := t }.send := by
  rw [tcpArmRto_eq]
  rfl

theorem toUInt16_toUInt32_of_lt (x : UInt32) (h : x.toNat < 2 ^ 16) :
    x.toUInt16.toUInt32 = x := by
  apply UInt32.toNat_inj.mp
  rw [UInt16.toNat_toUInt32, UInt32.toNat_toUInt16]
  exact Nat.mod_eq_of_lt h

/-- The length of the chunk the send loop considers: what is queued, at most
one MSS and at most the room in the window. -/
def chunkLen (t : Tcb) (wnd : UInt32) : Nat :=
  min (min (t.sndLen - tcpDataInFlight t).toNat t.mss.toNat)
    (wnd.toNat - (t.sndNxt - t.sndUna).toNat)

/-- The send loop in whole numbers: it transmits a non-empty chunk unless that
is a short one which would empty the buffer behind unacknowledged data. -/
theorem tcpNextChunk_eq :
    tcpNextChunk t wnd =
      if t.finSent = false ∧ 0 < chunkLen t wnd ∧
          ¬ (t.nodelay = false ∧ 0 < (tcpDataInFlight t).toNat ∧ chunkLen t wnd < t.mss.toNat ∧
            chunkLen t wnd = (t.sndLen - tcpDataInFlight t).toNat) then
        some (UInt16.ofNat (chunkLen t wnd))
      else none := by
  have hmss := t.mss.toNat_lt
  unfold tcpNextChunk
  simp only
  set avail := t.sndLen - tcpDataInFlight t with havail
  set inFlight := t.sndNxt - t.sndUna with hflight
  have hlen : chunkLen t wnd = min (min avail.toNat t.mss.toNat) (wnd.toNat - inFlight.toNat) := rfl
  by_cases hstop : avail = 0 ∨ t.finSent = true
  · rw [if_pos (by simpa using hstop), if_neg]
    rintro ⟨hfin, hpos, -⟩
    rcases hstop with hz | hs
    · rw [hlen, hz, UInt32.toNat_zero] at hpos
      omega
    · rw [hs] at hfin
      cases hfin
  rw [if_neg (by simpa using hstop)]
  push Not at hstop
  by_cases hroom : inFlight ≥ wnd
  · rw [if_pos hroom, if_neg]
    rintro ⟨-, hpos, -⟩
    rw [ge_iff_le, UInt32.le_iff_toNat_le] at hroom
    omega
  rw [if_neg hroom]
  rw [ge_iff_le, UInt32.not_le] at hroom
  have hroomn : (wnd - inFlight).toNat = wnd.toNat - inFlight.toNat :=
    UInt32.toNat_sub_of_le _ _ (UInt32.le_of_lt hroom)
  have hmn : (pfMin (pfMin avail t.mss.toUInt32) (wnd - inFlight)).toNat = chunkLen t wnd := by
    rw [pfMin_toNat, pfMin_toNat, UInt16.toNat_toUInt32, hroomn]
    rfl
  set m := pfMin (pfMin avail t.mss.toUInt32) (wnd - inFlight)
  have hcast : m.toUInt16 = UInt16.ofNat (chunkLen t wnd) := by
    apply UInt16.toNat_inj.mp
    rw [UInt32.toNat_toUInt16, UInt16.toNat_ofNat', hmn]
  have hcastn : (UInt16.ofNat (chunkLen t wnd)).toNat = chunkLen t wnd := by
    rw [UInt16.toNat_ofNat']
    exact Nat.mod_eq_of_lt (by omega)
  have hzero : UInt16.ofNat (chunkLen t wnd) = 0 ↔ ¬ 0 < chunkLen t wnd := by
    rw [← UInt16.toNat_inj, hcastn, Nat.not_lt, Nat.le_zero]
    rfl
  have hhold : (!t.nodelay && decide (tcpDataInFlight t > 0) &&
      decide (UInt16.ofNat (chunkLen t wnd) < t.mss) &&
        decide ((UInt16.ofNat (chunkLen t wnd)).toUInt32 = avail)) = true ↔
      t.nodelay = false ∧ 0 < (tcpDataInFlight t).toNat ∧ chunkLen t wnd < t.mss.toNat ∧
        chunkLen t wnd = avail.toNat := by
    simp only [Bool.and_eq_true, Bool.not_eq_true', decide_eq_true_eq, gt_iff_lt,
      UInt32.lt_iff_toNat_lt, UInt16.lt_iff_toNat_lt, hcastn, ← UInt32.toNat_inj,
      UInt16.toNat_toUInt32, UInt32.toNat_zero, and_assoc]
  have hfin : t.finSent = false := by simpa using hstop.2
  rw [hcast]
  by_cases hpos : 0 < chunkLen t wnd
  · rw [if_neg (by rw [hzero]; exact not_not.mpr hpos)]
    by_cases hh : t.nodelay = false ∧ 0 < (tcpDataInFlight t).toNat ∧
        chunkLen t wnd < t.mss.toNat ∧ chunkLen t wnd = avail.toNat
    · rw [if_pos (hhold.mpr hh), if_neg (fun h => h.2.2 hh)]
    · rw [if_neg (fun h => hh (hhold.mp h)), if_pos ⟨hfin, hpos, hh⟩]
  · rw [if_pos (hzero.mpr hpos), if_neg (fun h => hpos h.2.1)]

/-- What the send loop has checked before it transmits a chunk. -/
theorem tcpNextChunk_some {t : Tcb} {wnd : UInt32} {chunk : UInt16}
    (h : tcpNextChunk t wnd = some chunk) :
    t.finSent = false ∧ 0 < chunk.toUInt32 ∧ chunk.toUInt32 ≤ t.sndLen - tcpDataInFlight t ∧
      chunk ≤ t.mss ∧ (t.sndNxt - t.sndUna).toNat + chunk.toNat ≤ wnd.toNat := by
  have hmss := t.mss.toNat_lt
  rw [tcpNextChunk_eq] at h
  split at h
  · rename_i hsend
    obtain ⟨hfin, hpos, -⟩ := hsend
    cases h
    have hle : chunkLen t wnd ≤ (t.sndLen - tcpDataInFlight t).toNat ∧
        chunkLen t wnd ≤ t.mss.toNat ∧
        chunkLen t wnd ≤ wnd.toNat - (t.sndNxt - t.sndUna).toNat := by
      unfold chunkLen
      omega
    have hcast : (UInt16.ofNat (chunkLen t wnd)).toNat = chunkLen t wnd := by
      rw [UInt16.toNat_ofNat']
      exact Nat.mod_eq_of_lt (by omega)
    rw [UInt32.lt_iff_toNat_lt, UInt32.le_iff_toNat_le, UInt16.le_iff_toNat_le,
      UInt16.toNat_toUInt32, hcast, UInt32.toNat_zero]
    exact ⟨hfin, hpos, hle.1, hle.2.1, by omega⟩
  · cases h

theorem dataFlags_fin (b : Bool) : dataFlags b &&& tcpFin = 0 := by
  cases b <;> rfl

theorem dataFlags_syn (b : Bool) : dataFlags b &&& tcpSyn = 0 := by
  cases b <;> rfl

theorem tcpOutputChunk_send (chunk : UInt16) :
    (tcpOutputChunk now c chunk).send =
      { c.send with
        nxt := c.tcb.sndNxt + chunk.toUInt32
        out := c.out ++
          [tcpSegment c.tcb (dataFlags (chunk.toUInt32 == c.tcb.sndLen - tcpDataInFlight c.tcb))
            c.tcb.sndNxt (tcpDataInFlight c.tcb) chunk] } := by
  obtain ⟨st, pend, dl, adv, heq⟩ := tcpOutputChunk_eq now c chunk
  rw [heq]
  rfl

theorem tcpOutputChunk_flight {wnd : UInt32} {chunk : UInt16}
    (h : tcpNextChunk c.tcb wnd = some chunk) :
    ((tcpOutputChunk now c chunk).tcb.sndNxt - (tcpOutputChunk now c chunk).tcb.sndUna).toNat =
      (c.tcb.sndNxt - c.tcb.sndUna).toNat + chunk.toNat := by
  obtain ⟨-, -, -, -, hfit⟩ := tcpNextChunk_some h
  have hview := tcpOutputChunk_send now c chunk
  have hnxt : (tcpOutputChunk now c chunk).tcb.sndNxt = c.tcb.sndNxt + chunk.toUInt32 :=
    congrArg SendView.nxt hview
  have huna : (tcpOutputChunk now c chunk).tcb.sndUna = c.tcb.sndUna :=
    congrArg SendView.una hview
  have hsum : c.tcb.sndNxt + chunk.toUInt32 - c.tcb.sndUna =
      (c.tcb.sndNxt - c.tcb.sndUna) + chunk.toUInt32 := by grind
  have hlt := wnd.toNat_lt
  rw [hnxt, huna, hsum, UInt32.toNat_add, UInt16.toNat_toUInt32, Nat.mod_eq_of_lt (by omega)]

theorem tcpOutputChunk_move (chunk : UInt16) (hstate : c.send.state.sends = true)
    (hwnd : wnd.toNat ≤ c.send.wnd.toNat) (h : tcpNextChunk c.tcb wnd = some chunk) :
    OutMove c.send (tcpOutputChunk now c chunk).send := by
  obtain ⟨hfin, hpos, havail, -, hfit⟩ := tcpNextChunk_some h
  rw [tcpOutputChunk_send]
  apply OutMove.data c.send _ chunk.toUInt32 hstate hfin hpos havail
  · rw [UInt16.toNat_toUInt32]
    exact Nat.le_trans hfit hwnd
  · rw [UInt16.toNat_toUInt32]
    exact tcpSegment_isData _ _ _ _ _ (dataFlags_fin _) (dataFlags_syn _)

section Rule

variable {P : Conn → Prop} {now : Nat} {c : Conn}

/-- The send loop keeps what each of its transmissions keeps. The window it was
entered with stays a lower bound of the one in force. -/
theorem tcpOutputLoop_rule {wnd : UInt32}
    (hchunk : ∀ d chunk, d.tcb.state.sends = true → wnd.toNat ≤ d.tcb.sndWnd.toNat →
      tcpNextChunk d.tcb wnd = some chunk → P d → P (tcpOutputChunk now d chunk))
    (hst : c.tcb.state.sends = true) (hwnd : wnd.toNat ≤ c.tcb.sndWnd.toNat) (hc : P c)
    (fuel : Nat) : P (tcpOutputLoop now wnd fuel c) := by
  induction fuel generalizing c with
  | zero => exact hc
  | succ fuel ih =>
    unfold tcpOutputLoop
    split
    · exact hc
    · rename_i chunk hnext
      have hview := tcpOutputChunk_send now c chunk
      have hst' : (tcpOutputChunk now c chunk).tcb.state = c.tcb.state :=
        congrArg SendView.state hview
      have hwnd' : (tcpOutputChunk now c chunk).tcb.sndWnd = c.tcb.sndWnd :=
        congrArg SendView.wnd hview
      exact ih (hst' ▸ hst) (hwnd' ▸ hwnd) (hchunk c chunk hst hwnd hnext hc)

/-- `tcp_output` keeps what each of its transmissions keeps. -/
theorem tcpOutput_rule
    (hchunk : ∀ d wnd chunk, d.tcb.state.sends = true → wnd.toNat ≤ d.tcb.sndWnd.toNat →
      tcpNextChunk d.tcb wnd = some chunk → P d → P (tcpOutputChunk now d chunk))
    (hfin : ∀ d, d.tcb.state.sends = true → d.tcb.finQueued = true → d.tcb.finSent = false →
      d.tcb.sndLen = tcpDataInFlight d.tcb → P d → P (tcpSendFin now d)) (hc : P c) :
    P (tcpOutput now c) := by
  unfold tcpOutput
  split
  · rename_i hst
    set wnd := pfMin c.tcb.sndWnd c.tcb.cwnd with hw
    have hwnd : wnd.toNat ≤ c.tcb.sndWnd.toNat := by
      rw [hw, pfMin_toNat]
      exact Nat.min_le_left _ _
    have hd := tcpOutputLoop_rule (fun d chunk => hchunk d wnd chunk) hst hwnd hc wnd.toNat
    simp only [tcpOutputFin]
    split
    · rename_i hgo
      simp only [Bool.and_eq_true, Bool.not_eq_true', decide_eq_true_eq] at hgo
      have hst' := Conn.rest_state (tcpOutputLoop_rest now wnd wnd.toNat c)
      exact hfin _ (hst' ▸ hst) hgo.1.1 hgo.1.2 hgo.2 hd
    · exact hd
  · exact hc

end Rule

/-- The fuel of the send loop is enough: where the loop ends, the code would
break off too. Every round puts at least one byte of the window in flight. -/
theorem tcpOutputLoop_done (c : Conn)
    (hfuel : wnd.toNat ≤ (c.tcb.sndNxt - c.tcb.sndUna).toNat + fuel) :
    tcpNextChunk (tcpOutputLoop now wnd fuel c).tcb wnd = none := by
  induction fuel generalizing c with
  | zero =>
    cases hnext : tcpNextChunk (tcpOutputLoop now wnd 0 c).tcb wnd with
    | none => rfl
    | some chunk =>
      obtain ⟨-, hpos, -, -, hfit⟩ := tcpNextChunk_some hnext
      rw [UInt32.lt_iff_toNat_lt, UInt16.toNat_toUInt32, UInt32.toNat_zero] at hpos
      change (c.tcb.sndNxt - c.tcb.sndUna).toNat + chunk.toNat ≤ wnd.toNat at hfit
      omega
  | succ fuel ih =>
    unfold tcpOutputLoop
    split
    · rename_i hnone
      exact hnone
    · rename_i chunk hchunk
      obtain ⟨-, hpos, -, -, hfit⟩ := tcpNextChunk_some hchunk
      rw [UInt32.lt_iff_toNat_lt, UInt16.toNat_toUInt32, UInt32.toNat_zero] at hpos
      apply ih
      rw [tcpOutputChunk_flight now c hchunk]
      omega

theorem tcpSendFin_send :
    (tcpSendFin now c).send =
      { c.send with
        nxt := c.tcb.sndNxt + 1
        finSent := true
        out := c.out ++ [tcpSegment c.tcb (tcpFin ||| tcpAck) c.tcb.sndNxt 0 0] } := by
  obtain ⟨st, pend, dl, adv, heq⟩ := tcpSendFin_eq now c
  rw [heq]
  rfl

theorem tcpSendFin_move (hstate : c.send.state.sends = true) (hq : c.send.finQueued = true)
    (hfin : c.send.finSent = false) (hall : c.send.len = c.send.dataInFlight) :
    OutMove c.send (tcpSendFin now c).send := by
  rw [tcpSendFin_send]
  exact OutMove.fin c.send _ hstate hq hfin hall (tcpSegment_isFin _ _)

theorem tcpOutput_outMoves : OutMoves c.send (tcpOutput now c).send :=
  tcpOutput_rule (P := fun d => OutMoves c.send d.send)
    (fun d wnd chunk hst hwnd hnext hd => hd.tail
      (tcpOutputChunk_move now d wnd chunk hst hwnd hnext))
    (fun d hst hq hfin hall hd => hd.tail (tcpSendFin_move now d hst hq hfin hall)) .refl

theorem tcpOutput_moves : SendMoves κ c.send (tcpOutput now c).send :=
  SendMoves.of_output (tcpOutput_outMoves now c)

theorem tcpResend_moves : SendMoves κ c.send (tcpResend c).send := by
  unfold tcpResend
  split
  · exact SendMoves.of_onlyCtl (tcpSendCtl_onlyCtl c _ (by decide))
  split
  · exact SendMoves.of_onlyCtl (tcpSendCtl_onlyCtl c _ (by decide))
  rename_i hsent hrcvd
  split
  · rename_i hpos
    simp only
    set m := pfMin (tcpDataInFlight c.tcb) c.tcb.mss.toUInt32 with hm
    have hmn : m.toNat = min (tcpDataInFlight c.tcb).toNat c.tcb.mss.toNat := by
      rw [hm, pfMin_toNat, UInt16.toNat_toUInt32]
    have hmss := c.tcb.mss.toNat_lt
    have hcast : m.toUInt16.toNat = m.toNat := by
      rw [← UInt16.toNat_toUInt32, toUInt16_toUInt32_of_lt m (by omega)]
    rw [tcpSendSegment_send]
    by_cases hz : m = 0
    · -- an MSS of zero would send an empty segment
      apply SendMoves.single
      apply SendMove.ctl c.send
      rw [hz]
      refine tcpSegment_isCtl _ _ _ _ (dataFlags_fin _) ?_
      intro hsyn
      exact absurd (dataFlags_syn _) hsyn
    · apply SendMoves.single
      apply SendMove.rtxData c.send _ m
      · rw [UInt32.lt_iff_toNat_lt]
        exact Nat.pos_of_ne_zero (fun h => hz (UInt32.toNat_inj.mp h))
      · rw [UInt32.le_iff_toNat_le, hmn]
        exact Nat.min_le_left _ _
      · exact ⟨hsent, hrcvd⟩
      · have hdata := tcpSegment_isData c.tcb
          (dataFlags (m.toUInt16.toUInt32 == c.tcb.sndLen)) c.tcb.sndUna 0 m.toUInt16
          (dataFlags_fin _) (dataFlags_syn _)
        rw [UInt32.add_zero, hcast] at hdata
        exact hdata
  · rename_i hnone
    split
    · rename_i hfin
      simp only [Bool.and_eq_true] at hfin
      rw [tcpSendSegment_send]
      apply SendMoves.single
      refine SendMove.rtxFin c.send _ hfin.1 ?_ ?_ (tcpSegment_isFin _ _)
      · rw [gt_iff_lt, UInt32.not_lt] at hnone
        exact UInt32.le_zero_iff.mp hnone
      · intro heq
        have hlt := (seqLt_iff _ _).mp hfin.2
        change c.tcb.sndUna = c.tcb.sndNxt at heq
        rw [heq, UInt32.sub_self] at hlt
        simp at hlt
    · exact .refl

theorem tcpRetransmit_moves : SendMoves κ c.send (tcpRetransmit c).send :=
  tcpResend_moves { c.count .tcpRtxSegs with tcb := { c.tcb with rttTiming := false } }

theorem tcpSendProbe_move (hstate : c.send.state.sends = true) (hlen : 0 < c.send.len)
    (hidle : c.send.una = c.send.nxt) (hwnd : c.send.wnd = 0) (hseg : κ.seg = none) :
    SendMove κ c.send (tcpSendProbe c).send := by
  obtain ⟨st, pend, dl, adv, heq⟩ := tcpSendProbe_eq c
  rw [heq]
  apply SendMove.probe c.send _ hstate hlen hidle hwnd hseg
  have hdata := tcpSegment_isData c.tcb tcpAck c.tcb.sndNxt
    (c.tcb.sndNxt - c.tcb.sndUna) 1 (by decide) (by decide)
  change c.tcb.sndUna = c.tcb.sndNxt at hidle
  rw [hidle, UInt32.sub_self, UInt32.add_zero] at hdata
  rw [hidle, UInt32.sub_self]
  exact hdata

end PacketForge
