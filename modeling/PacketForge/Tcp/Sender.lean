import PacketForge.Lib.Stream
import PacketForge.Tcp.SendInput

/-!
The sending side as a byte stream. `SendStream` is what the send ring and the
send sequence numbers are for: the bytes the application has written, how many
of them are acknowledged, how many more are in flight, and where the FIN is.
`Represents` connects it to the fields of a control block, where sequence
numbers wrap and the ring has its own modulus. Every move keeps the relation,
and every segment a move emits is a slice of the stream.
-/

namespace PacketForge

open SeqSpace (pos)
open Stream (slice slice_length)

/-! ### The stream -/

/-- Where our FIN is. -/
inductive FinPhase where
  | unsent | inFlight | acked
deriving DecidableEq, Repr

namespace FinPhase

/-- The sequence numbers the FIN has put below `snd_nxt`. -/
def sentLen : FinPhase → Nat
  | .unsent => 0
  | _ => 1

/-- The sequence numbers the FIN has put below `snd_una`. -/
def ackedLen : FinPhase → Nat
  | .acked => 1
  | _ => 0

def isSent : FinPhase → Bool
  | .unsent => false
  | _ => true

theorem ackedLen_eq_zero {ph : FinPhase} (h : ph ≠ .acked) : ph.ackedLen = 0 := by
  cases ph with
  | unsent | inFlight => rfl
  | acked => exact absurd rfl h

end FinPhase

/-- A stream being sent: `written` bytes, of which the first `acked` are
acknowledged and the `flight` after them are in flight. The FIN follows the
last byte. -/
structure SendStream where
  written : List UInt8
  acked : Nat
  flight : Nat
  fin : FinPhase
  bound : acked + flight ≤ written.length
  drained : fin ≠ .unsent → acked + flight = written.length
  finLast : fin = .acked → flight = 0

/-- The sending side `s` holds the stream `a`. -/
structure Represents (a : SendStream) (s : SendView) : Prop where
  len : a.acked + s.len.toNat = a.written.length
  len_le : s.len.toNat ≤ 65535
  head_lt : s.head.toNat < 65535
  ring : RingBuf.contents tcpSndbuf s.buf s.head.toNat s.len.toNat = a.written.drop a.acked
  una : s.una = pos (s.iss + 1) (a.acked + a.fin.ackedLen)
  nxt : s.nxt = pos (s.iss + 1) (a.acked + a.flight + a.fin.sentLen)
  finSent : s.finSent = a.fin.isSent
  queued : s.finSent = true → s.finQueued = true
  open_ : s.state = .established ∨ s.state = .closeWait → s.finQueued = false
  sync : s.state ≠ .synSent ∧ s.state ≠ .synRcvd

/-- The sending side before the handshake: nothing but the SYN is out. -/
structure Unopened (s : SendView) : Prop where
  state : s.state = .synSent ∨ s.state = .synRcvd
  una : s.una = s.iss
  nxt : s.nxt = s.iss + 1
  len : s.len = 0
  head : s.head = 0
  queued : s.finQueued = false
  finSent : s.finSent = false

/-- An acknowledgement of anything acknowledges the SYN. -/
theorem Unopened.syn_acked {s : SendView} (h : Unopened s) {x : UInt32}
    (hlo : 0 < (x - s.una).toNat ∧ (x - s.una).toNat ≤ 2 ^ 31)
    (hhi : x = s.nxt ∨ 2 ^ 31 ≤ (x - s.nxt).toNat) : x = s.nxt := by
  rcases hhi with hx | hbig
  · exact hx
  · rw [h.una] at hlo
    rw [h.nxt] at hbig
    have hsub : x - (s.iss + 1) = (x - s.iss) - 1 := by grind
    rw [hsub, UInt32.toNat_sub_of_le _ _ (by rw [UInt32.le_iff_toNat_le]; exact hlo.1)] at hbig
    change 2 ^ 31 ≤ (x - s.iss).toNat - 1 at hbig
    omega

namespace Represents

variable {a : SendStream} {s : SendView}

theorem flight_le (h : Represents a s) : a.flight ≤ s.len.toNat := by
  have hb := a.bound
  have hl := h.len
  omega

theorem flight_lt (h : Represents a s) : a.flight < 2 ^ 16 := by
  have h1 := h.flight_le
  have h2 := h.len_le
  omega

theorem una_eq (h : Represents a s) (hph : a.fin ≠ .acked) : s.una = pos (s.iss + 1) a.acked := by
  have huna := h.una
  rwa [FinPhase.ackedLen_eq_zero hph, Nat.add_zero] at huna

theorem nxt_sub_una (h : Represents a s) :
    (s.nxt - s.una).toNat = a.flight + a.fin.sentLen - a.fin.ackedLen := by
  have hlt := h.flight_lt
  have hsent : a.fin.ackedLen ≤ a.fin.sentLen ∧ a.fin.sentLen ≤ 1 := by
    cases a.fin <;> decide
  rw [h.nxt, h.una, SeqSpace.pos_sub_toNat _ (by omega) (by omega)]
  omega

theorem dataInFlight (h : Represents a s) : s.dataInFlight.toNat = a.flight := by
  have hsub := h.nxt_sub_una
  have hlast := a.finLast
  unfold SendView.dataInFlight
  rw [h.finSent]
  cases hph : a.fin with
  | unsent =>
    rw [hph] at hsub
    simpa [FinPhase.isSent, FinPhase.sentLen, FinPhase.ackedLen] using hsub
  | inFlight =>
    rw [hph] at hsub
    simp only [FinPhase.sentLen, FinPhase.ackedLen, Nat.sub_zero] at hsub
    have hpos : s.nxt - s.una > 0 := by
      rw [gt_iff_lt, UInt32.lt_iff_toNat_lt, hsub]
      exact Nat.succ_pos _
    have hone : (1 : UInt32) ≤ s.nxt - s.una := by
      rw [UInt32.le_iff_toNat_le, hsub]
      exact Nat.le_add_left 1 _
    simp only [FinPhase.isSent, Bool.true_and, decide_eq_true hpos, if_true]
    rw [UInt32.toNat_sub_of_le _ _ hone, hsub]
    exact Nat.add_sub_cancel _ _
  | acked =>
    rw [hph] at hsub
    have hz : a.flight = 0 := hlast hph
    simp only [FinPhase.sentLen, FinPhase.ackedLen, Nat.add_sub_cancel, hz] at hsub
    have hnone : ¬ s.nxt - s.una > 0 := by
      rw [gt_iff_lt, UInt32.lt_iff_toNat_lt, hsub]
      exact Nat.lt_irrefl _
    simp [FinPhase.isSent, hnone, hsub, hz]

theorem ringCopyOut (h : Represents a s) (off : UInt32) {n : Nat}
    (hn : off.toNat + n ≤ s.len.toNat) :
    ringCopyOut s.buf (s.head + off) n = slice a.written (a.acked + off.toNat) n := by
  have hlen := h.len_le
  have hhead := h.head_lt
  have hadd : (s.head + off).toNat = s.head.toNat + off.toNat := by
    rw [UInt32.toNat_add]
    exact Nat.mod_eq_of_lt (by omega)
  unfold PacketForge.ringCopyOut slice
  rw [hadd, RingBuf.read_eq_contents _ (Nat.mod_lt _ (by decide)) (show n ≤ 65535 by omega),
    RingBuf.contents_slice _ hn, h.ring, List.drop_drop]

/-- The relation does not look at the output or the peer's window, and at the
state only through the phases it allows. -/
theorem frame (h : Represents a s) (out : List Seg) (wnd : UInt32) :
    Represents a { s with out := out, wnd := wnd } :=
  ⟨h.len, h.len_le, h.head_lt, h.ring, h.una, h.nxt, h.finSent, h.queued, h.open_, h.sync⟩

theorem setState (h : Represents a s) (st : TcpState)
    (hopen : st = .established ∨ st = .closeWait → s.state = .established ∨ s.state = .closeWait)
    (hsync : st ≠ .synSent ∧ st ≠ .synRcvd) : Represents a { s with state := st } :=
  ⟨h.len, h.len_le, h.head_lt, h.ring, h.una, h.nxt, h.finSent, h.queued,
    fun hst => h.open_ (hopen hst), hsync⟩

end Represents

/-! ### The operations of the stream -/

namespace SendStream

def transmit (a : SendStream) (n : Nat) (hn : a.acked + a.flight + n ≤ a.written.length)
    (hfin : a.fin = .unsent) : SendStream where
  written := a.written
  acked := a.acked
  flight := a.flight + n
  fin := a.fin
  bound := by omega
  drained := fun h => absurd hfin h
  finLast := by simp [hfin]

def transmitFin (a : SendStream) (hall : a.acked + a.flight = a.written.length) : SendStream where
  written := a.written
  acked := a.acked
  flight := a.flight
  fin := .inFlight
  bound := by omega
  drained := fun _ => hall
  finLast := by simp

def acknowledge (a : SendStream) (n : Nat) (hn : n ≤ a.flight) (hfin : a.fin ≠ .acked) :
    SendStream where
  written := a.written
  acked := a.acked + n
  flight := a.flight - n
  fin := a.fin
  bound := by have hbound := a.bound; omega
  drained := by
    intro h
    have hall := a.drained h
    omega
  finLast := fun h => absurd h hfin

/-- Everything, the FIN included, is acknowledged. -/
def acknowledgeFin (a : SendStream) (hfin : a.fin = .inFlight) : SendStream where
  written := a.written
  acked := a.acked + a.flight
  flight := 0
  fin := .acked
  bound := a.bound
  drained := by
    intro _
    exact a.drained (by simp [hfin])
  finLast := fun _ => rfl

/-- The application writes more bytes, which it can only do before the FIN. -/
def write (a : SendStream) (xs : List UInt8) (hfin : a.fin = .unsent) : SendStream where
  written := a.written ++ xs
  acked := a.acked
  flight := a.flight
  fin := a.fin
  bound := by
    have hbound := a.bound
    rw [List.length_append]
    omega
  drained := fun h => absurd hfin h
  finLast := by simp [hfin]

end SendStream

/-! ### The operations of the code refine them -/

namespace Represents

variable {a : SendStream} {s : SendView}

theorem fin_unsent (h : Represents a s) (hfin : s.finSent = false) : a.fin = .unsent := by
  have hsent := h.finSent
  rw [hfin] at hsent
  cases hph : a.fin with
  | unsent => rfl
  | inFlight | acked => rw [hph] at hsent; cases hsent

theorem transmit (h : Represents a s) {n : UInt32}
    (hn : a.acked + a.flight + n.toNat ≤ a.written.length) (hfin : a.fin = .unsent)
    (out : List Seg) :
    Represents (a.transmit n.toNat hn hfin) { s with nxt := s.nxt + n, out := out } := by
  refine ⟨h.len, h.len_le, h.head_lt, h.ring, h.una, ?_, h.finSent, h.queued, h.open_, h.sync⟩
  change s.nxt + n = pos (s.iss + 1) (a.acked + (a.flight + n.toNat) + a.fin.sentLen)
  rw [h.nxt, hfin, ← UInt32.ofNat_toNat (x := n), SeqSpace.pos_add, UInt32.ofNat_toNat]
  simp only [FinPhase.sentLen]
  congr 1
  omega

theorem transmitFin (h : Represents a s) (hall : a.acked + a.flight = a.written.length)
    (hfin : a.fin = .unsent) (hq : s.finQueued = true) (out : List Seg) :
    Represents (a.transmitFin hall) { s with nxt := s.nxt + 1, finSent := true, out := out } := by
  refine ⟨h.len, h.len_le, h.head_lt, h.ring, ?_, ?_, rfl, fun _ => hq, h.open_, h.sync⟩
  · have huna := h.una
    rw [hfin] at huna
    exact huna
  · have hnxt := h.nxt
    rw [hfin] at hnxt
    change s.nxt + 1 = _
    rw [hnxt, SeqSpace.pos_succ]
    rfl

theorem released (h : Represents a s) {n : UInt32} (hn : n.toNat ≤ s.len.toNat) :
    (s.len - n).toNat = s.len.toNat - n.toNat ∧ ((s.head + n) % 65535).toNat < 65535 ∧
      RingBuf.contents tcpSndbuf s.buf ((s.head + n) % 65535).toNat (s.len.toNat - n.toNat) =
        a.written.drop (a.acked + n.toNat) := by
  have hlen := h.len_le
  have hhead := h.head_lt
  have hadd : (s.head + n).toNat = s.head.toNat + n.toNat := by
    rw [UInt32.toNat_add]
    exact Nat.mod_eq_of_lt (by omega)
  have hmod : ((s.head + n) % 65535).toNat = (s.head.toNat + n.toNat) % 65535 := by
    rw [UInt32.toNat_mod, hadd]
    rfl
  refine ⟨UInt32.toNat_sub_of_le _ _ (UInt32.le_iff_toNat_le.mpr hn), ?_, ?_⟩
  · rw [hmod]
    exact Nat.mod_lt _ (by decide)
  · rw [hmod, RingBuf.contents_advance _ hn, h.ring, List.drop_drop]

/-- An acceptable acknowledgement of something new covers part of the data in
flight, or all of it and the FIN. -/
theorem ack_cases (h : Represents a s) {x : UInt32} (hgt : seqGt x s.una = true)
    (hle : seqGt x s.nxt = false) :
    0 < (x - s.una).toNat ∧ a.fin ≠ .acked ∧
      ((x - s.una).toNat ≤ a.flight ∧ s.finAcked x = false ∨
        (x - s.una).toNat = a.flight + 1 ∧ a.fin = .inFlight ∧ s.finAcked x = true) := by
  have hsub := h.nxt_sub_una
  have hlt := h.flight_lt
  have hle' : ¬ seqGt x s.nxt = true := by simp [hle]
  rw [seqGt_iff] at hgt hle'
  have hsplit : (s.nxt - s.una).toNat < (x - s.una).toNat →
      (x - s.nxt).toNat = (x - s.una).toNat - (s.nxt - s.una).toNat := by
    intro hbig
    have hsum : x - s.nxt = (x - s.una) - (s.nxt - s.una) := by grind
    rw [hsum]
    exact UInt32.toNat_sub_of_le _ _ (UInt32.le_iff_toNat_le.mpr (Nat.le_of_lt hbig))
  have hfl : (x - s.una).toNat ≤ (s.nxt - s.una).toNat := by
    by_contra hbig
    have hunsent := hsplit (by omega)
    omega
  have heq : x = s.nxt ↔ (x - s.una).toNat = (s.nxt - s.una).toNat := by
    rw [UInt32.toNat_inj]
    constructor
    · rintro rfl
      rfl
    · intro h
      grind
  have hfinAcked : s.finAcked x = (a.fin.isSent && decide (x = s.nxt)) := by
    rw [SendView.finAcked, h.finSent]
  refine ⟨hgt.1, ?_, ?_⟩
  · intro hph
    have hz := a.finLast hph
    rw [hph, hz] at hsub
    simp only [FinPhase.sentLen, FinPhase.ackedLen] at hsub
    omega
  · rw [hfinAcked]
    cases hph : a.fin with
    | unsent =>
      rw [hph] at hsub
      simp only [FinPhase.sentLen, FinPhase.ackedLen] at hsub
      exact Or.inl ⟨by omega, rfl⟩
    | inFlight =>
      rw [hph] at hsub
      simp only [FinPhase.sentLen, FinPhase.ackedLen] at hsub
      by_cases hx : x = s.nxt
      · right
        have hn := heq.mp hx
        exact ⟨by omega, rfl, by simp [FinPhase.isSent, hx]⟩
      · left
        have hn : (x - s.una).toNat ≠ (s.nxt - s.una).toNat := fun he => hx (heq.mpr he)
        exact ⟨by omega, by simp [hx]⟩
    | acked =>
      have hz := a.finLast hph
      rw [hph, hz] at hsub
      simp only [FinPhase.sentLen, FinPhase.ackedLen] at hsub
      omega

end Represents

theorem ackedState_open {fin : Bool} {st : TcpState}
    (h : ackedState fin st = .established ∨ ackedState fin st = .closeWait) :
    st = .established ∨ st = .closeWait := by
  cases fin with
  | false => exact h
  | true => cases st <;> simp_all [ackedState]

theorem ackedState_sync {fin : Bool} {st : TcpState} (h : st ≠ .synSent ∧ st ≠ .synRcvd) :
    ackedState fin st ≠ .synSent ∧ ackedState fin st ≠ .synRcvd := by
  cases fin with
  | false => exact h
  | true => cases st <;> simp_all [ackedState]

theorem rxFinState_open {st : TcpState} (ht : st.takesData = true)
    (h : rxFinState st = .established ∨ rxFinState st = .closeWait) :
    st = .established ∨ st = .closeWait := by
  cases st <;> simp_all [rxFinState, TcpState.takesData]

theorem rxFinState_sync {st : TcpState} (h : st ≠ .synSent ∧ st ≠ .synRcvd) :
    rxFinState st ≠ .synSent ∧ rxFinState st ≠ .synRcvd := by
  cases st <;> simp_all [rxFinState]

namespace Represents

variable {a : SendStream} {s : SendView}

/-- The ring and the sequence numbers after an acceptable acknowledgement
represent the stream with that much acknowledged. -/
theorem acked (h : Represents a s) {x : UInt32} (hgt : seqGt x s.una = true)
    (hle : seqGt x s.nxt = false) :
    ∃ a' : SendStream, a'.written = a.written ∧
      Represents a' { s.acked x with state := ackedState (s.finAcked x) s.state } := by
  obtain ⟨hpos, hph, hcase⟩ := h.ack_cases hgt hle
  have hfl := h.flight_le
  have hlen := h.len
  have hzero := FinPhase.ackedLen_eq_zero hph
  have hx : x = pos (s.iss + 1) (a.acked + (x - s.una).toNat) := by
    rw [← SeqSpace.pos_pos, ← h.una_eq hph]
    exact SeqSpace.eq_pos x s.una
  rcases hcase with ⟨hn, hfin⟩ | ⟨hn, hflight, hfin⟩
  · have hbytes : s.ackedBytes x = x - s.una := by simp [SendView.ackedBytes, hfin]
    obtain ⟨hl, hh, hring⟩ := h.released (n := x - s.una) (by omega)
    refine ⟨a.acknowledge (x - s.una).toNat hn hph, rfl, ?_⟩
    refine ⟨?_, ?_, ?_, ?_, ?_, ?_, h.finSent, h.queued, fun hst => h.open_ (ackedState_open hst),
      ackedState_sync h.sync⟩
    · simp only [SendView.acked, hbytes, SendStream.acknowledge, hl]
      omega
    · simp only [SendView.acked, hbytes, hl]
      have hlen := h.len_le
      omega
    · simpa only [SendView.acked, hbytes] using hh
    · simpa only [SendView.acked, hbytes, hl, SendStream.acknowledge] using hring
    · simp only [SendView.acked, SendStream.acknowledge, hzero, Nat.add_zero]
      exact hx
    · simp only [SendView.acked, SendStream.acknowledge]
      rw [h.nxt]
      congr 1
      omega
  · have hbytes : (s.ackedBytes x).toNat = a.flight := by
      rw [SendView.ackedBytes, if_pos hfin, UInt32.toNat_sub_of_le _ _ ?_, hn]
      · exact Nat.add_sub_cancel _ _
      · rw [UInt32.le_iff_toNat_le, hn]
        exact Nat.le_add_left 1 _
    have hall := a.drained (by simp [hflight])
    obtain ⟨hl, hh, hring⟩ := h.released (n := s.ackedBytes x) (by omega)
    rw [hbytes] at hl hring
    refine ⟨a.acknowledgeFin hflight, rfl, ?_⟩
    refine ⟨?_, ?_, hh, ?_, ?_, ?_, ?_, h.queued, fun hst => h.open_ (ackedState_open hst),
      ackedState_sync h.sync⟩
    · simp only [SendView.acked, SendStream.acknowledgeFin, hl]
      omega
    · simp only [SendView.acked, hl]
      have hlen := h.len_le
      omega
    · simpa only [SendView.acked, hl, SendStream.acknowledgeFin] using hring
    · simp only [SendView.acked, SendStream.acknowledgeFin, FinPhase.ackedLen]
      rw [hn] at hx
      exact hx
    · simp only [SendView.acked, SendStream.acknowledgeFin, FinPhase.sentLen]
      have hnxt := h.nxt
      rw [hflight] at hnxt
      exact hnxt
    · have hsent := h.finSent
      rw [hflight] at hsent
      exact hsent

end Represents

/-! ### What a segment may carry -/

/-- The stream position of a segment, counted from that of `snd_una`: the ring
holds the end of the stream from there on. -/
def streamPos (W : List UInt8) (s : SendView) (g : Seg) : Nat :=
  W.length - s.len.toNat + (g.seq - s.una).toNat

/-- A segment emitted by the sending side `s` after `W` was written: data is a
slice of `W` at the position of the segment, and a FIN stands behind its last
byte. -/
structure EmitOk (W : List UInt8) (s : SendView) (g : Seg) : Prop where
  data : g.payload ≠ [] →
    g.seq = pos (s.iss + 1) (streamPos W s g) ∧
      streamPos W s g + g.payload.length ≤ W.length ∧
      g.payload = slice W (streamPos W s g) g.payload.length ∧
      g.has tcpFin = false ∧ g.has tcpSyn = false
  fin : g.has tcpFin = true →
    s.finQueued = true ∧ g.payload = [] ∧ g.seq = pos (s.iss + 1) W.length
  syn : g.has tcpSyn = true → g.payload = [] ∧ g.seq = s.iss

namespace EmitOk

variable {W : List UInt8} {a : SendStream} {s s' : SendView} {g : Seg}

theorem congr (h : EmitOk W s g) (hiss : s'.iss = s.iss) (hlen : s'.len = s.len)
    (huna : s'.una = s.una) (hq : s.finQueued = true → s'.finQueued = true) : EmitOk W s' g := by
  have hpos : streamPos W s' g = streamPos W s g := by rw [streamPos, streamPos, hlen, huna]
  refine ⟨?_, ?_, ?_⟩
  · rw [hpos, hiss]
    exact h.data
  · intro hfin
    obtain ⟨h1, h2, h3⟩ := h.fin hfin
    exact ⟨hq h1, h2, by rw [hiss]; exact h3⟩
  · rw [hiss]
    exact h.syn

theorem of_isCtl (hg : g.IsCtl s.iss) : EmitOk W s g := by
  obtain ⟨hpay, hfin, hsyn⟩ := hg
  refine ⟨fun h => absurd hpay h, ?_, fun h => ⟨hpay, hsyn h⟩⟩
  intro h
  rw [hfin] at h
  cases h

/-- Data at offset `off` behind `snd_una`, which the FIN has not passed. -/
theorem of_isData (h : Represents a s) (hph : a.fin ≠ .acked) (off : Nat) {n : Nat}
    (hn : off + n ≤ s.len.toNat)
    (hg : g.IsData (pos (s.iss + 1) (a.acked + off)) (slice a.written (a.acked + off) n)) :
    EmitOk a.written s g := by
  obtain ⟨hseq, hpay, hfin, hsyn⟩ := hg
  have hlen := h.len
  have hle := h.len_le
  have hpos : streamPos a.written s g = a.acked + off := by
    rw [streamPos, hseq, h.una_eq hph, SeqSpace.pos_sub_toNat _ (by omega) (by omega)]
    omega
  have hplen : g.payload.length = n := by
    rw [hpay]
    exact slice_length (by omega)
  refine ⟨fun _ => ?_, ?_, ?_⟩
  · rw [hpos, hplen]
    exact ⟨hseq, by omega, hpay, hfin, hsyn⟩
  · intro h
    rw [hfin] at h
    cases h
  · intro h
    rw [hsyn] at h
    cases h

theorem of_isFin (hq : s.finQueued = true) (hg : g.IsFin (pos (s.iss + 1) W.length)) :
    EmitOk W s g := by
  obtain ⟨hseq, hpay, hsyn⟩ := hg
  refine ⟨fun h => absurd hpay h, fun _ => ⟨hq, hpay, hseq⟩, ?_⟩
  intro h
  rw [hsyn] at h
  cases h

end EmitOk

/-- The invariant of the sending side, with `W` written so far: it is still
unopened, or it holds the stream `W`; and all segments of the current event
carry what they should. -/
structure SendOk (W : List UInt8) (s : SendView) : Prop where
  rel : (W = [] ∧ Unopened s) ∨ ∃ a : SendStream, a.written = W ∧ Represents a s
  emitted : ∀ g ∈ s.out, EmitOk W s g

namespace SendOk

variable {W : List UInt8} {s s' : SendView}

theorem represents (h : SendOk W s) (hsync : s.state ≠ .synSent ∧ s.state ≠ .synRcvd) :
    ∃ a : SendStream, a.written = W ∧ Represents a s := by
  rcases h.rel with ⟨-, hu⟩ | hr
  · rcases hu.state with hst | hst
    · exact absurd hst hsync.1
    · exact absurd hst hsync.2
  · exact hr

theorem unopened (h : SendOk W s) (hst : s.state = .synSent ∨ s.state = .synRcvd) :
    W = [] ∧ Unopened s := by
  rcases h.rel with hu | ⟨a, -, hr⟩
  · exact hu
  · rcases hst with hst | hst
    · exact absurd hst hr.sync.1
    · exact absurd hst hr.sync.2

/-- One more segment goes out, and the sequence number moves over it. -/
theorem emit (h : SendOk W s) {g : Seg} (hout : s'.out = s.out ++ [g]) (hiss : s'.iss = s.iss)
    (hlen : s'.len = s.len) (huna : s'.una = s.una) (hq : s'.finQueued = s.finQueued)
    (hg : EmitOk W s g)
    (hrel : (W = [] ∧ Unopened s') ∨ ∃ a : SendStream, a.written = W ∧ Represents a s') :
    SendOk W s' := by
  refine ⟨hrel, ?_⟩
  intro x hx
  rw [hout, List.mem_append, List.mem_singleton] at hx
  rcases hx with hx | rfl
  · exact (h.emitted x hx).congr hiss hlen huna (fun hf => by rw [hq]; exact hf)
  · exact hg.congr hiss hlen huna (fun hf => by rw [hq]; exact hf)

end SendOk

theorem sends_sync {st : TcpState} (h : st.sends = true) : st ≠ .synSent ∧ st ≠ .synRcvd := by
  cases st <;> simp_all [TcpState.sends]

theorem takesData_sync {st : TcpState} (h : st.takesData = true) :
    st ≠ .synSent ∧ st ≠ .synRcvd := by
  cases st <;> simp_all [TcpState.takesData]

/-! ### Every move keeps the invariant -/

namespace SendOk

variable {κ : SendCause} {W : List UInt8} {s : SendView} {g : Seg}

theorem frame (h : SendOk W s) (out : List Seg) (wnd : UInt32) :
    (W = [] ∧ Unopened { s with out := out, wnd := wnd }) ∨
      ∃ a : SendStream, a.written = W ∧ Represents a { s with out := out, wnd := wnd } := by
  rcases h.rel with ⟨hW, hu⟩ | ⟨a, ha, hr⟩
  · exact Or.inl ⟨hW, hu.state, hu.una, hu.nxt, hu.len, hu.head, hu.queued, hu.finSent⟩
  · exact Or.inr ⟨a, ha, hr.frame out wnd⟩

theorem data (h : SendOk W s) {n : UInt32} (hst : s.state.sends = true) (hfin : s.finSent = false)
    (havail : n ≤ s.len - s.dataInFlight)
    (hg : g.IsData s.nxt (ringCopyOut s.buf (s.head + s.dataInFlight) n.toNat)) :
    SendOk W { s with nxt := s.nxt + n, out := s.out ++ [g] } := by
  obtain ⟨a, ha, hr⟩ := h.represents (sends_sync hst)
  have hph := hr.fin_unsent hfin
  have hfl := hr.dataInFlight
  have hle := hr.flight_le
  have hlen := hr.len
  have hn : a.flight + n.toNat ≤ s.len.toNat := by
    rw [UInt32.le_iff_toNat_le, UInt32.toNat_sub_of_le, hfl] at havail
    · omega
    · rw [UInt32.le_iff_toNat_le, hfl]
      exact hle
  rw [hr.ringCopyOut _ (by rw [hfl]; exact hn), hfl] at hg
  have hnxt : s.nxt = pos (s.iss + 1) (a.acked + a.flight) := by
    rw [hr.nxt, hph]
    rfl
  rw [hnxt] at hg
  have hok : EmitOk W s g := ha ▸ EmitOk.of_isData hr (by simp [hph]) _ hn hg
  exact h.emit rfl rfl rfl rfl rfl hok
    (Or.inr ⟨a.transmit n.toNat (by omega) hph, ha, hr.transmit _ hph _⟩)

theorem fin (h : SendOk W s) (hst : s.state.sends = true) (hq : s.finQueued = true)
    (hfin : s.finSent = false) (hall : s.len = s.dataInFlight) (hg : g.IsFin s.nxt) :
    SendOk W { s with nxt := s.nxt + 1, finSent := true, out := s.out ++ [g] } := by
  obtain ⟨a, ha, hr⟩ := h.represents (sends_sync hst)
  have hph := hr.fin_unsent hfin
  have hfl := hr.dataInFlight
  rw [← hall] at hfl
  have hsum : a.acked + a.flight = a.written.length := by rw [← hfl]; exact hr.len
  have hnxt : s.nxt = pos (s.iss + 1) W.length := by
    rw [hr.nxt, hph, ← ha, ← hsum]
    rfl
  rw [hnxt] at hg
  exact h.emit rfl rfl rfl rfl rfl (EmitOk.of_isFin hq hg)
    (Or.inr ⟨a.transmitFin hsum, ha, hr.transmitFin hsum hph hq _⟩)

theorem rtxData (h : SendOk W s) {n : UInt32} (hpos : 0 < n) (hn : n ≤ s.dataInFlight)
    (hsync : s.state ≠ .synSent ∧ s.state ≠ .synRcvd)
    (hg : g.IsData s.una (ringCopyOut s.buf s.head n.toNat)) :
    SendOk W { s with out := s.out ++ [g] } := by
  obtain ⟨a, ha, hr⟩ := h.represents hsync
  rw [UInt32.lt_iff_toNat_lt] at hpos
  rw [UInt32.le_iff_toNat_le, hr.dataInFlight] at hn
  have hle := hr.flight_le
  have hph : a.fin ≠ .acked := by
    intro hacked
    have hz := a.finLast hacked
    rw [hz] at hn
    exact absurd (Nat.lt_of_lt_of_le hpos hn) (Nat.lt_irrefl _)
  have hread := hr.ringCopyOut 0 (n := n.toNat) (by rw [UInt32.toNat_zero]; omega)
  rw [UInt32.add_zero, UInt32.toNat_zero] at hread
  rw [hread, hr.una_eq hph] at hg
  have hok : EmitOk W s g :=
    ha ▸ EmitOk.of_isData hr hph 0 (by omega) hg
  exact h.emit rfl rfl rfl rfl rfl hok (h.frame _ s.wnd)

theorem rtxFin (h : SendOk W s) (hfin : s.finSent = true) (hzero : s.dataInFlight = 0)
    (hne : s.una ≠ s.nxt) (hg : g.IsFin s.una) : SendOk W { s with out := s.out ++ [g] } := by
  rcases h.rel with ⟨-, hu⟩ | ⟨a, ha, hr⟩
  · rw [hu.finSent] at hfin
    cases hfin
  have hfl := hr.dataInFlight
  rw [hzero, UInt32.toNat_zero] at hfl
  have hsent := hr.finSent
  rw [hfin] at hsent
  have hunsent : a.fin ≠ .unsent := by
    intro hph
    rw [hph] at hsent
    cases hsent
  have hsum := a.drained hunsent
  have hph : a.fin ≠ .acked := by
    intro hacked
    apply hne
    rw [hr.una, hr.nxt, hacked, ← hfl]
    rfl
  have huna : s.una = pos (s.iss + 1) W.length := by
    rw [hr.una_eq hph, ← ha, ← hsum, ← hfl, Nat.add_zero]
  rw [huna] at hg
  exact h.emit rfl rfl rfl rfl rfl (EmitOk.of_isFin (hr.queued hfin) hg) (h.frame _ s.wnd)

theorem probe (h : SendOk W s) (hst : s.state.sends = true) (hlen : 0 < s.len)
    (hidle : s.una = s.nxt) (hg : g.IsData s.nxt (ringCopyOut s.buf s.head 1)) :
    SendOk W { s with nxt := s.nxt + 1, out := s.out ++ [g] } := by
  obtain ⟨a, ha, hr⟩ := h.represents (sends_sync hst)
  rw [UInt32.lt_iff_toNat_lt, UInt32.toNat_zero] at hlen
  have hsub := hr.nxt_sub_una
  rw [hidle, UInt32.sub_self, UInt32.toNat_zero] at hsub
  have htotal := hr.len
  have hph : a.fin = .unsent := by
    have hdr := a.drained
    have hlast := a.finLast
    cases hf : a.fin with
    | unsent => rfl
    | inFlight =>
      rw [hf] at hsub
      simp only [FinPhase.sentLen, FinPhase.ackedLen] at hsub
      omega
    | acked =>
      have h1 := hdr (by simp [hf])
      have h2 := hlast hf
      omega
  have hflight : a.flight = 0 := by
    rw [hph] at hsub
    simp only [FinPhase.sentLen, FinPhase.ackedLen] at hsub
    omega
  have hread := hr.ringCopyOut 0 (n := 1) (by rw [UInt32.toNat_zero]; omega)
  rw [UInt32.add_zero, UInt32.toNat_zero] at hread
  rw [hread, ← hidle, hr.una_eq (by simp [hph])] at hg
  have hok : EmitOk W s g :=
    ha ▸ EmitOk.of_isData hr (by simp [hph]) 0 (by omega) hg
  exact h.emit rfl rfl rfl rfl rfl hok
    (Or.inr ⟨a.transmit 1 (by omega) hph, ha, hr.transmit (n := 1) _ hph _⟩)

theorem establish (h : SendOk W s) (hst : s.state = .synSent ∨ s.state = .synRcvd)
    (hout : s.out = []) {x w : UInt32} (hlo : 0 < (x - s.una).toNat ∧ (x - s.una).toNat ≤ 2 ^ 31)
    (hhi : x = s.nxt ∨ 2 ^ 31 ≤ (x - s.nxt).toNat) :
    SendOk W { s with state := .established, una := x, wnd := w } := by
  obtain ⟨hW, hu⟩ := h.unopened hst
  have hx : x = s.iss + 1 := (hu.syn_acked hlo hhi).trans hu.nxt
  let a : SendStream :=
    { written := [], acked := 0, flight := 0, fin := .unsent, bound := Nat.le_refl _,
      drained := by simp, finLast := by simp }
  have hpos : s.iss + 1 = pos (s.iss + 1) 0 := (SeqSpace.pos_zero _).symm
  refine ⟨Or.inr ⟨a, hW.symm, ?_⟩, ?_⟩
  · refine ⟨?_, ?_, ?_, ?_, hx.trans hpos, hu.nxt.trans hpos, hu.finSent, ?_,
      fun _ => hu.queued, ?_⟩
    · simp [a, hu.len]
    · simp [hu.len]
    · simp [hu.head]
    · simp [a, hu.len, RingBuf.contents_zero]
    · intro hf
      rw [hu.finSent] at hf
      cases hf
    · exact ⟨by simp, by simp⟩
  · intro y hy
    rw [hout] at hy
    cases hy

end SendOk

/-- One move of the sending side keeps the invariant. -/
theorem SendMove.sendOk {κ : SendCause} {W : List UInt8} {s s' : SendView} (hmove : SendMove κ s s')
    (h : SendOk W s) : SendOk W s' := by
  cases hmove with
  | ctl g hg => exact h.emit rfl rfl rfl rfl rfl (EmitOk.of_isCtl hg) (h.frame _ s.wnd)
  | output hout =>
    cases hout with
    | data g n hst hfin _ havail _ hg => exact h.data hst hfin havail hg
    | fin g hst hq hfin hall hg => exact h.fin hst hq hfin hall hg
  | rtxData g n hpos hn hsync hg => exact h.rtxData hpos hn hsync hg
  | rtxFin g hfin hzero hne hg => exact h.rtxFin hfin hzero hne hg
  | probe g hst hlen hidle _ _ hg => exact h.probe hst hlen hidle hg
  | ack g _ _ hout hsync hgt hle =>
    obtain ⟨a, ha, hr⟩ := h.represents hsync
    obtain ⟨a', ha', hr'⟩ := hr.acked hgt hle
    refine ⟨Or.inr ⟨a', ha'.trans ha, hr'⟩, ?_⟩
    intro x hx
    change x ∈ s.out at hx
    rw [hout] at hx
    cases hx
  | wnd g _ _ _ => exact ⟨h.frame s.out _, fun x hx => (h.emitted x hx).congr rfl rfl rfl id⟩
  | rxFin _ ht =>
    obtain ⟨a, ha, hr⟩ := h.represents (takesData_sync ht)
    refine ⟨Or.inr ⟨a, ha, hr.setState _ (rxFinState_open ht) (rxFinState_sync hr.sync)⟩, ?_⟩
    exact fun x hx => (h.emitted x hx).congr rfl rfl rfl id
  | synRcvd hst =>
    obtain ⟨hW, hu⟩ := h.unopened (Or.inl hst)
    refine ⟨Or.inl ⟨hW, Or.inr rfl, hu.una, hu.nxt, hu.len, hu.head, hu.queued, hu.finSent⟩, ?_⟩
    exact fun x hx => (h.emitted x hx).congr rfl rfl rfl id
  | establish g _ hst hout hlo hhi => exact h.establish hst hout hlo hhi

theorem SendMoves.sendOk {κ : SendCause} {W : List UInt8} {s s' : SendView} (h : SendMoves κ s s')
    (hs : SendOk W s) : SendOk W s' :=
  SendMoves.invariant (fun _ _ hmove hok => hmove.sendOk hok) h hs

end PacketForge
