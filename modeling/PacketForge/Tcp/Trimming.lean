import PacketForge.Tcp.RecvWindow

/-!
A segment against the receive window. The comparisons of sequence numbers agree
with the offset of a number from `rcv_nxt`, for every alignment: a segment is
acceptable when the table of RFC 9293 says so, and the bytes of an acceptable
segment that are passed on, each under its own sequence number, are those in the
window.
-/

namespace PacketForge

open SeqSpace (pos number)

/-! ### Acceptance -/

/-- The length of a segment in sequence numbers; SYN and FIN count for one each. -/
def Seg.span (g : Seg) : Nat := g.payload.length + (g.has tcpSyn).toNat + (g.has tcpFin).toNat

/-- The table of RFC 9293, section 3.10.7.4, for a first number `d` after `rcv_nxt`, by
the length of the segment and the window. -/
def RfcAcceptable (d : Nat) : Nat → Nat → Prop
  | 0, 0 => d = 0
  | 0, w + 1 => d < w + 1
  | _ + 1, 0 => False
  | len + 1, w + 1 => d < w + 1 ∨ (d + len) % 2 ^ 32 < w + 1

section Acceptance

variable (t : Tcb) (g : Seg)

theorem Seg.seqlen_toNat : g.seqlen.toNat = g.span := by
  have hlen := g.payload_lt
  have hpay : g.paylen.toNat = g.payload.length := by
    rw [Seg.paylen, UInt32.toNat_ofNat', Nat.mod_eq_of_lt (by omega)]
  have hbit (b : Bool) : (if b = true then (1 : UInt32) else 0).toNat = b.toNat := by
    cases b <;> rfl
  have hsyn := (g.has tcpSyn).toNat_le
  have hfin := (g.has tcpFin).toNat_le
  rw [Seg.seqlen, UInt32.toNat_add, UInt32.toNat_add, hpay, hbit, hbit, Seg.span]
  omega

/-- A number is in the window when its offset says so. -/
theorem inWindow_iff (s : UInt32) : (seqGe s t.rcvNxt && seqLt s (rcvWndEnd t)) = true ↔
    (s - t.rcvNxt).toNat < (tcpRcvWindow t).toNat := by
  have hw := (tcpRcvWindow t).toNat_lt
  have hs := (s - t.rcvNxt).toNat_lt
  rw [Bool.and_eq_true, seqGe_iff, seqLt_iff, sub_rcvWndEnd]
  omega

theorem segAcceptable_iff : segAcceptable t g = true ↔
    RfcAcceptable (g.seq - t.rcvNxt).toNat g.span (tcpRcvWindow t).toNat := by
  have hlast : (g.seq + g.seqlen - 1 - t.rcvNxt).toNat =
      ((g.seq - t.rcvNxt).toNat + g.span + (2 ^ 32 - 1)) % 2 ^ 32 := by
    have hshift : g.seq + g.seqlen - 1 - t.rcvNxt = (g.seq - t.rcvNxt) + g.seqlen - 1 := by grind
    rw [hshift, UInt32.toNat_sub, UInt32.toNat_add, g.seqlen_toNat, UInt32.toNat_one]
    omega
  have hzero : g.seqlen = 0 ↔ g.span = 0 := by
    rw [← g.seqlen_toNat, ← UInt32.toNat_inj, UInt32.toNat_zero]
  have hclosed : (tcpRcvWindow t).toUInt32 = 0 ↔ (tcpRcvWindow t).toNat = 0 := by
    rw [← UInt32.toNat_inj, UInt16.toNat_toUInt32, UInt32.toNat_zero]
  have hopen : (tcpRcvWindow t).toUInt32 > 0 ↔ 0 < (tcpRcvWindow t).toNat := by
    rw [gt_iff_lt, UInt32.lt_iff_toNat_lt, UInt16.toNat_toUInt32, UInt32.toNat_zero]
  have hin := inWindow_iff t
  unfold rcvWndEnd at hin
  unfold segAcceptable
  simp only [hzero]
  cases hspan : g.span with
  | zero =>
    rw [if_pos rfl]
    cases hw : (tcpRcvWindow t).toNat with
    | zero =>
      rw [if_pos (hclosed.mpr hw), decide_eq_true_eq]
      exact (SeqSpace.toNat_sub_eq_zero_iff _ _).symm
    | succ w =>
      rw [if_neg (by simp [hclosed, hw]), hin, hw]
      rfl
  | succ len =>
    rw [if_neg (Nat.succ_ne_zero len), Bool.and_eq_true, Bool.or_eq_true, hin, hin,
      decide_eq_true_eq, hopen, hlast, hspan]
    cases (tcpRcvWindow t).toNat with
    | zero => exact iff_of_false (fun h => absurd h.1 (Nat.lt_irrefl 0)) id
    | succ w =>
      rw [RfcAcceptable]
      omega

end Acceptance

/-! ### Trimming -/

/-- The bytes of a segment that lie in the window, with their sequence numbers. -/
def Tcb.inWindow (t : Tcb) (seq : UInt32) (data : List UInt8) : List (UInt32 × UInt8) :=
  (number seq data).filter fun p => (p.1 - t.rcvNxt).toNat < (tcpRcvWindow t).toNat

section Trimming

variable {t : Tcb} {c : Conn} {seq : UInt32} {data : List UInt8}

/-- At offsets that do not wrap, a window cuts the tail. -/
theorem Tcb.inWindow_eq (h : (seq - t.rcvNxt).toNat + data.length ≤ 2 ^ 32) :
    t.inWindow seq data =
      number seq (data.take ((tcpRcvWindow t).toNat - (seq - t.rcvNxt).toNat)) := by
  have hseq := SeqSpace.eq_pos seq t.rcvNxt
  generalize (seq - t.rcvNxt).toNat = d at *
  rw [Tcb.inWindow, hseq]
  exact SeqSpace.filter_number _ _ data h

/-- What lies before the window is no part of it. -/
theorem Tcb.inWindow_behind {k : Nat} (hk : k ≤ data.length)
    (hseq : t.rcvNxt - seq = UInt32.ofNat k) (hlt : k < 2 ^ 16) :
    t.inWindow seq data = t.inWindow t.rcvNxt (data.drop k) := by
  have hw := (tcpRcvWindow t).toNat_lt
  have hback : (seq - t.rcvNxt).toNat = (2 ^ 32 - k) % 2 ^ 32 := by
    rw [← UInt32.neg_sub, hseq, UInt32.toNat_neg, UInt32.toNat_ofNat']
    change (2 ^ 32 - k % 2 ^ 32) % 2 ^ 32 = _
    omega
  have hnxt : pos seq k = t.rcvNxt := by
    rw [pos, ← hseq]
    grind
  have hhead : t.inWindow seq (data.take k) = [] := by
    rcases Nat.eq_zero_or_pos k with rfl | hpos
    · rfl
    · rw [Tcb.inWindow_eq (by rw [List.length_take]; omega), Nat.sub_eq_zero_of_le (by omega),
        List.take_zero, number]
  have happ := SeqSpace.number_append seq (data.take k) (data.drop k)
  rw [List.take_append_drop, List.length_take, Nat.min_eq_left hk, hnxt] at happ
  rw [Tcb.inWindow, happ, List.filter_append]
  exact (congrArg (· ++ _) hhead).trans (List.nil_append _)

/-- The ring has room for what the window lets in. -/
theorem rcvRingTake_window (h : data.length ≤ (tcpRcvWindow t).toNat) :
    (rcvRingTake t data).toNat = data.length := by
  have hw := (tcpRcvWindow t).toNat_lt
  have hroom : (tcpRcvWindow t).toNat ≤ (65535 - t.rcvLen).toNat := by
    rw [tcpRcvWindow, UInt32.toNat_toUInt16, pfMin_toNat]
    exact (Nat.mod_le _ _).trans (Nat.min_le_left _ _)
  rw [rcvRingTake, pfMin_toNat, UInt32.toNat_ofNat', Nat.mod_eq_of_lt (by omega)]
  exact Nat.min_eq_left (h.trans hroom)

/-- Payload at or above `rcv_nxt` is passed on up to the end of the window. -/
theorem tcpRxTrimmed_passes (hlen : data.length < 2 ^ 16)
    (hlo : (seq - c.tcb.rcvNxt).toNat < 2 ^ 31) (hnew : c.tcb.inWindow seq data ≠ []) (now : Nat) :
    ∃ bytes, number seq bytes = c.tcb.inWindow seq data ∧
      bytes.length ≤ (tcpRcvWindow c.tcb).toNat ∧
      tcpRxTrimmed c seq data now = tcpRxInWindow c seq bytes now := by
  have heq := Tcb.inWindow_eq (show (seq - c.tcb.rcvNxt).toNat + data.length ≤ 2 ^ 32 by omega)
  have hin : (seq - c.tcb.rcvNxt).toNat < (tcpRcvWindow c.tcb).toNat := by
    by_contra hge
    rw [heq, Nat.sub_eq_zero_of_le (by omega), List.take_zero] at hnew
    exact hnew rfl
  refine ⟨_, heq.symm, ?_, ?_⟩
  · exact (List.length_take_le _ _).trans (Nat.sub_le _ _)
  · rw [tcpRxTrimmed, if_neg (by rw [seqGe_rcvWndEnd hlo]; omega), trimTail_eq hlen hin]

/-- `tcp_rx_payload` passes on the bytes in the window, where there are some. -/
theorem tcpRxPayload_passes (hlen : data.length < 2 ^ 16) (hnew : c.tcb.inWindow seq data ≠ [])
    (now : Nat) :
    ∃ first bytes, number first bytes = c.tcb.inWindow seq data ∧
      bytes.length ≤ (tcpRcvWindow c.tcb).toNat ∧
      tcpRxPayload c seq data now = tcpRxInWindow c first bytes now := by
  unfold tcpRxPayload
  split
  · rename_i hlt
    rw [seqLt_iff] at hlt
    have hw := (tcpRcvWindow c.tcb).toNat_lt
    have hd := (seq - c.tcb.rcvNxt).toNat_lt
    have hback : (c.tcb.rcvNxt - seq).toNat = 2 ^ 32 - (seq - c.tcb.rcvNxt).toNat := by
      rw [← UInt32.neg_sub, UInt32.toNat_neg]
      change (2 ^ 32 - _) % 2 ^ 32 = _
      omega
    -- a segment that ends before the window has no byte in it
    have hmore : (c.tcb.rcvNxt - seq).toNat < data.length := by
      by_contra hge
      rw [Tcb.inWindow_eq (by omega), Nat.sub_eq_zero_of_le (by omega), List.take_zero] at hnew
      exact hnew rfl
    have hseq : c.tcb.rcvNxt - seq = UInt32.ofNat (c.tcb.rcvNxt - seq).toNat := by
      rw [UInt32.ofNat_toNat]
    have hskip : ¬ c.tcb.rcvNxt - seq ≥ UInt32.ofNat data.length := by
      rw [ge_iff_le, UInt32.le_iff_toNat_le, UInt32.toNat_ofNat', Nat.mod_eq_of_lt (by omega)]
      omega
    have hcut := Tcb.inWindow_behind hmore.le hseq (by omega)
    simp only
    rw [if_neg hskip]
    rw [hcut] at hnew ⊢
    have hstart : (c.tcb.rcvNxt - c.tcb.rcvNxt).toNat < 2 ^ 31 := by
      rw [UInt32.sub_self]
      decide
    exact ⟨_, tcpRxTrimmed_passes (by rw [List.length_drop]; omega) hstart hnew now⟩
  · rename_i hge
    rw [seqLt_iff] at hge
    exact ⟨seq, tcpRxTrimmed_passes hlen (by omega) hnew now⟩

end Trimming

/-- Acceptance and trimming by the offset from `rcv_nxt`: a segment is accepted as the
table says, and of a segment whose text is reached in a state that takes data, the bytes in
the window, if there are any, go to the ring, which takes them all, or behind the hole to
the queue. -/
theorem window_trimming_exact (now : Nat) (lroom : Option Bool) (g : Seg) (c : Conn) :
    (segAcceptable c.tcb g = true ↔
      RfcAcceptable (g.seq - c.tcb.rcvNxt).toNat g.span (tcpRcvWindow c.tcb).toNat) ∧
    ∀ d, textStep now lroom g c = some d → d.tcb.state.takesData = true →
      c.tcb.inWindow g.seq g.payload ≠ [] →
      ∃ seq bytes, number seq bytes = c.tcb.inWindow g.seq g.payload ∧
        (rcvRingTake d.tcb bytes).toNat = bytes.length ∧
        tcpInputConn now lroom g c = tcpInputFin now g
          (if seq = c.tcb.rcvNxt then tcpDelayAck (tcpOooDrain (rcvAppend d bytes)) now
          else tcpSendCtl (tcpOooInsert d seq bytes) tcpAck) := by
  refine ⟨segAcceptable_iff c.tcb g, fun d hd hst hnew => ?_⟩
  obtain ⟨⟨st, -, -, hview⟩, heq⟩ := textStep_eq hd
  have hnxt : d.tcb.rcvNxt = c.tcb.rcvNxt := congrArg RecvView.nxt hview
  have hlen : d.tcb.rcvLen = c.tcb.rcvLen := congrArg RecvView.len hview
  have hwnd : tcpRcvWindow d.tcb = tcpRcvWindow c.tcb := by rw [tcpRcvWindow, hlen, tcpRcvWindow]
  have hsame : d.tcb.inWindow g.seq g.payload = c.tcb.inWindow g.seq g.payload := by
    rw [Tcb.inWindow, hnxt, hwnd, Tcb.inWindow]
  rw [← hsame] at hnew ⊢
  obtain ⟨seq, bytes, hbytes, hfit, hpass⟩ := tcpRxPayload_passes g.payload_lt hnew now
  have htext : 0 < g.payload.length := by
    rw [List.length_pos_iff]
    rintro hnil
    rw [hnil] at hnew
    exact hnew rfl
  have hsome : bytes.length ≠ 0 := by
    intro hzero
    rw [← hbytes, List.length_eq_zero_iff.mp hzero] at hnew
    exact hnew rfl
  refine ⟨seq, bytes, hbytes, rcvRingTake_window hfit, ?_⟩
  rw [heq, tcpInputText, if_pos htext, if_pos hst, hpass, tcpRxInWindow, if_neg hsome, hnxt]

/-- A connection that expects number 2, where the sequence numbers have just wrapped. -/
def wrappedConn : Conn :=
  Conn.start { Tcb.fresh with state := .established, rcvNxt := 2 } Stats.zero

theorem wrappedText_lt : ([7, 8, 9, 10, 11] : List UInt8).length < 2 ^ 16 := by decide

/-- Five bytes, three of them old. -/
def wrappedSeg : Seg where
  src := 0
  dst := 0
  sport := 0
  dport := 0
  seq := 0xffffffff
  ack := 0
  flags := tcpAck
  wnd := 0
  opts := []
  payload := [7, 8, 9, 10, 11]
  payload_lt := wrappedText_lt

theorem window_trimming_exact_wrapped :
    wrappedConn.tcb.inWindow wrappedSeg.seq wrappedSeg.payload = [(2, 10), (3, 11)] ∧
    ∃ d, textStep 0 none wrappedSeg wrappedConn = some d ∧
      ∃ seq bytes, number seq bytes = wrappedConn.tcb.inWindow wrappedSeg.seq wrappedSeg.payload ∧
        (rcvRingTake d.tcb bytes).toNat = bytes.length ∧
        tcpInputConn 0 none wrappedSeg wrappedConn = tcpInputFin 0 wrappedSeg
          (if seq = wrappedConn.tcb.rcvNxt then tcpDelayAck (tcpOooDrain (rcvAppend d bytes)) 0
          else tcpSendCtl (tcpOooInsert d seq bytes) tcpAck) := by
  have hnew : wrappedConn.tcb.inWindow wrappedSeg.seq wrappedSeg.payload = [(2, 10), (3, 11)] := by
    decide +kernel
  have hstep :
      textStep 0 none wrappedSeg wrappedConn = some (tcpInputSend 0 wrappedSeg wrappedConn) := by
    rfl
  have hst : (tcpInputSend 0 wrappedSeg wrappedConn).tcb.state.takesData = true := by decide +kernel
  refine ⟨hnew, _, hstep, (window_trimming_exact 0 none wrappedSeg wrappedConn).2 _ hstep hst ?_⟩
  rw [hnew]
  exact List.cons_ne_nil _ _

end PacketForge
