import PacketForge.Lib.Run
import PacketForge.Lib.Stream
import PacketForge.Tcp.RecvView

/-!
The receiving side as a byte stream. The peer's stream `S` starts at the
sequence number after `irs`. What the application has read, followed by the
receive ring, is a prefix of `S`; `rcv_nxt` stands behind it; and the parked
segments are pieces of `S` further on, disjoint and in order, none of them
beyond the right edge of our window. In whatever order, however often and
however cut the pieces of `S` arrive, these facts are kept.
-/

namespace PacketForge

open SeqSpace (pos)
open Stream (slice)

def TcpState.pastFin : TcpState → Bool
  | .closeWait | .closing | .lastAck | .timeWait => true
  | _ => false

/-- The packets are pieces of `S` in order, disjoint and not empty, from
position `lo` up to `hi`. -/
def Parked (S : List UInt8) (base : UInt32) (hi : Nat) : Nat → List OooPkt → Prop
  | _, [] => True
  | lo, q :: qs =>
    ∃ p, lo ≤ p ∧ q.seq = pos base p ∧ 0 < q.data.length ∧ q.data = slice S p q.data.length ∧
      p + q.data.length ≤ S.length ∧ p + q.data.length ≤ hi ∧
      Parked S base hi (p + q.data.length) qs

/-- The in-order part: `D` was read by the application, and the ring follows. -/
structure InOrder (S D : List UInt8) (v : RecvView) : Prop where
  head_lt : v.head.toNat < 65535
  len_le : v.len.toNat ≤ 65535
  bytes : D ++ RingBuf.contents 65535 v.buf v.head.toNat v.len.toNat <+: S
  nxt : v.nxt = pos (v.irs + 1) (D.length + v.len.toNat + v.eof.toNat)
  started : v.state ≠ .synSent
  eof_state : v.eof = v.state.pastFin
  eof_end : v.eof = true → D.length + v.len.toNat = S.length

/-- The receiving side holds `S` up to `rcv_nxt`. The right edge of our window
is a ring's length behind what the application has read. -/
structure Received (S D : List UInt8) (v : RecvView) : Prop extends InOrder S D v where
  parked : Parked S (v.irs + 1) (D.length + 65535) (D.length + v.len.toNat + 1) v.ooo

section Stream

variable {S D : List UInt8}

variable {st : TcpState} {v : RecvView} {c : Conn}

theorem InOrder.length_le (h : InOrder S D v) : D.length + v.len.toNat ≤ S.length := by
  have hle := h.bytes.length_le
  rw [List.length_append, RingBuf.contents_length] at hle
  exact hle

/-- Where `rcv_nxt` stands as long as no FIN was consumed. -/
theorem InOrder.rcvNxt (h : InOrder S D c.recv) (heof : c.recv.eof = false) :
    c.tcb.rcvNxt = pos (c.recv.irs + 1) (D.length + c.recv.len.toNat) := by
  have hn := h.nxt
  rw [heof, Bool.toNat_false, Nat.add_zero] at hn
  exact hn

/-! ### The ring -/

theorem rcvRingTake_toNat (t : Tcb) (data : List UInt8) (hlen : t.rcvLen.toNat ≤ 65535)
    (hdata : data.length ≤ 65535) :
    (rcvRingTake t data).toNat = min data.length (65535 - t.rcvLen.toNat) := by
  have hspace : (65535 - t.rcvLen).toNat = 65535 - t.rcvLen.toNat := by
    rw [UInt32.toNat_sub_of_le _ _ (by rw [UInt32.le_iff_toNat_le]; exact hlen)]
    rfl
  rw [rcvRingTake, pfMin_toNat, hspace, UInt32.toNat_ofNat', Nat.mod_eq_of_lt (by omega)]

/-- A ring that holds the stream holds it further on when the next piece is
written behind its bytes. -/
theorem ring_append_prefix (buf : Nat → UInt8) {head len : UInt32} {xs : List UInt8}
    (hh : head.toNat < 65535) (hfit : len.toNat + xs.length ≤ 65535)
    (hp : D ++ RingBuf.contents 65535 buf head.toNat len.toNat <+: S)
    (hxs : xs = slice S (D.length + len.toNat) xs.length) :
    D ++ RingBuf.contents 65535 (RingBuf.write 65535 buf ((head + len).toNat % 65535) xs)
      head.toNat (len.toNat + xs.length) <+: S := by
  have hat : (head + len).toNat = head.toNat + len.toNat := by
    rw [UInt32.toNat_add]
    omega
  have hpre := Stream.prefix_append_slice hp xs.length
  rw [List.length_append, RingBuf.contents_length, ← hxs] at hpre
  rw [hat, RingBuf.contents_write buf xs hh hfit, ← List.append_assoc]
  exact hpre

theorem rcvAppend_inOrder (h : InOrder S D c.recv) (heof : c.recv.eof = false) {data : List UInt8}
    (hlen : data.length ≤ 65535)
    (hdata : data = slice S (D.length + c.recv.len.toNat) data.length) :
    InOrder S D (rcvAppend c data).recv ∧
      (rcvAppend c data).recv.len.toNat =
        c.recv.len.toNat + min data.length (65535 - c.recv.len.toNat) := by
  have hl := h.len_le
  have hm : (rcvRingTake c.tcb data).toNat = min data.length (65535 - c.recv.len.toNat) :=
    rcvRingTake_toNat c.tcb data hl hlen
  rw [rcvAppend_recv]
  set m := rcvRingTake c.tcb data with hmdef
  have hnew : (c.recv.len + m).toNat = c.recv.len.toNat + m.toNat := by
    rw [UInt32.toNat_add]
    omega
  have htake : (data.take m.toNat).length = m.toNat := by
    rw [List.length_take]
    omega
  have hpiece : data.take m.toNat =
      slice S (D.length + c.recv.len.toNat) (data.take m.toNat).length := by
    rw [htake]
    conv_lhs => rw [hdata, Stream.take_slice, Nat.min_eq_left (by omega)]
  have hbytes := ring_append_prefix c.recv.buf h.head_lt (by rw [htake]; omega) h.bytes hpiece
  rw [htake, ← hnew] at hbytes
  have hnxt : c.recv.nxt + m =
      pos (c.recv.irs + 1) (D.length + (c.recv.len + m).toNat + c.recv.eof.toNat) := by
    have hold : c.recv.nxt = pos (c.recv.irs + 1) (D.length + c.recv.len.toNat) := h.rcvNxt heof
    have hend : D.length + (c.recv.len + m).toNat + c.recv.eof.toNat =
        D.length + c.recv.len.toNat + m.toNat := by
      rw [hnew, heof, Bool.toNat_false]
      omega
    have hadd := SeqSpace.pos_add (c.recv.irs + 1) (D.length + c.recv.len.toNat) m.toNat
    rw [UInt32.ofNat_toNat] at hadd
    rw [hold, hend, hadd]
  refine ⟨⟨h.head_lt, ?_, ?_, hnxt, h.started, h.eof_state, ?_⟩, ?_⟩
  · simp only [hnew]
    omega
  · simp only
    exact hbytes
  · exact fun ht => absurd ht (by rw [heof]; decide)
  · rw [← hm]
    exact hnew

/-! ### Parked segments -/

theorem InOrder.setOoo (h : InOrder S D v) (qs : List OooPkt) : InOrder S D { v with ooo := qs } :=
  ⟨h.head_lt, h.len_le, h.bytes, h.nxt, h.started, h.eof_state, h.eof_end⟩

/-- The blocks and bytes with which `tcp_ooo_drain` calls `rcv_ring_put`. -/
def drainPuts : List OooPkt → Conn → List (Tcb × List UInt8)
  | [], _ => []
  | q :: rest, c =>
    let qlen := UInt32.ofNat q.data.length
    if seqGt q.seq c.tcb.rcvNxt then []
    else if seqLt (q.seq + qlen) c.tcb.rcvNxt || q.seq + qlen = c.tcb.rcvNxt then drainPuts rest c
    else
      let skip := c.tcb.rcvNxt - q.seq
      let data := q.data.drop skip.toNat
      (c.tcb, data) ::
        if rcvRingTake c.tcb data < qlen - skip then [] else drainPuts rest (rcvAppend c data)

/-- `rcv_nxt` stands at position `n`, and the ring has room up to `hi`. -/
structure RoomTo (base : UInt32) (n hi : Nat) (v : RecvView) : Prop where
  len_le : v.len.toNat ≤ 65535
  nxt : v.nxt = pos base n
  edge : n + 65535 = hi + v.len.toNat

/-- The call takes all it is given. -/
def PutsAll (put : Tcb × List UInt8) : Prop := (rcvRingTake put.1 put.2).toNat = put.2.length

section Drain

variable {base : UInt32} {n hi p : Nat} {q : OooPkt}

theorem RoomTo.putsAll (h : RoomTo base n hi c.recv) {data : List UInt8}
    (hfit : n + data.length ≤ hi) : PutsAll (c.tcb, data) := by
  have hlen := h.len_le
  have hedge := h.edge
  change (rcvRingTake c.tcb data).toNat = data.length
  rw [rcvRingTake_toNat c.tcb data hlen (by omega)]
  change min data.length (65535 - c.recv.len.toNat) = data.length
  omega

/-- What `tcp_ooo_drain` does with the first packet, at position `p`, when `rcv_nxt`
stands at `n`. -/
inductive DrainStep (n p : Nat) (q : OooPkt) (qs : List OooPkt) (c : Conn) : Prop where
  /-- There is still a hole. -/
  | hole (hlt : n < p)
      (hloop : oooDrainLoop (q :: qs) c = { c with tcb := { c.tcb with ooo := q :: qs } })
      (hputs : drainPuts (q :: qs) c = [])
  /-- It is entirely duplicate. -/
  | old (hold : p + q.data.length ≤ n) (hloop : oooDrainLoop (q :: qs) c = oooDrainLoop qs c)
      (hputs : drainPuts (q :: qs) c = drainPuts qs c)
  /-- Its rest is next, and the ring has room for it. -/
  | new (data : List UInt8) (hpn : p ≤ n) (hdata : data = q.data.drop (n - p))
      (hdlen : n + data.length = p + q.data.length)
      (hloop : oooDrainLoop (q :: qs) c = oooDrainLoop qs (rcvAppend c data))
      (hputs : drainPuts (q :: qs) c = (c.tcb, data) :: drainPuts qs (rcvAppend c data))

theorem RoomTo.drain (h : RoomTo base n hi c.recv) (hseq : q.seq = pos base p)
    (hhi : p + q.data.length ≤ hi) (hnear : n ≤ p + 65535) (qs : List OooPkt) :
    DrainStep n p q qs c := by
  have hedge := h.edge
  have hlen := h.len_le
  have hnxt : c.tcb.rcvNxt = pos base n := h.nxt
  have hend : q.seq + UInt32.ofNat q.data.length = pos base (p + q.data.length) := by
    rw [hseq, SeqSpace.pos_add]
  have hgt : seqGt q.seq c.tcb.rcvNxt = true ↔ n < p := by
    rw [hseq, hnxt]
    exact seqGt_pos _ (by omega) (by omega)
  by_cases hhole : seqGt q.seq c.tcb.rcvNxt = true
  · exact .hole (hgt.mp hhole) (by rw [oooDrainLoop, if_pos hhole])
      (by rw [drainPuts, if_pos hhole])
  have hle : p ≤ n := Nat.not_lt.mp (mt hgt.mpr hhole)
  by_cases hdup : (seqLt (q.seq + UInt32.ofNat q.data.length) c.tcb.rcvNxt ||
      decide (q.seq + UInt32.ofNat q.data.length = c.tcb.rcvNxt)) = true
  · refine .old ?_ (by rw [oooDrainLoop, if_neg hhole, if_pos hdup])
      (by rw [drainPuts, if_neg hhole, if_pos hdup])
    rw [hend, hnxt, Bool.or_eq_true, decide_eq_true_eq, seqLt_pos _ (by omega) (by omega),
      SeqSpace.pos_inj _ (by omega) (by omega)] at hdup
    omega
  have hnew : n < p + q.data.length := by
    rw [hend, hnxt, Bool.or_eq_true, decide_eq_true_eq, seqLt_pos _ (by omega) (by omega),
      SeqSpace.pos_inj _ (by omega) (by omega)] at hdup
    omega
  have hskip : (c.tcb.rcvNxt - q.seq).toNat = n - p := by
    rw [hnxt, hseq]
    exact SeqSpace.pos_sub_toNat _ hle (by omega)
  obtain ⟨data, hd⟩ : ∃ data, data = q.data.drop (c.tcb.rcvNxt - q.seq).toNat := ⟨_, rfl⟩
  have hdlen : n + data.length = p + q.data.length := by
    rw [hd, List.length_drop, hskip]
    omega
  have hwhole : ¬ rcvRingTake c.tcb data < UInt32.ofNat q.data.length - (c.tcb.rcvNxt - q.seq) := by
    have hq : (UInt32.ofNat q.data.length).toNat = q.data.length := by
      rw [UInt32.toNat_ofNat']
      omega
    have hwant : (UInt32.ofNat q.data.length - (c.tcb.rcvNxt - q.seq)).toNat =
        q.data.length - (n - p) := by
      rw [UInt32.toNat_sub_of_le _ _ (by rw [UInt32.le_iff_toNat_le, hq, hskip]; omega), hq, hskip]
    have htake : (rcvRingTake c.tcb data).toNat = data.length := h.putsAll (by omega)
    rw [UInt32.lt_iff_toNat_lt, hwant, htake]
    omega
  exact .new data hle (by rw [hd, hskip]) hdlen
    (by simp only [oooDrainLoop, if_neg hhole, if_neg hdup, ← hd, if_neg hwhole])
    (by simp only [drainPuts, if_neg hhole, if_neg hdup, ← hd, if_neg hwhole])

end Drain

/-- Draining the queue: the pieces that continue the stream are appended, and
what stays parked is behind a hole. The induction is on the queue; its pieces
all lie within a ring's length of `rcv_nxt`, so that sequence numbers compare
as positions. -/
theorem oooDrainLoop_received (qs : List OooPkt) (c : Conn) (lo : Nat) (h : InOrder S D c.recv)
    (heof : c.recv.eof = false) (hlo : D.length ≤ lo)
    (hp : Parked S (c.recv.irs + 1) (D.length + 65535) lo qs) :
    Received S D (oooDrainLoop qs c).recv := by
  induction qs generalizing c lo with
  | nil =>
    unfold oooDrainLoop
    rw [Conn.recv_ooo]
    exact ⟨h.setOoo [], trivial⟩
  | cons q qs ih =>
    obtain ⟨p, hlop, hseq, hpos, hdata, hS, hhi, hrest⟩ := hp
    have hl := h.len_le
    have hr := h.length_le
    have hroom : RoomTo (c.recv.irs + 1) (D.length + c.recv.len.toNat) (D.length + 65535) c.recv :=
      ⟨hl, h.rcvNxt heof, by omega⟩
    cases hroom.drain hseq hhi (by omega) qs with
    | hole hlt hloop =>
      rw [hloop, Conn.recv_ooo]
      exact ⟨h.setOoo _, p, hlt, hseq, hpos, hdata, hS, hhi, hrest⟩
    | old hold hloop =>
      rw [hloop]
      exact ih c _ h heof (by omega) hrest
    | new data hpn hcut hdlen hloop =>
      have hpiece : data = slice S (D.length + c.recv.len.toNat) data.length := by
        have hrun : data = slice S (p + (D.length + c.recv.len.toNat - p))
            (q.data.length - (D.length + c.recv.len.toNat - p)) := by
          rw [hcut]
          conv_lhs => rw [hdata, Stream.drop_slice]
        rw [Nat.add_sub_cancel' hpn] at hrun
        conv_lhs => rw [hrun]
        congr 1
        omega
      obtain ⟨happ, hlen'⟩ := rcvAppend_inOrder h heof (by omega) hpiece
      have hsame := rcvAppend_same c data
      rw [hloop]
      exact ih (rcvAppend c data) (p + q.data.length) happ (hsame.eof.trans heof) (by omega)
        (by rw [hsame.irs]; exact hrest)

theorem tcpOooDrain_received (h : InOrder S D c.recv) (heof : c.recv.eof = false) {lo : Nat}
    (hlo : D.length ≤ lo) (hp : Parked S (c.recv.irs + 1) (D.length + 65535) lo c.recv.ooo) :
    Received S D (tcpOooDrain c).recv :=
  oooDrainLoop_received c.tcb.ooo c lo h heof hlo hp

/-- A piece that overlaps none of the parked ones finds its place among them. -/
theorem oooInsertSorted_parked {base : UInt32} {hi : Nat} {q : OooPkt} {p : Nat}
    (hseq : q.seq = pos base p) (hpos : 0 < q.data.length)
    (hdata : q.data = slice S p q.data.length)
    (hS : p + q.data.length ≤ S.length) (hhi : p + q.data.length ≤ hi) (qs : List OooPkt) (lo : Nat)
    (hlo : lo ≤ p) (hnear : hi ≤ lo + 65535) (hp : Parked S base hi lo qs)
    (hfree : ∀ x ∈ qs, oooOverlaps q.seq q.data x = false) :
    Parked S base hi lo (oooInsertSorted q qs) := by
  induction qs generalizing lo with
  | nil => exact ⟨p, hlo, hseq, hpos, hdata, hS, hhi, trivial⟩
  | cons x qs ih =>
    obtain ⟨px, hlox, hxseq, hxpos, hxdata, hxS, hxhi, hrest⟩ := hp
    have hlt : seqLt x.seq q.seq = true ↔ px < p := by
      rw [hxseq, hseq]
      exact seqLt_pos _ (by omega) (by omega)
    have hapart : px + x.data.length ≤ p ∨ p + q.data.length ≤ px := by
      have hno := hfree x List.mem_cons_self
      rw [oooOverlaps, hxseq, hseq, SeqSpace.pos_add, SeqSpace.pos_add, ← Bool.not_eq_true,
        Bool.and_eq_true, seqLt_pos _ (by omega) (by omega),
          seqLt_pos _ (by omega) (by omega)] at hno
      omega
    unfold oooInsertSorted
    split
    · rename_i hbefore
      rw [hlt] at hbefore
      refine ⟨px, hlox, hxseq, hxpos, hxdata, hxS, hxhi, ?_⟩
      exact ih _ (by omega) (by omega) hrest (fun y hy => hfree y (List.mem_cons_of_mem _ hy))
    · rename_i hafter
      rw [hlt] at hafter
      exact ⟨p, hlo, hseq, hpos, hdata, hS, hhi, px, by omega, hxseq, hxpos, hxdata, hxS, hxhi,
        hrest⟩

/-- Parking a piece of the stream behind a hole. -/
theorem tcpOooInsert_received (h : Received S D c.recv) {seq : UInt32} {data : List UInt8} {p : Nat}
    (hseq : seq = pos (c.recv.irs + 1) p) (hpos : 0 < data.length)
    (hdata : data = slice S p data.length) (hS : p + data.length ≤ S.length)
    (hhi : p + data.length ≤ D.length + 65535) (hhole : D.length + c.recv.len.toNat < p) :
    Received S D (tcpOooInsert c seq data).recv := by
  rcases tcpOooInsert_recv c seq data with hv | ⟨hfree, hv⟩ <;> rw [hv]
  · exact h
  · refine ⟨h.toInOrder.setOoo _, ?_⟩
    refine oooInsertSorted_parked (q := ⟨seq, data⟩) hseq hpos hdata hS hhi _ _ hhole ?_ h.parked ?_
    · omega
    · intro x hx
      rw [List.any_eq_false] at hfree
      simpa using hfree x hx

/-! ### The text of a segment -/

/-- The end of our window, as long as no FIN was consumed. -/
theorem InOrder.wndEnd (h : InOrder S D c.recv) (heof : c.recv.eof = false) :
    rcvWndEnd c.tcb = pos (c.recv.irs + 1) (D.length + 65535) := by
  have hl := h.len_le
  have hfree : (65535 - c.tcb.rcvLen).toNat = 65535 - c.recv.len.toNat := by
    rw [UInt32.toNat_sub_of_le _ _ (by rw [UInt32.le_iff_toNat_le]; exact hl)]
    rfl
  have hwnd : (tcpRcvWindow c.tcb).toUInt32 = UInt32.ofNat (65535 - c.recv.len.toNat) := by
    apply UInt32.toNat_inj.mp
    have hmax : (0xffff : UInt32).toNat = 65535 := rfl
    rw [UInt16.toNat_toUInt32, tcpRcvWindow, UInt32.toNat_toUInt16, pfMin_toNat, hfree, hmax,
      UInt32.toNat_ofNat']
    omega
  have hnxt := h.rcvNxt heof
  have hedge : D.length + c.recv.len.toNat + (65535 - c.recv.len.toNat) = D.length + 65535 := by
    omega
  rw [rcvWndEnd, hwnd, hnxt, SeqSpace.pos_add, hedge]

/-- A piece inside the window is delivered or parked. -/
theorem tcpRxInWindow_received (h : Received S D c.recv) (heof : c.recv.eof = false) {seq : UInt32}
    {data : List UInt8} {p : Nat} (hseq : seq = pos (c.recv.irs + 1) p)
    (hdata : data = slice S p data.length) (hS : p + data.length ≤ S.length)
    (hhi : p + data.length ≤ D.length + 65535) (hlo : D.length + c.recv.len.toNat ≤ p) (now : Nat) :
    Received S D (tcpRxInWindow c seq data now).recv := by
  have hnxt := h.rcvNxt heof
  unfold tcpRxInWindow
  split
  · exact h
  rename_i hpos
  split
  · rename_i heq
    have hp : p = D.length + c.recv.len.toNat := by
      rw [hseq, hnxt] at heq
      exact (SeqSpace.pos_inj _ (by omega) (by omega)).mp heq
    subst hp
    rw [tcpDelayAck_recv]
    obtain ⟨happ, -⟩ := rcvAppend_inOrder h.toInOrder heof (by omega) hdata
    have hsame := rcvAppend_same c data
    have hooo : (rcvAppend c data).recv.ooo = c.recv.ooo := by rw [rcvAppend_recv]
    exact tcpOooDrain_received happ (hsame.eof.trans heof)
      (by omega : D.length ≤ D.length + c.recv.len.toNat + 1)
      (by rw [hsame.irs, hooo]; exact h.parked)
  · rename_i hne
    rw [tcpSendCtl_recv]
    refine tcpOooInsert_received h hseq (by omega) hdata hS hhi ?_
    rcases Nat.lt_or_ge (D.length + c.recv.len.toNat) p with hlt | hge
    · exact hlt
    · exact absurd (by rw [hseq, hnxt, Nat.le_antisymm hge hlo]) hne

/-- A piece at or above `rcv_nxt` is cut at the end of the window. -/
theorem tcpRxTrimmed_received (h : Received S D c.recv) (heof : c.recv.eof = false) {seq : UInt32}
    {data : List UInt8} {p : Nat} (hseq : seq = pos (c.recv.irs + 1) p)
    (hdata : data = slice S p data.length) (hS : p + data.length ≤ S.length)
    (hlen : data.length ≤ 65535) (hlo : D.length + c.recv.len.toNat ≤ p)
    (hnear : p ≤ D.length + c.recv.len.toNat + 2 ^ 30) (now : Nat) :
    Received S D (tcpRxTrimmed c seq data now).recv := by
  have hl := h.len_le
  have hend := h.wndEnd heof
  unfold tcpRxTrimmed
  split
  · exact h
  rename_i hin
  rw [hseq, hend, seqGe_pos _ (by omega) (by omega)] at hin
  unfold trimTail
  split
  · have hcut : (rcvWndEnd c.tcb - seq).toNat = D.length + 65535 - p := by
      rw [hend, hseq]
      exact SeqSpace.pos_sub_toNat _ (by omega) (by omega)
    rename_i hover
    rw [hseq, SeqSpace.pos_add, hend, seqGt_pos _ (by omega) (by omega)] at hover
    have htake : (data.take (rcvWndEnd c.tcb - seq).toNat).length = D.length + 65535 - p := by
      rw [List.length_take, hcut]
      omega
    refine tcpRxInWindow_received h heof hseq ?_ (by omega) (by omega) hlo now
    rw [htake, hcut]
    conv_lhs => rw [hdata, Stream.take_slice, Nat.min_eq_left (by omega)]
  · rename_i hfits
    rw [hseq, SeqSpace.pos_add, hend, seqGt_pos _ (by omega) (by omega)] at hfits
    exact tcpRxInWindow_received h heof hseq hdata hS (by omega) hlo now

/-- Payload that is a piece of the stream, wherever it lies, keeps the receiving
side on the stream. -/
theorem tcpRxPayload_received (h : Received S D c.recv) (heof : c.recv.eof = false) {seq : UInt32}
    {data : List UInt8} {p : Nat} (hseq : seq = pos (c.recv.irs + 1) p)
    (hdata : data = slice S p data.length) (hS : p + data.length ≤ S.length)
    (hlen : data.length ≤ 65535) (hnear : p ≤ D.length + c.recv.len.toNat + 2 ^ 30)
    (hback : D.length + c.recv.len.toNat ≤ p + 2 ^ 30) (now : Nat) :
    Received S D (tcpRxPayload c seq data now).recv := by
  have hnxt := h.rcvNxt heof
  have hlt : seqLt seq c.tcb.rcvNxt = true ↔ p < D.length + c.recv.len.toNat := by
    rw [hseq, hnxt]
    exact seqLt_pos _ (by omega) (by omega)
  unfold tcpRxPayload
  split
  · rename_i hbefore
    rw [hlt] at hbefore
    have hskip : (c.tcb.rcvNxt - seq).toNat = D.length + c.recv.len.toNat - p := by
      rw [hseq, hnxt]
      exact SeqSpace.pos_sub_toNat _ (by omega) (by omega)
    simp only
    split
    · rw [tcpSendCtl_recv]
      exact h
    · rename_i hmore
      rw [ge_iff_le, UInt32.le_iff_toNat_le, hskip, UInt32.toNat_ofNat',
        Nat.mod_eq_of_lt (by omega)] at hmore
      have hdrop : (data.drop (c.tcb.rcvNxt - seq).toNat).length =
          p + data.length - (D.length + c.recv.len.toNat) := by
        rw [List.length_drop, hskip]
        omega
      refine tcpRxTrimmed_received h heof hnxt ?_ (by omega) (by omega) (Nat.le_refl _)
        (by omega) now
      rw [hdrop, hskip]
      conv_lhs => rw [hdata, Stream.drop_slice]
      congr 1 <;> omega
  · rename_i hafter
    rw [hlt] at hafter
    exact tcpRxTrimmed_received h heof hseq hdata hS hlen (by omega) hnear now

/-! ### The FIN of a segment -/

theorem Received.setState (h : Received S D v) {st : TcpState} (hne : st ≠ .synSent)
    (hst : st.pastFin = v.state.pastFin) : Received S D { v with state := st } :=
  ⟨⟨h.head_lt, h.len_le, h.bytes, h.nxt, hne, h.eof_state.trans hst.symm, h.eof_end⟩, h.parked⟩

theorem TcpState.takesData_pastFin (h : st.takesData = true) : st.pastFin = false := by
  cases st <;> simp_all [TcpState.takesData, TcpState.pastFin]

theorem rxFinState_pastFin (h : st.takesData = true) : (rxFinState st).pastFin = true := by
  cases st <;> simp_all [TcpState.takesData, rxFinState, TcpState.pastFin]

/-- The stream ends at `rcv_nxt`: the FIN is consumed. -/
theorem Received.fin (h : Received S D v) (hend : D.length + v.len.toNat = S.length) {st : TcpState}
    (hst : st.pastFin = true) {finSeq : UInt32} (hseq : finSeq = pos (v.irs + 1) S.length) :
    Received S D { v with state := st, nxt := finSeq + 1, eof := true } := by
  refine ⟨⟨h.head_lt, h.len_le, h.bytes, ?_, ?_, hst.symm, fun _ => hend⟩, h.parked⟩
  · rw [hseq, SeqSpace.pos_succ, ← hend]
    rfl
  · rintro rfl
    cases hst

/-- The segment carries the bytes of `S` its sequence numbers stand for, and
its FIN stands at the end of `S`; its position is within a quarter of the
sequence space of that of `rcv_nxt`. A segment without text and FIN is free. -/
def Carries (S D : List UInt8) (v : RecvView) (g : Seg) : Prop :=
  g.payload ≠ [] ∨ g.has tcpFin = true →
    ∃ p, g.seq = pos (v.irs + 1) p ∧ g.payload = slice S p g.payload.length ∧
      p + g.payload.length ≤ S.length ∧
      (g.has tcpFin = true → p + g.payload.length = S.length) ∧
      p ≤ D.length + v.len.toNat + v.eof.toNat + 2 ^ 30 ∧
      D.length + v.len.toNat + v.eof.toNat ≤ p + 2 ^ 30

theorem ackedState_pastFin (fin : Bool) (st : TcpState) :
    (ackedState fin st).pastFin = st.pastFin := by
  cases fin <;> cases st <;> rfl

theorem AckedTo.pastFin {st st' : TcpState} (h : AckedTo st st') : st'.pastFin = st.pastFin := by
  cases h <;> rfl

theorem AckedTo.started {st st' : TcpState} (h : AckedTo st st') (hst : st ≠ .synSent) :
    st' ≠ .synSent := by
  cases h with
  | same => exact hst
  | finWait | closing => decide

theorem tcpInputText_received (h : Received S D c.recv) {g : Seg} (hg : Carries S D c.recv g)
    (now : Nat) : Received S D (tcpInputText now g c).recv := by
  unfold tcpInputText
  split
  · rename_i hpay
    split
    · rename_i hst
      have heof : c.recv.eof = false := h.eof_state.trans (TcpState.takesData_pastFin hst)
      obtain ⟨p, hseq, hdata, hS, -, hnear, hback⟩ := hg (Or.inl (List.ne_nil_of_length_pos hpay))
      rw [heof, Bool.toNat_false, Nat.add_zero] at hnear hback
      have hlen := g.payload_lt
      exact tcpRxPayload_received h heof hseq hdata hS (by omega) hnear hback now
    · exact h
  · exact h

theorem tcpInputFin_received (h : Received S D c.recv) {g : Seg} {v : RecvView}
    (hg : Carries S D v g) (hirs : c.recv.irs = v.irs) (hlen : v.len.toNat ≤ 65535) (now : Nat) :
    Received S D (tcpInputFin now g c).recv := by
  unfold tcpInputFin
  split
  · rename_i hfin
    simp only [finInOrder, Bool.and_eq_true, Bool.or_eq_true, decide_eq_true_eq] at hfin
    obtain ⟨⟨hhas, hat⟩, hst⟩ := hfin
    obtain ⟨p, hseq, -, -, hend, hnear, -⟩ := hg (Or.inr hhas)
    have hl := h.len_le
    have hr := h.length_le
    have hone := Bool.toNat_le v.eof
    have hpay := g.payload_lt
    have hfinseq : g.seq + g.paylen = pos (c.recv.irs + 1) S.length := by
      rw [hseq, hirs, Seg.paylen, SeqSpace.pos_add, hend hhas]
    have hS := hend hhas
    rcases hst with hst | hst
    · have heof : c.recv.eof = false := h.eof_state.trans (TcpState.takesData_pastFin hst)
      have hall : D.length + c.recv.len.toNat = S.length := by
        rw [hfinseq, h.rcvNxt heof] at hat
        exact ((SeqSpace.pos_inj _ (by omega) (by omega)).mp hat).symm
      have hlive : c.recv.state ≠ .timeWait := by
        intro hw
        change c.recv.state.takesData = true at hst
        rw [hw] at hst
        cases hst
      rw [tcpTakeFin_recv, if_pos hlive]
      exact h.fin hall (rxFinState_pastFin hst) hfinseq
    · -- in TIME_WAIT the FIN was consumed before: this one is below `rcv_nxt`
      exfalso
      have heof : c.recv.eof = true := by
        rw [h.eof_state]
        change c.tcb.state.pastFin = true
        rw [hst]
        rfl
      have hn := h.nxt
      rw [heof, Bool.toNat_true, h.eof_end heof] at hn
      have hat' : pos (c.recv.irs + 1) S.length = c.recv.nxt := hfinseq.symm.trans hat
      rw [hn] at hat'
      have hpos := (SeqSpace.pos_inj _ (by omega) (by omega)).mp hat'
      omega
  · exact h

end Stream

/-! ### The seventh step -/

/-- The connection as the text of a segment finds it, past the handshake. -/
def textStepSynced (now : Nat) (g : Seg) (c : Conn) : Option Conn :=
  if seqGt g.ack c.tcb.sndNxt then none
  else
    let c := tcpInputSend now g c
    if c.fate = .alive then some c else none

/-- The connection as the seventh step of `tcp_input` finds it, `none` where
that step is not reached. -/
def textStep (now : Nat) (lroom : Option Bool) (g : Seg) (c : Conn) : Option Conn :=
  if c.tcb.state = .synSent then none
  else if !segAcceptable c.tcb g || g.has tcpRst || g.has tcpSyn || !g.has tcpAck then none
  else if c.tcb.state = .synRcvd then
    if seqLt c.tcb.sndUna g.ack && seqLe g.ack c.tcb.sndNxt then
      match lroom with
      | none => textStepSynced now g (tcpEstablish (c.setUna g.ack) g)
      | some true => textStepSynced now g { tcpEstablish (c.setUna g.ack) g with queued := true }
      | some false => none
    else none
  else textStepSynced now g c

section Text

variable {now : Nat} {lroom : Option Bool} {g : Seg} {c d : Conn}

/-- Only the state of the receiving side has changed, and not by a SYN or FIN of
the peer. -/
def StateOnly (v w : RecvView) : Prop :=
  ∃ st, st ≠ .synSent ∧ st.pastFin = v.state.pastFin ∧ w = { v with state := st }

theorem StateOnly.of_eq {v w : RecvView} (hst : v.state ≠ .synSent) (h : w = v) : StateOnly v w :=
  ⟨v.state, hst, rfl, h⟩

theorem tcpInputSend_stateOnly (now : Nat) (g : Seg) (hst : c.tcb.state ≠ .synSent) :
    StateOnly c.recv (tcpInputSend now g c).recv := by
  obtain ⟨st, hto, hview⟩ := tcpInputSend_recv now g c
  exact ⟨st, hto.started hst, hto.pastFin, hview⟩

theorem StateOnly.established {b : Bool} {w : RecvView} (hst : c.tcb.state = .synRcvd)
    (h : StateOnly { tcpEstablish (c.setUna g.ack) g with queued := b }.recv w) :
    StateOnly c.recv w := by
  obtain ⟨st, hne, hpast, hview⟩ := h
  refine ⟨st, hne, hpast.trans ?_, hview⟩
  change false = c.tcb.state.pastFin
  rw [hst]
  rfl

theorem textStepSynced_eq (hst : c.tcb.state ≠ .synSent) (h : textStepSynced now g c = some d) :
    StateOnly c.recv d.recv ∧
      tcpInputSynced now g c = tcpInputFin now g (tcpInputText now g d) := by
  unfold textStepSynced at h
  unfold tcpInputSynced
  split at h
  · cases h
  rename_i hack
  rw [if_neg hack]
  simp only at h ⊢
  split at h
  · rename_i hlive
    cases h
    exact ⟨tcpInputSend_stateOnly now g hst, if_pos hlive⟩
  · cases h

theorem textStep_eq (h : textStep now lroom g c = some d) :
    StateOnly c.recv d.recv ∧
      tcpInputConn now lroom g c = tcpInputFin now g (tcpInputText now g d) := by
  unfold textStep at h
  unfold tcpInputConn
  split at h
  · cases h
  rename_i hsent
  split at h
  · cases h
  rename_i hpass
  simp only [Bool.or_eq_true, Bool.not_eq_true', not_or, Bool.not_eq_true, Bool.not_eq_false]
    at hpass
  obtain ⟨⟨⟨hacc, hrst⟩, hsyn⟩, hack⟩ := hpass
  simp only [hsent, hacc, hrst, hsyn, hack, Bool.not_true, Bool.false_eq_true, if_false]
  split at h
  · rename_i hst
    rw [if_pos hst, tcpInputSynRcvd]
    split at h
    · rename_i hnew
      rw [if_pos hnew]
      cases lroom with
      | none =>
        obtain ⟨hview, heq⟩ := textStepSynced_eq TcpState.noConfusion h
        exact ⟨hview.established hst, heq⟩
      | some room =>
        cases room with
        | false => cases h
        | true =>
          obtain ⟨hview, heq⟩ := textStepSynced_eq TcpState.noConfusion h
          exact ⟨hview.established hst, heq⟩
    · cases h
  · rename_i hst
    rw [if_neg hst]
    exact textStepSynced_eq hsent h

/-- A segment with a SYN is never read. -/
theorem textStep_syn (h : textStep now lroom g c = some d) : g.has tcpSyn = false := by
  unfold textStep at h
  split at h
  · cases h
  split at h
  · cases h
  · rename_i hpass
    simp only [Bool.or_eq_true, not_or, Bool.not_eq_true] at hpass
    exact hpass.1.2

theorem textStepSynced_none (hst : c.tcb.state ≠ .synSent) (h : textStepSynced now g c = none) :
    StateOnly c.recv (tcpInputSynced now g c).recv := by
  unfold textStepSynced at h
  unfold tcpInputSynced
  split at h
  · rename_i hack
    rw [if_pos hack, tcpSendCtl_recv]
    exact .of_eq hst rfl
  · rename_i hack
    rw [if_neg hack]
    simp only at h ⊢
    split at h
    · cases h
    · rename_i hdead
      rw [if_neg hdead]
      exact tcpInputSend_stateOnly now g hst

/-- A segment whose text is not reached changes the state only, once the peer's
SYN was taken. -/
theorem textStep_started (hsent : c.tcb.state ≠ .synSent) (h : textStep now lroom g c = none) :
    StateOnly c.recv (tcpInputConn now lroom g c).recv := by
  have hcount (x : Stat) : (c.count x).recv = c.recv := rfl
  have hkeep {w : RecvView} (hw : w = c.recv) : StateOnly c.recv w := .of_eq hsent hw
  unfold textStep at h
  unfold tcpInputConn
  rw [if_neg hsent] at h ⊢
  by_cases hacc : segAcceptable c.tcb g = true
  swap
  · simp only [hacc, Bool.not_false, if_true]
    split
    · exact hkeep rfl
    · exact hkeep (by rw [tcpSendCtl_recv, hcount])
  by_cases hrst : g.has tcpRst = true
  · simp only [hacc, hrst, Bool.not_true, Bool.false_eq_true, if_false, if_true]
    exact hkeep (tcpInputRst_recv g c)
  by_cases hsyn : g.has tcpSyn = true
  · simp only [hacc, hrst, hsyn, Bool.not_true, Bool.false_eq_true, if_false, if_true]
    exact hkeep (by rw [tcpSendCtl_recv, hcount])
  by_cases hack : g.has tcpAck = true
  swap
  · simp only [hacc, hrst, hsyn, hack, Bool.not_true, Bool.not_false, Bool.false_eq_true, if_false,
      if_true]
    exact hkeep rfl
  simp only [hacc, hrst, hsyn, hack, Bool.not_true, Bool.false_eq_true, if_false, Bool.or_false]
    at h ⊢
  by_cases hst : c.tcb.state = .synRcvd
  · rw [if_pos hst] at h ⊢
    unfold tcpInputSynRcvd
    by_cases hin : (seqLt c.tcb.sndUna g.ack && seqLe g.ack c.tcb.sndNxt) = true
    · rw [if_pos hin] at h ⊢
      cases lroom with
      | none => exact (textStepSynced_none TcpState.noConfusion h).established hst
      | some room =>
        cases room with
        | true => exact (textStepSynced_none TcpState.noConfusion h).established hst
        | false =>
          simp only
          rw [tcpAppAbort_recv]
          exact (StateOnly.of_eq TcpState.noConfusion rfl).established (b := c.queued) hst
    · rw [if_neg hin]
      exact hkeep (tcpSendResetFor_recv c g)
  · rw [if_neg hst] at h ⊢
    exact textStepSynced_none hsent h

end Text

/-! ### Other events -/

/-- What an event other than a segment does to the receiving side. -/
inductive Unheard (c : Conn) : ConnEvent → RecvView → Prop where
  | same (e : ConnEvent) : Unheard c e c.recv
  | read (cap : Nat) (hlen : c.tcb.rcvLen > 0) :
      Unheard c (.recv cap) (rcvRelease (recvAmount c.tcb cap) c).recv
  | closes (now : Nat) {w : RecvView} (hst : c.tcb.state ≠ .synSent) (hw : StateOnly c.recv w) :
      Unheard c (.close now) w

theorem connHandle_unheard (c : Conn) {e : ConnEvent}
    (he : ∀ now lroom g, e ≠ .segment now lroom g) : Unheard c e (connHandle c e).recv := by
  have hsame {v : RecvView} (hv : v = c.recv) : Unheard c e v := hv ▸ .same e
  cases e with
  | segment now lroom g => exact absurd rfl (he now lroom g)
  | tick now => exact hsame (tcpTickConn_recv now c)
  | send now data => exact hsame (pfSendCopy_recv now data c)
  | recv cap =>
    change Unheard c (.recv cap) (pfRecvCopy cap c).recv
    rw [pfRecvCopy_recv]
    split
    · rename_i hlen
      exact .read cap hlen
    · exact .same _
  | close now =>
    have hmoved (st st' : TcpState) (hst : c.tcb.state = st) (hne : st ≠ .synSent)
        (hne' : st' ≠ .synSent) (hpast : st'.pastFin = st.pastFin)
        (hv : (tcpAppClose now c).recv = { c.recv with state := st' }) :
        Unheard c (.close now) (tcpAppClose now c).recv := by
      subst hst
      exact .closes now hne ⟨st', hne', hpast, hv⟩
    rcases tcpAppClose_recv now c with hv | ⟨hst, hv⟩ | ⟨hst, hv⟩
    · exact hsame hv
    · rcases hst with hst | hst <;> exact hmoved _ .finWait1 hst (by decide) (by decide) rfl hv
    · exact hmoved _ .lastAck hst (by decide) (by decide) rfl hv
  | nodelay | attach => exact hsame rfl

end PacketForge
