import PacketForge.Tcp.AckLedger
import PacketForge.Tcp.Ends
import PacketForge.Tcp.ReceiverRun

/-!
The receive window under arbitrary segments. `rcv_nxt` and the fill of the ring
move together over text, so that the right edge of the window stands still, and
a read moves it forward. Parked segments were cut at that edge, so whatever is
put into the ring finds room there, on the direct path and when the queue is
drained. What the segments carry is not assumed to be one stream.
-/

namespace PacketForge

open SeqSpace (pos)

/-! ### The calls of `rcv_ring_put` -/

/-- The calls for payload whose head overlap is already trimmed. -/
def trimmedPuts (c : Conn) (seq : UInt32) (data : List UInt8) : List (Tcb × List UInt8) :=
  if seqGe seq (rcvWndEnd c.tcb) then []
  else
    let data := trimTail c.tcb seq data
    if data.length = 0 then []
    else if seq = c.tcb.rcvNxt then
      (c.tcb, data) :: drainPuts (rcvAppend c data).tcb.ooo (rcvAppend c data)
    else []

def rxPuts (c : Conn) (seq : UInt32) (data : List UInt8) : List (Tcb × List UInt8) :=
  if seqLt seq c.tcb.rcvNxt then
    let skip := c.tcb.rcvNxt - seq
    if skip ≥ UInt32.ofNat data.length then []
    else trimmedPuts c c.tcb.rcvNxt (data.drop skip.toNat)
  else trimmedPuts c seq data

/-- All calls of `rcv_ring_put` while a segment is processed. -/
def ringPuts (now : Nat) (lroom : Option Bool) (g : Seg) (c : Conn) : List (Tcb × List UInt8) :=
  match textStep now lroom g c with
  | none => []
  | some d =>
    if g.payload.length > 0 && d.tcb.state.takesData then rxPuts d g.seq g.payload else []

/-- What the receiving side holds: the ring, its fill, and the parked packets. -/
def RecvView.held (v : RecvView) : (Nat → UInt8) × UInt32 × List OooPkt := (v.buf, v.len, v.ooo)

theorem textStep_none {now : Nat} {lroom : Option Bool} {g : Seg} {c : Conn}
    (h : textStep now lroom g c = none) :
    (tcpInputConn now lroom g c).recv.held = c.recv.held := by
  by_cases hsent : c.tcb.state = .synSent
  · rw [tcpInputConn, if_pos hsent]
    rcases tcpInputSynSent_recv now g c with hview | ⟨-, -, st, -, hview⟩ <;> rw [hview]
    rfl
  · obtain ⟨st, -, -, hview⟩ := textStep_started hsent h
    rw [hview]
    rfl

/-! ### The ring afterwards -/

def RecvView.ring (v : RecvView) : (Nat → UInt8) × UInt32 := (v.buf, v.len)

def ringAfter (ring : (Nat → UInt8) × UInt32) (puts : List (Tcb × List UInt8)) :
    (Nat → UInt8) × UInt32 :=
  puts.foldl (fun _ put => ((rcvRingPut put.1 put.2).rcvbuf, (rcvRingPut put.1 put.2).rcvLen)) ring

theorem rcvAppend_ring (c : Conn) (data : List UInt8) :
    (rcvAppend c data).recv.ring =
      ((rcvRingPut c.tcb data).rcvbuf, (rcvRingPut c.tcb data).rcvLen) := by
  have hset (t : Tcb) (n : UInt32) (x : UInt64) :
      ({ c with tcb := { t with rcvNxt := n } }.countBy .tcpRxBytes x).recv.ring =
        (t.rcvbuf, t.rcvLen) := rfl
  exact hset _ _ _

theorem oooDrainLoop_ring (qs : List OooPkt) (c : Conn) :
    (oooDrainLoop qs c).recv.ring = ringAfter c.recv.ring (drainPuts qs c) := by
  have hooo (d : Conn) (rs : List OooPkt) :
      { d with tcb := { d.tcb with ooo := rs } }.recv.ring = d.recv.ring := rfl
  induction qs generalizing c with
  | nil => exact hooo c []
  | cons q qs ih =>
    unfold oooDrainLoop drainPuts
    simp only
    split
    · exact hooo c _
    split
    · exact ih c
    set data := q.data.drop (c.tcb.rcvNxt - q.seq).toNat
    rw [ringAfter, List.foldl_cons, ← rcvAppend_ring c data]
    split
    · exact hooo _ _
    · exact ih _

theorem tcpRxTrimmed_ring (c : Conn) (seq : UInt32) (data : List UInt8) (now : Nat) :
    (tcpRxTrimmed c seq data now).recv.ring = ringAfter c.recv.ring (trimmedPuts c seq data) := by
  unfold tcpRxTrimmed trimmedPuts
  split
  · rfl
  unfold tcpRxInWindow
  simp only
  split
  · rfl
  split
  · rw [tcpDelayAck_recv, tcpOooDrain, oooDrainLoop_ring, rcvAppend_ring, ringAfter, ringAfter,
      List.foldl_cons]
  · rw [tcpSendCtl_recv]
    rcases tcpOooInsert_recv c seq (trimTail c.tcb seq data) with hv | ⟨-, hv⟩ <;> rw [hv] <;> rfl

theorem tcpRxPayload_ring (c : Conn) (seq : UInt32) (data : List UInt8) (now : Nat) :
    (tcpRxPayload c seq data now).recv.ring = ringAfter c.recv.ring (rxPuts c seq data) := by
  unfold tcpRxPayload rxPuts
  split
  · simp only
    split
    · rw [tcpSendCtl_recv]
      rfl
    · exact tcpRxTrimmed_ring c _ _ now
  · exact tcpRxTrimmed_ring c _ _ now

theorem tcpInputFin_ring (now : Nat) (g : Seg) (c : Conn) :
    (tcpInputFin now g c).recv.ring = c.recv.ring := by
  unfold tcpInputFin
  split
  · rw [tcpTakeFin_recv]
    rfl
  · rfl

theorem tcpInputText_ring (now : Nat) (g : Seg) (c : Conn) :
    (tcpInputText now g c).recv.ring =
      ringAfter c.recv.ring
        (if g.payload.length > 0 && c.tcb.state.takesData then rxPuts c g.seq g.payload
        else []) := by
  unfold tcpInputText
  by_cases hlen : g.payload.length > 0
  · by_cases hst : c.tcb.state.takesData = true
    · rw [if_pos hlen, if_pos hst, if_pos (by simp [hlen, hst])]
      exact tcpRxPayload_ring c _ _ now
    · rw [if_pos hlen, if_neg hst, if_neg (by simp [hst])]
      rfl
  · rw [if_neg hlen, if_neg (by simp [hlen])]
    rfl

/-- The listed calls account for the ring: what a segment leaves in it is what
they wrote. -/
theorem tcpInputConn_ring (now : Nat) (lroom : Option Bool) (g : Seg) (c : Conn) :
    (tcpInputConn now lroom g c).recv.ring = ringAfter c.recv.ring (ringPuts now lroom g c) := by
  unfold ringPuts
  cases htext : textStep now lroom g c with
  | none => exact congrArg (fun held => (held.1, held.2.1)) (textStep_none htext)
  | some d =>
    obtain ⟨⟨st, -, -, hview⟩, heq⟩ := textStep_eq htext
    have hring : d.recv.ring = c.recv.ring := by
      rw [hview]
      rfl
    rw [heq, tcpInputFin_ring, tcpInputText_ring, hring]

/-! ### The queue -/

/-- The packets are disjoint, in order and not empty, from position `lo` up to
`hi`. -/
def Fits (base : UInt32) (hi : Nat) : Nat → List OooPkt → Prop
  | _, [] => True
  | lo, q :: qs =>
    ∃ p, lo ≤ p ∧ q.seq = pos base p ∧ 0 < q.data.length ∧ p + q.data.length ≤ hi ∧
      Fits base hi (p + q.data.length) qs

theorem Fits.widen {base : UInt32} {hi hi' lo : Nat} {qs : List OooPkt} (h : Fits base hi lo qs)
    (hle : hi ≤ hi') : Fits base hi' lo qs := by
  induction qs generalizing lo with
  | nil => trivial
  | cons q qs ih =>
    obtain ⟨p, hlo, hseq, hpos, hhi, hrest⟩ := h
    exact ⟨p, hlo, hseq, hpos, hhi.trans hle, ih hrest⟩

/-- A packet that overlaps none of the parked ones finds its place among them. -/
theorem oooInsertSorted_fits {base : UInt32} {hi : Nat} {q : OooPkt} {p : Nat}
    (hseq : q.seq = pos base p) (hpos : 0 < q.data.length) (hhi : p + q.data.length ≤ hi)
    (qs : List OooPkt) (lo : Nat) (hlo : lo ≤ p) (hnear : hi ≤ lo + 65535) (hp : Fits base hi lo qs)
    (hfree : ∀ x ∈ qs, oooOverlaps q.seq q.data x = false) :
    Fits base hi lo (oooInsertSorted q qs) := by
  induction qs generalizing lo with
  | nil => exact ⟨p, hlo, hseq, hpos, hhi, trivial⟩
  | cons x qs ih =>
    obtain ⟨px, hlox, hxseq, hxpos, hxhi, hrest⟩ := hp
    have hlt : seqLt x.seq q.seq = true ↔ px < p := by
      rw [hxseq, hseq]
      exact seqLt_pos _ (by omega) (by omega)
    have hapart : px + x.data.length ≤ p ∨ p + q.data.length ≤ px := by
      have hno := hfree x List.mem_cons_self
      rw [oooOverlaps, hxseq, hseq, SeqSpace.pos_add, SeqSpace.pos_add, ← Bool.not_eq_true,
        Bool.and_eq_true, seqLt_pos _ (by omega) (by omega),
          seqLt_pos _ (by omega) (by omega)] at hno
      omega
    unfold oooInsertSorted
    split
    · rename_i hbefore
      rw [hlt] at hbefore
      refine ⟨px, hlox, hxseq, hxpos, hxhi, ?_⟩
      exact ih _ (by omega) (by omega) hrest (fun y hy => hfree y (List.mem_cons_of_mem _ hy))
    · rename_i hafter
      rw [hlt] at hafter
      exact ⟨p, hlo, hseq, hpos, hhi, px, by omega, hxseq, hxpos, hxhi, hrest⟩

section Ring

variable {base : UInt32} {n hi : Nat} {c : Conn}

theorem RoomTo.append (h : RoomTo base n hi c.recv) {data : List UInt8}
    (hfit : n + data.length ≤ hi) : RoomTo base (n + data.length) hi (rcvAppend c data).recv := by
  have hlen := h.len_le
  have hedge := h.edge
  have hput : (rcvRingTake c.tcb data).toNat = data.length := h.putsAll hfit
  have htake : rcvRingTake c.tcb data = UInt32.ofNat data.length := by
    rw [← hput, UInt32.ofNat_toNat]
  have hnew : (c.recv.len + rcvRingTake c.tcb data).toNat = c.recv.len.toNat + data.length := by
    rw [UInt32.toNat_add, hput]
    omega
  rw [rcvAppend_recv]
  refine ⟨?_, ?_, ?_⟩
  · simp only [hnew]
    omega
  · simp only [htake, h.nxt, SeqSpace.pos_add]
  · simp only [hnew]
    omega

/-- Draining the queue: every call finds room, and what stays parked is behind
a hole. `rcv_nxt` comes no further than the queue reaches. The induction is on
the queue. -/
theorem drain_room {lim : Nat} (qs : List OooPkt) (lo : Nat) (h : RoomTo base n hi c.recv)
    (hlim : lim ≤ hi) (hle : n ≤ lim) (hnear : lim ≤ lo + 65535) (hn : n ≤ lo + 65535)
    (hp : Fits base lim lo qs) :
    (∀ put ∈ drainPuts qs c, PutsAll put) ∧
      ∃ m, n ≤ m ∧ m ≤ lim ∧ RoomTo base m hi (oooDrainLoop qs c).recv ∧
        Fits base lim (m + 1) (oooDrainLoop qs c).recv.ooo := by
  induction qs generalizing c n lo with
  | nil =>
    unfold oooDrainLoop
    rw [Conn.recv_ooo]
    exact ⟨by simp [drainPuts], n, Nat.le_refl n, hle, ⟨h.len_le, h.nxt, h.edge⟩, trivial⟩
  | cons q qs ih =>
    obtain ⟨p, hlop, hseq, hpos, hhi, hrest⟩ := hp
    cases h.drain hseq (by omega) (by omega) qs with
    | hole hlt hloop hputs =>
      rw [hloop, hputs, Conn.recv_ooo]
      exact ⟨by simp, n, Nat.le_refl n, hle, ⟨h.len_le, h.nxt, h.edge⟩, p, hlt, hseq, hpos, hhi,
        hrest⟩
    | old hold hloop hputs =>
      rw [hloop, hputs]
      exact ih _ h hle (by omega) (by omega) hrest
    | new data hpn hdata hdlen hloop hputs =>
      rw [hloop, hputs]
      have happ : RoomTo base (n + data.length) hi (rcvAppend c data).recv := h.append (by omega)
      obtain ⟨hrun, m, hm, hroom⟩ := ih _ happ (by omega) (by omega) (by omega) hrest
      refine ⟨?_, m, by omega, hroom⟩
      intro put hput
      rcases List.mem_cons.mp hput with rfl | hput
      · exact h.putsAll (by omega)
      · exact hrun put hput

end Ring

/-! ### The invariant -/

/-- The queue fits the window, as long as text is still expected. -/
structure QueueOk (v : RecvView) : Prop where
  blank : v.state = .synSent → v.len = 0 ∧ v.ooo = []
  room : v.state ≠ .synSent → v.state.pastFin = false →
    ∃ base n hi, RoomTo base n hi v ∧ Fits base hi (n + 1) v.ooo

theorem Parked.fits {S : List UInt8} {base : UInt32} {hi lo : Nat} {qs : List OooPkt}
    (h : Parked S base hi lo qs) : Fits base hi lo qs := by
  induction qs generalizing lo with
  | nil => trivial
  | cons q qs ih =>
    obtain ⟨p, hlo, hseq, hpos, -, -, hhi, hrest⟩ := h
    exact ⟨p, hlo, hseq, hpos, hhi, ih hrest⟩

/-- A receiver that holds a stream has a queue that fits. -/
theorem RecvOk.queueOk {S D : List UInt8} {v : RecvView} (h : RecvOk S D v) : QueueOk v := by
  rcases h with hb | hr
  · exact ⟨fun _ => ⟨hb.len, hb.ooo⟩, fun hne => absurd hb.state hne⟩
  · refine ⟨fun hs => absurd hs hr.started, fun _ hpast => ?_⟩
    have hnxt := hr.nxt
    rw [hr.eof_state.trans hpast, Bool.toNat_false, Nat.add_zero] at hnxt
    exact ⟨_, _, _, ⟨hr.len_le, hnxt, by omega⟩, hr.parked.fits⟩

namespace QueueOk

variable {c : Conn}

theorem text (h : QueueOk c.recv) {data : List UInt8} (hst : c.tcb.state.takesData = true)
    (hfit : data.length ≤ (tcpRcvWindow c.tcb).toNat) :
    PutsAll (c.tcb, data) ∧
      (∀ put ∈ drainPuts (rcvAppend c data).tcb.ooo (rcvAppend c data), PutsAll put) ∧
      QueueOk (tcpOooDrain (rcvAppend c data)).recv := by
  have hne : c.recv.state ≠ .synSent := (takesData_sync hst).1
  obtain ⟨base, n, hi, hroom, hqueue⟩ := h.room hne (TcpState.takesData_pastFin hst)
  have hlen := hroom.len_le
  have hedge := hroom.edge
  have hwnd : (tcpRcvWindow c.tcb).toNat = 65535 - c.recv.len.toNat := windowOf_toNat hlen
  have hooo (d : Conn) : d.tcb.ooo = d.recv.ooo := rfl
  have hsame : (rcvAppend c data).tcb.ooo = c.recv.ooo := by rw [hooo, rcvAppend_recv]
  have happ : RoomTo base (n + data.length) hi (rcvAppend c data).recv := hroom.append (by omega)
  obtain ⟨hputs, m, -, -, hroom', hqueue'⟩ := drain_room (rcvAppend c data).tcb.ooo (n + 1) happ
    (Nat.le_refl hi) (by omega) (by omega) (by omega) (by rw [hsame]; exact hqueue)
  refine ⟨hroom.putsAll (by omega), hputs, ?_, ?_⟩
  · intro hs
    have hsame : (tcpOooDrain (rcvAppend c data)).recv.state = c.recv.state :=
      ((rcvAppend_same c data).trans (oooDrainLoop_same _ _)).state
    exact absurd (hsame.symm.trans hs) hne
  · exact fun _ _ => ⟨base, m, hi, hroom', hqueue'⟩

theorem park (h : QueueOk c.recv) {seq : UInt32} {data : List UInt8}
    (hst : c.tcb.state.takesData = true) (hpos : data ≠ []) (hgap : seq ≠ c.tcb.rcvNxt)
    (hfit : (seq - c.tcb.rcvNxt).toNat + data.length ≤ (tcpRcvWindow c.tcb).toNat)
    (hfree : c.tcb.ooo.any (oooOverlaps seq data) = false) :
    QueueOk { c.recv with ooo := oooInsertSorted ⟨seq, data⟩ c.recv.ooo } := by
  have hne : c.recv.state ≠ .synSent := (takesData_sync hst).1
  obtain ⟨base, n, hi, hroom, hqueue⟩ := h.room hne (TcpState.takesData_pastFin hst)
  have hlen := hroom.len_le
  have hedge := hroom.edge
  have hwnd : (tcpRcvWindow c.tcb).toNat = 65535 - c.recv.len.toNat := windowOf_toNat hlen
  have hnxt : c.tcb.rcvNxt = pos base n := hroom.nxt
  have hseq : seq = pos base (n + (seq - c.tcb.rcvNxt).toNat) := by
    rw [← SeqSpace.pos_pos, ← hnxt]
    exact SeqSpace.eq_pos seq c.tcb.rcvNxt
  have hpast : (seq - c.tcb.rcvNxt).toNat ≠ 0 := by
    rw [ne_eq, SeqSpace.toNat_sub_eq_zero_iff]
    exact hgap
  refine ⟨fun hs => absurd hs hne, fun _ _ => ⟨base, n, hi, ⟨hlen, hroom.nxt, hedge⟩, ?_⟩⟩
  refine oooInsertSorted_fits (q := ⟨seq, data⟩) hseq (List.length_pos_iff.mpr hpos) ?_ _ _ ?_ ?_
    hqueue ?_
  · change n + _ + data.length ≤ hi
    omega
  · omega
  · omega
  · intro x hx
    rw [List.any_eq_false] at hfree
    simpa using hfree x hx

theorem read (h : QueueOk c.recv) {k : UInt32} (hk : k ≤ c.tcb.rcvLen) :
    QueueOk (rcvRelease k c).recv := by
  have hview : (rcvRelease k c).recv =
      { c.recv with head := (c.recv.head + k) % 65535, len := c.recv.len - k } := rfl
  have hsub : (c.recv.len - k).toNat = c.recv.len.toNat - k.toNat := UInt32.toNat_sub_of_le _ _ hk
  have hle : k.toNat ≤ c.recv.len.toNat := UInt32.le_iff_toNat_le.mp hk
  rw [hview]
  refine ⟨?_, ?_⟩
  · intro hs
    obtain ⟨hz, hooo⟩ := h.blank hs
    refine ⟨UInt32.toNat_inj.mp ?_, hooo⟩
    have hz' : c.recv.len.toNat = 0 := by
      rw [hz]
      rfl
    change (c.recv.len - k).toNat = 0
    omega
  · intro hs hpast
    obtain ⟨base, n, hi, hroom, hqueue⟩ := h.room hs hpast
    have hlen := hroom.len_le
    have hedge := hroom.edge
    refine ⟨base, n, hi + k.toNat, ⟨?_, hroom.nxt, ?_⟩, hqueue.widen (Nat.le_add_right _ _)⟩
    · change (c.recv.len - k).toNat ≤ 65535
      omega
    · change n + 65535 = hi + k.toNat + (c.recv.len - k).toNat
      omega

theorem setState {v : RecvView} (h : QueueOk v) {st : TcpState} (hv : v.state ≠ .synSent)
    (hst : st ≠ .synSent) (hpast : st.pastFin = v.state.pastFin) :
    QueueOk { v with state := st } := by
  refine ⟨fun hs => absurd hs hst, fun _ hp => ?_⟩
  obtain ⟨base, n, hi, hroom, hqueue⟩ := h.room hv (hpast.symm.trans hp)
  exact ⟨base, n, hi, ⟨hroom.len_le, hroom.nxt, hroom.edge⟩, hqueue⟩

/-- Every stage keeps the queue inside the window. -/
theorem stage {v : RecvView} (h : QueueOk c.recv) (hs : RecvStage c v) : QueueOk v := by
  have hstate : c.recv.state = c.tcb.state := rfl
  cases hs with
  | same => exact h
  | syn st g hst hst' =>
    obtain ⟨hz, hooo⟩ := h.blank hst
    have hne : st ≠ .synSent := by rcases hst' with rfl | rfl <;> simp
    refine ⟨fun hs => absurd hs hne, fun _ _ => ⟨g.seq + 1, 0, 65535, ⟨?_, ?_, ?_⟩, ?_⟩⟩
    · change c.recv.len.toNat ≤ 65535
      rw [hz]
      exact Nat.zero_le _
    · exact (SeqSpace.pos_zero _).symm
    · change 0 + 65535 = 65535 + c.recv.len.toNat
      rw [hz]
      rfl
    · change Fits _ _ _ c.recv.ooo
      rw [hooo]
      trivial
  | answered hst =>
    refine h.setState ?_ (by simp) ?_ <;> rw [hstate, hst]
    · simp
    · rfl
  | acked g hsync =>
    refine h.setState (by rw [hstate]; exact hsync.1) (ackedState_sync hsync).1 ?_
    rw [hstate]
    cases finAcked c.tcb g.ack <;> cases c.tcb.state <;> rfl
  | text data hst hpos hfit => exact (h.text hst hfit).2.2
  | park seq data hst hpos hgap hfit hfree => exact h.park hst hpos hgap hfit hfree
  | fin g hfin =>
    simp only [finInOrder, Bool.and_eq_true, Bool.or_eq_true, decide_eq_true_eq] at hfin
    have hpast : (rxFinState c.recv.state).pastFin = true := by
      rcases hfin.2 with hdata | hw
      · exact rxFinState_pastFin hdata
      · rw [hstate, hw]
        rfl
    refine ⟨?_, fun _ hno => absurd (hpast.symm.trans hno) (by simp)⟩
    intro hs
    change rxFinState c.recv.state = .synSent at hs
    rw [hs] at hpast
    cases hpast
  | close st hst =>
    have hsource : c.recv.state ≠ .synSent ∧ st.pastFin = c.recv.state.pastFin := by
      rw [hstate]
      revert hst
      generalize c.tcb.state = st₀
      intro hst
      cases hst <;> exact ⟨by simp, rfl⟩
    exact h.setState hsource.1 hst.synced.1 hsource.2
  | read k hk => exact h.read hk

end QueueOk

/-! ### Every call takes all it is given -/

section Puts

variable {c : Conn}

theorem trimmedPuts_all (h : QueueOk c.recv) (hst : c.tcb.state.takesData = true) {seq : UInt32}
    {data : List UInt8} (hlen : data.length < 2 ^ 16) (hlo : (seq - c.tcb.rcvNxt).toNat < 2 ^ 31) :
    ∀ put ∈ trimmedPuts c seq data, PutsAll put := by
  unfold trimmedPuts
  split
  · simp
  rename_i hin
  have hfit := trimTail_fits hlen hlo (by simpa using hin)
  simp only
  split
  · simp
  split
  · obtain ⟨hput, hdrain, -⟩ := h.text hst (by omega : (trimTail c.tcb seq data).length ≤ _)
    intro put hmem
    rcases List.mem_cons.mp hmem with rfl | hmem
    · exact hput
    · exact hdrain put hmem
  · simp

theorem rxPuts_all (h : QueueOk c.recv) (hst : c.tcb.state.takesData = true) {seq : UInt32}
    {data : List UInt8} (hlen : data.length < 2 ^ 16) : ∀ put ∈ rxPuts c seq data, PutsAll put := by
  unfold rxPuts
  split
  · simp only
    split
    · simp
    · apply trimmedPuts_all h hst
      · rw [List.length_drop]
        omega
      · rw [UInt32.sub_self]
        decide
  · rename_i hge
    rw [seqLt_iff] at hge
    exact trimmedPuts_all h hst hlen (by omega)

theorem textStep_queueOk {now : Nat} {lroom : Option Bool} {g : Seg} {d : Conn}
    (h : QueueOk c.recv) (hd : textStep now lroom g c = some d) : QueueOk d.recv := by
  have hsent : c.tcb.state ≠ .synSent := by
    intro hst
    unfold textStep at hd
    rw [if_pos hst] at hd
    cases hd
  obtain ⟨⟨st, hst, hpast, hview⟩, -⟩ := textStep_eq hd
  rw [hview]
  exact h.setState hsent hst hpast

theorem ringPuts_all (h : QueueOk c.recv) (now : Nat) (lroom : Option Bool) (g : Seg) :
    ∀ put ∈ ringPuts now lroom g c, PutsAll put := by
  unfold ringPuts
  split
  · simp
  · rename_i d hd
    split
    · rename_i htakes
      rw [Bool.and_eq_true] at htakes
      exact rxPuts_all (textStep_queueOk h hd) htakes.2 g.payload_lt
    · simp

end Puts

/-! ### Runs -/

theorem Ends.acks {e : ConnEvent} {c d : Conn} (h : Ends e c d) (hout : c.out = []) :
    ackSegs d.out = [] ∨ ∃ g, ackSegs d.out = [g] ∧ c.acks.Says g := by
  have hquiet {x : Conn} (hx : x.out = c.out) : ackSegs x.out = [] := by
    rw [hx, hout]
    rfl
  have hreset {x : Conn}
      (hx : x.acks.out = [] ∧ x.acks.nxt = c.acks.nxt ∧ x.acks.len = c.acks.len) :
      ∃ g, ackSegs (tcpSendCtl x (tcpRst ||| tcpAck)).out = [g] ∧ c.acks.Says g := by
    obtain ⟨seq, hsent⟩ := tcpSendCtl_acks x (tcpRst ||| tcpAck)
    have hack : (tcpSegment x.tcb (tcpRst ||| tcpAck) seq 0 0).has tcpAck = true := by
      rw [tcpSegment_has]
      decide
    have hsaid := tcpSegment_says x seq 0 0 hack
    rw [AckView.Says, hx.2.1, hx.2.2] at hsaid
    rw [AckView.sent_ack _ hack] at hsent
    have hlast : (tcpSendCtl x (tcpRst ||| tcpAck)).out =
        x.acks.out ++ [tcpSegment x.tcb (tcpRst ||| tcpAck) seq 0 0] := congrArg AckView.out hsent
    refine ⟨_, ?_, hsaid⟩
    rw [hlast, hx.1]
    exact ackSegs_ack [] hack
  cases h with
  | refused now lroom g hst hrst => exact Or.inl (hquiet rfl)
  | reset now lroom g err hst hrst hd hfate htcb ho hq => exact Or.inl (hquiet ho)
  | full now g hst =>
    right
    have hst' : ((tcpEstablish (c.setUna g.ack) g).count .tcpAcceptDrops).tcb.state ≠ .listen ∧
        ((tcpEstablish (c.setUna g.ack) g).count .tcpAcceptDrops).tcb.state ≠ .synSent :=
      ⟨TcpState.noConfusion, TcpState.noConfusion⟩
    unfold tcpAppAbort
    simp only
    rw [if_pos hst']
    exact hreset ⟨hout, rfl, rfl⟩
  | lastAck now lroom g hst hrst hfin =>
    exact Or.inl (hquiet (congrArg AckView.out (ackNew_acks now g.ack c)))
  | timeWait now hst hdue => exact Or.inl (hquiet rfl)
  | timedOut now hst harmed hdue hmax => exact Or.inr (hreset ⟨hout, rfl, rfl⟩)
  | closed now hst => exact Or.inl (hquiet rfl)

namespace AckHist

variable {h : AckHist} {e : ConnEvent}

theorem Settled.chain (hs : h.Settled) : h.acks.IsChain Forward := by
  have hnil : h.acks ++ ackSegs [] = h.acks := List.append_nil _
  rcases hs (.recv 0) with ⟨-, hnone⟩ | ⟨last, -, -, hchain⟩
  · change h.acks ++ ackSegs [] = [] at hnone
    rw [← hnil, hnone]
    exact List.isChain_nil
  · rw [← hnil]
    exact hchain

theorem Settled.edge (hs : h.Settled) {last : Seg} (hlast : h.acks.getLast? = some last) :
    Edge last (Conn.start h.conn.tcb h.conn.stats).acks := by
  have hnil : h.acks ++ ackSegs [] = h.acks := List.append_nil _
  rcases hs (.recv 0) with ⟨-, hnone⟩ | ⟨last', hlast', hl, -⟩
  · change h.acks ++ ackSegs [] = [] at hnone
    rw [← hnil, hnone] at hlast
    cases hlast
  · change (h.acks ++ ackSegs []).getLast? = some last' at hlast'
    rw [hnil, hlast] at hlast'
    cases hlast'
    exact hl.toEdge

/-- The last event of a connection takes back no window either. -/
theorem Settled.ends (hs : h.Settled) (halive : h.conn.fate = .alive)
    (hend : (connStep h.conn e).fate ≠ .alive) : (h.step e).acks.IsChain Forward := by
  have heq : connStep h.conn e = connHandle (Conn.start h.conn.tcb h.conn.stats) e := by
    simp only [connStep, halive]
  rw [heq] at hend
  have hacks : (h.step e).acks =
      h.acks ++ ackSegs (connHandle (Conn.start h.conn.tcb h.conn.stats) e).out := by
    rw [← heq]
    rfl
  rw [hacks]
  rcases (connHandle_ends hend).acks rfl with hnone | ⟨g, hone, hsaid⟩
  · rw [hnone, List.append_nil]
    exact hs.chain
  · rw [hone, List.isChain_append]
    refine ⟨hs.chain, List.isChain_singleton g, ?_⟩
    intro x hx y hy
    cases hy
    exact (hs.edge hx).forward hsaid

theorem Reach.chain (hr : Reach h) : h.acks.IsChain Forward := by
  induction hr with
  | start hopens => exact hopens.settled.chain
  | @next h hr e _ ih =>
    cases hfate : h.conn.fate with
    | freed err =>
      have hacks : (h.step e).acks = h.acks := by
        simp only [AckHist.step, connStep, hfate]
        exact List.append_nil _
      rw [hacks]
      exact ih
    | alive =>
      have hs := (Reach.settled hr hfate).1
      by_cases hend : (connStep h.conn e).fate = .alive
      · exact (Reach.settled (.next hr e trivial) hend).1.chain
      · exact hs.ends hfate hend

theorem Reach.queueOk (hr : Reach h) (halive : h.conn.fate = .alive) : QueueOk h.conn.recv := by
  induction hr with
  | start hopens => exact (hopens.1.recvOk []).queueOk
  | @next h hr e _ ih =>
    have hlive : h.conn.fate = .alive := connStep_live halive
    exact (connStep_keeps (P := fun c => QueueOk c.recv)
      (fun c d hstage _ hq => hq.stage hstage.recvStage)
      hlive (Reach.settled hr hlive).2 (ih hlive) halive).1

end AckHist

/-- The receiver never takes back window. In every run the receive ring is
never overfull; of any two consecutive segments with the ACK flag the later one
advertises a right edge that is not to the left of the earlier one's; and
whatever segment comes next, what it leaves in the ring was written by calls of
`rcv_ring_put` each of which took all the bytes it was given. -/
theorem window_never_taken_back {h : AckHist} (hr : AckHist.Reach h) :
    h.acks.IsChain (fun g g' =>
      seqGe (g'.ack + g'.wnd.toUInt32) (g.ack + g.wnd.toUInt32) = true) ∧
    (h.conn.fate = .alive →
      h.conn.tcb.rcvLen.toNat ≤ tcpRcvbuf ∧
      ∀ now lroom g,
        (tcpInputConn now lroom g (Conn.start h.conn.tcb h.conn.stats)).recv.ring =
          ringAfter h.conn.recv.ring
            (ringPuts now lroom g (Conn.start h.conn.tcb h.conn.stats)) ∧
        ∀ put ∈ ringPuts now lroom g (Conn.start h.conn.tcb h.conn.stats),
          (rcvRingTake put.1 put.2).toNat = put.2.length) := by
  refine ⟨hr.chain, fun halive => ⟨?_, ?_⟩⟩
  · rcases (hr.settled halive).1 (.recv 0) with ⟨hblank, -⟩ | ⟨last, -, hl, -⟩
    · have hlen : h.conn.tcb.rcvLen = 0 := hblank.len
      rw [hlen]
      exact Nat.zero_le _
    · exact hl.len_le
  · intro now lroom g
    refine ⟨tcpInputConn_ring now lroom g _, fun put hput => ?_⟩
    have hq : QueueOk (Conn.start h.conn.tcb h.conn.stats).recv := hr.queueOk halive
    exact ringPuts_all hq now lroom g put hput

/-- A byte behind a hole is parked; the byte that fills the hole is put into the
ring together with it. -/
theorem window_never_taken_back_hole_filled :
    let h := oneByteHist.step (.segment 6 none (peerByte 303 101 9))
    let puts := ringPuts 7 none (peerByte 302 101 8) (Conn.start h.conn.tcb h.conn.stats)
    h.acks.map (fun g => (g.ack, g.wnd)) = [(301, 65535), (302, 65534)] ∧
      puts.map Prod.snd = [[8], [9]] ∧
      ∀ put ∈ puts, (rcvRingTake put.1 put.2).toNat = put.2.length := by
  have hreach : AckHist.Reach (oneByteHist.step (.segment 6 none (peerByte 303 101 9))) :=
    .next oneByteHist_reach _ trivial
  exact ⟨by decide +kernel, by decide +kernel,
    (((window_never_taken_back hreach).2 (by decide +kernel)).2 7 none (peerByte 302 101 8)).2⟩

end PacketForge
