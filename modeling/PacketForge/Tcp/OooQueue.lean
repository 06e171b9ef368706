import PacketForge.Core.Pkt
import PacketForge.Lib.Checked
import PacketForge.Lib.LinkedQueue
import PacketForge.Tcp.RecvWindow

/-!
The out-of-order queue as the source keeps it: packet buffers linked by their
`next` pointers, with a head, a tail and a count. The functions of
`tcp_rx_payload` are given here once more on the linked queue; the field `ooo`
of the connection, which stands for the same packets as a list, is not used by
them. They do to the queue what the functions on the list do, and the loops
along the links end.
-/

namespace PacketForge

open Checked LinkedQueue

abbrev PktAddr := Nat

abbrev OooQueue := Queue PktAddr OooPkt

/-! ### The source on the linked queue -/

/-- The loop of `tcp_ooo_drain`. -/
def oooDrainLinked : Nat → OooQueue → Conn → Except Fault (OooQueue × Conn)
  | 0, _, _ => .error .stuck
  | fuel + 1, q, c =>
    match q.head with
    | none => .ok (q, c)
    | some a =>
      let x := (q.cells a).val
      let qlen := UInt32.ofNat x.data.length
      if seqGt x.seq c.tcb.rcvNxt then .ok (q, c) -- still a hole
      else
        let q := q.pop.1
        if seqLt (x.seq + qlen) c.tcb.rcvNxt || x.seq + qlen = c.tcb.rcvNxt then
          oooDrainLinked fuel q c -- entirely duplicate
        else
          let skip := c.tcb.rcvNxt - x.seq
          let data := x.data.drop skip.toNat
          let take := rcvRingTake c.tcb data
          let c := rcvAppend c data
          if take < qlen - skip then .ok (q, c) -- ring full
          else oooDrainLinked fuel q c

def tcpOooDrainLinked (q : OooQueue) (c : Conn) : Except Fault (OooQueue × Conn) :=
  oooDrainLinked (q.n + 1) q c

/-- `tcp_ooo_insert`; `a` is the buffer that `pkt_alloc` returns. -/
def tcpOooInsertLinked (a : PktAddr) (q : OooQueue) (c : Conn) (seq : UInt32) (data : List UInt8) :
    Except Fault (OooQueue × Conn) := do
  if q.n ≥ tcpOooMax then return (q, c.count .tcpOooDropped)
  else if ← q.anyFrom Fault.stuck (oooOverlaps seq data) q.n q.head then
    return (q, c.count .tcpOooDropped)
  else
    let c := { c with panicked := c.panicked || decide (4094 < data.length) }
    let q := q.setVal a ⟨seq, data⟩
    let pp ← q.place Fault.stuck (fun x => seqLt x.seq seq) (q.n + 1) .head
    return (q.link a pp, c.count .tcpOooQueued)

def tcpRxInWindowLinked (a : PktAddr) (q : OooQueue) (c : Conn) (seq : UInt32) (data : List UInt8)
    (now : Nat) : Except Fault (OooQueue × Conn) :=
  if data.length = 0 then .ok (q, c)
  else if seq = c.tcb.rcvNxt then do
    let (q, c) ← tcpOooDrainLinked q (rcvAppend c data)
    return (q, tcpDelayAck c now)
  else do
    let (q, c) ← tcpOooInsertLinked a q c seq data
    return (q, tcpSendCtl c tcpAck)

def tcpRxTrimmedLinked (a : PktAddr) (q : OooQueue) (c : Conn) (seq : UInt32) (data : List UInt8)
    (now : Nat) : Except Fault (OooQueue × Conn) :=
  if seqGe seq (rcvWndEnd c.tcb) then .ok (q, c)
  else tcpRxInWindowLinked a q c seq (trimTail c.tcb seq data) now

def tcpRxPayloadLinked (a : PktAddr) (q : OooQueue) (c : Conn) (seq : UInt32) (data : List UInt8)
    (now : Nat) : Except Fault (OooQueue × Conn) :=
  if seqLt seq c.tcb.rcvNxt then
    let skip := c.tcb.rcvNxt - seq
    if skip ≥ UInt32.ofNat data.length then .ok (q, tcpSendCtl c tcpAck) -- pure duplicate
    else tcpRxTrimmedLinked a q c c.tcb.rcvNxt (data.drop skip.toNat) now
  else tcpRxTrimmedLinked a q c seq data now

/-! ### Runs -/

/-- The queue after an event: no other function touches it as long as the connection lives. -/
def oooStep (a : PktAddr) (q : OooQueue) (c : Conn) : ConnEvent → Except Fault OooQueue
  | .segment now lroom g =>
    match textStep now lroom g c with
    | none => .ok q
    | some d =>
      if g.payload.length > 0 && d.tcb.state.takesData then
        Prod.fst <$> tcpRxPayloadLinked a q d g.seq g.payload now
      else .ok q
  | _ => .ok q

structure OooHist where
  conn : Conn
  queue : OooQueue

namespace OooHist

def step (h : OooHist) (x : PktAddr × ConnEvent) : Except Fault OooHist := do
  let queue ←
    if h.conn.fate = .alive then oooStep x.1 h.queue (Conn.start h.conn.tcb h.conn.stats) x.2
    else .ok h.queue
  return { conn := connStep h.conn x.2, queue := queue }

structure Opens (h : OooHist) : Prop where
  conn : Opened h.conn
  head : h.queue.head = none
  tail : h.queue.tail = none
  count : h.queue.n = 0

/-- The buffer is none of those in the queue. -/
def Fresh (h : OooHist) (a : PktAddr) : Prop := ∀ l, h.queue.Holds l → a ∉ l

abbrev Reach : OooHist → Prop := Checked.Reach Opens (fun h x => h.Fresh x.1) step

end OooHist

/-! ### The linked queue does what the list does -/

/-- The connection with the parked packets as a list. -/
def Conn.setOoo (c : Conn) (qs : List OooPkt) : Conn := { c with tcb := { c.tcb with ooo := qs } }

variable (c : Conn)

theorem Conn.setOoo_setOoo (qs rs : List OooPkt) : (c.setOoo qs).setOoo rs = c.setOoo rs := rfl

theorem tcpSendSegment_setOoo (qs : List OooPkt) (flags : UInt8) (seq off : UInt32) (n : UInt16) :
    tcpSendSegment (c.setOoo qs) flags seq off n =
      (tcpSendSegment c flags seq off n).setOoo qs := by
  have hseg : tcpSegment (c.setOoo qs).tcb flags seq off n = tcpSegment c.tcb flags seq off n := rfl
  have hack : ackSent flags (c.setOoo qs).tcb = { ackSent flags c.tcb with ooo := qs } := by
    unfold ackSent
    split <;> rfl
  unfold tcpSendSegment
  rw [hseg, hack]
  rfl

theorem tcpSendCtl_setOoo (qs : List OooPkt) :
    tcpSendCtl (c.setOoo qs) tcpAck = (tcpSendCtl c tcpAck).setOoo qs := by
  have hrst : (tcpAck &&& tcpRst != 0) = false := rfl
  have hsyn : (tcpAck &&& tcpSyn != 0) = false := rfl
  simp only [tcpSendCtl, hrst, hsyn, Bool.false_eq_true, if_false]
  exact tcpSendSegment_setOoo c qs tcpAck _ 0 0

theorem tcpDelayAck_setOoo (qs : List OooPkt) (now : Nat) :
    tcpDelayAck (c.setOoo qs) now = (tcpDelayAck c now).setOoo qs := by
  have hpending : (c.setOoo qs).tcb.delackPending = c.tcb.delackPending := rfl
  have hdeadline : (c.setOoo qs).tcb.delackDeadline = c.tcb.delackDeadline := rfl
  have hcount (n : UInt8) :
      { c.setOoo qs with tcb := { (c.setOoo qs).tcb with delackPending := n } } =
        { c with tcb := { c.tcb with delackPending := n } }.setOoo qs := rfl
  simp only [tcpDelayAck, hpending, hdeadline]
  split
  · exact (congrArg (tcpSendCtl · tcpAck) (hcount _)).trans (tcpSendCtl_setOoo _ qs)
  split <;> rfl

theorem rcvAppend_setOoo (qs : List OooPkt) (data : List UInt8) :
    rcvAppend (c.setOoo qs) data = (rcvAppend c data).setOoo qs := by
  have htake : rcvRingTake (c.setOoo qs).tcb data = rcvRingTake c.tcb data := rfl
  have hset (buf : Nat → UInt8) (len nxt : UInt32) (n : UInt64) :
      { c.setOoo qs with
        tcb := { (c.setOoo qs).tcb with rcvbuf := buf, rcvLen := len, rcvNxt := nxt } }.countBy
          .tcpRxBytes n =
        ({ c with tcb := { c.tcb with rcvbuf := buf, rcvLen := len, rcvNxt := nxt } }.countBy
          .tcpRxBytes n).setOoo qs := rfl
  have hcap : tcpRcvbuf = 65535 := rfl
  have hbuf : (c.setOoo qs).tcb.rcvbuf = c.tcb.rcvbuf := rfl
  have hhead : (c.setOoo qs).tcb.rcvHead = c.tcb.rcvHead := rfl
  have hlen : (c.setOoo qs).tcb.rcvLen = c.tcb.rcvLen := rfl
  have hnxt : (c.setOoo qs).tcb.rcvNxt = c.tcb.rcvNxt := rfl
  simp only [rcvAppend, rcvRingPut, hcap]
  rw [hset, htake, hbuf, hhead, hlen, hnxt]

/-- Insertion before the first packet that does not precede. -/
theorem oooInsertSorted_eq (x : OooPkt) (qs : List OooPkt) :
    oooInsertSorted x qs =
      qs.takeWhile (fun y => seqLt y.seq x.seq) ++
        x :: qs.dropWhile (fun y => seqLt y.seq x.seq) := by
  induction qs with
  | nil => rfl
  | cons y qs ih =>
    rw [oooInsertSorted, List.takeWhile_cons, List.dropWhile_cons]
    split
    · rw [ih]
      rfl
    · rfl

section Linked

variable {q : OooQueue} {l : List PktAddr} {a : PktAddr} {seq : UInt32} {data : List UInt8}

/-- What a function on the linked queue returns, and what the one on the list does. -/
def Follows (run : Except Fault (OooQueue × Conn)) (c : Conn) : Prop :=
  ∃ q c' l, run = .ok (q, c') ∧ q.Holds l ∧ c = c'.setOoo (q.vals l)

theorem Follows.bind {run : Except Fault (OooQueue × Conn)} {c : Conn} (h : Follows run c)
    (f : Conn → Conn) (hf : ∀ c qs, f (c.setOoo qs) = (f c).setOoo qs) :
    Follows (run >>= fun r => .ok (r.1, f r.2)) (f c) := by
  obtain ⟨q, c', l, rfl, hq, rfl⟩ := h
  exact ⟨q, f c', l, rfl, hq, hf c' (q.vals l)⟩

/-- The induction is on the cells of the queue. -/
theorem oooDrainLinked_follows (l : List PktAddr) (h : q.Holds l) (c : Conn) (qs : List OooPkt)
    {fuel : Nat} (hfuel : l.length < fuel) :
    Follows (oooDrainLinked fuel q c) (oooDrainLoop (q.vals l) (c.setOoo qs)) := by
  induction l generalizing q c fuel with
  | nil =>
    cases fuel with
    | zero => exact absurd hfuel (Nat.not_lt_zero _)
    | succ fuel =>
      have hhead : q.head = none := h.path
      rw [oooDrainLinked, hhead]
      exact ⟨q, c, [], rfl, h, rfl⟩
  | cons a l ih =>
    cases fuel with
    | zero => exact absurd hfuel (Nat.not_lt_zero _)
    | succ fuel =>
      obtain ⟨-, hpop, hvals⟩ := h.pop
      have hmore : l.length < fuel := Nat.lt_of_succ_lt_succ hfuel
      have hnxt : (c.setOoo qs).tcb.rcvNxt = c.tcb.rcvNxt := rfl
      have htake (data : List UInt8) :
          rcvRingTake (c.setOoo qs).tcb data = rcvRingTake c.tcb data :=
        rfl
      rw [oooDrainLinked, h.head, Queue.vals, List.map_cons, oooDrainLoop]
      simp only [hnxt, htake, rcvAppend_setOoo]
      split
      · exact ⟨q, c, a :: l, rfl, h, rfl⟩
      rw [show (l.map fun b => (q.cells b).val) = q.pop.1.vals l from (hvals l).symm]
      split
      · exact ih hpop c hmore
      split
      · exact ⟨q.pop.1, _, l, rfl, hpop, Conn.setOoo_setOoo _ qs _⟩
      · exact ih hpop _ hmore

theorem tcpOooInsertLinked_follows (h : q.Holds l) (ha : a ∉ l) (c : Conn) :
    Follows (tcpOooInsertLinked a q c seq data) (tcpOooInsert (c.setOoo (q.vals l)) seq data) := by
  have hlen : (c.setOoo (q.vals l)).tcb.ooo.length = q.n := by
    rw [h.count]
    exact List.length_map _
  have hooo : (c.setOoo (q.vals l)).tcb.ooo = q.vals l := rfl
  unfold tcpOooInsertLinked tcpOooInsert
  rw [hlen, hooo]
  split
  · exact ⟨q, c.count .tcpOooDropped, l, rfl, h, rfl⟩
  have hany : q.anyFrom Fault.stuck (oooOverlaps seq data) q.n q.head =
      .ok ((q.vals l).any (oooOverlaps seq data)) := anyFrom_eq l h.path h.count.ge
  rw [hany, ok_bind]
  split
  · exact ⟨q, c.count .tcpOooDropped, l, rfl, h, rfl⟩
  -- the buffer is filled, then linked in where the walk stops
  have hfilled := h.setVal a ⟨seq, data⟩
  have hplace :
      (q.setVal a ⟨seq, data⟩).place Fault.stuck (fun x => seqLt x.seq seq) (q.n + 1) .head =
        .ok (Link.head.after
          (l.takeWhile fun b => seqLt ((q.setVal a ⟨seq, data⟩).cells b).val.seq seq)) :=
    place_eq l .head hfilled.path (Nat.lt_succ_of_le h.count.ge)
  have hwhole := List.takeWhile_append_dropWhile
    (p := fun b => seqLt ((q.setVal a ⟨seq, data⟩).cells b).val.seq seq) (l := l)
  rw [← hwhole] at hfilled ha
  have hlinked := hfilled.link ha
  rw [hwhole] at ha
  change Follows ((q.setVal a ⟨seq, data⟩).place Fault.stuck _ (q.n + 1) .head >>= _) _
  rw [hplace, ok_bind]
  refine ⟨_, _, _, rfl, hlinked, ?_⟩
  have hvals : Queue.vals ((q.setVal a ⟨seq, data⟩).link a (Link.head.after
      (l.takeWhile fun b => seqLt ((q.setVal a ⟨seq, data⟩).cells b).val.seq seq)))
      (l.takeWhile (fun b => seqLt ((q.setVal a ⟨seq, data⟩).cells b).val.seq seq) ++
        a :: l.dropWhile fun b => seqLt ((q.setVal a ⟨seq, data⟩).cells b).val.seq seq) =
      oooInsertSorted ⟨seq, data⟩ (q.vals l) := by
    have hnew : ((q.setVal a ⟨seq, data⟩).cells a).val = ⟨seq, data⟩ := by
      simp only [Queue.setVal, Function.update_self]
    rw [oooInsertSorted_eq, ← Queue.setVal_vals ha ⟨seq, data⟩]
    simp only [Queue.vals, Queue.link_val, List.map_append, List.map_cons, List.takeWhile_map,
      List.dropWhile_map, hnew]
    rfl
  rw [hvals]
  rfl

theorem tcpRxPayloadLinked_follows (h : q.Holds l) (ha : a ∉ l) (c : Conn) (seq : UInt32)
    (data : List UInt8) (now : Nat) :
    Follows (tcpRxPayloadLinked a q c seq data now)
      (tcpRxPayload (c.setOoo (q.vals l)) seq data now) := by
  have hsame (f : Conn → Conn) (hf : f (c.setOoo (q.vals l)) = (f c).setOoo (q.vals l)) :
      Follows (.ok (q, f c)) (f (c.setOoo (q.vals l))) := ⟨q, f c, l, rfl, h, hf⟩
  have hwindow (seq : UInt32) (data : List UInt8) :
      Follows (tcpRxInWindowLinked a q c seq data now)
        (tcpRxInWindow (c.setOoo (q.vals l)) seq data now) := by
    unfold tcpRxInWindowLinked tcpRxInWindow
    have hnxt : (c.setOoo (q.vals l)).tcb.rcvNxt = c.tcb.rcvNxt := rfl
    rw [hnxt]
    split
    · exact hsame id rfl
    split
    · have hdrain := oooDrainLinked_follows l h (rcvAppend c data) (q.vals l)
        (Nat.lt_succ_of_le h.count.ge)
      rw [rcvAppend_setOoo]
      exact hdrain.bind (fun c => tcpDelayAck c now) fun c qs => tcpDelayAck_setOoo c qs now
    · exact (tcpOooInsertLinked_follows h ha c).bind
        (fun c => tcpSendCtl c tcpAck) tcpSendCtl_setOoo
  have htrimmed (seq : UInt32) (data : List UInt8) :
      Follows (tcpRxTrimmedLinked a q c seq data now)
        (tcpRxTrimmed (c.setOoo (q.vals l)) seq data now) := by
    unfold tcpRxTrimmedLinked tcpRxTrimmed
    have hend : rcvWndEnd (c.setOoo (q.vals l)).tcb = rcvWndEnd c.tcb := rfl
    rw [hend]
    split
    · exact hsame id rfl
    · exact hwindow seq (trimTail c.tcb seq data)
  unfold tcpRxPayloadLinked tcpRxPayload
  have hnxt : (c.setOoo (q.vals l)).tcb.rcvNxt = c.tcb.rcvNxt := rfl
  rw [hnxt]
  split
  · simp only
    split
    · exact hsame (fun c => tcpSendCtl c tcpAck) (tcpSendCtl_setOoo c _)
    · exact htrimmed _ _
  · exact htrimmed _ _

end Linked

/-! ### The queue is bounded -/

section Bound

theorem oooInsertSorted_length (x : OooPkt) (qs : List OooPkt) :
    (oooInsertSorted x qs).length = qs.length + 1 := by
  induction qs with
  | nil => rfl
  | cons y qs ih =>
    rw [oooInsertSorted]
    split
    · rw [List.length_cons, ih, List.length_cons]
    · rfl

theorem oooDrainLoop_length (qs : List OooPkt) (c : Conn) :
    (oooDrainLoop qs c).tcb.ooo.length ≤ qs.length := by
  induction qs generalizing c with
  | nil => exact Nat.le_refl 0
  | cons q qs ih =>
    have hstep (d : Conn) : (oooDrainLoop qs d).tcb.ooo.length ≤ (q :: qs).length :=
      (ih d).trans (Nat.le_succ _)
    rw [oooDrainLoop]
    simp only
    split
    · exact Nat.le_refl _
    split
    · exact hstep c
    split
    · exact Nat.le_succ _
    · exact hstep _

theorem tcpRxPayload_length {c : Conn} (h : c.tcb.ooo.length ≤ tcpOooMax) (seq : UInt32)
    (data : List UInt8) (now : Nat) : (tcpRxPayload c seq data now).tcb.ooo.length ≤ tcpOooMax := by
  have hooo (d : Conn) : d.tcb.ooo = d.recv.ooo := rfl
  have hinsert (seq : UInt32) (data : List UInt8) :
      (tcpOooInsert c seq data).tcb.ooo.length ≤ tcpOooMax := by
    unfold tcpOooInsert
    split
    · exact h
    split
    · exact h
    · rename_i hroom _
      change (oooInsertSorted ⟨seq, data⟩ c.tcb.ooo).length ≤ tcpOooMax
      rw [oooInsertSorted_length]
      exact Nat.not_le.mp hroom
  have hwindow (seq : UInt32) (data : List UInt8) :
      (tcpRxInWindow c seq data now).tcb.ooo.length ≤ tcpOooMax := by
    unfold tcpRxInWindow
    split
    · exact h
    split
    · rw [hooo, tcpDelayAck_recv]
      have hsame : (rcvAppend c data).tcb.ooo = c.tcb.ooo := by
        rw [hooo, rcvAppend_recv]
        rfl
      refine (oooDrainLoop_length _ _).trans ?_
      rw [hsame]
      exact h
    · rw [hooo, tcpSendCtl_recv]
      exact hinsert seq data
  have htrimmed (seq : UInt32) (data : List UInt8) :
      (tcpRxTrimmed c seq data now).tcb.ooo.length ≤ tcpOooMax := by
    unfold tcpRxTrimmed
    split
    · exact h
    · exact hwindow _ _
  unfold tcpRxPayload
  split
  · simp only
    split
    · rw [hooo, tcpSendCtl_recv]
      exact h
    · exact htrimmed _ _
  · exact htrimmed _ _

end Bound

/-! ### Whole runs -/

def OooLinked (q : OooQueue) (c : Conn) : Prop :=
  ∃ l, q.Holds l ∧ q.vals l = c.tcb.ooo ∧ l.length ≤ tcpOooMax

section Step

variable {q : OooQueue} {a : PktAddr} {c d : Conn}

theorem OooLinked.congr (h : OooLinked q c) (hooo : d.tcb.ooo = c.tcb.ooo) : OooLinked q d := by
  obtain ⟨l, hq, hvals, hlen⟩ := h
  exact ⟨l, hq, hvals.trans hooo.symm, hlen⟩

/-- `tcp_rx_payload` on the linked queue returns, with the queue of `tcpRxPayload`. -/
theorem OooLinked.rxPayload (h : OooLinked q c) (ha : ∀ l, q.Holds l → a ∉ l) (seq : UInt32)
    (data : List UInt8) (now : Nat) :
    ∃ q' c' l, tcpRxPayloadLinked a q c seq data now = .ok (q', c') ∧ q'.Holds l ∧
      tcpRxPayload c seq data now = c'.setOoo (q'.vals l) ∧ l.length ≤ tcpOooMax := by
  obtain ⟨l, hq, hvals, hlen⟩ := h
  have hsame : c.setOoo (q.vals l) = c := by
    rw [hvals]
    rfl
  obtain ⟨q', c', l', hrun, hq', hlist⟩ := tcpRxPayloadLinked_follows hq (ha l hq) c seq data now
  rw [hsame] at hlist
  refine ⟨q', c', l', hrun, hq', hlist, ?_⟩
  have hbound : c.tcb.ooo.length ≤ tcpOooMax := by
    rw [← hvals, Queue.vals, List.length_map]
    exact hlen
  have hrest := tcpRxPayload_length hbound seq data now
  rw [hlist] at hrest
  change (q'.vals l').length ≤ tcpOooMax at hrest
  rw [Queue.vals, List.length_map] at hrest
  exact hrest

theorem tcpInputFin_ooo (now : Nat) (g : Seg) (c : Conn) :
    (tcpInputFin now g c).recv.ooo = c.recv.ooo := by
  unfold tcpInputFin
  split
  · rw [tcpTakeFin_recv]
  · rfl

/-- Outside of segments the queue is left alone. -/
theorem connHandle_ooo (c : Conn) (e : ConnEvent) (he : ∀ now lroom g, e ≠ .segment now lroom g) :
    (connHandle c e).recv.ooo = c.recv.ooo := by
  have hw := connHandle_unheard c he
  generalize (connHandle c e).recv = w at hw
  cases hw with
  | same | read => rfl
  | closes now hst hw =>
    obtain ⟨st, -, -, rfl⟩ := hw
    rfl

theorem OooLinked.step (h : OooLinked q c) (ha : ∀ l, q.Holds l → a ∉ l) (e : ConnEvent) :
    ∃ q', oooStep a q c e = .ok q' ∧ OooLinked q' (connHandle c e) := by
  have hquiet (he : ∀ now lroom g, e ≠ .segment now lroom g) : OooLinked q (connHandle c e) :=
    h.congr (connHandle_ooo c e he)
  cases e with
  | segment now lroom g =>
    unfold oooStep
    cases htext : textStep now lroom g c with
    | none =>
      have hheld := congrArg (fun held => held.2.2) (textStep_none htext)
      simp only [htext]
      exact ⟨q, rfl, h.congr hheld⟩
    | some d =>
      obtain ⟨⟨st, -, -, hview⟩, heq⟩ := textStep_eq htext
      have hd : OooLinked q d := by
        refine h.congr ?_
        change d.recv.ooo = c.recv.ooo
        rw [hview]
      have hfin :
          (connHandle c (.segment now lroom g)).tcb.ooo = (tcpInputText now g d).tcb.ooo := by
        change (tcpInputConn now lroom g c).tcb.ooo = _
        rw [heq]
        exact tcpInputFin_ooo now g _
      simp only [htext]
      by_cases htakes : (decide (g.payload.length > 0) && d.tcb.state.takesData) = true
      · rw [if_pos htakes]
        rw [Bool.and_eq_true, decide_eq_true_eq] at htakes
        obtain ⟨q', c', l, hrun, hq', hlist, hlen⟩ := hd.rxPayload ha g.seq g.payload now
        rw [hrun]
        refine ⟨q', rfl, l, hq', ?_, hlen⟩
        rw [hfin, tcpInputText, if_pos htakes.1, if_pos htakes.2, hlist]
        rfl
      · rw [if_neg htakes]
        refine ⟨q, rfl, hd.congr ?_⟩
        rw [hfin, tcpInputText]
        split
        · rename_i hlen
          rw [Bool.and_eq_true, decide_eq_true_eq, not_and] at htakes
          rw [if_neg (htakes hlen)]
          rfl
        · rfl
  | tick now => exact ⟨q, rfl, hquiet nofun⟩
  | send now data => exact ⟨q, rfl, hquiet nofun⟩
  | recv cap => exact ⟨q, rfl, hquiet nofun⟩
  | close now => exact ⟨q, rfl, hquiet nofun⟩
  | nodelay on => exact ⟨q, rfl, hquiet nofun⟩
  | attach sock => exact ⟨q, rfl, hquiet nofun⟩

end Step

theorem Opened.ooo {c : Conn} (h : Opened c) : c.recv.ooo = [] := by
  cases h with
  | active =>
    unfold tcpOpenActiveConn
    rw [tcpStartSyn_recv]
    rfl
  | passive =>
    rw [tcpOpenPassiveConn_recv]
    rfl

namespace OooHist

variable {h : OooHist}

/-- The connection is that of a run, and as long as it lives its queue is the linked one. -/
def Ok (h : OooHist) : Prop :=
  (∃ k, AckHist.Reach k ∧ k.conn = h.conn) ∧ (h.conn.fate = .alive → OooLinked h.queue h.conn)

theorem Opens.ok (ho : h.Opens) : h.Ok := by
  refine ⟨⟨⟨h.conn, ackSegs h.conn.out, none⟩, .start ⟨ho.conn, rfl, rfl⟩, rfl⟩, fun _ => ?_⟩
  exact ⟨[], ⟨ho.head, List.nodup_nil, ho.tail, ho.count⟩, ho.conn.ooo.symm, Nat.zero_le _⟩

theorem Ok.step (hok : h.Ok) {x : PktAddr × ConnEvent} (hx : h.Fresh x.1) :
    ∃ h', h.step x = .ok h' ∧ h'.Ok := by
  obtain ⟨⟨k, hk, hconn⟩, hlinked⟩ := hok
  have hnext : ∃ k, AckHist.Reach k ∧ k.conn = connStep h.conn x.2 := by
    refine ⟨k.step x.2, .next hk x.2 trivial, ?_⟩
    rw [← hconn]
    rfl
  unfold OooHist.step
  by_cases hlive : h.conn.fate = .alive
  · have hstart : OooLinked h.queue (Conn.start h.conn.tcb h.conn.stats) := hlinked hlive
    obtain ⟨q, hrun, hq⟩ := hstart.step hx x.2
    have hstep : connStep h.conn x.2 = connHandle (Conn.start h.conn.tcb h.conn.stats) x.2 := by
      simp only [connStep, hlive]
    rw [if_pos hlive, hrun]
    exact ⟨_, rfl, hnext, fun _ => hstep ▸ hq⟩
  · rw [if_neg hlive]
    refine ⟨_, rfl, hnext, fun hnow => absurd (connStep_live hnow) hlive⟩

theorem Reach.ok (hr : Reach h) : h.Ok := by
  refine Checked.Reach.invariant OooHist.Ok (fun _ => Opens.ok) (fun h x hx hok => ?_) hr
  obtain ⟨h', hrun, hok'⟩ := hok.step hx
  rw [hrun]
  exact hok'

end OooHist

/-! ### Order -/

/-- The place of a packet in sequence space, measured from `rcv_nxt`. -/
def OooPkt.offset (x : OooPkt) (t : Tcb) : Nat := (x.seq - t.rcvNxt).toNat

theorem Fits.ordered {t : Tcb} {base : UInt32} {hi lo n : Nat} {qs : List OooPkt}
    (h : Fits base hi lo qs) (hnxt : t.rcvNxt = SeqSpace.pos base n) (hlo : n ≤ lo)
    (hhi : hi ≤ n + 65535) :
    (∀ x ∈ qs, 0 < x.data.length ∧ lo ≤ n + x.offset t ∧
      n + x.offset t + x.data.length ≤ hi) ∧
    qs.Pairwise fun x y => x.offset t + x.data.length ≤ y.offset t := by
  induction qs generalizing lo with
  | nil => exact ⟨fun x hx => absurd hx List.not_mem_nil, List.Pairwise.nil⟩
  | cons x qs ih =>
    obtain ⟨p, hlop, hseq, hpos, hend, hrest⟩ := h
    obtain ⟨hall, hsorted⟩ := ih hrest (by omega)
    have hx : x.offset t = p - n := by
      rw [OooPkt.offset, hseq, hnxt]
      exact SeqSpace.pos_sub_toNat base (by omega) (by omega)
    refine ⟨?_, List.pairwise_cons.mpr ⟨?_, hsorted⟩⟩
    · intro y hy
      rcases List.mem_cons.mp hy with rfl | hy
      · exact ⟨hpos, by omega, by omega⟩
      · obtain ⟨hypos, hylo, hyhi⟩ := hall y hy
        exact ⟨hypos, by omega, hyhi⟩
    · intro y hy
      have hylo := (hall y hy).2.1
      omega

/-- A queue that fits the window, by offsets from `rcv_nxt`. -/
theorem QueueOk.ordered {c : Conn} (h : QueueOk c.recv) (hst : c.tcb.state.takesData = true) :
    (∀ x ∈ c.tcb.ooo, x.data ≠ [] ∧ 0 < x.offset c.tcb ∧
      x.offset c.tcb + x.data.length ≤ (tcpRcvWindow c.tcb).toNat) ∧
    c.tcb.ooo.Pairwise fun x y => x.offset c.tcb + x.data.length ≤ y.offset c.tcb := by
  obtain ⟨base, n, hi, hroom, hfits⟩ :=
    h.room (takesData_sync hst).1 (TcpState.takesData_pastFin hst)
  have hlen := hroom.len_le
  have hedge := hroom.edge
  have hwnd : (tcpRcvWindow c.tcb).toNat = 65535 - c.recv.len.toNat := windowOf_toNat hlen
  obtain ⟨hall, hsorted⟩ := hfits.ordered (t := c.tcb) hroom.nxt (Nat.le_succ n) (by omega)
  refine ⟨fun x hx => ?_, hsorted⟩
  obtain ⟨hpos, hlo, hhi⟩ := hall x hx
  exact ⟨List.length_pos_iff.mp hpos, by omega, by omega⟩

/-- After every call of `tcp_rx_payload` in any run, whatever the segments carry: the call
returns, and the queue's head, tail and count agree with a list of parked packets. These are at
most `TCP_OOO_MAX`, none is empty, each begins above `rcv_nxt` and ends at or below the right edge
of the window, and each ends at or below the beginning of the next one. -/
theorem ooo_queue_ordered {h : OooHist} (hr : OooHist.Reach h) (halive : h.conn.fate = .alive)
    {now : Nat} {lroom : Option Bool} {g : Seg} {d : Conn}
    (hd : textStep now lroom g (Conn.start h.conn.tcb h.conn.stats) = some d)
    (hpay : g.payload.length > 0) (hst : d.tcb.state.takesData = true) {a : PktAddr}
    (ha : h.Fresh a) :
    ∃ q c l, tcpRxPayloadLinked a h.queue d g.seq g.payload now = .ok (q, c) ∧
      tcpRxPayload d g.seq g.payload now = c.setOoo (q.vals l) ∧
      q.Holds l ∧ l.length ≤ tcpOooMax ∧
      (∀ x ∈ q.vals l, x.data ≠ [] ∧ 0 < x.offset c.tcb ∧
        x.offset c.tcb + x.data.length ≤ (tcpRcvWindow c.tcb).toNat) ∧
      (q.vals l).Pairwise fun x y => x.offset c.tcb + x.data.length ≤ y.offset c.tcb := by
  obtain ⟨⟨k, hk, hconn⟩, hlinked⟩ := hr.ok
  have hstart : QueueOk (Conn.start h.conn.tcb h.conn.stats).recv := by
    have hqueue := hk.queueOk (hconn ▸ halive)
    rw [hconn] at hqueue
    exact hqueue
  obtain ⟨⟨st, -, -, hview⟩, -⟩ := textStep_eq hd
  have hlinkd : OooLinked h.queue d := by
    refine (hlinked halive).congr ?_
    change d.recv.ooo = (Conn.start h.conn.tcb h.conn.stats).recv.ooo
    rw [hview]
  obtain ⟨q, c, l, hrun, hq, hlist, hlen⟩ := hlinkd.rxPayload ha g.seq g.payload now
  -- the text is the call, and keeps the queue in the window
  have htext : tcpInputText now g d = c.setOoo (q.vals l) := by
    rw [tcpInputText, if_pos hpay, if_pos hst, hlist]
  have hok : QueueOk (c.setOoo (q.vals l)).recv := by
    rw [← htext]
    exact Acts.invariant (P := fun c => QueueOk c.recv)
      (fun c d hact hc => hc.stage hact.recvStage) (tcpInputText_stages now lroom g d).acts
      (textStep_queueOk hstart hd)
  have hstate : (c.setOoo (q.vals l)).tcb.state.takesData = true := by
    have hsame : (tcpInputText now g d).tcb.state = d.tcb.state := (tcpInputText_same now g d).state
    rw [← htext, hsame]
    exact hst
  exact ⟨q, c, l, hrun, hlist, hq, hlen, hok.ordered hstate⟩

/-- A connection whose SYN was answered with sequence number 300; nothing is parked. -/
def answeredHist : OooHist where
  conn := connStep (tcpOpenActiveConn 0 none 1 5000 2 80 100 Stats.zero)
    (.segment 1 none (peerSeg (tcpSyn ||| tcpAck) 300 101 1000))
  queue := { cells := fun _ => ⟨none, ⟨0, []⟩⟩, head := none, tail := none, n := 0 }

theorem answeredHist_fresh (a : PktAddr) (conn : Conn) :
    OooHist.Fresh ⟨conn, answeredHist.queue⟩ a := by
  intro l hl
  rw [List.eq_nil_of_length_eq_zero hl.count.symm]
  exact List.not_mem_nil

theorem answeredHist_reach : OooHist.Reach answeredHist :=
  .next (.start ⟨.active 0 none 1 5000 2 80 100 Stats.zero, rfl, rfl, rfl⟩)
    (7, .segment 1 none (peerSeg (tcpSyn ||| tcpAck) 300 101 1000)) (answeredHist_fresh 7 _) rfl

/-- Where the queue leads through a list, a buffer outside the list is fresh. -/
theorem OooHist.Fresh.of_leads {h : OooHist} {a : PktAddr} {l : List PktAddr}
    (hl : LinkedQueue.Leads h.queue.cells h.queue.head l none) (ha : a ∉ l) : h.Fresh a := by
  intro l' hl'
  rw [hl'.path.unique hl]
  exact ha

/-- A byte is parked behind a hole of one, and a second one behind another hole. -/
theorem two_parked : ∃ h₁ h₂, answeredHist.step (7, .segment 5 none (peerByte 302 101 8)) = .ok h₁ ∧
    h₁.step (8, .segment 6 none (peerByte 304 101 9)) = .ok h₂ ∧ h₁.Fresh 8 ∧ h₂.Fresh 9 ∧
    h₁.conn.fate = .alive ∧ h₂.conn.fate = .alive ∧
    (textStep 6 none (peerByte 304 101 9) (Conn.start h₁.conn.tcb h₁.conn.stats)).map
        (fun d => (d.tcb.state.takesData, (tcpRxPayload d 304 [9] 6).tcb.ooo.map OooPkt.seq)) =
      some (true, [302, 304]) ∧
    (textStep 7 none (peerByte 301 101 7) (Conn.start h₂.conn.tcb h₂.conn.stats)).map
        (fun d => (d.tcb.state.takesData, (tcpRxPayload d 301 [7] 7).tcb.ooo.map OooPkt.seq)) =
      some (true, [304]) :=
  ⟨_, _, rfl, rfl, .of_leads (l := [7]) ⟨rfl, rfl⟩ (by decide),
    .of_leads (l := [7, 8]) ⟨rfl, rfl, rfl⟩ (by decide), rfl, rfl, by decide +kernel,
      by decide +kernel⟩

/-- The two packets are in order and disjoint, and the byte that fills the first hole takes
the first of them out of the queue. -/
theorem ooo_queue_ordered_drain :
    ∃ h₁ h₂ q₁ c₁ l₁ q₂ c₂ l₂ d₁ d₂,
      answeredHist.step (7, .segment 5 none (peerByte 302 101 8)) = .ok h₁ ∧
      tcpRxPayloadLinked 8 h₁.queue d₁ 304 [9] 6 = .ok (q₁, c₁) ∧
      q₁.Holds l₁ ∧ (q₁.vals l₁).map OooPkt.seq = [302, 304] ∧
      (q₁.vals l₁).Pairwise (fun x y => x.offset c₁.tcb + x.data.length ≤ y.offset c₁.tcb) ∧
      h₁.step (8, .segment 6 none (peerByte 304 101 9)) = .ok h₂ ∧
      tcpRxPayloadLinked 9 h₂.queue d₂ 301 [7] 7 = .ok (q₂, c₂) ∧
      q₂.Holds l₂ ∧ (q₂.vals l₂).map OooPkt.seq = [304] ∧
      ∀ x ∈ q₂.vals l₂, 0 < x.offset c₂.tcb := by
  obtain ⟨h₁, h₂, hone, htwo, hfresh₁, hfresh₂, halive₁, halive₂, hcall₁, hcall₂⟩ := two_parked
  have hr₁ : OooHist.Reach h₁ := answeredHist_reach.next _ (answeredHist_fresh 7 _) hone
  have hr₂ : OooHist.Reach h₂ := hr₁.next _ hfresh₁ htwo
  obtain ⟨d₁, hd₁, hval₁⟩ := Option.map_eq_some_iff.mp hcall₁
  obtain ⟨hst₁, hseqs₁⟩ := Prod.mk.inj hval₁
  obtain ⟨d₂, hd₂, hval₂⟩ := Option.map_eq_some_iff.mp hcall₂
  obtain ⟨hst₂, hseqs₂⟩ := Prod.mk.inj hval₂
  obtain ⟨q₁, c₁, l₁, hrun₁, hlist₁, hq₁, -, -, hsorted⟩ :=
    ooo_queue_ordered hr₁ halive₁ hd₁ Nat.one_pos hst₁ hfresh₁
  obtain ⟨q₂, c₂, l₂, hrun₂, hlist₂, hq₂, -, hall, -⟩ :=
    ooo_queue_ordered hr₂ halive₂ hd₂ Nat.one_pos hst₂ hfresh₂
  refine ⟨h₁, h₂, q₁, c₁, l₁, q₂, c₂, l₂, d₁, d₂, hone, hrun₁, hq₁, ?_, hsorted, htwo, hrun₂,
    hq₂, ?_, fun x hx => (hall x hx).2.1⟩
  · exact (congrArg (fun c : Conn => c.tcb.ooo.map OooPkt.seq) hlist₁).symm.trans hseqs₁
  · exact (congrArg (fun c : Conn => c.tcb.ooo.map OooPkt.seq) hlist₂).symm.trans hseqs₂

end PacketForge
