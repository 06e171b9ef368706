import PacketForge.Tcp.Control
import PacketForge.Tcp.Retries
import PacketForge.Tcp.Timing

/-!
Karn's rule. One data segment at a time is timed; a retransmission stops the
timing. So a measurement is always about a segment that was transmitted once,
none of whose bytes went out again, and it is taken at the first acceptable
acknowledgement that covers it.

The connection is accompanied by a record of the data it transmitted and the
acknowledgements it accepted. The measurement itself is a difference of 64-bit
times stored in 32 bits, so it is the time that has passed unless that is
2^32 ms or more.
-/

namespace PacketForge

/-! ### The record of a connection -/

/-- A data segment as it was transmitted. Positions count sequence numbers from
the ISS on and do not wrap. -/
structure Transmission where
  time : Nat
  first : Nat
  len : Nat
deriving DecidableEq

def Transmission.stop (x : Transmission) : Nat := x.first + x.len

def Transmission.Overlaps (x y : Transmission) : Prop := x.first < y.stop ∧ y.first < x.stop

inductive TimingRecord where
  | sent (x : Transmission)
  /-- An acknowledgement number that passed every check before the fifth step. -/
  | heard (ack : UInt32)
deriving DecidableEq

namespace TimingRecord

/-- The record is of other bytes than `x`, and does not cover `seq`. -/
def Spares (x : Transmission) (seq : UInt32) : TimingRecord → Prop
  | sent y => ¬ x.Overlaps y
  | heard ack => seqGe ack seq = false

end TimingRecord

/-- `x` was transmitted, no other transmission has a byte of it, and nothing
heard since covers `seq`. -/
def OnceSent (x : Transmission) (seq : UInt32) (log : List TimingRecord) : Prop :=
  ∃ before after, log = before ++ .sent x :: after ∧
    (∀ y, .sent y ∈ before ++ after → ¬ x.Overlaps y) ∧
    ∀ ack, .heard ack ∈ after → seqGe ack seq = false

namespace OnceSent

variable {x y : Transmission} {seq : UInt32} {log : List TimingRecord}

theorem append (h : OnceSent x seq log) {more : List TimingRecord}
    (hmore : ∀ r ∈ more, r.Spares x seq) : OnceSent x seq (log ++ more) := by
  obtain ⟨before, after, rfl, hsent, hheard⟩ := h
  refine ⟨before, after ++ more, by simp, ?_, ?_⟩
  · intro y hy
    rw [← List.append_assoc] at hy
    rcases List.mem_append.mp hy with hold | hnew
    · exact hsent y hold
    · exact hmore _ hnew
  · intro ack hack
    rcases List.mem_append.mp hack with hold | hnew
    · exact hheard ack hold
    · exact hmore _ hnew

theorem latest (hfree : ∀ y, .sent y ∈ log → y.stop ≤ x.first) :
    OnceSent x seq (log ++ [.sent x]) := by
  refine ⟨log, [], rfl, ?_, by simp⟩
  rintro y hy ⟨hlt, -⟩
  rw [List.append_nil] at hy
  have hle := hfree y hy
  omega

theorem mem (h : OnceSent x seq log) : .sent x ∈ log := by
  obtain ⟨before, after, rfl, -, -⟩ := h
  simp

/-- Two transmissions that end at the same position are one. -/
theorem unique (h : OnceSent x seq log) (hy : .sent y ∈ log) (hstop : y.stop = x.stop)
    (hx : 0 < x.len) (hpos : 0 < y.len) : y = x := by
  obtain ⟨before, after, rfl, hsent, -⟩ := h
  have hover : x.Overlaps y := by
    unfold Transmission.Overlaps
    unfold Transmission.stop at hstop ⊢
    omega
  by_contra hne
  refine hsent y ?_ hover
  simpa [hne] using hy

end OnceSent

/-- How a segment is recorded while `una` stands at position `base`. -/
def Seg.transmission (g : Seg) (now base : Nat) (una : UInt32) : Transmission where
  time := now
  first := base + (g.seq - una).toNat
  len := g.payload.length

def transmitted (now base : Nat) (una : UInt32) (gs : List Seg) : List TimingRecord :=
  gs.map fun g => .sent (g.transmission now base una)

/-- The acknowledgement number an event brings, if it is acceptable. -/
def heardAck (c : Conn) : ConnEvent → Option UInt32
  | .segment _ _ g =>
    if c.fate = .alive ∧ c.tcb.state ≠ .synSent ∧ reachesAck c.tcb g = true then some g.ack
    else none
  | _ => none

/-- A connection, the position of its `snd_una`, the time of its last event and
its record. -/
structure TimedHist where
  conn : Conn
  base : Nat
  clock : Nat
  log : List TimingRecord

namespace TimedHist

def timeOf (h : TimedHist) (e : ConnEvent) : Nat := e.time.getD h.clock

def baseAt (h : TimedHist) (x : UInt32) : Nat := h.base + (x - h.conn.tcb.sndUna).toNat

def heard (h : TimedHist) (e : ConnEvent) : List TimingRecord :=
  (heardAck h.conn e).toList.map .heard

def step (h : TimedHist) (e : ConnEvent) : TimedHist :=
  let c := connStep h.conn e
  let base := h.baseAt c.tcb.sndUna
  { conn := c
    base := base
    clock := h.timeOf e
    log := h.log ++ h.heard e ++ transmitted (h.timeOf e) base c.tcb.sndUna c.dataOut }

structure Opens (h : TimedHist) : Prop where
  opened : Opened h.conn
  base : h.base = 0
  log : h.log = []

def Later (h : TimedHist) (e : ConnEvent) : Prop := h.clock ≤ h.timeOf e

instance (h : TimedHist) (e : ConnEvent) : Decidable (h.Later e) :=
  inferInstanceAs (Decidable (_ ≤ _))

abbrev Reach : TimedHist → Prop := Run.Reach Opens Later step

def Measures (h : TimedHist) (e : ConnEvent) : Prop :=
  ∃ r n, .ack (some r) n ∈ connFeedback h.conn e

/-- What an event measures is the time from the only transmission of the timed
segment, which ends at `rtt_seq`, to the first acknowledgement that covers it. -/
def KarnOk (h : TimedHist) (e : ConnEvent) : Prop :=
  ∀ r n, .ack (some r) n ∈ connFeedback h.conn e →
    ∃ x ack, 0 < x.len ∧ x.stop = h.baseAt h.conn.tcb.rttSeq ∧
      OnceSent x h.conn.tcb.rttSeq h.log ∧ heardAck h.conn e = some ack ∧
      seqGe ack h.conn.tcb.rttSeq = true ∧ r.toNat = h.timeOf e - x.time

/-- The measurement does not fit 32 bits. -/
def Overdue (h : TimedHist) (e : ConnEvent) : Prop :=
  h.Measures e ∧ 2 ^ 32 ≤ h.timeOf e - h.conn.tcb.rttStartMs

end TimedHist

/-! ### What the record says of the timed segment -/

def RttView.log (v : RttView) (pre : List TimingRecord) (now base : Nat) : List TimingRecord :=
  pre ++ transmitted now base v.una v.data

/-- `x` is the segment being timed. -/
structure TimedSeg (x : Transmission) (now base : Nat) (v : RttView) : Prop where
  time : x.time = v.start
  past : v.start ≤ now
  len : 0 < x.len
  stop : x.stop = base + (v.seq - v.una).toNat
  ahead : 0 < (v.seq - v.una).toNat
  within : (v.seq - v.una).toNat ≤ (v.nxt - v.una).toNat

/-- The record ends at `snd_nxt`, and the segment being timed was sent once. -/
structure Karn (pre : List TimingRecord) (now base : Nat) (v : RttView) : Prop where
  sent : ∀ y, .sent y ∈ v.log pre now base → y.stop ≤ base + (v.nxt - v.una).toNat
  opening : v.opening = true → v.timing = false
  timed : v.timing = true → ∃ x, TimedSeg x now base v ∧ OnceSent x v.seq (v.log pre now base)

section Views

variable {now base : Nat} {v w : RttView} {pre : List TimingRecord}

theorem RttView.log_snoc (v : RttView) (g : Seg) (pre : List TimingRecord) (now base : Nat)
    (data : List Seg) (h : data = v.data ++ [g]) :
    pre ++ transmitted now base v.una data =
      v.log pre now base ++ [.sent (g.transmission now base v.una)] := by
  rw [h]
  simp [RttView.log, transmitted]

namespace Karn

theorem sent_snoc (h : Karn pre now base v) {x : Transmission} {bound : Nat}
    (hgrow : base + (v.nxt - v.una).toNat ≤ bound) (hx : x.stop ≤ bound) (y : Transmission)
    (hy : .sent y ∈ v.log pre now base ++ [.sent x]) : y.stop ≤ bound := by
  rcases List.mem_append.mp hy with hold | hnew
  · exact (h.sent y hold).trans hgrow
  · cases List.mem_singleton.mp hnew
    exact hx

/-- A new segment at `snd_nxt` has no byte in common with the timed one. -/
theorem spares_new (h : Karn pre now base v) {x y : Transmission}
    (hx : .sent x ∈ v.log pre now base) (hy : y.first = base + (v.nxt - v.una).toNat) :
    (TimingRecord.sent y).Spares x v.seq := by
  rintro ⟨-, hlt⟩
  have hle := h.sent x hx
  omega

theorem data (h : Karn pre now base v) {g : Seg} {n : UInt32} (hopen : v.opening = false)
    (hseq : g.seq = v.nxt) (hlen : g.payload.length = n.toNat) (hpos : 0 < n.toNat)
    (hfit : (v.nxt - v.una).toNat + n.toNat < 2 ^ 32) : Karn pre now base (v.sendData now g n) := by
  have hnext : (v.nxt + n - v.una).toNat = (v.nxt - v.una).toNat + n.toNat :=
    Flight.advance_toNat hfit
  set z := g.transmission now base v.una with hz
  have hfirst : z.first = base + (v.nxt - v.una).toNat := by
    rw [hz, ← hseq]
    rfl
  have hstop : z.stop = base + (v.nxt + n - v.una).toNat := by
    rw [Transmission.stop, hfirst, hnext, ← hlen]
    exact Nat.add_assoc _ _ _
  have hlog : (v.sendData now g n).log pre now base = v.log pre now base ++ [.sent z] :=
    v.log_snoc g pre now base _ rfl
  refine ⟨?_, ?_, ?_⟩
  · intro y hy
    rw [hlog] at hy
    change y.stop ≤ base + (v.nxt + n - v.una).toNat
    exact h.sent_snoc (by omega) (Nat.le_of_eq hstop) y hy
  · intro hst
    exact absurd (hst.symm.trans hopen) (by simp)
  · intro _
    rw [hlog]
    cases htiming : v.timing with
    | true =>
      obtain ⟨x, hx, honce⟩ := h.timed htiming
      have hview : v.sendData now g n =
          { v with nxt := v.nxt + n, timing := true, data := v.data ++ [g] } := by
        simp [RttView.sendData, htiming]
      rw [hview]
      refine ⟨x, ⟨hx.time, hx.past, hx.len, hx.stop, hx.ahead, ?_⟩, honce.append ?_⟩
      · have hle := hx.within
        change (v.seq - v.una).toNat ≤ (v.nxt + n - v.una).toNat
        omega
      · intro r hr
        cases List.mem_singleton.mp hr
        exact h.spares_new honce.mem hfirst
    | false =>
      have hview : v.sendData now g n =
          { v with
            nxt := v.nxt + n
            timing := true
            seq := v.nxt + n
            start := now
            data := v.data ++ [g] } := by
        simp [RttView.sendData, htiming]
      rw [hview]
      refine ⟨z, ⟨rfl, Nat.le_refl _, Nat.lt_of_lt_of_eq hpos hlen.symm, hstop, ?_, Nat.le_refl _⟩,
        OnceSent.latest (fun y hy => (h.sent y hy).trans (Nat.le_of_eq hfirst.symm))⟩
      change 0 < (v.nxt + n - v.una).toNat
      omega

theorem fin (h : Karn pre now base v) (hfit : (v.nxt - v.una).toNat + 1 < 2 ^ 32) :
    Karn pre now base { v with nxt := v.nxt + 1 } := by
  have hnext : (v.nxt + 1 - v.una).toNat = (v.nxt - v.una).toNat + 1 :=
    Flight.advance_toNat hfit
  refine ⟨?_, h.opening, ?_⟩
  · intro y hy
    have hle := h.sent y hy
    change y.stop ≤ base + (v.nxt + 1 - v.una).toNat
    omega
  · intro htiming
    obtain ⟨x, hx, honce⟩ := h.timed htiming
    refine ⟨x, ⟨hx.time, hx.past, hx.len, hx.stop, hx.ahead, ?_⟩, honce⟩
    have hle := hx.within
    change (v.seq - v.una).toNat ≤ (v.nxt + 1 - v.una).toNat
    omega

/-- Nothing is timed while nothing is in flight. -/
theorem idle (h : Karn pre now base v) (hidle : v.una = v.nxt) : v.timing = false := by
  cases htiming : v.timing with
  | false => rfl
  | true =>
    obtain ⟨x, hx, -⟩ := h.timed htiming
    have hahead := hx.ahead
    have hle := hx.within
    rw [← hidle, UInt32.sub_self, UInt32.toNat_zero] at hle
    omega

theorem probe (h : Karn pre now base v) {g : Seg} (hidle : v.una = v.nxt) (hseq : g.seq = v.nxt)
    (hlen : g.payload.length = 1) :
    Karn pre now base { v with nxt := v.nxt + 1, data := v.data ++ [g] } := by
  have hoff := h.idle hidle
  have hzero : (v.nxt - v.una).toNat = 0 := by
    rw [hidle, UInt32.sub_self]
    rfl
  have hnext : (v.nxt + 1 - v.una).toNat = (v.nxt - v.una).toNat + 1 :=
    Flight.advance_toNat (show (v.nxt - v.una).toNat + 1 < 2 ^ 32 by omega)
  have hstop : (g.transmission now base v.una).stop = base + (v.nxt + 1 - v.una).toNat := by
    simp only [Transmission.stop, Seg.transmission, hseq, hlen, hnext]
    omega
  refine ⟨?_, h.opening, fun htiming => absurd (htiming.symm.trans hoff) (by simp)⟩
  intro y hy
  rw [RttView.log, v.log_snoc g pre now base _ rfl] at hy
  change y.stop ≤ base + (v.nxt + 1 - v.una).toNat
  exact h.sent_snoc (by omega) (Nat.le_of_eq hstop) y hy

theorem forget (h : Karn pre now base v) : Karn pre now base { v with timing := false } :=
  ⟨h.sent, fun _ => rfl, fun htiming => Bool.noConfusion htiming⟩

theorem resend (h : Karn pre now base v) {g : Seg} (hoff : v.timing = false) (hseq : g.seq = v.una)
    (hlen : g.payload.length ≤ (v.nxt - v.una).toNat) :
    Karn pre now base { v with data := v.data ++ [g] } := by
  have hstop : (g.transmission now base v.una).stop ≤ base + (v.nxt - v.una).toNat := by
    simp only [Transmission.stop, Seg.transmission, hseq, UInt32.sub_self, UInt32.toNat_zero]
    omega
  refine ⟨?_, h.opening, fun htiming => absurd (htiming.symm.trans hoff) (by simp)⟩
  intro y hy
  rw [RttView.log, v.log_snoc g pre now base _ rfl] at hy
  exact h.sent_snoc (Nat.le_refl _) hstop y hy

theorem opened (h : Karn pre now base v) : Karn pre now base { v with opening := false } := by
  refine ⟨h.sent, fun hst => Bool.noConfusion hst, ?_⟩
  intro htiming
  obtain ⟨x, hx, honce⟩ := h.timed htiming
  exact ⟨x, ⟨hx.time, hx.past, hx.len, hx.stop, hx.ahead, hx.within⟩, honce⟩

theorem move (h : Karn pre now base v) (hmove : RttMove now v w) : Karn pre now base w := by
  cases hmove with
  | data g n hopen hseq hlen hpos hfit => exact h.data hopen hseq hlen hpos hfit
  | fin hfit => exact h.fin hfit
  | probe g hidle hseq hlen => exact h.probe hidle hseq hlen
  | forget => exact h.forget
  | resend g hoff hseq hlen => exact h.resend hoff hseq hlen
  | opened => exact h.opened

theorem moves (h : Karn pre now base v) (hmoves : RttMoves now v w) : Karn pre now base w := by
  induction hmoves with
  | refl => exact h
  | tail _ hmove ih => exact ih.move hmove

/-- What is heard that does not cover the timed segment. -/
theorem hear (h : Karn pre now base v) (hdata : v.data = []) {more : List TimingRecord}
    (hmore : ∀ r ∈ more, ∃ ack, r = .heard ack ∧ (v.timing = true → seqGe ack v.seq = false)) :
    Karn (pre ++ more) now base v := by
  have hlog (l : List TimingRecord) : v.log l now base = l := by
    rw [RttView.log, hdata]
    exact List.append_nil l
  refine ⟨?_, h.opening, ?_⟩
  · intro y hy
    rw [hlog] at hy
    rcases List.mem_append.mp hy with hold | hnew
    · exact h.sent y ((hlog pre).symm ▸ hold)
    · obtain ⟨ack, heq, -⟩ := hmore _ hnew
      cases heq
  · intro htiming
    obtain ⟨x, hx, honce⟩ := h.timed htiming
    rw [hlog] at honce
    refine ⟨x, hx, ?_⟩
    rw [hlog]
    refine honce.append ?_
    intro r hr
    obtain ⟨ack, rfl, hcover⟩ := hmore r hr
    exact hcover htiming

/-- An acknowledgement between `snd_una` and `snd_nxt` takes effect and is
recorded. What it does not cover stays timed. -/
theorem acked (h : Karn pre now base v) (hdata : v.data = []) {ack : UInt32}
    (hle : (ack - v.una).toNat ≤ (v.nxt - v.una).toNat) (hflight : (v.nxt - v.una).toNat < 2 ^ 31) :
    Karn pre now (base + (ack - v.una).toNat) (v.acked ack) := by
  have hlog (u : UInt32) (b : Nat) : { v with una := u }.log pre now b = pre := by
    rw [RttView.log, hdata]
    exact List.append_nil pre
  have hrest {z : UInt32} (hz : (ack - v.una).toNat ≤ (z - v.una).toNat) :
      (z - ack).toNat = (z - v.una).toNat - (ack - v.una).toNat := by
    have hsub : z - ack = (z - v.una) - (ack - v.una) := by grind
    rw [hsub, UInt32.toNat_sub_of_le _ _ (UInt32.le_iff_toNat_le.mpr hz)]
  refine ⟨?_, ?_, ?_⟩
  · intro y hy
    have hy' : .sent y ∈ v.log pre now base := (hlog v.una base).symm ▸ (hlog ack _ ▸ hy)
    have hold := h.sent y hy'
    change y.stop ≤ base + (ack - v.una).toNat + (v.nxt - ack).toNat
    rw [hrest hle]
    omega
  · intro hst
    have hoff := h.opening hst
    change (v.timing && !seqGe ack v.seq) = false
    rw [hoff]
    rfl
  · intro htiming
    change (v.timing && !seqGe ack v.seq) = true at htiming
    rw [Bool.and_eq_true, Bool.not_eq_true'] at htiming
    obtain ⟨x, hx, honce⟩ := h.timed htiming.1
    have hwithin := hx.within
    have hnot : ¬ (ack - v.seq).toNat < 2 ^ 31 := by
      rw [← seqGe_iff, htiming.2]
      exact Bool.false_ne_true
    -- the timed segment ends behind the acknowledgement
    have hlt : (ack - v.una).toNat < (v.seq - v.una).toNat := by
      by_contra hge
      have hsub : ack - v.seq = (ack - v.una) - (v.seq - v.una) := by grind
      rw [hsub, UInt32.toNat_sub_of_le _ _ (UInt32.le_iff_toNat_le.mpr (by omega))] at hnot
      omega
    have hseq := hrest (Nat.le_of_lt hlt)
    have hnxt := hrest hle
    have hstop := hx.stop
    refine ⟨x, ⟨hx.time, hx.past, hx.len, ?_, ?_, ?_⟩, ?_⟩
    · change x.stop = base + (ack - v.una).toNat + (v.seq - ack).toNat
      omega
    · change 0 < (v.seq - ack).toNat
      omega
    · change (v.seq - ack).toNat ≤ (v.nxt - ack).toNat
      omega
    · have hpre : v.log pre now base = pre := hlog v.una base
      rw [hpre] at honce
      exact (hlog ack _).symm ▸ honce

theorem settle (h : Karn pre now base v) :
    Karn (v.log pre now base) now base { v with data := [] } := by
  have hlog : { v with data := [] }.log (v.log pre now base) now base = v.log pre now base :=
    List.append_nil _
  refine ⟨?_, h.opening, ?_⟩
  · intro y hy
    exact h.sent y (hlog ▸ hy)
  · intro htiming
    obtain ⟨x, hx, honce⟩ := h.timed htiming
    exact ⟨x, ⟨hx.time, hx.past, hx.len, hx.stop, hx.ahead, hx.within⟩, hlog.symm ▸ honce⟩

/-- Time passes between events. -/
theorem later (h : Karn pre now base v) (hdata : v.data = []) {now' : Nat} (hnow : now ≤ now') :
    Karn pre now' base v := by
  have hlog (t : Nat) : v.log pre t base = pre := by
    rw [RttView.log, hdata]
    exact List.append_nil pre
  refine ⟨?_, h.opening, ?_⟩
  · intro y hy
    rw [hlog] at hy
    exact h.sent y ((hlog now).symm ▸ hy)
  · intro htiming
    obtain ⟨x, hx, honce⟩ := h.timed htiming
    rw [hlog] at honce ⊢
    exact ⟨x, ⟨hx.time, hx.past.trans hnow, hx.len, hx.stop, hx.ahead, hx.within⟩, honce⟩

end Karn

end Views

/-! ### One event -/

namespace TimedHist

variable {h : TimedHist} {e : ConnEvent}

theorem baseAt_una (h : TimedHist) : h.baseAt h.conn.tcb.sndUna = h.base := by
  rw [baseAt, UInt32.sub_self]
  rfl

/-- An event can only hear the acknowledgement of its segment. -/
theorem mem_heard {r : TimingRecord} (hr : r ∈ h.heard e) :
    ∃ g, e.seg = some g ∧ heardAck h.conn e = some g.ack ∧ r = .heard g.ack := by
  cases e with
  | segment now lroom g =>
    simp only [heard, heardAck] at hr ⊢
    split at hr
    · rename_i hok
      simp only [Option.toList_some, List.map_cons, List.map_nil, List.mem_singleton] at hr
      exact ⟨g, rfl, if_pos hok, hr⟩
    · cases hr
  | tick | send | recv | close | nodelay | attach => cases hr

/-- The event brings an acknowledgement of the segment being timed. -/
def covers (h : TimedHist) (e : ConnEvent) : Bool :=
  h.conn.tcb.rttTiming && (heardAck h.conn e).any (seqGe · h.conn.tcb.rttSeq)

/-- The record before the transmissions of an event, where `snd_una` is `una`.
An acknowledgement of the timed segment counts from where it takes effect. -/
def logAt (h : TimedHist) (e : ConnEvent) (una : UInt32) : List TimingRecord :=
  h.log ++ if h.covers e && una = h.conn.tcb.sndUna then [] else h.heard e

/-- What holds between the stages of an event. -/
structure Midway (h : TimedHist) (e : ConnEvent) (c : Conn) : Prop where
  una : c.tcb.sndUna = h.conn.tcb.sndUna ∨ ∃ g, e.seg = some g ∧ c.tcb.sndUna = g.ack
  karn : Karn (h.logAt e c.tcb.sndUna) (h.timeOf e) (h.baseAt c.tcb.sndUna) c.rtt

/-- The acknowledgement of a segment takes effect once. -/
theorem Midway.acked {c : Conn} {g : Seg} (hm : Midway h e c) (hf : Flight c.send)
    (hg : e.seg = some g) (hout : c.out = []) (hne : g.ack ≠ c.tcb.sndUna)
    (hle : (g.ack - c.tcb.sndUna).toNat ≤ (c.tcb.sndNxt - c.tcb.sndUna).toNat) :
    Karn (h.logAt e g.ack) (h.timeOf e) (h.baseAt g.ack) (c.rtt.acked g.ack) := by
  have huna : c.tcb.sndUna = h.conn.tcb.sndUna := by
    rcases hm.una with hold | ⟨g', hg', hmoved⟩
    · exact hold
    · rw [hg] at hg'
      cases hg'
      exact absurd hmoved.symm hne
  have hdata : c.rtt.data = [] := by
    change c.dataOut = []
    rw [Conn.dataOut, hout]
    rfl
  have hlt : (c.tcb.sndNxt - c.tcb.sndUna).toNat < 2 ^ 31 :=
    Nat.lt_trans hf.lt (by decide)
  have hlog : h.logAt e g.ack = h.log ++ h.heard e := by
    rw [logAt, if_neg]
    rw [Bool.and_eq_true, decide_eq_true_eq]
    exact fun hsame => hne (hsame.2.trans huna.symm)
  have hkarn := hm.karn
  rw [huna, baseAt_una, logAt] at hkarn
  have hbase : h.baseAt g.ack = h.base + (g.ack - c.rtt.una).toNat := by
    change h.base + (g.ack - h.conn.tcb.sndUna).toNat = h.base + (g.ack - c.tcb.sndUna).toNat
    rw [huna]
  rw [hlog, hbase]
  cases hcov : h.covers e with
  | true =>
    rw [hcov, if_pos (by simp), List.append_nil] at hkarn
    refine (hkarn.acked hdata hle hlt).hear hdata ?_
    intro r hr
    obtain ⟨g', hg', -, rfl⟩ := mem_heard hr
    rw [hg] at hg'
    cases hg'
    refine ⟨g.ack, rfl, ?_⟩
    intro htiming
    change (c.rtt.timing && !seqGe g.ack c.rtt.seq) = true at htiming
    rw [Bool.and_eq_true, Bool.not_eq_true'] at htiming
    exact htiming.2
  | false =>
    rw [hcov, if_neg (by simp)] at hkarn
    exact hkarn.acked hdata hle hlt

theorem Midway.act {c d : Conn} (hm : Midway h e c) (hs : Act e c d) (hf : Flight c.send) :
    Midway h e d := by
  have hnow (t : Nat) (ht : e.time = some t) : t = h.timeOf e := by
    rw [timeOf, ht]
    rfl
  cases hs.rtt hf hm.karn.opening hnow with
  | quiet hmoves =>
    have huna : d.tcb.sndUna = c.tcb.sndUna := hmoves.una
    refine ⟨huna ▸ hm.una, ?_⟩
    rw [huna]
    exact hm.karn.moves hmoves
  | acked g hg hout hne hle hmoves =>
    have huna : d.tcb.sndUna = g.ack := hmoves.una
    refine ⟨Or.inr ⟨g, hg, huna⟩, ?_⟩
    rw [huna]
    exact (hm.acked hf hg hout hne hle).moves hmoves

/-- What holds between events while the block is in use. -/
structure Ok (h : TimedHist) : Prop where
  clocked : Clocked h.conn.tcb
  karn : Karn h.log h.clock h.base (Conn.start h.conn.tcb h.conn.stats).rtt

theorem Ok.midway (hok : Ok h) (he : h.Later e) :
    Midway h e (Conn.start h.conn.tcb h.conn.stats) := by
  refine ⟨Or.inl rfl, ?_⟩
  change Karn (h.logAt e h.conn.tcb.sndUna) (h.timeOf e) (h.baseAt h.conn.tcb.sndUna) _
  have hkarn := hok.karn.later rfl he
  rw [baseAt_una, logAt]
  cases hcov : h.covers e with
  | true =>
    rw [if_pos (by simp), List.append_nil]
    exact hkarn
  | false =>
    rw [if_neg (by simp)]
    refine hkarn.hear rfl ?_
    intro r hr
    obtain ⟨g, -, hack, rfl⟩ := mem_heard hr
    refine ⟨g.ack, rfl, ?_⟩
    intro htiming
    have htiming' : h.conn.tcb.rttTiming = true := htiming
    change seqGe g.ack h.conn.tcb.rttSeq = false
    simpa [covers, htiming', hack] using hcov

end TimedHist

/-- An acknowledgement of something new moves `snd_una` to it. -/
theorem tcpInputSynced_una (now : Nat) {g : Seg} {c : Conn} (hgt : seqGt g.ack c.tcb.sndUna = true)
    (hle : seqGt g.ack c.tcb.sndNxt = false) : (tcpInputSynced now g c).tcb.sndUna = g.ack := by
  -- what follows can only move it there
  have hkeep {x y : Conn} (h : Acts (.segment now none g) x y) (hx : x.tcb.sndUna = g.ack) :
      y.tcb.sndUna = g.ack := by
    refine Acts.invariant (P := fun x => x.tcb.sndUna = g.ack) ?_ h hx
    intro x y hxy hx
    cases hxy.retry with
    | same h => exact (congrArg Prod.fst h).trans hx
    | progress _ _ _ he _ h =>
      cases he
      exact congrArg Prod.fst h
    | ticked _ he => cases he
  have hack : (tcpInputAck now g c).tcb.sndUna = g.ack := by
    rw [tcpInputAck, if_pos hgt]
    simp only [tcpInputNewAck]
    split
    · exact congrArg SendView.una (ackNew_send now g.ack c)
    · exact hkeep (tcpOutput_acts rfl _) (congrArg Prod.fst (tcpFinAckedNew_retry now _ g.ack c))
  have hsend : (tcpInputSend now g c).tcb.sndUna = g.ack := by
    simp only [tcpInputSend]
    split
    · exact hkeep (tcpInputWnd_acts none g _) hack
    · exact hack
  rw [tcpInputSynced, if_neg (by simp [hle])]
  simp only
  split
  · exact hkeep (tcpInputFin_stages now none g _).acts
      (hkeep (tcpInputText_stages now none g _).acts hsend)
  · exact hsend

/-- What covers a number in flight is new. -/
theorem seqGt_of_covers {una nxt seq ack : UInt32} (hahead : 0 < (seq - una).toNat)
    (hwithin : (seq - una).toNat ≤ (nxt - una).toNat) (hlt : (nxt - una).toNat < 2 ^ 31)
    (hge : seqGe ack seq = true) (hle : seqGt ack nxt = false) : seqGt ack una = true := by
  have hle : ¬ seqGt ack nxt = true := by simp [hle]
  rw [seqGe_iff] at hge
  rw [seqGt_iff] at hle ⊢
  rw [UInt32.toNat_sub] at hahead hwithin hlt hge hle ⊢
  rw [UInt32.toNat_sub] at hwithin
  have hack := ack.toNat_lt
  have huna := una.toNat_lt
  have hnxt := nxt.toNat_lt
  have hseq := seq.toNat_lt
  omega

namespace TimedHist

variable {h : TimedHist} {e : ConnEvent}

theorem heardAck_some {c : Conn} {ack : UInt32} (hack : heardAck c e = some ack) :
    ∃ now lroom g, e = .segment now lroom g ∧ ack = g.ack ∧ c.fate = .alive ∧
      c.tcb.state ≠ .synSent ∧ reachesAck c.tcb g = true := by
  cases e with
  | segment now lroom g =>
    simp only [heardAck] at hack
    split at hack
    · rename_i hok
      cases hack
      exact ⟨now, lroom, g, rfl, rfl, hok⟩
    · cases hack
  | tick | send | recv | close | nodelay | attach => cases hack

theorem Ok.una_moves (hok : Ok h) (hcov : h.covers e = true) :
    (connHandle (Conn.start h.conn.tcb h.conn.stats) e).tcb.sndUna ≠ h.conn.tcb.sndUna := by
  simp only [covers, Bool.and_eq_true, Option.any_eq_true] at hcov
  obtain ⟨htiming, ack, hack, hge⟩ := hcov
  obtain ⟨now, lroom, g, rfl, rfl, -, hsent, hreach⟩ := heardAck_some hack
  obtain ⟨x, hx, -⟩ := hok.karn.timed htiming
  have hrcvd : h.conn.tcb.state ≠ .synRcvd := by
    intro hst
    have hoff := hok.karn.opening (by simp [Conn.rtt, Conn.start, hst])
    exact absurd (htiming.symm.trans hoff) (by simp)
  have hle := reachesAck_le hreach
  have hgt : seqGt g.ack h.conn.tcb.sndUna = true :=
    seqGt_of_covers hx.ahead hx.within (Nat.lt_trans hok.clocked.flight.lt (by decide)) hge hle
  have hinput : tcpInputConn now lroom g (Conn.start h.conn.tcb h.conn.stats) =
      tcpInputSynced now g (Conn.start h.conn.tcb h.conn.stats) := by
    simp only [reachesAck, Bool.and_eq_true, Bool.not_eq_true'] at hreach
    simp [tcpInputConn, Conn.start, hsent, hrcvd, hreach]
  change (tcpInputConn now lroom g (Conn.start h.conn.tcb h.conn.stats)).tcb.sndUna ≠ _
  rw [hinput, tcpInputSynced_una (c := Conn.start h.conn.tcb h.conn.stats) now hgt hle]
  intro heq
  rw [heq, seqGt_iff, UInt32.sub_self] at hgt
  exact absurd hgt.1 (by decide)

theorem Ok.step (hok : Ok h) (halive : h.conn.fate = .alive) (he : h.Later e)
    (hend : (h.step e).conn.fate = .alive) : Ok (h.step e) := by
  have hstep : connStep h.conn e = connHandle (Conn.start h.conn.tcb h.conn.stats) e := by
    simp only [connStep, halive]
  have hend' : (connHandle (Conn.start h.conn.tcb h.conn.stats) e).fate = .alive := hstep ▸ hend
  have hall := hok.clocked.keeps (P := Midway h e)
    (fun _ _ hs hf hm => hm.act hs hf) (hok.midway he) hend'
  have hkarn := hall.2.karn
  have hlog : h.logAt e (connHandle (Conn.start h.conn.tcb h.conn.stats) e).tcb.sndUna =
      h.log ++ h.heard e := by
    rw [logAt, if_neg]
    rw [Bool.and_eq_true, decide_eq_true_eq]
    exact fun hsame => hok.una_moves hsame.1 hsame.2
  rw [hlog, ← hstep] at hkarn
  refine ⟨?_, hkarn.settle⟩
  change Clocked (connStep h.conn e).tcb
  rw [hstep]
  exact connHandle_clocked hok.clocked hend'

theorem Opens.ok (ho : Opens h) : Ok h := by
  have hoff := ho.opened.rttTiming
  refine ⟨ho.opened.clocked, ?_, fun _ => hoff, fun htiming => ?_⟩
  · intro y hy
    rw [ho.log] at hy
    cases hy
  · have htiming' : h.conn.tcb.rttTiming = true := htiming
    exact absurd (htiming'.symm.trans hoff) (by simp)

theorem Reach.ok (hr : Reach h) (halive : h.conn.fate = .alive) : Ok h := by
  induction hr with
  | start ho => exact ho.ok
  | next hr e he ih =>
    rename_i h
    have hlive : h.conn.fate = .alive := connStep_live halive
    exact (ih hlive).step hlive he halive

end TimedHist

/-! ### The measurement -/

/-- A measurement is taken where an acknowledgement covers the timed segment. -/
theorem connFeedback_sample {c : Conn} {e : ConnEvent} {r n : UInt32}
    (hopen : c.tcb.state = .synRcvd → c.tcb.rttTiming = false)
    (h : .ack (some r) n ∈ connFeedback c e) :
    ∃ now lroom g, e = .segment now lroom g ∧ heardAck c e = some g.ack ∧
      rttMeasured now g.ack c.tcb = some r := by
  have hacks (now : Nat) (g : Seg) (t : Tcb) (hmem : .ack (some r) n ∈ ackFeedback now g t) :
      seqGt g.ack t.sndNxt = false ∧ rttMeasured now g.ack t = some r := by
    unfold ackFeedback at hmem
    split at hmem
    · cases hmem
    rename_i hle
    split at hmem
    · simp only [List.mem_singleton, Feedback.ack.injEq] at hmem
      exact ⟨Bool.eq_false_iff.mpr hle, hmem.1.symm⟩
    split at hmem <;> simp at hmem
  unfold connFeedback at h
  split at h
  · rename_i halive
    cases e with
    | segment now lroom g =>
      simp only [feedback, segmentFeedback] at h
      split at h
      · -- SYN_SENT has nothing to measure
        unfold synSentFeedback at h
        repeat' split at h
        all_goals simp at h
      rename_i hsent
      split at h
      · cases h
      rename_i hacc
      split at h
      · cases h
      rename_i hrst
      split at h
      · cases h
      rename_i hsyn
      split at h
      · cases h
      rename_i hflag
      have hheard (hle : seqGt g.ack c.tcb.sndNxt = false) :
          heardAck c (.segment now lroom g) = some g.ack := by
        rw [heardAck, if_pos]
        refine ⟨halive, hsent, ?_⟩
        simp only [Bool.not_eq_true', Bool.not_eq_false] at hacc hflag
        simp [reachesAck, hacc, hrst, hsyn, hflag, hle]
      split at h
      · -- nor has SYN_RCVD
        rename_i hst
        unfold synRcvdFeedback at h
        split at h
        · rw [List.mem_cons] at h
          rcases h with h | h
          · cases h
          split at h
          · cases h
          have hnone := (hacks now g _ h).2
          have hoff : (tcpEstablish (c.setUna g.ack) g).tcb.rttTiming = false := hopen hst
          rw [rttMeasured, hoff] at hnone
          cases hnone
        · cases h
      · have hsample := hacks now g c.tcb h
        exact ⟨now, lroom, g, rfl, hheard hsample.1, hsample.2⟩
    | tick now =>
      simp only [feedback, tickFeedback] at h
      repeat' split at h
      all_goals simp at h
    | close now =>
      simp only [feedback] at h
      split at h <;> simp at h
    | send | recv | nodelay | attach => cases h
  · cases h

namespace TimedHist

/-- Every measurement obeys Karn's rule, and is the time that passed unless that
does not fit 32 bits. -/
theorem karn_rule_iff {h : TimedHist} (hr : Reach h) {e : ConnEvent} (he : h.Later e) :
    h.KarnOk e ↔ ¬ h.Overdue e := by
  -- a live connection that measures was timing a segment sent once
  have htimed {r n : UInt32} (hmem : .ack (some r) n ∈ connFeedback h.conn e) :
      ∃ x ack, TimedSeg x h.clock h.base (Conn.start h.conn.tcb h.conn.stats).rtt ∧
        OnceSent x h.conn.tcb.rttSeq h.log ∧ heardAck h.conn e = some ack ∧
        seqGe ack h.conn.tcb.rttSeq = true ∧ r.toNat = (h.timeOf e - x.time) % 2 ^ 32 := by
    have halive : h.conn.fate = .alive := by
      by_contra hgone
      rw [connFeedback, if_neg hgone] at hmem
      cases hmem
    have hok := Reach.ok hr halive
    have hopen (hst : h.conn.tcb.state = .synRcvd) : h.conn.tcb.rttTiming = false :=
      hok.karn.opening (by simp [Conn.rtt, Conn.start, hst])
    obtain ⟨now, lroom, g, rfl, hack, hsample⟩ := connFeedback_sample hopen hmem
    unfold rttMeasured at hsample
    split at hsample
    · rename_i hcov
      rw [Bool.and_eq_true] at hcov
      cases hsample
      obtain ⟨x, hx, honce⟩ := hok.karn.timed hcov.1
      have hlog : (Conn.start h.conn.tcb h.conn.stats).rtt.log h.log h.clock h.base = h.log :=
        List.append_nil _
      rw [hlog] at honce
      refine ⟨x, g.ack, hx, honce, hack, hcov.2, ?_⟩
      rw [hx.time]
      exact UInt32.toNat_ofNat'
    · cases hsample
  constructor
  · rintro hkarn ⟨⟨r, n, hmem⟩, hlong⟩
    obtain ⟨x, -, hx, honce, -, -, hr⟩ := htimed hmem
    obtain ⟨y, -, hlen, hstop, hsent, -, -, hr'⟩ := hkarn r n hmem
    have hsame : y = x := honce.unique hsent.mem (hstop.trans hx.stop.symm) hx.len hlen
    have hstart : x.time = h.conn.tcb.rttStartMs := hx.time
    rw [hsame, hstart] at hr'
    have hlt := r.toNat_lt
    omega
  · intro hfits r n hmem
    obtain ⟨x, ack, hx, honce, hack, hge, hr⟩ := htimed hmem
    have hstart : x.time = h.conn.tcb.rttStartMs := hx.time
    have hshort : h.timeOf e - x.time < 2 ^ 32 := by
      rw [hstart]
      exact Nat.lt_of_not_le (fun hlong => hfits ⟨⟨r, n, hmem⟩, hlong⟩)
    exact ⟨x, ack, hx.len, hx.stop, honce, hack, hge, hr.trans (Nat.mod_eq_of_lt hshort)⟩

end TimedHist

/-- A connection opened at time 0. -/
def timedOpenHist : TimedHist where
  conn := tcpOpenActiveConn 0 none 1 5000 2 80 100 Stats.zero
  base := 0
  clock := 0
  log := []

/-- It is answered at time 1 and sends one byte at time 2. -/
def timedByteHist : TimedHist :=
  (timedOpenHist.step (.segment 1 none (peerSeg (tcpSyn ||| tcpAck) 300 101 1000))).step
    (.send 2 [7])

theorem timedByteHist_reach : TimedHist.Reach timedByteHist := by
  have hstart : TimedHist.Reach timedOpenHist :=
    .start ⟨.active 0 none 1 5000 2 80 100 Stats.zero, rfl, rfl⟩
  have hlater : timedOpenHist.Later (.segment 1 none (peerSeg (tcpSyn ||| tcpAck) 300 101 1000)) :=
    Nat.zero_le 1
  exact .next (.next hstart _ hlater) _ (by decide +kernel)

theorem timedByteHist_log : timedByteHist.log = [.sent ⟨2, 1, 1⟩] := by
  decide +kernel

/-- The acknowledgement of that byte, received at time `now`. -/
def timedByteAcked (now : Nat) : ConnEvent := .segment now none (peerSeg tcpAck 301 102 1000)

/-- Eight milliseconds later. -/
theorem karn_rule_iff_one_byte :
    .ack (some 8) 1 ∈ connFeedback timedByteHist.conn (timedByteAcked 10) ∧
      timedByteHist.KarnOk (timedByteAcked 10) := by
  refine ⟨by decide +kernel, ?_⟩
  have hlater : timedByteHist.Later (timedByteAcked 10) := by decide +kernel
  refine (TimedHist.karn_rule_iff timedByteHist_reach hlater).mpr ?_
  rintro ⟨-, hlong⟩
  have hshort :
      timedByteHist.timeOf (timedByteAcked 10) - timedByteHist.conn.tcb.rttStartMs = 8 := by
    decide +kernel
  omega

/-- After 2^32 milliseconds without a tick the measurement is zero. -/
theorem karn_rule_overdue :
    TimedHist.Reach timedByteHist ∧ timedByteHist.Later (timedByteAcked 4294967298) ∧
      .ack (some 0) 1 ∈ connFeedback timedByteHist.conn (timedByteAcked 4294967298) ∧
      ¬ timedByteHist.KarnOk (timedByteAcked 4294967298) := by
  have hmem : .ack (some 0) 1 ∈ connFeedback timedByteHist.conn (timedByteAcked 4294967298) := by
    decide +kernel
  refine ⟨timedByteHist_reach, by decide +kernel, hmem, ?_⟩
  intro hkarn
  obtain ⟨x, -, -, -, honce, -, -, hr⟩ := hkarn 0 1 hmem
  have hx := honce.mem
  rw [timedByteHist_log, List.mem_singleton] at hx
  cases hx
  exact absurd hr (by decide +kernel)

end PacketForge
