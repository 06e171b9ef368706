import PacketForge.Tcp.Control
import PacketForge.Tcp.SenderRun
import PacketForge.Tcp.Stage

/-!
The congestion window over whole runs. The MSS is never zero and the slow start
threshold never below two, so the division of congestion avoidance is always
defined. The window itself has no upper limit: it grows on every
acknowledgement of new data and on every duplicate one beyond the third, in 32
bits. Until a growth wraps, it is at least one MSS from the end of the
handshake on, and no growth decreases it.
-/

namespace PacketForge

/-! ### Small multiples of the MSS do not wrap -/

section Multiples

variable (m : UInt16)

theorem mul_mss_toNat (k : UInt32) (hk : k.toNat ≤ 4) :
    (k * m.toUInt32).toNat = k.toNat * m.toNat := by
  have hlt := m.toNat_lt
  rw [UInt32.toNat_mul, UInt16.toNat_toUInt32]
  apply Nat.mod_eq_of_lt
  calc k.toNat * m.toNat ≤ 4 * m.toNat := Nat.mul_le_mul_right _ hk
    _ < 2 ^ 32 := by omega

theorem mss_square_toNat : (m.toUInt32 * m.toUInt32).toNat = m.toNat * m.toNat := by
  have hle : m.toNat ≤ 65535 := by
    have hlt := m.toNat_lt
    omega
  rw [UInt32.toNat_mul, UInt16.toNat_toUInt32]
  apply Nat.mod_eq_of_lt
  calc m.toNat * m.toNat ≤ 65535 * 65535 := Nat.mul_le_mul hle hle
    _ < 2 ^ 32 := by decide

/-- The threshold after a loss is at least two segments and below half the
sequence space. -/
theorem lossThreshold_toNat (n : UInt32) :
    (pfMax (n / 2) (2 * m.toUInt32)).toNat = max (n.toNat / 2) (2 * m.toNat) := by
  rw [pfMax_toNat, UInt32.toNat_div, mul_mss_toNat m 2 (by decide)]
  rfl

theorem initialWindow_toNat :
    (Control.initialWindow m).toNat = min (4 * m.toNat) (max (2 * m.toNat) 4380) := by
  unfold Control.initialWindow
  rw [pfMin_toNat, pfMax_toNat, mul_mss_toNat m 4 (by decide), mul_mss_toNat m 2 (by decide)]
  rfl

end Multiples

theorem usedMss_pos (peerMss : UInt16) : 1 ≤ (Control.usedMss peerMss).toNat := by
  apply Nat.one_le_iff_ne_zero.mpr
  intro hz
  have hzero : Control.usedMss peerMss = 0 := UInt16.toNat_inj.mp hz
  unfold Control.usedMss at hzero
  split at hzero
  · rename_i hne
    split at hzero
    · exact hne hzero
    · exact absurd hzero (by decide)
  · exact absurd hzero (by decide)

/-! ### The division of congestion avoidance -/

namespace Control

/-- The feedback on which `mss * mss / cwnd` is computed. -/
def Divides (v : Control) : Feedback → Prop
  | .ack _ _ => v.dupacks < 3 ∧ ¬ v.cwnd < v.ssthresh
  | _ => False

structure Sized (v : Control) : Prop where
  mss_pos : 1 ≤ v.mss.toNat
  thresh : 2 ≤ v.ssthresh.toNat

theorem measure_congestion (v : Control) (rtt : Option UInt32) :
    (v.measure rtt).opening = v.opening ∧ (v.measure rtt).mss = v.mss ∧
      (v.measure rtt).cwnd = v.cwnd ∧ (v.measure rtt).ssthresh = v.ssthresh ∧
      (v.measure rtt).dupacks = v.dupacks := by
  cases rtt <;> exact ⟨rfl, rfl, rfl, rfl, rfl⟩

theorem advance_frame (v : Control) (n : UInt32) :
    (v.advance n).opening = v.opening ∧ (v.advance n).mss = v.mss ∧
      (v.advance n).ssthresh = v.ssthresh := by
  unfold advance
  split
  · exact ⟨rfl, rfl, rfl⟩
  split <;> exact ⟨rfl, rfl, rfl⟩

variable {v : Control}

theorem Sized.recover (h : Sized v) (n : UInt32) : Sized (v.recover n) := by
  unfold Control.recover
  split
  · refine ⟨h.mss_pos, ?_⟩
    have hpos := h.mss_pos
    change 2 ≤ (pfMax (n / 2) (2 * v.mss.toUInt32)).toNat
    rw [lossThreshold_toNat]
    omega
  split
  · exact ⟨h.mss_pos, h.thresh⟩
  · exact h

theorem Sized.collapse (h : Sized v) (n : UInt32) : Sized (v.collapse n) := by
  unfold Control.collapse
  split
  · refine ⟨h.mss_pos, ?_⟩
    have hpos := h.mss_pos
    change 2 ≤ (pfMax (n / 2) (2 * v.mss.toUInt32)).toNat
    rw [lossThreshold_toNat]
    omega
  · exact h

theorem Sized.step (h : Sized v) (f : Feedback) : Sized (v.step f) := by
  cases f with
  | syn peerMss => exact ⟨usedMss_pos peerMss, h.thresh⟩
  | established => exact ⟨h.mss_pos, show 2 ≤ (0xffffffff : UInt32).toNat by decide⟩
  | closed => exact ⟨h.mss_pos, h.thresh⟩
  | ack rtt dbytes =>
    obtain ⟨-, hmss, hthresh⟩ := advance_frame (v.measure rtt) dbytes
    obtain ⟨-, hmss', -, hthresh', -⟩ := measure_congestion v rtt
    constructor
    · change 1 ≤ ((v.measure rtt).advance dbytes).mss.toNat
      rw [hmss, hmss']
      exact h.mss_pos
    · change 2 ≤ ((v.measure rtt).advance dbytes).ssthresh.toNat
      rw [hthresh, hthresh']
      exact h.thresh
  | dupAck inFlight =>
    exact Sized.recover (v := { v with dupacks := v.dupacks + 1 }) ⟨h.mss_pos, h.thresh⟩ inFlight
  | timeout inFlight =>
    have hc := h.collapse inFlight
    exact ⟨hc.mss_pos, hc.thresh⟩

theorem Sized.measure (h : Sized v) (rtt : Option UInt32) : Sized (v.measure rtt) := by
  obtain ⟨-, hmss, -, hthresh, -⟩ := measure_congestion v rtt
  exact ⟨hmss ▸ h.mss_pos, hthresh ▸ h.thresh⟩

theorem Sized.advance_cwnd (h : Sized v) (hpos : 0 < v.cwnd.toNat)
    (hfits : v.cwnd.toNat + v.mss.toNat < 2 ^ 32) (n : UInt32) : 0 < (v.advance n).cwnd.toNat := by
  have hmss := h.mss_pos
  have hlt := v.mss.toNat_lt
  unfold Control.advance
  split
  · exact Nat.lt_of_lt_of_le (by decide) h.thresh
  split
  · change 0 < (v.cwnd + pfMin n v.mss.toUInt32).toNat
    rw [UInt32.toNat_add, pfMin_toNat, UInt16.toNat_toUInt32, Nat.mod_eq_of_lt (by omega)]
    omega
  · change 0 < (v.cwnd + pfMax 1 (v.mss.toUInt32 * v.mss.toUInt32 / v.cwnd)).toNat
    rw [UInt32.toNat_add, pfMax_toNat, UInt32.toNat_div, mss_square_toNat]
    have hq : v.mss.toNat * v.mss.toNat / v.cwnd.toNat * v.cwnd.toNat ≤ 65535 * 65535 :=
      (Nat.div_mul_le_self _ _).trans (Nat.mul_le_mul (by omega) (by omega))
    -- positive numbers whose product fits have a sum that fits
    have hsum : v.mss.toNat * v.mss.toNat / v.cwnd.toNat + v.cwnd.toNat < 2 ^ 32 := by
      generalize v.mss.toNat * v.mss.toNat / v.cwnd.toNat = q at hq
      rcases Nat.eq_zero_or_pos q with rfl | hq0
      · omega
      · nlinarith
    have hone : (1 : UInt32).toNat = 1 := rfl
    rw [hone, Nat.mod_eq_of_lt (by omega)]
    omega

theorem Sized.recover_cwnd (h : Sized v) (hpos : 0 < v.cwnd.toNat)
    (hfits : v.cwnd.toNat + v.mss.toNat < 2 ^ 32) (n : UInt32) : 0 < (v.recover n).cwnd.toNat := by
  have hmss := h.mss_pos
  have hlt := v.mss.toNat_lt
  have hflight := n.toNat_lt
  unfold Control.recover
  split
  · change 0 < (pfMax (n / 2) (2 * v.mss.toUInt32) + 3 * v.mss.toUInt32).toNat
    have hthree : (3 : UInt32).toNat = 3 := rfl
    rw [UInt32.toNat_add, lossThreshold_toNat, mul_mss_toNat v.mss 3 (by decide), hthree,
      Nat.mod_eq_of_lt (by omega)]
    omega
  split
  · change 0 < (v.cwnd + v.mss.toUInt32).toNat
    rw [UInt32.toNat_add, UInt16.toNat_toUInt32, Nat.mod_eq_of_lt hfits]
    omega
  · exact hpos

theorem Sized.collapse_cwnd (h : Sized v) (hpos : 0 < v.cwnd.toNat) (n : UInt32) :
    0 < (v.collapse n).cwnd.toNat := by
  unfold Control.collapse
  split
  · change 0 < v.mss.toUInt32.toNat
    rw [UInt16.toNat_toUInt32]
    exact h.mss_pos
  · exact hpos

theorem Sized.initialWindow_pos (h : Sized v) : 0 < (Control.initialWindow v.mss).toNat := by
  have hmss := h.mss_pos
  rw [initialWindow_toNat]
  omega

theorem Sized.foldl (h : Sized v) (fs : List Feedback) : Sized (fs.foldl Control.step v) :=
  List.foldlRecOn (motive := Sized) fs Control.step h (fun _ hv f _ => hv.step f)

end Control

theorem ConnReach.sized {allowed : Conn → ConnEvent → Prop} {c : Conn}
    (hr : ConnReach allowed c) : c.tcb.control.Sized :=
  ConnReach.control ⟨by decide, by decide⟩ (fun _ f h => h.step f) hr

/-- In every run the MSS is at least one and the threshold at least two. So
whenever an event makes `tcp_input` compute `mss * mss / cwnd`, in the middle of
the event as well, the divisor is at least two and the product fits 32 bits. -/
theorem cwnd_division_safe {c : Conn} (hr : ConnReach (fun _ _ => True) c) :
    1 ≤ c.tcb.mss.toNat ∧ 2 ≤ c.tcb.ssthresh.toNat ∧
      ∀ (e : ConnEvent) (before after : List Feedback) (f : Feedback),
        connFeedback c e = before ++ f :: after →
        (before.foldl Control.step c.tcb.control).Divides f →
        1 ≤ (before.foldl Control.step c.tcb.control).mss.toNat ∧
          2 ≤ (before.foldl Control.step c.tcb.control).ssthresh.toNat ∧
          2 ≤ (before.foldl Control.step c.tcb.control).cwnd.toNat ∧
          (before.foldl Control.step c.tcb.control).mss.toNat *
            (before.foldl Control.step c.tcb.control).mss.toNat < 2 ^ 32 := by
  have hsized := hr.sized
  refine ⟨hsized.mss_pos, hsized.thresh, ?_⟩
  intro e before after f _ hdiv
  have hv := hsized.foldl before
  set v := before.foldl Control.step c.tcb.control
  refine ⟨hv.mss_pos, hv.thresh, ?_, ?_⟩
  · cases f with
    | ack rtt dbytes =>
      have hthresh := hv.thresh
      have hge := hdiv.2
      rw [UInt32.lt_iff_toNat_lt] at hge
      omega
    | syn | established | closed | dupAck | timeout => exact hdiv.elim
  · rw [← mss_square_toNat]
    exact UInt32.toNat_lt _

/-- A SYN-ACK that announces an MSS of one byte. -/
def tinyMssSynAck : Seg :=
  { peerSeg (tcpSyn ||| tcpAck) 300 101 1000 with opts := [tcpOptMss, 4, 0, 1] }

/-- A connection with that MSS after a fast retransmit and the acknowledgement
that ends the recovery. -/
def tinyMssConn : Conn :=
  [ConnEvent.segment 1 none tinyMssSynAck,
    .send 2 [1, 2],
    .segment 3 none (peerSeg tcpAck 301 101 1000),
    .segment 4 none (peerSeg tcpAck 301 101 1000),
    .segment 5 none (peerSeg tcpAck 301 101 1000),
    .segment 6 none (peerSeg tcpAck 301 102 1000)].foldl connStep
      (tcpOpenActiveConn 0 none 1 5000 2 80 100 Stats.zero)

theorem tinyMssConn_reach : ConnReach (fun _ _ => True) tinyMssConn :=
  Run.Reach.foldl (.start (.active 0 none 1 5000 2 80 100 Stats.zero)) _ (Run.Allowed.all _ _ _)

/-- With an MSS of one the divisor can be as small as two. -/
theorem cwnd_division_safe_two :
    let e := ConnEvent.segment 7 none (peerSeg tcpAck 301 103 1000)
    connFeedback tinyMssConn e = [] ++ .ack none 1 :: [] ∧ tinyMssConn.tcb.cwnd = 2 ∧
      2 ≤ tinyMssConn.tcb.control.cwnd.toNat ∧
      tinyMssConn.tcb.control.mss.toNat * tinyMssConn.tcb.control.mss.toNat < 2 ^ 32 := by
  have hfeed : connFeedback tinyMssConn (.segment 7 none (peerSeg tcpAck 301 103 1000)) =
      [] ++ .ack none 1 :: [] := by decide +kernel
  have hdiv : tinyMssConn.tcb.control.Divides (.ack none 1) :=
    ⟨by decide +kernel, by decide +kernel⟩
  have h := (cwnd_division_safe tinyMssConn_reach).2.2 _ [] [] (.ack none 1) hfeed hdiv
  exact ⟨hfeed, by decide +kernel, h.2.2.1, h.2.2.2⟩

/-! ### Growth -/

/-- The feedback one event can carry. -/
inductive Feedback.OfEvent (opening : Bool) : List Feedback → Prop where
  | none : OfEvent opening []
  | timeout (inFlight : UInt32) : OfEvent opening [.timeout inFlight]
  | ack (rtt : Option UInt32) (dbytes : UInt32) (ho : opening = false) :
      OfEvent opening [.ack rtt dbytes]
  | dupAck (inFlight : UInt32) (ho : opening = false) : OfEvent opening [.dupAck inFlight]
  | crossed (peerMss : UInt16) (ho : opening = true) : OfEvent opening [.syn peerMss]
  | opened (peerMss : UInt16) (ho : opening = true) : OfEvent opening [.syn peerMss, .established]
  | answered (ho : opening = true) : OfEvent opening [.established]
  | answeredDup (inFlight : UInt32) (ho : opening = true) :
      OfEvent opening [.established, .dupAck inFlight]

theorem ackFeedback_ofEvent (now : Nat) (g : Seg) (t : Tcb) :
    Feedback.OfEvent false (ackFeedback now g t) := by
  unfold ackFeedback
  split
  · exact .none
  split
  · exact .ack _ _ rfl
  split
  · exact .dupAck _ rfl
  · exact .none

/-- The segment that ends the handshake acknowledges nothing further. -/
theorem synRcvdFeedback_ofEvent (now : Nat) (lroom : Option Bool) (g : Seg) (c : Conn) :
    Feedback.OfEvent true (synRcvdFeedback now lroom g c) := by
  unfold synRcvdFeedback
  split
  case isFalse => exact .none
  split
  · exact .answered rfl
  have hsame : seqGt g.ack (tcpEstablish (c.setUna g.ack) g).tcb.sndUna = false := by
    change seqGt g.ack g.ack = false
    simp [seqGt]
  unfold ackFeedback
  rw [hsame]
  split
  · exact .answered rfl
  rw [if_neg Bool.false_ne_true]
  split
  · exact .answeredDup _ rfl
  · exact .answered rfl

theorem synSentFeedback_ofEvent (g : Seg) (t : Tcb) :
    Feedback.OfEvent true (synSentFeedback g t) := by
  unfold synSentFeedback
  split
  · exact .none
  split
  · exact .none
  split
  · by_cases hgt : seqGt (if g.has tcpAck then g.ack else t.sndUna) t.iss = true
    · rw [if_pos hgt]
      exact .opened _ rfl
    · rw [if_neg hgt]
      exact .crossed _ rfl
  · exact .none

theorem connFeedback_ofEvent {c : Conn} {e : ConnEvent} (hclose : CloseAfterHandshake c e) :
    Feedback.OfEvent c.tcb.control.opening (connFeedback c e) := by
  unfold connFeedback
  split
  case isFalse => exact .none
  cases e with
  | segment now lroom g =>
    change Feedback.OfEvent _ (segmentFeedback now lroom g c)
    unfold segmentFeedback
    split
    · rename_i hst
      have ho : c.tcb.control.opening = true := by simp [Tcb.control, hst]
      rw [ho]
      exact synSentFeedback_ofEvent g c.tcb
    rename_i hsent
    split
    · exact .none
    split
    · exact .none
    split
    · exact .none
    split
    · exact .none
    split
    · rename_i hst
      have ho : c.tcb.control.opening = true := by simp [Tcb.control, hst]
      rw [ho]
      exact synRcvdFeedback_ofEvent now lroom g c
    · rename_i hrcvd
      have ho : c.tcb.control.opening = false := by simp [Tcb.control, hsent, hrcvd]
      rw [ho]
      exact ackFeedback_ofEvent now g c.tcb
  | tick now =>
    change Feedback.OfEvent _ (tickFeedback now c.tcb)
    unfold tickFeedback
    split
    · exact .none
    split
    · split
      · exact .none
      · exact .timeout _
    · exact .none
  | close now =>
    change Feedback.OfEvent _ (if c.tcb.state = .synRcvd then [.closed] else [])
    rw [if_neg (hclose now rfl).2]
    exact .none
  | send | recv | nodelay | attach => exact .none

/-- The window stays open over a segment, provided that one MSS more fits 32 bits. -/
theorem Feedback.OfEvent.cwnd_pos {opening : Bool} {fs : List Feedback} {v : Control}
    (hf : Feedback.OfEvent opening fs) (h : v.Sized) (hpos : 0 < v.cwnd.toNat)
    (hfits : v.cwnd.toNat + v.mss.toNat < 2 ^ 32) : 0 < (fs.foldl Control.step v).cwnd.toNat := by
  have hdup (w : Control) (hw : w.Sized) (hc : 0 < w.cwnd.toNat)
      (hm : w.cwnd.toNat + w.mss.toNat < 2 ^ 32) (n : UInt32) :
      0 < (w.step (.dupAck n)).cwnd.toNat :=
    Control.Sized.recover_cwnd (v := { w with dupacks := w.dupacks + 1 }) ⟨hw.mss_pos, hw.thresh⟩
      hc hm n
  cases hf with
  | none | crossed => exact hpos
  | timeout n => exact h.collapse_cwnd hpos n
  | ack rtt dbytes =>
    obtain ⟨-, hm, hc, -, -⟩ := Control.measure_congestion v rtt
    exact (h.measure rtt).advance_cwnd (hc ▸ hpos) (by rw [hc, hm]; exact hfits) dbytes
  | dupAck n => exact hdup v h hpos hfits n
  | opened m => exact (h.step (.syn m)).initialWindow_pos
  | answered => exact h.initialWindow_pos
  | answeredDup n =>
    refine hdup (v.step .established) (h.step .established) h.initialWindow_pos ?_ n
    change (Control.initialWindow v.mss).toNat + v.mss.toNat < 2 ^ 32
    have hlt := v.mss.toNat_lt
    rw [initialWindow_toNat]
    omega

theorem connHandle_cwnd {t : Tcb} {st : Stats} {e : ConnEvent} (h : t.control.Sized)
    (hpos : 0 < t.cwnd.toNat)
    (hfits : ∀ now lroom g, e = .segment now lroom g → t.cwnd.toNat + t.mss.toNat < 2 ^ 32) :
    0 < (connHandle (Conn.start t st) e).tcb.cwnd.toNat := by
  change 0 < (connHandle (Conn.start t st) e).tcb.control.cwnd.toNat
  rw [connHandle_control]
  cases e with
  | segment now lroom g =>
    have hof := connFeedback_ofEvent (CloseAfterHandshake.segment (Conn.start t st) now lroom g)
    exact Feedback.OfEvent.cwnd_pos hof h hpos (hfits now lroom g rfl)
  | tick now =>
    change 0 < ((tickFeedback now t).foldl Control.step t.control).cwnd.toNat
    unfold tickFeedback
    split
    · exact hpos
    split
    · split
      · exact hpos
      · exact h.collapse_cwnd hpos _
    · exact hpos
  | close now =>
    change 0 < (List.foldl Control.step t.control
      (if t.state = .synRcvd then [.closed] else [])).cwnd.toNat
    split <;> exact hpos
  | send | recv | nodelay | attach => exact hpos

namespace Control

/-- By how much the window is to grow: on an acknowledgement of new data outside
recovery, and on a duplicate one beyond the third. -/
def growth (v : Control) : Feedback → Option Nat
  | .ack _ dbytes =>
    if v.dupacks < 3 then
      some (if v.cwnd < v.ssthresh then min dbytes.toNat v.mss.toNat
        else max 1 (v.mss.toNat * v.mss.toNat / v.cwnd.toNat))
    else none
  | .dupAck _ => if 3 ≤ v.dupacks then some v.mss.toNat else none
  | _ => none

/-- What holds while no growth has wrapped. The last field ties the counter of
duplicate acknowledgements to the window they have inflated, so that the
counter cannot wrap before the window does. -/
structure Wide (v : Control) : Prop where
  mss_pos : 1 ≤ v.mss.toNat
  fresh : v.opening = true → v.dupacks = 0
  cwnd : v.opening = false → v.mss.toNat ≤ v.cwnd.toNat
  thresh : v.opening = false → 2 * v.mss.toNat ≤ v.ssthresh.toNat
  inflated : 3 ≤ v.dupacks.toNat → (v.dupacks.toNat + 2) * v.mss.toNat ≤ v.cwnd.toNat

variable {v : Control}

theorem Wide.dupacks_succ (h : Wide v) : (v.dupacks + 1).toNat = v.dupacks.toNat + 1 := by
  have hone : (1 : UInt32).toNat = 1 := rfl
  rw [UInt32.toNat_add, hone]
  apply Nat.mod_eq_of_lt
  by_contra hbig
  have hlt := v.cwnd.toNat_lt
  have hinf := h.inflated (by omega)
  have hmul : (v.dupacks.toNat + 2) * 1 ≤ (v.dupacks.toNat + 2) * v.mss.toNat :=
    Nat.mul_le_mul_left _ h.mss_pos
  omega

theorem Wide.growth_le (h : Wide v) (ho : v.opening = false) {f : Feedback} {n : Nat}
    (hg : v.growth f = some n) : n ≤ v.mss.toNat := by
  have hmss := h.mss_pos
  cases f with
  | ack rtt dbytes =>
    simp only [growth] at hg
    split at hg
    case isFalse => cases hg
    cases hg
    split
    · exact Nat.min_le_right _ _
    · have hdiv : v.mss.toNat * v.mss.toNat / v.cwnd.toNat ≤ v.mss.toNat := by
        apply Nat.div_le_of_le_mul
        rw [Nat.mul_comm v.cwnd.toNat]
        exact Nat.mul_le_mul_left _ (h.cwnd ho)
      omega
  | dupAck inFlight =>
    simp only [growth] at hg
    split at hg
    · cases hg
      exact Nat.le_refl _
    · cases hg
  | syn | established | closed | timeout => cases hg

/-- What a growth does to the window, in 32 bits. -/
theorem Wide.growth_step (h : Wide v) {f : Feedback} {n : Nat} (hg : v.growth f = some n) :
    (v.step f).cwnd.toNat = (v.cwnd.toNat + n) % 2 ^ 32 := by
  cases f with
  | ack rtt dbytes =>
    obtain ⟨-, hmss, hcwnd, hthresh, hdup⟩ := measure_congestion v rtt
    simp only [growth] at hg
    split at hg
    case isFalse => cases hg
    rename_i hlow
    cases hg
    change ((v.measure rtt).advance dbytes).cwnd.toNat = _
    unfold advance
    rw [hmss, hcwnd, hthresh, hdup, if_neg (by rw [ge_iff_le, UInt32.not_le]; exact hlow)]
    split
    · change (v.cwnd + pfMin dbytes v.mss.toUInt32).toNat = _
      rw [UInt32.toNat_add, pfMin_toNat, UInt16.toNat_toUInt32]
    · change (v.cwnd + pfMax 1 (v.mss.toUInt32 * v.mss.toUInt32 / v.cwnd)).toNat = _
      rw [UInt32.toNat_add, pfMax_toNat, UInt32.toNat_div, mss_square_toNat]
      rfl
  | dupAck inFlight =>
    simp only [growth] at hg
    split at hg
    case isFalse => cases hg
    rename_i hhigh
    cases hg
    have hsucc := h.dupacks_succ
    rw [UInt32.le_iff_toNat_le] at hhigh
    have hthree : (3 : UInt32).toNat = 3 := rfl
    have hne : ¬ v.dupacks + 1 = 3 := by
      intro heq
      rw [heq] at hsucc
      omega
    have hgt : v.dupacks + 1 > 3 := by
      rw [gt_iff_lt, UInt32.lt_iff_toNat_lt]
      omega
    change (Control.recover { v with dupacks := v.dupacks + 1 } inFlight).cwnd.toNat = _
    unfold recover
    rw [if_neg hne, if_pos hgt]
    change (v.cwnd + v.mss.toUInt32).toNat = _
    rw [UInt32.toNat_add, UInt16.toNat_toUInt32]
  | syn | established | closed | timeout => cases hg

/-! ### What feedback keeps the window wide -/

theorem Wide.collapse (h : Wide v) (n : UInt32) : Wide (v.collapse n) := by
  have hpos := h.mss_pos
  unfold Control.collapse
  split
  · refine ⟨h.mss_pos, fun _ => rfl, fun _ => ?_, fun _ => ?_, fun h3 => ?_⟩
    · change v.mss.toNat ≤ v.mss.toUInt32.toNat
      rw [UInt16.toNat_toUInt32]
    · change 2 * v.mss.toNat ≤ (pfMax (n / 2) (2 * v.mss.toUInt32)).toNat
      rw [lossThreshold_toNat]
      omega
    · change 3 ≤ (0 : UInt32).toNat at h3
      exact absurd h3 (by decide)
  · exact h

theorem Wide.established (h : Wide v) (ho : v.opening = true) : Wide (v.step .established) := by
  have hpos := h.mss_pos
  have hlt := v.mss.toNat_lt
  have hdup := h.fresh ho
  refine ⟨h.mss_pos, fun ho' => Bool.noConfusion ho', fun _ => ?_, fun _ => ?_, fun h3 => ?_⟩
  · change v.mss.toNat ≤ (initialWindow v.mss).toNat
    rw [initialWindow_toNat]
    omega
  · change 2 * v.mss.toNat ≤ 4294967295
    omega
  · change 3 ≤ v.dupacks.toNat at h3
    rw [hdup] at h3
    exact absurd h3 (by decide)

theorem Wide.syn (h : Wide v) (ho : v.opening = true) (peerMss : UInt16) :
    Wide (v.step (.syn peerMss)) := by
  have hdup := h.fresh ho
  refine ⟨usedMss_pos peerMss, h.fresh, ?_, ?_, ?_⟩
  · intro ho'
    rw [show v.opening = false from ho'] at ho
    cases ho
  · intro ho'
    rw [show v.opening = false from ho'] at ho
    cases ho
  · intro h3
    change 3 ≤ v.dupacks.toNat at h3
    rw [hdup] at h3
    exact absurd h3 (by decide)

/-- An acknowledgement of new data ends a recovery at the threshold, or grows
the window. -/
theorem Wide.ack (h : Wide v) (ho : v.opening = false) (rtt : Option UInt32) (dbytes : UInt32)
    (hfit : ∀ n, v.growth (.ack rtt dbytes) = some n → v.cwnd.toNat + n < 2 ^ 32) :
    Wide (v.step (.ack rtt dbytes)) := by
  have hpos := h.mss_pos
  obtain ⟨hom, hmss, hcwnd, hthresh, hdup⟩ := measure_congestion v rtt
  obtain ⟨hoa, hmssa, hthresha⟩ := advance_frame (v.measure rtt) dbytes
  have hmss' : (v.step (.ack rtt dbytes)).mss = v.mss := hmssa.trans hmss
  have hopen' : (v.step (.ack rtt dbytes)).opening = v.opening := hoa.trans hom
  have hthresh' : (v.step (.ack rtt dbytes)).ssthresh = v.ssthresh := hthresha.trans hthresh
  have hwide : v.mss.toNat ≤ (v.step (.ack rtt dbytes)).cwnd.toNat := by
    by_cases hlow : v.dupacks < 3
    · have hg : ∃ n, v.growth (.ack rtt dbytes) = some n := by
        simp only [growth, if_pos hlow]
        exact ⟨_, rfl⟩
      obtain ⟨n, hn⟩ := hg
      have hold := h.cwnd ho
      rw [h.growth_step hn, Nat.mod_eq_of_lt (hfit n hn)]
      omega
    · have hrec : (v.step (.ack rtt dbytes)).cwnd = v.ssthresh := by
        change ((v.measure rtt).advance dbytes).cwnd = v.ssthresh
        unfold advance
        rw [hdup, if_pos (by rw [ge_iff_le, ← UInt32.not_lt]; exact hlow)]
        exact hthresh
      have hold := h.thresh ho
      rw [hrec]
      omega
  refine ⟨?_, ?_, ?_, ?_, ?_⟩
  · rw [hmss']
    exact h.mss_pos
  · exact fun _ => rfl
  · intro _
    rw [hmss']
    exact hwide
  · intro _
    rw [hmss', hthresh']
    exact h.thresh ho
  · intro h3
    change 3 ≤ (0 : UInt32).toNat at h3
    exact absurd h3 (by decide)

/-- A duplicate acknowledgement is counted, enters recovery, or grows the
window. -/
theorem Wide.dupAck (h : Wide v) (ho : v.opening = false) (inFlight : UInt32)
    (hfit : ∀ n, v.growth (.dupAck inFlight) = some n → v.cwnd.toNat + n < 2 ^ 32) :
    Wide (v.step (.dupAck inFlight)) := by
  have hpos := h.mss_pos
  have hmlt := v.mss.toNat_lt
  have hsucc := h.dupacks_succ
  have hthree : (3 : UInt32).toNat = 3 := rfl
  have hopen {w : Control} (hw : w.opening = v.opening) (hw' : w.opening = true) :
      w.dupacks = 0 := by
    rw [hw, ho] at hw'
    cases hw'
  by_cases hhigh : 3 ≤ v.dupacks
  · -- beyond the third
    have hg : v.growth (.dupAck inFlight) = some v.mss.toNat := by
      simp only [growth, if_pos hhigh]
    have hnew := h.growth_step hg
    rw [Nat.mod_eq_of_lt (hfit _ hg)] at hnew
    rw [UInt32.le_iff_toNat_le] at hhigh
    have hinf := h.inflated hhigh
    have hold := h.cwnd ho
    have hne : ¬ v.dupacks + 1 = 3 := by
      intro heq
      rw [heq] at hsucc
      omega
    have hgt : v.dupacks + 1 > 3 := by
      rw [gt_iff_lt, UInt32.lt_iff_toNat_lt]
      omega
    have hstep : v.step (.dupAck inFlight) =
        { v with dupacks := v.dupacks + 1, cwnd := v.cwnd + v.mss.toUInt32 } := by
      change Control.recover { v with dupacks := v.dupacks + 1 } inFlight = _
      unfold recover
      rw [if_neg hne, if_pos hgt]
    have hcwnd : (v.cwnd + v.mss.toUInt32).toNat = v.cwnd.toNat + v.mss.toNat := by
      rw [hstep] at hnew
      exact hnew
    rw [hstep]
    refine ⟨h.mss_pos, hopen rfl, fun _ => ?_, fun _ => h.thresh ho, fun _ => ?_⟩
    · change v.mss.toNat ≤ (v.cwnd + v.mss.toUInt32).toNat
      omega
    · change ((v.dupacks + 1).toNat + 2) * v.mss.toNat ≤ (v.cwnd + v.mss.toUInt32).toNat
      rw [hsucc, hcwnd]
      linarith
  · have hlow : v.dupacks.toNat < 3 := by
      rw [UInt32.le_iff_toNat_le] at hhigh
      omega
    by_cases hthird : v.dupacks + 1 = 3
    · -- the third: the threshold and the window are set anew, with room to spare
      have hstep : v.step (.dupAck inFlight) =
          { v with
            dupacks := v.dupacks + 1
            ssthresh := pfMax (inFlight / 2) (2 * v.mss.toUInt32)
            cwnd := pfMax (inFlight / 2) (2 * v.mss.toUInt32) + 3 * v.mss.toUInt32 } := by
        change Control.recover { v with dupacks := v.dupacks + 1 } inFlight = _
        unfold recover
        rw [if_pos hthird]
      have hth := lossThreshold_toNat v.mss inFlight
      have hlt := inFlight.toNat_lt
      have hcwnd : (pfMax (inFlight / 2) (2 * v.mss.toUInt32) + 3 * v.mss.toUInt32).toNat =
          max (inFlight.toNat / 2) (2 * v.mss.toNat) + 3 * v.mss.toNat := by
        rw [UInt32.toNat_add, hth, mul_mss_toNat v.mss 3 (by decide)]
        exact Nat.mod_eq_of_lt (by change _ + 3 * v.mss.toNat < 2 ^ 32; omega)
      rw [hstep]
      refine ⟨h.mss_pos, hopen rfl, fun _ => ?_, fun _ => ?_, fun _ => ?_⟩
      · change v.mss.toNat ≤ (pfMax (inFlight / 2) (2 * v.mss.toUInt32) + 3 * v.mss.toUInt32).toNat
        omega
      · change 2 * v.mss.toNat ≤ (pfMax (inFlight / 2) (2 * v.mss.toUInt32)).toNat
        omega
      · change ((v.dupacks + 1).toNat + 2) * v.mss.toNat ≤
          (pfMax (inFlight / 2) (2 * v.mss.toUInt32) + 3 * v.mss.toUInt32).toNat
        rw [hcwnd, hthird, hthree]
        omega
    · have hle : ¬ v.dupacks + 1 > 3 := by
        rw [gt_iff_lt, UInt32.lt_iff_toNat_lt]
        omega
      have hstep : v.step (.dupAck inFlight) = { v with dupacks := v.dupacks + 1 } := by
        change Control.recover { v with dupacks := v.dupacks + 1 } inFlight = _
        unfold recover
        rw [if_neg hthird, if_neg hle]
      rw [hstep]
      refine ⟨h.mss_pos, hopen rfl, fun _ => h.cwnd ho, fun _ => h.thresh ho, fun h3 => ?_⟩
      change 3 ≤ (v.dupacks + 1).toNat at h3
      exfalso
      apply hthird
      apply UInt32.toNat_inj.mp
      omega

theorem Wide.timeout (h : Wide v) (inFlight : UInt32) : Wide (v.step (.timeout inFlight)) := by
  have hc := h.collapse inFlight
  exact ⟨hc.mss_pos, hc.fresh, hc.cwnd, hc.thresh, hc.inflated⟩

/-- No growth of an event wraps. -/
def Fits (v : Control) (fs : List Feedback) : Prop :=
  v.opening = false → ∀ f ∈ fs, ∀ n, v.growth f = some n → v.cwnd.toNat + n < 2 ^ 32

theorem Wide.event (h : Wide v) {fs : List Feedback} (he : Feedback.OfEvent v.opening fs)
    (hfit : v.Fits fs) : Wide (fs.foldl Control.step v) := by
  cases he with
  | none => exact h
  | timeout inFlight => exact h.timeout inFlight
  | ack rtt dbytes ho => exact h.ack ho rtt dbytes (hfit ho _ List.mem_cons_self)
  | dupAck inFlight ho => exact h.dupAck ho inFlight (hfit ho _ List.mem_cons_self)
  | crossed peerMss ho => exact h.syn ho peerMss
  | opened peerMss ho => exact (h.syn ho peerMss).established ho
  | answered ho => exact h.established ho
  | answeredDup inFlight ho =>
    apply (h.established ho).dupAck rfl
    intro n hn
    -- the counter is still zero, so nothing grows
    have hzero : (v.step .established).dupacks = 0 := h.fresh ho
    simp only [growth, hzero] at hn
    cases hn

end Control

/-- Past the handshake an event carries at most one piece of feedback. -/
theorem Feedback.OfEvent.single {fs : List Feedback} (h : Feedback.OfEvent false fs) {f : Feedback}
    (hf : f ∈ fs) : fs = [f] := by
  cases h with
  | none => cases hf
  | timeout | ack | dupAck => rw [List.mem_singleton.mp hf]
  | crossed _ ho | opened _ ho | answered ho | answeredDup _ ho => cases ho

/-! ### Runs -/

theorem Synced.opening {t : Tcb} : Synced t ↔ t.control.opening = false := by
  simp [Synced, Tcb.control]

/-- An acknowledgement of new data outside recovery, or a duplicate one beyond
the third, after the handshake. -/
def CwndGrows (c : Conn) (e : ConnEvent) : Prop :=
  Synced c.tcb ∧ ∃ f ∈ connFeedback c e, ∃ n, c.tcb.control.growth f = some n

/-- The window and its growth do not fit 32 bits. -/
def CwndWraps (c : Conn) (e : ConnEvent) : Prop :=
  Synced c.tcb ∧ ∃ f ∈ connFeedback c e, ∃ n, c.tcb.control.growth f = some n ∧
    2 ^ 32 ≤ c.tcb.cwnd.toNat + n

/-- The congestion window alone never shuts off the send engine. -/
def CwndOpen (t : Tcb) : Prop := Synced t → 1 ≤ t.mss.toNat ∧ t.mss.toNat ≤ t.cwnd.toNat

theorem CwndOpen.of_wide {t : Tcb} (h : t.control.Wide) : CwndOpen t :=
  fun hsync => ⟨h.mss_pos, h.cwnd (Synced.opening.mp hsync)⟩

theorem connStep_wide {c : Conn} {e : ConnEvent} (h : c.tcb.control.Wide)
    (hclose : CloseAfterHandshake c e) (hfit : ¬ CwndWraps c e) :
    (connStep c e).tcb.control.Wide := by
  rw [connStep_control]
  apply h.event (connFeedback_ofEvent hclose)
  intro ho f hf n hn
  by_contra hover
  exact hfit ⟨Synced.opening.mpr ho, f, hf, n, hn, Nat.le_of_not_lt hover⟩

theorem ConnReach.wide {c : Conn}
    (hr : ConnReach (fun c e => CloseAfterHandshake c e ∧ ¬ CwndWraps c e) c) :
    c.tcb.control.Wide := by
  have hfresh : Control.fresh.Wide :=
    ⟨by decide, fun _ => rfl, fun ho => Bool.noConfusion ho, fun ho => Bool.noConfusion ho,
      fun h3 => absurd h3 (by decide)⟩
  refine Run.Reach.invariant (fun c => c.tcb.control.Wide) ?_ ?_ hr
  · intro c hc
    rcases hc.control with h | ⟨peerMss, h⟩
    · rw [h]
      exact hfresh
    · rw [h]
      exact hfresh.syn rfl peerMss
  · intro c e he hc
    exact connStep_wide hc he.1 he.2

/-- What a growth does in a run that has not wrapped. -/
theorem connStep_growth {c : Conn} {e : ConnEvent} (h : c.tcb.control.Wide)
    (hclose : CloseAfterHandshake c e) (hsync : Synced c.tcb) {f : Feedback}
    (hf : f ∈ connFeedback c e) {n : Nat} (hn : c.tcb.control.growth f = some n) :
    (connStep c e).tcb.cwnd.toNat = (c.tcb.cwnd.toNat + n) % 2 ^ 32 ∧ n ≤ c.tcb.mss.toNat := by
  have ho := Synced.opening.mp hsync
  have hone : connFeedback c e = [f] := by
    have he := connFeedback_ofEvent hclose
    rw [ho] at he
    exact he.single hf
  have hcwnd : (connStep c e).tcb.cwnd = (c.tcb.control.step f).cwnd := by
    have hcontrol := connStep_control c e
    rw [hone] at hcontrol
    exact congrArg Control.cwnd hcontrol
  rw [hcwnd]
  exact ⟨h.growth_step hn, h.growth_le ho hn⟩

/-- In a run in which no growth of the window has wrapped the window is at least
one MSS from the end of the handshake on; and an event does not decrease it by a
growth, and leaves it at least one MSS, exactly if its own growth does not wrap. -/
theorem cwnd_grows_iff {c : Conn}
    (hr : ConnReach (fun c e => CloseAfterHandshake c e ∧ ¬ CwndWraps c e) c) :
    CwndOpen c.tcb ∧
      ∀ e, CloseAfterHandshake c e →
        (((CwndGrows c e → c.tcb.cwnd ≤ (connStep c e).tcb.cwnd) ∧ CwndOpen (connStep c e).tcb) ↔
          ¬ CwndWraps c e) := by
  have hwide := hr.wide
  refine ⟨CwndOpen.of_wide hwide, ?_⟩
  intro e hclose
  constructor
  · rintro ⟨hmono, -⟩ ⟨hsync, f, hf, n, hn, hover⟩
    obtain ⟨hval, hle⟩ := connStep_growth hwide hclose hsync hf hn
    have hlt := c.tcb.cwnd.toNat_lt
    have hmss := c.tcb.mss.toNat_lt
    have hge := hmono ⟨hsync, f, hf, n, hn⟩
    rw [UInt32.le_iff_toNat_le, hval, Nat.mod_eq_sub_mod hover, Nat.mod_eq_of_lt (by omega)] at hge
    omega
  · intro hfit
    refine ⟨?_, CwndOpen.of_wide (connStep_wide hwide hclose hfit)⟩
    rintro ⟨hsync, f, hf, n, hn⟩
    obtain ⟨hval, -⟩ := connStep_growth hwide hclose hsync hf hn
    have hsmall : c.tcb.cwnd.toNat + n < 2 ^ 32 := by
      by_contra hover
      exact hfit ⟨hsync, f, hf, n, hn, Nat.le_of_not_lt hover⟩
    rw [UInt32.le_iff_toNat_le, hval, Nat.mod_eq_of_lt hsmall]
    omega

/-- A connection that has just been established. -/
def openedConn : Conn :=
  connStep (tcpOpenActiveConn 0 none 1 5000 2 80 100 Stats.zero)
    (.segment 1 none (peerSeg (tcpSyn ||| tcpAck) 300 101 1000))

/-- The application has written one byte. -/
def growingConn : Conn := connStep openedConn (.send 2 [1])

theorem growingConn_reach :
    ConnReach (fun c e => CloseAfterHandshake c e ∧ ¬ CwndWraps c e) growingConn := by
  have hopened : ConnReach (fun c e => CloseAfterHandshake c e ∧ ¬ CwndWraps c e) openedConn :=
    .next (.start (.active 0 none 1 5000 2 80 100 Stats.zero)) _
      ⟨.segment _ _ _ _, fun hwraps => hwraps.1.1 rfl⟩
  refine .next hopened (.send 2 [1]) ⟨.send _ _ _, ?_⟩
  rintro ⟨-, f, hf, -⟩
  have hquiet : connFeedback openedConn (.send 2 [1]) = [] := by decide +kernel
  rw [hquiet] at hf
  cases hf

/-- The byte is acknowledged. -/
theorem cwnd_grows_iff_acked :
    let e := ConnEvent.segment 3 none (peerSeg tcpAck 301 102 1000)
    CwndGrows growingConn e ∧ growingConn.tcb.cwnd ≤ (connStep growingConn e).tcb.cwnd ∧
      CwndOpen (connStep growingConn e).tcb ∧
      (connStep growingConn e).tcb.cwnd = growingConn.tcb.cwnd + 1 := by
  intro e
  have hfeed : connFeedback growingConn e = [.ack (some 1) 1] := by decide +kernel
  have hgrow : growingConn.tcb.control.growth (.ack (some 1) 1) = some 1 := by decide +kernel
  have hsync : Synced growingConn.tcb := ⟨by decide +kernel, by decide +kernel⟩
  have hfits : ¬ CwndWraps growingConn e := by
    rintro ⟨-, f, hf, n, hn, hover⟩
    rw [hfeed, List.mem_singleton] at hf
    rw [hf, hgrow] at hn
    cases hn
    exact absurd hover (by decide +kernel)
  have hgrows : CwndGrows growingConn e :=
    ⟨hsync, _, hfeed ▸ List.mem_singleton_self _, 1, hgrow⟩
  obtain ⟨hmono, hopen⟩ := ((cwnd_grows_iff growingConn_reach).2 e (.segment _ _ _ _)).mpr hfits
  exact ⟨hgrows, hmono hgrows, hopen, by decide +kernel⟩

/-! ### A window that wraps -/

/-- The send engine has nothing to do once everything queued is in flight. -/
theorem tcpOutput_idle (now : Nat) (c : Conn) (hlen : c.tcb.sndLen = tcpDataInFlight c.tcb)
    (hfin : c.tcb.finQueued = false) : tcpOutput now c = c := by
  have hnone (wnd : UInt32) : tcpNextChunk c.tcb wnd = none := by
    have hzero : chunkLen c.tcb wnd = 0 := by
      unfold chunkLen
      rw [hlen, UInt32.sub_self, UInt32.toNat_zero]
      omega
    rw [tcpNextChunk_eq, if_neg]
    rintro ⟨-, hpos, -⟩
    omega
  have hloop (wnd : UInt32) (fuel : Nat) : tcpOutputLoop now wnd fuel c = c := by
    cases fuel with
    | zero => rfl
    | succ fuel =>
      unfold tcpOutputLoop
      rw [hnone wnd]
  unfold tcpOutput
  split
  · simp only [hloop]
    unfold tcpOutputFin
    rw [if_neg (by simp [hfin])]
  · rfl

/-- The acknowledgement the peer of the run below repeats. -/
def repeatedAck : Seg := peerSeg tcpAck 301 101 1000

/-- One byte is in flight and nothing else is queued. -/
structure OneInFlight (c : Conn) : Prop where
  fate : c.fate = .alive
  state : c.tcb.state = .established
  una : c.tcb.sndUna = 101
  nxt : c.tcb.sndNxt = 102
  wnd : c.tcb.sndWnd = 1000
  len : c.tcb.sndLen = 1
  rcvNxt : c.tcb.rcvNxt = 301
  rcvLen : c.tcb.rcvLen = 0
  finQueued : c.tcb.finQueued = false
  finSent : c.tcb.finSent = false

namespace OneInFlight

variable {c : Conn}

theorem acceptable (h : OneInFlight c) : segAcceptable c.tcb repeatedAck = true := by
  have hw : tcpRcvWindow c.tcb = 65535 := by
    unfold tcpRcvWindow
    rw [h.rcvLen]
    decide
  simp only [segAcceptable, hw, h.rcvNxt]
  decide

theorem isDupAck (h : OneInFlight c) : PacketForge.isDupAck c.tcb repeatedAck = true := by
  simp only [PacketForge.isDupAck, h.una, h.nxt, h.wnd]
  decide

theorem feedback (h : OneInFlight c) (now : Nat) :
    connFeedback c (.segment now none repeatedAck) = [.dupAck 1] := by
  have hack : ackFeedback now repeatedAck c.tcb = [.dupAck 1] := by
    unfold ackFeedback
    rw [h.nxt, h.una, if_neg (by decide), if_neg (by decide), if_pos h.isDupAck]
    decide
  unfold connFeedback
  rw [if_pos h.fate]
  change segmentFeedback now none repeatedAck c = _
  unfold segmentFeedback
  rw [h.state, h.acceptable, if_neg (by decide), if_neg (by decide), if_neg (by decide),
    if_neg (by decide), if_neg (by decide), if_neg (by decide), hack]

theorem takeWnd (h : OneInFlight c) : OneInFlight (PacketForge.takeWnd repeatedAck c) :=
  ⟨h.fate, h.state, h.una, h.nxt, rfl, h.len, h.rcvNxt, h.rcvLen, h.finQueued, h.finSent⟩

theorem counted (h : OneInFlight c) (st : Stats) (cwnd dupacks : UInt32) :
    OneInFlight
      { Conn.start c.tcb st with tcb := { c.tcb with cwnd := cwnd, dupacks := dupacks } } :=
  ⟨rfl, h.state, h.una, h.nxt, h.wnd, h.len, h.rcvNxt, h.rcvLen, h.finQueued, h.finSent⟩

/-- The repeated acknowledgement changes nothing but the window and its
counter. -/
theorem step (h : OneInFlight c) (now : Nat) (hhigh : c.tcb.dupacks + 1 > 3) :
    OneInFlight (connStep c (.segment now none repeatedAck)) := by
  set d := Conn.start c.tcb c.stats with hd
  have hstep :
      connStep c (.segment now none repeatedAck) = tcpInputConn now none repeatedAck d := by
    simp only [connStep, h.fate, connHandle]
    rfl
  have hne : ¬ (d.tcb.dupacks + 1) = 3 := by
    intro heq
    rw [show c.tcb.dupacks + 1 = 3 from heq] at hhigh
    exact absurd hhigh (by decide)
  set x := ((d.count .tcpDupacksRx).setDupacks (d.tcb.dupacks + 1)).setCwnd
    (d.tcb.cwnd + d.tcb.mss.toUInt32) with hx
  have hinflight : tcpDataInFlight x.tcb = 1 := by
    change tcpDataInFlight { c.tcb with dupacks := _, cwnd := _ } = 1
    simp only [tcpDataInFlight, h.nxt, h.una, h.finSent]
    decide
  have hdup : tcpInputDupAck now d = x := by
    change (if d.tcb.dupacks + 1 = 3 then _ else if d.tcb.dupacks + 1 > 3 then tcpOutput now x
      else _) = x
    rw [if_neg hne, if_pos (show d.tcb.dupacks + 1 > 3 from hhigh)]
    exact tcpOutput_idle now x (h.len.trans hinflight.symm) h.finQueued
  have hack : tcpInputAck now repeatedAck d = x := by
    unfold tcpInputAck
    rw [show d.tcb.sndUna = 101 from h.una, if_neg (by decide),
      if_pos (show PacketForge.isDupAck d.tcb repeatedAck = true from h.isDupAck), hdup]
  have hsend : tcpInputSend now repeatedAck d = tcpInputWnd now repeatedAck x := by
    simp only [tcpInputSend, hack]
    rw [if_pos (show x.fate = .alive from rfl)]
  have hwnd : tcpInputWnd now repeatedAck x = x ∨
      tcpInputWnd now repeatedAck x = PacketForge.takeWnd repeatedAck x := by
    unfold tcpInputWnd
    split
    · split
      · rw [if_neg]
        · exact Or.inr rfl
        · rintro ⟨hz, -⟩
          rw [show x.tcb.sndWnd = 1000 from h.wnd] at hz
          exact absurd hz (by decide)
      · exact Or.inl rfl
    · exact Or.inl rfl
  have hrest (y : Conn) : tcpInputFin now repeatedAck (tcpInputText now repeatedAck y) = y := rfl
  have hconn : tcpInputConn now none repeatedAck d = tcpInputWnd now repeatedAck x := by
    unfold tcpInputConn
    have hst : d.tcb.state = .established := h.state
    have hacc : segAcceptable d.tcb repeatedAck = true := h.acceptable
    rw [hst, hacc, if_neg (by decide), if_neg (by decide), if_neg (by decide),
      if_neg (by decide), if_neg (by decide), if_neg (by decide)]
    unfold tcpInputSynced
    rw [show d.tcb.sndNxt = 102 from h.nxt, if_neg (by decide), hsend]
    simp only [hrest, ite_self]
  have hxok : OneInFlight x := h.counted _ _ _
  rw [hstep, hconn]
  rcases hwnd with heq | heq
  · rw [heq]
    exact hxok
  · rw [heq]
    exact hxok.takeWnd

theorem control_step (h : OneInFlight c) (now : Nat) (hhigh : c.tcb.dupacks + 1 > 3) :
    (connStep c (.segment now none repeatedAck)).tcb.control =
      { c.tcb.control with
        dupacks := c.tcb.dupacks + 1
        cwnd := c.tcb.cwnd + c.tcb.mss.toUInt32 } := by
  have hthird : ¬ c.tcb.dupacks + 1 = 3 := by
    intro heq
    rw [heq] at hhigh
    exact absurd hhigh (by decide)
  rw [connStep_control, h.feedback now]
  change Control.recover { c.tcb.control with dupacks := c.tcb.dupacks + 1 } 1 = _
  unfold Control.recover
  rw [if_neg hthird, if_pos hhigh]
  rfl

end OneInFlight

/-- A connection with one byte in flight whose peer has repeated its
acknowledgement three times. -/
def recovering : Conn :=
  [ConnEvent.segment 1 none (peerSeg (tcpSyn ||| tcpAck) 300 101 1000),
    .send 2 [1],
    .segment 3 none repeatedAck,
    .segment 3 none repeatedAck,
    .segment 3 none repeatedAck].foldl connStep
      (tcpOpenActiveConn 0 none 1 5000 2 80 100 Stats.zero)

/-- And `k` times more. -/
def recoveringFor : Nat → Conn
  | 0 => recovering
  | k + 1 => connStep (recoveringFor k) (.segment 3 none repeatedAck)

theorem recoveringFor_reach (k : Nat) : ConnReach CloseAfterHandshake (recoveringFor k) := by
  induction k with
  | zero =>
    apply Run.Reach.foldl (.start (.active 0 none 1 5000 2 80 100 Stats.zero))
    exact ⟨.segment _ _ _ _, .send _ _ _, .segment _ _ _ _, .segment _ _ _ _, .segment _ _ _ _,
      trivial⟩
  | succ k ih => exact .next ih _ (.segment _ _ _ _)

/-- The window has grown by one MSS for each repetition, until it wraps. -/
theorem recoveringFor_cwnd (k : Nat) (hk : 2680 + 536 * k < 2 ^ 32) :
    OneInFlight (recoveringFor k) ∧ (recoveringFor k).tcb.mss = 536 ∧
      (recoveringFor k).tcb.dupacks.toNat = 3 + k ∧
      (recoveringFor k).tcb.cwnd.toNat = 2680 + 536 * k := by
  induction k with
  | zero =>
    refine ⟨⟨?_, ?_, ?_, ?_, ?_, ?_, ?_, ?_, ?_, ?_⟩, ?_, ?_, ?_⟩ <;> decide +kernel
  | succ k ih =>
    obtain ⟨hone, hmss, hdup, hcwnd⟩ := ih (by omega)
    set c := recoveringFor k with hc
    have hnext : recoveringFor (k + 1) = connStep c (.segment 3 none repeatedAck) := rfl
    have hsucc : (c.tcb.dupacks + 1).toNat = 3 + (k + 1) := by
      rw [UInt32.toNat_add, hdup]
      exact Nat.mod_eq_of_lt (by change 3 + k + 1 < 4294967296; omega)
    have hhigh : c.tcb.dupacks + 1 > 3 := by
      rw [gt_iff_lt, UInt32.lt_iff_toNat_lt, hsucc]
      change 3 < _
      omega
    have hctl := hone.control_step 3 hhigh
    rw [hnext]
    refine ⟨hone.step 3 hhigh, ?_, ?_, ?_⟩
    · exact (congrArg Control.mss hctl).trans hmss
    · have h := congrArg (fun v => v.dupacks.toNat) hctl
      exact h.trans hsucc
    · have h := congrArg (fun v => v.cwnd.toNat) hctl
      refine h.trans ?_
      change (c.tcb.cwnd + c.tcb.mss.toUInt32).toNat = _
      rw [UInt32.toNat_add, UInt16.toNat_toUInt32, hcwnd, hmss]
      change (2680 + 536 * k + 536) % 4294967296 = _
      omega

/-- The repetition with which the window wraps. -/
theorem recoveringFor_wraps (k : Nat) (hlt : 2680 + 536 * k < 2 ^ 32)
    (hge : 2 ^ 32 ≤ 2680 + 536 * (k + 1)) :
    CwndGrows (recoveringFor k) (.segment 3 none repeatedAck) ∧
      (recoveringFor k).tcb.mss = 536 ∧
      (connStep (recoveringFor k) (.segment 3 none repeatedAck)).tcb.cwnd <
        (recoveringFor k).tcb.cwnd ∧
      (connStep (recoveringFor k) (.segment 3 none repeatedAck)).tcb.cwnd.toNat <
        (recoveringFor k).tcb.mss.toNat := by
  obtain ⟨hone, hmss, hdup, hcwnd⟩ := recoveringFor_cwnd k hlt
  generalize recoveringFor k = c at *
  have hhigh : (3 : UInt32) ≤ c.tcb.dupacks := by
    rw [UInt32.le_iff_toNat_le, hdup]
    exact Nat.le_add_right 3 k
  have hsucc : c.tcb.dupacks + 1 > 3 := by
    rw [gt_iff_lt, UInt32.lt_iff_toNat_lt, UInt32.toNat_add, hdup]
    change 3 < (3 + k + 1) % 4294967296
    omega
  have hval : (connStep c (.segment 3 none repeatedAck)).tcb.cwnd.toNat =
      2680 + 536 * (k + 1) - 2 ^ 32 := by
    have h := congrArg (fun v => v.cwnd.toNat) (hone.control_step 3 hsucc)
    refine h.trans ?_
    change (c.tcb.cwnd + c.tcb.mss.toUInt32).toNat = _
    rw [UInt32.toNat_add, UInt16.toNat_toUInt32, hcwnd, hmss]
    change (2680 + 536 * k + 536) % 4294967296 = _
    omega
  have hmss' : c.tcb.mss.toNat = 536 := by
    rw [hmss]
    rfl
  refine ⟨⟨by simp [Synced, hone.state], .dupAck 1, ?_, 536, ?_⟩, hmss, ?_, ?_⟩
  · rw [hone.feedback 3]
    exact List.mem_cons_self
  · change (if 3 ≤ c.tcb.dupacks then some c.tcb.mss.toNat else none) = some 536
    rw [if_pos hhigh, hmss']
  · rw [UInt32.lt_iff_toNat_lt, hval, hcwnd]
    omega
  · rw [hval, hmss']
    omega

/-- After 8 012 993 repetitions beyond the third the window is within one MSS of
`2 ^ 32`, and the next one leaves a window of less than one MSS. -/
theorem cwnd_wraps_on_duplicate_acks :
    ∃ (c : Conn) (e : ConnEvent), ConnReach CloseAfterHandshake c ∧ CwndGrows c e ∧
      c.tcb.mss = 536 ∧ (connStep c e).tcb.cwnd < c.tcb.cwnd ∧
      (connStep c e).tcb.cwnd.toNat < c.tcb.mss.toNat := by
  obtain ⟨k, hlt, hge⟩ : ∃ k, 2680 + 536 * k < 2 ^ 32 ∧ 2 ^ 32 ≤ 2680 + 536 * (k + 1) :=
    ⟨8012993, by decide, by decide⟩
  exact ⟨recoveringFor k, .segment 3 none repeatedAck, recoveringFor_reach k,
    recoveringFor_wraps k hlt hge⟩

end PacketForge
