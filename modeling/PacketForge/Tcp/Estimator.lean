import PacketForge.Tcp.Control

/-!
Bounds of the round-trip estimator of RFC 6298, over any sequence of
measurements and timeouts. Both recurrences are weighted means with truncating
division: the smoothed round-trip time stays between the smallest and the
largest measurement, and its variation below the larger of half the largest
measurement, which the first one may set, and their spread. The measurements
are below `2 ^ 32`, so no intermediate value leaves the 64 bits of the source.
-/

namespace PacketForge

namespace Control

/-- The estimates after some measurements between `m` and `M`. -/
structure Estimates (m M : Nat) (v : Control) : Prop where
  srtt_ge : (m : Int) ≤ v.srttMs
  srtt_le : v.srttMs ≤ M
  rttvar_nonneg : 0 ≤ v.rttvarMs
  rttvar_le : v.rttvarMs ≤ max (M / 2) (M - m)

def RtoInRange (v : Control) : Prop :=
  tcpRtoMinMs ≤ v.rtoMs.toNat ∧ (v.rtoMs.toNat : Int) ≤ tcpRtoMaxMs

variable {v : Control} {m M : Nat} {r : UInt32}

theorem sample_first (hfirst : v.srttMs < 0) (hm : m ≤ r.toNat) (hM : r.toNat ≤ M) :
    Estimates m M (v.sample r) := by
  have hsrtt : (v.sample r).srttMs = r.toNat := if_pos hfirst
  have hvar : (v.sample r).rttvarMs = (r.toNat : Int).tdiv 2 := if_pos hfirst
  rw [Int.tdiv_eq_ediv_of_nonneg (by omega)] at hvar
  exact ⟨by omega, by omega, by omega, by omega⟩

/-- Both recurrences are means of values within the bounds. -/
theorem Estimates.sample (h : Estimates m M v) (hm : m ≤ r.toNat) (hM : r.toNat ≤ M) :
    Estimates m M (v.sample r) := by
  obtain ⟨hge, hle, hnonneg, hvar⟩ := h
  have hlater : ¬ v.srttMs < 0 := by omega
  have hsrtt : (v.sample r).srttMs = (7 * v.srttMs + r.toNat).tdiv 8 := if_neg hlater
  have herr : (v.sample r).rttvarMs =
      (3 * v.rttvarMs + (v.srttMs - r.toNat).natAbs).tdiv 4 := if_neg hlater
  rw [Int.tdiv_eq_ediv_of_nonneg (by omega)] at hsrtt herr
  exact ⟨by omega, by omega, by omega, by omega⟩

theorem Estimates.backoff (h : Estimates m M v) : Estimates m M v.backoff :=
  ⟨h.srtt_ge, h.srtt_le, h.rttvar_nonneg, h.rttvar_le⟩

/-- The value the timeout is clamped from, and the clamp. -/
theorem sample_rto (v : Control) (r : UInt32) :
    ((v.sample r).rtoMs.toNat : Int) =
      min (max ((v.sample r).srttMs + max tcpClockGMs (4 * (v.sample r).rttvarMs)) tcpRtoMinMs)
        tcpRtoMaxMs := by
  have hclamp (x : Int) :
      ((UInt32.ofNat (if (if x < tcpRtoMinMs then tcpRtoMinMs else x) > tcpRtoMaxMs then
        (tcpRtoMaxMs : Int) else if x < tcpRtoMinMs then tcpRtoMinMs else x).toNat).toNat : Int) =
      min (max x tcpRtoMinMs) tcpRtoMaxMs := by
    have hmin : tcpRtoMinMs = 200 := rfl
    have hmax : tcpRtoMaxMs = 60000 := rfl
    rw [UInt32.toNat_ofNat']
    split <;> split <;> omega
  exact hclamp _

theorem sample_rtoInRange (v : Control) (r : UInt32) : (v.sample r).RtoInRange := by
  have hmin : tcpRtoMinMs = 200 := rfl
  have hmax : tcpRtoMaxMs = 60000 := rfl
  have hrto := sample_rto v r
  constructor <;> omega

/-- Doubling does not wrap, and stops at the upper limit. -/
theorem RtoInRange.backoff (h : v.RtoInRange) : v.backoff.RtoInRange := by
  have hmin : tcpRtoMinMs = 200 := rfl
  have hmax : tcpRtoMaxMs = 60000 := rfl
  obtain ⟨hge, hle⟩ := h
  have htwice : (v.rtoMs * 2).toNat = v.rtoMs.toNat * 2 := by
    rw [UInt32.toNat_mul]
    exact Nat.mod_eq_of_lt (by change v.rtoMs.toNat * 2 < 4294967296; omega)
  have hval : v.backoff.rtoMs.toNat = min (v.rtoMs.toNat * 2) 60000 := by
    change (pfMin (v.rtoMs * 2) 60000).toNat = _
    rw [pfMin_toNat, htwice]
    rfl
  constructor <;> omega

theorem RtoInRange.timeout (h : v.RtoInRange) (inFlight : UInt32) :
    (v.step (.timeout inFlight)).RtoInRange := by
  apply RtoInRange.backoff
  unfold collapse
  split <;> exact h

end Control

/-! ### Sequences of measurements and timeouts -/

/-- What moves the estimator: a measurement, and a timeout of `tcp_tick` that
retransmits. -/
inductive RttEvent where
  | sample (rMs : UInt32)
  | timeout (now : Nat)

def rttStep (c : Conn) : RttEvent → Conn
  | .sample rMs => tcpRttSample c rMs
  | .timeout now => tcpRtoRetransmit now c

theorem tcpRtoRetransmit_estimates {m M : Nat} (now : Nat) {c : Conn}
    (h : c.tcb.control.Estimates m M) : (tcpRtoRetransmit now c).tcb.control.Estimates m M := by
  rw [tcpRtoRetransmit_control]
  apply Control.Estimates.backoff
  unfold Control.collapse
  split
  · exact ⟨h.srtt_ge, h.srtt_le, h.rttvar_nonneg, h.rttvar_le⟩
  · exact h

theorem tcpRtoRetransmit_srtt (now : Nat) (c : Conn) :
    (tcpRtoRetransmit now c).tcb.srttMs = c.tcb.srttMs := by
  have h := congrArg Control.srttMs (tcpRtoRetransmit_control now c)
  refine h.trans ?_
  simp only [Control.step, Control.backoff, Control.collapse]
  split <;> rfl

theorem rttStep_rtoInRange {c : Conn} (e : RttEvent) (h : c.tcb.control.RtoInRange) :
    (rttStep c e).tcb.control.RtoInRange := by
  cases e with
  | sample r => exact Control.sample_rtoInRange c.tcb.control r
  | timeout now =>
    change (tcpRtoRetransmit now c).tcb.control.RtoInRange
    rw [tcpRtoRetransmit_control]
    exact h.timeout _

/-- Until the first measurement the estimator waits for it; from then on its
values are estimates. -/
theorem rttRun_estimates {m M : Nat} (c : Conn) (es : List RttEvent) (hfresh : c.tcb.srttMs < 0)
    (hbound : ∀ r, .sample r ∈ es → m ≤ r.toNat ∧ r.toNat ≤ M) :
    (es.foldl rttStep c).tcb.control.Estimates m M ∨
      (es.foldl rttStep c).tcb.srttMs < 0 ∧ ∀ r, .sample r ∉ es := by
  induction es using List.reverseRecOn with
  | nil => exact Or.inr ⟨hfresh, fun r => List.not_mem_nil⟩
  | append_singleton es e ih =>
    have hprev := ih (fun r hr => hbound r (List.mem_append_left _ hr))
    rw [List.foldl_append]
    cases e with
    | sample r =>
      obtain ⟨hm, hM⟩ := hbound r (List.mem_append_right _ (List.mem_singleton.mpr rfl))
      left
      rcases hprev with hest | ⟨hneg, -⟩
      · exact hest.sample hm hM
      · exact Control.sample_first (v := (es.foldl rttStep c).tcb.control) hneg hm hM
    | timeout now =>
      rcases hprev with hest | ⟨hneg, hnone⟩
      · exact Or.inl (tcpRtoRetransmit_estimates now hest)
      · refine Or.inr ⟨(tcpRtoRetransmit_srtt now _).trans_lt hneg, fun r hr => ?_⟩
        rcases List.mem_append.mp hr with hold | hnew
        · exact hnone r hold
        · cases List.mem_singleton.mp hnew

/-- Any measurements and timeouts, from the state in which a block is
allocated: the timeout is always within its limits, every measurement leaves it
at least the clock granularity above the smoothed time or at the upper limit,
and once there was a measurement the estimates are bounded by the smallest and
the largest of them. -/
theorem rtt_estimator_bounds (c : Conn) (es : List RttEvent) (m M : Nat)
    (hfresh : c.tcb.srttMs = -1 ∧ c.tcb.rttvarMs = -1 ∧ c.tcb.rtoMs = tcpRtoInitialMs)
    (hbound : ∀ r, .sample r ∈ es → m ≤ r.toNat ∧ r.toNat ≤ M) :
    (tcpRtoMinMs ≤ (es.foldl rttStep c).tcb.rtoMs.toNat ∧
      (es.foldl rttStep c).tcb.rtoMs.toNat ≤ tcpRtoMaxMs) ∧
    ((∃ r, .sample r ∈ es) →
      (m : Int) ≤ (es.foldl rttStep c).tcb.srttMs ∧ (es.foldl rttStep c).tcb.srttMs ≤ M ∧
        0 ≤ (es.foldl rttStep c).tcb.rttvarMs ∧
        (es.foldl rttStep c).tcb.rttvarMs ≤ max (M / 2) (M - m)) ∧
    ∀ r, min ((rttStep (es.foldl rttStep c) (.sample r)).tcb.srttMs + tcpClockGMs) tcpRtoMaxMs ≤
      (rttStep (es.foldl rttStep c) (.sample r)).tcb.rtoMs.toNat := by
  obtain ⟨hsrtt, -, hrto⟩ := hfresh
  have hstart : c.tcb.control.RtoInRange := by
    change tcpRtoMinMs ≤ c.tcb.rtoMs.toNat ∧ (c.tcb.rtoMs.toNat : Int) ≤ tcpRtoMaxMs
    rw [hrto]
    exact ⟨by decide, by decide⟩
  have hrange : (es.foldl rttStep c).tcb.control.RtoInRange :=
    List.foldlRecOn (motive := fun d => d.tcb.control.RtoInRange) es rttStep hstart
      (fun d hd e _ => rttStep_rtoInRange e hd)
  refine ⟨⟨hrange.1, Int.ofNat_le.mp hrange.2⟩, ?_, ?_⟩
  · rintro ⟨r, hr⟩
    rcases rttRun_estimates c es (by omega) hbound with hest | ⟨-, hnone⟩
    · exact ⟨hest.srtt_ge, hest.srtt_le, hest.rttvar_nonneg, hest.rttvar_le⟩
    · exact absurd hr (hnone r)
  · intro r
    have hval := Control.sample_rto (es.foldl rttStep c).tcb.control r
    have hnow : ((rttStep (es.foldl rttStep c) (.sample r)).tcb.rtoMs.toNat : Int) = _ := hval
    rw [hnow]
    change min (((es.foldl rttStep c).tcb.control.sample r).srttMs + tcpClockGMs) tcpRtoMaxMs ≤ _
    have hmin : tcpRtoMinMs = 200 := rfl
    have hmax : tcpRtoMaxMs = 60000 := rfl
    omega

/-- The measurements 100 and 200 of the unit test, with a timeout between them. -/
theorem rtt_estimator_bounds_100_200 :
    let c := Conn.start Tcb.fresh Stats.zero
    let es := [RttEvent.sample 100, .timeout 5, .sample 200]
    let t := (es.foldl rttStep c).tcb
    (t.srttMs, t.rttvarMs, t.rtoMs) = (112, 62, 360) ∧
      ((100 : Nat) : Int) ≤ t.srttMs ∧ t.srttMs ≤ (200 : Nat) ∧ 0 ≤ t.rttvarMs ∧
      t.rttvarMs ≤ max (((200 : Nat) : Int) / 2) ((200 : Nat) - (100 : Nat)) := by
  have hbound : ∀ r, RttEvent.sample r ∈ [RttEvent.sample 100, .timeout 5, .sample 200] →
      100 ≤ r.toNat ∧ r.toNat ≤ 200 := by
    intro r hr
    simp only [List.mem_cons, RttEvent.sample.injEq, reduceCtorEq, List.not_mem_nil, or_false,
      false_or] at hr
    rcases hr with rfl | rfl <;> decide
  have h := rtt_estimator_bounds (Conn.start Tcb.fresh Stats.zero)
    [.sample 100, .timeout 5, .sample 200] 100 200 ⟨rfl, rfl, rfl⟩ hbound
  exact ⟨by decide +kernel, h.2.1 ⟨100, List.mem_cons_self⟩⟩

end PacketForge
