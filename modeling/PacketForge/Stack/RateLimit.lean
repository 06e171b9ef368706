import PacketForge.Stack.Errors
import PacketForge.Stack.Sockets

/-!
The rate limit on ICMP errors (`icmp.c`). The time of the last error is zero as long
as there was none, and also after an error at time zero; so the limit does not apply
until the clock is past zero. Apart from the first milliseconds of a clock that
starts there, errors keep their distance.
-/

namespace PacketForge

open Checked

/-! ### The limiter -/

/-- What requests for errors at one time can make of a log without errors. -/
structure IcmpLog.Limited (now prev : Nat) (r : IcmpLog) : Prop where
  last : r.last = prev ∨ r.last = now
  sent : r.errors ≠ [] → r.last = now ∧ IcmpLog.tooSoon ⟨prev, []⟩ now = false
  once : now ≠ 0 → r.errors.length ≤ 1

namespace IcmpLog

variable {now prev : Nat} {r : IcmpLog}

/-- A second error at one time passes at time zero only. -/
theorem tooSoon_now (hlast : r.last = now) (hsoon : r.tooSoon now = false) : now = 0 := by
  unfold tooSoon at hsoon
  rw [hlast, Nat.sub_self] at hsoon
  simpa using hsoon

theorem tooSoon_zero (l : IcmpLog) : l.tooSoon 0 = false := by
  unfold tooSoon
  simp +contextual

theorem Limited.ask (h : Limited now prev r) (routes : UInt32 → Bool) (e : IcmpError) :
    Limited now prev (r.ask routes now e) := by
  unfold IcmpLog.ask
  split
  · rename_i hask
    have hsoon : tooSoon ⟨prev, []⟩ now = false := by
      rcases h.last with hlast | hlast
      · rw [← hask.2, ← hlast]
        rfl
      · rw [tooSoon_now hlast hask.2]
        exact tooSoon_zero _
    refine ⟨Or.inr rfl, fun _ => ⟨rfl, hsoon⟩, fun hpos => ?_⟩
    have hnone : r.errors = [] := by
      by_contra hsome
      exact hpos (tooSoon_now (h.sent hsome).1 hask.2)
    rw [hnone]
    split <;> simp
  · exact h

theorem limited_asks (now prev : Nat) (routes : UInt32 → Bool) (asked : List IcmpError) :
    Limited now prev (asks routes now ⟨prev, []⟩ asked) := by
  have hstart : Limited now prev ⟨prev, []⟩ := ⟨Or.inl rfl, nofun, fun _ => Nat.zero_le 1⟩
  unfold asks
  generalize (⟨prev, []⟩ : IcmpLog) = r at hstart
  induction asked generalizing r with
  | nil => exact hstart
  | cons e rest ih => exact ih _ (hstart.ask routes e)

end IcmpLog

/-- Past zero the limit keeps the interval to the last error. -/
theorem IcmpLog.tooSoon_false {l : IcmpLog} {now : Nat} (hpast : l.last ≤ now)
    (h : l.tooSoon now = false) : l.last = 0 ∨ l.last + icmpErrMinIntervalMs ≤ now := by
  unfold tooSoon at h
  by_cases hzero : l.last = 0
  · exact Or.inl hzero
  · have hfar : ¬ now - l.last < icmpErrMinIntervalMs := by simpa [hzero, hpast] using h
    exact Or.inr (by omega)

/-! ### Runs with a clock -/

/-- A stack, the time of the last event, and when errors were transmitted, the last
one first. -/
structure ErrHist where
  stack : Stack
  clock : Nat
  sent : List Nat

def errHistStep (a : ErrHist) (e : StackEvent) : Except Fault ErrHist := do
  let s ← stackStep a.stack e
  let now := e.time.getD a.clock
  return ⟨s, now, List.replicate (s.errors.length - a.stack.errors.length) now ++ a.sent⟩

def OnTime (a : ErrHist) (e : StackEvent) : Prop := ∀ now, e.time = some now → a.clock ≤ now

/-- The event has the stack transmit an error in the first milliseconds after another
one at time zero, or two at that time. -/
def ErrorsAtZero (a : ErrHist) (e : StackEvent) : Prop :=
  ∃ now, e.time = some now ∧ now < icmpErrMinIntervalMs ∧ transmits a.stack e ≠ [] ∧
    (0 ∈ a.sent ∨ now = 0 ∧ 1 < (transmits a.stack e).length)

/-- The histories of runs with a monotone clock that starts anywhere. -/
abbrev ErrHist.Reach (allowed : ErrHist → StackEvent → Prop) : ErrHist → Prop :=
  Checked.Reach (fun a => Fresh a.stack ∧ a.sent = [])
    (fun a e => OnTime a e ∧ allowed a e) errHistStep

/-- Any two errors are the interval apart. -/
def ErrHist.Spaced (a : ErrHist) : Prop :=
  a.sent.Pairwise fun later earlier => earlier + icmpErrMinIntervalMs ≤ later

/-- What the limiter knows: the last error was not before those transmitted. -/
structure ErrHist.Ok (a : ErrHist) : Prop where
  reass : ReassOk a.stack
  before : ∀ t ∈ a.sent, t ≤ a.stack.icmpLastErrMs
  past : a.stack.icmpLastErrMs ≤ a.clock

/-- Some errors at one time, after those that were sent before. -/
theorem spaced_replicate {sent : List Nat} {k now last : Nat}
    (hs : sent.Pairwise fun later earlier => earlier + icmpErrMinIntervalMs ≤ later)
    (hbefore : ∀ t ∈ sent, t ≤ last) (hfar : last = 0 ∨ last + icmpErrMinIntervalMs ≤ now)
    (hk : k ≠ 0) (honce : now ≠ 0 → k ≤ 1) :
    (List.replicate k now ++ sent).Pairwise
        (fun later earlier => earlier + icmpErrMinIntervalMs ≤ later) ↔
      ¬ (now < icmpErrMinIntervalMs ∧ (0 ∈ sent ∨ now = 0 ∧ 1 < k)) := by
  rw [List.pairwise_append, List.pairwise_replicate]
  constructor
  · rintro ⟨hsame, -, hold⟩ ⟨hlt, hzero | ⟨rfl, hmany⟩⟩
    · have hfar := hold now (List.mem_replicate.mpr ⟨hk, rfl⟩) 0 hzero
      omega
    · omega
  · intro hno
    refine ⟨?_, hs, fun x hx t ht => ?_⟩
    · by_cases hnow : now = 0
      · exact Or.inl (Nat.not_lt.mp fun hmany => hno ⟨hnow ▸ by decide, Or.inr ⟨hnow, hmany⟩⟩)
      · exact Or.inl (honce hnow)
    · obtain ⟨-, rfl⟩ := List.mem_replicate.mp hx
      have hle := hbefore t ht
      rcases hfar with hlast | hlast
      · -- the error was at time zero
        have hzero : 0 ∈ sent := (show t = 0 by omega) ▸ ht
        have hlate : ¬ x < icmpErrMinIntervalMs := fun hlt => hno ⟨hlt, Or.inl hzero⟩
        omega
      · omega

section Runs

variable {a b : ErrHist} {e : StackEvent}

theorem errHistStep_cases (hok : a.Ok) (h : errHistStep a e = .ok b) :
    ReassOk b.stack ∧ b.clock = e.time.getD a.clock ∧
      b.sent = List.replicate (transmits a.stack e).length (e.time.getD a.clock) ++ a.sent ∧
      b.stack.icmpLastErrMs = (IcmpLog.asks (routable a.stack) (e.time.getD 0)
        ⟨a.stack.icmpLastErrMs, []⟩ (askedBy a.stack e)).last := by
  obtain ⟨s, hs, hb⟩ := bind_ok_iff.mp h
  cases hb
  have herrors := stackStep_errors hok.reass hs
  have hlog := (stackStep_icmpLog hok.reass e).of_ok hs
  have happ := IcmpLog.asks_append (routable a.stack) (e.time.getD 0) a.stack.icmpLastErrMs []
    a.stack.errors (askedBy a.stack e)
  refine ⟨(stackStep_ok hok.reass e).of_ok hs, rfl, ?_, congrArg IcmpLog.last (hlog.trans happ)⟩
  simp only [herrors, List.length_append, Nat.add_sub_cancel]

theorem askedBy_untimed {s : Stack} (h : e.time = none) : askedBy s e = [] := by
  cases e <;> first | rfl | cases h

theorem errHistStep_untimed (hok : a.Ok) (htime : e.time = none) (h : errHistStep a e = .ok b) :
    ReassOk b.stack ∧ b.clock = a.clock ∧ b.sent = a.sent ∧
      b.stack.icmpLastErrMs = a.stack.icmpLastErrMs := by
  obtain ⟨hreass, hclock, hsent, hlast⟩ := errHistStep_cases hok h
  have hnone : transmits a.stack e = [] := by
    rw [transmits, askedBy_untimed htime]
    rfl
  rw [hnone] at hsent
  rw [htime] at hclock
  rw [askedBy_untimed htime] at hlast
  exact ⟨hreass, hclock, hsent, hlast⟩

/-- What an event at a time adds, and what the limiter says about it. -/
theorem errHistStep_timed (hok : a.Ok) {now : Nat} (htime : e.time = some now)
    (h : errHistStep a e = .ok b) :
    ReassOk b.stack ∧ b.clock = now ∧
      b.sent = List.replicate (transmits a.stack e).length now ++ a.sent ∧
      IcmpLog.Limited now a.stack.icmpLastErrMs ⟨b.stack.icmpLastErrMs, transmits a.stack e⟩ := by
  obtain ⟨hreass, hclock, hsent, hlast⟩ := errHistStep_cases hok h
  have hlimited := IcmpLog.limited_asks now a.stack.icmpLastErrMs (routable a.stack)
    (askedBy a.stack e)
  unfold transmits at hsent ⊢
  rw [htime, Option.getD_some] at hclock hsent hlast ⊢
  rw [hlast]
  exact ⟨hreass, hclock, hsent, hlimited⟩

theorem errHistStep_ok (hok : a.Ok) (hon : OnTime a e) (h : errHistStep a e = .ok b) : b.Ok := by
  cases htime : e.time with
  | none =>
    obtain ⟨hreass, hclock, hsent, hlast⟩ := errHistStep_untimed hok htime h
    refine ⟨hreass, ?_, ?_⟩
    · rw [hsent, hlast]
      exact hok.before
    · rw [hlast, hclock]
      exact hok.past
  | some now =>
    obtain ⟨hreass, hclock, hsent, hlimited⟩ := errHistStep_timed hok htime h
    have hnow : a.stack.icmpLastErrMs ≤ now := hok.past.trans (hon now htime)
    have hlast : b.stack.icmpLastErrMs = a.stack.icmpLastErrMs ∨ b.stack.icmpLastErrMs = now :=
      hlimited.last
    refine ⟨hreass, fun t ht => ?_, ?_⟩
    · rw [hsent] at ht
      rcases List.mem_append.mp ht with hnew | hold
      · obtain ⟨hsome, rfl⟩ := List.mem_replicate.mp hnew
        have hnonempty : transmits a.stack e ≠ [] := fun hnil => hsome (by rw [hnil]; rfl)
        exact (hlimited.sent hnonempty).1.ge
      · have hbefore := hok.before t hold
        omega
    · omega

/-- After which events the errors are still spaced. -/
theorem errHistStep_spaced (hok : a.Ok) (hon : OnTime a e) (hs : a.Spaced)
    (h : errHistStep a e = .ok b) : b.Spaced ↔ ¬ ErrorsAtZero a e := by
  cases htime : e.time with
  | none =>
    obtain ⟨-, -, hsent, -⟩ := errHistStep_untimed hok htime h
    refine iff_of_true (by rw [ErrHist.Spaced, hsent]; exact hs) ?_
    rintro ⟨now, hnow, -⟩
    cases htime.symm.trans hnow
  | some now =>
    obtain ⟨-, -, hsent, hlimited⟩ := errHistStep_timed hok htime h
    have hpast : a.stack.icmpLastErrMs ≤ now := hok.past.trans (hon now htime)
    have hbad : ErrorsAtZero a e ↔ now < icmpErrMinIntervalMs ∧ transmits a.stack e ≠ [] ∧
        (0 ∈ a.sent ∨ now = 0 ∧ 1 < (transmits a.stack e).length) := by
      constructor
      · rintro ⟨t, ht, hrest⟩
        cases htime.symm.trans ht
        exact hrest
      · exact fun hrest => ⟨now, htime, hrest⟩
    rw [hbad, ErrHist.Spaced, hsent]
    by_cases hnone : transmits a.stack e = []
    · rw [hnone]
      exact iff_of_true hs fun hbad => hbad.2.1 rfl
    · have hsoon := (hlimited.sent hnone).2
      have hfar := IcmpLog.tooSoon_false hpast hsoon
      have hlen : (transmits a.stack e).length ≠ 0 := fun h => hnone (List.length_eq_zero_iff.mp h)
      rw [spaced_replicate hs hok.before hfar hlen hlimited.once]
      exact not_congr (and_congr_right fun _ => (and_iff_right hnone).symm)

theorem ErrHist.Reach.ok {allowed : ErrHist → StackEvent → Prop} (hr : a.Reach allowed) : a.Ok := by
  refine Checked.Reach.invariant ErrHist.Ok ?_ ?_ hr
  · rintro ⟨s, clock, sent⟩ ⟨hs, rfl⟩
    have hreass := Fresh.reassOk hs
    obtain ⟨devs, ndevs, forwarding, fib, -, rfl⟩ := hs
    exact ⟨hreass, nofun, Nat.zero_le _⟩
  · rintro a e ⟨hon, -⟩ hok
    cases hstep : errHistStep a e with
    | ok b => exact errHistStep_ok hok hon hstep
    | error f => trivial

/-- Up to the first time that an error follows one at time zero within the interval,
errors are spaced, and an event spaces its own errors unless it is such a one. -/
theorem errors_spaced_iff (hr : a.Reach fun a e => ¬ ErrorsAtZero a e) :
    a.Spaced ∧ ∀ e b, OnTime a e → errHistStep a e = .ok b → (b.Spaced ↔ ¬ ErrorsAtZero a e) := by
  have hspaced : a.Ok ∧ a.Spaced := by
    refine Checked.Reach.invariant (fun a : ErrHist => a.Ok ∧ a.Spaced) ?_ ?_ hr
    · rintro ⟨s, clock, sent⟩ ⟨hs, rfl⟩
      have hstart : ErrHist.Reach (fun _ _ => True) ⟨s, clock, []⟩ := .start ⟨hs, rfl⟩
      exact ⟨hstart.ok, List.Pairwise.nil⟩
    · rintro a e ⟨hon, hno⟩ ⟨hok, hs⟩
      cases hstep : errHistStep a e with
      | ok b => exact ⟨errHistStep_ok hok hon hstep, (errHistStep_spaced hok hon hs hstep).mpr hno⟩
      | error f => trivial
  exact ⟨hspaced.2, fun e b hon hstep => errHistStep_spaced hspaced.1 hon hspaced.2 hstep⟩

end Runs

/-! ### Datagrams for a closed port -/

theorem closedPort_fits : (lanEthHdr ++ lanUdpBytes 9).length ≤ pktBufSize - pktRxOffset := by
  change 14 + 29 ≤ 4096 - 2
  decide

def closedPort : RxFrame := ⟨lanEthHdr ++ lanUdpBytes 9, closedPort_fits⟩

def errHist (clock : Nat) : ErrHist := ⟨lanStack, clock, []⟩

theorem errHist_reach (clock : Nat) (allowed : ErrHist → StackEvent → Prop) :
    (errHist clock).Reach allowed := .start ⟨lanStack_fresh, rfl⟩

theorem not_errorsAtZero {a : ErrHist} {now : Nat} (hzero : 0 ∉ a.sent) (hnow : now ≠ 0) :
    ¬ ErrorsAtZero a (.frame now (fun _ => 0) lanDev closedPort) := by
  rintro ⟨t, ht, -, -, hsent | ⟨rfl, -⟩⟩
  · exact hzero hsent
  · exact hnow (Option.some.inj ht)

/-- The clock starts past zero: one of two datagrams within the interval is answered. -/
theorem errors_spaced_iff_started : ∃ a b,
    errHistStep (errHist 3) (.frame 3 (fun _ => 0) lanDev closedPort) = .ok a ∧
      errHistStep a (.frame 8 (fun _ => 0) lanDev closedPort) = .ok b ∧ a.sent = [3] ∧
      b.sent = [3] ∧ b.Spaced := by
  obtain ⟨a, b, ha, hb, hclock, hsent, hsent'⟩ : ∃ a b,
      errHistStep (errHist 3) (.frame 3 (fun _ => 0) lanDev closedPort) = .ok a ∧
        errHistStep a (.frame 8 (fun _ => 0) lanDev closedPort) = .ok b ∧ a.clock = 3 ∧
        a.sent = [3] ∧ b.sent = [3] := ⟨_, _, rfl, rfl, rfl, rfl, rfl⟩
  have hon (x : ErrHist) (now : Nat) (hle : x.clock ≤ now) :
      OnTime x (.frame now (fun _ => 0) lanDev closedPort) := by
    rintro t ⟨⟩
    exact hle
  have hr : a.Reach fun a e => ¬ ErrorsAtZero a e :=
    .next (errHist_reach 3 _) _ ⟨hon _ 3 le_rfl, not_errorsAtZero nofun (by decide)⟩ ha
  have hzero : 0 ∉ a.sent := hsent ▸ by decide
  have hspaced := ((errors_spaced_iff hr).2 _ b (hon a 8 (hclock ▸ by decide)) hb).mpr
    (not_errorsAtZero hzero (by decide))
  exact ⟨a, b, ha, hb, hsent, hsent', hspaced⟩

/-- The clock starts at zero: both are answered. -/
theorem errors_at_zero_too_close : ∃ a b,
    errHistStep (errHist 0) (.frame 0 (fun _ => 0) lanDev closedPort) = .ok a ∧
      errHistStep a (.frame 5 (fun _ => 0) lanDev closedPort) = .ok b ∧ b.sent = [5, 0] :=
  ⟨_, _, rfl, rfl, rfl⟩

end PacketForge
