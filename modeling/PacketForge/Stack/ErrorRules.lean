import PacketForge.Stack.RateLimit

/-!
What ICMP errors are sent about (RFC 1122, section 3.2.2). `icmp_send_error` sees the
header of a datagram and nothing of the frame it came in; so the rules that concern
the header hold for every error, wherever it is asked for, but for two kinds of
addresses that it takes for unicast ones. Those that concern the frame are not
checked at all.
-/

namespace PacketForge

open Checked

/-- A directed broadcast of a configured interface. -/
def directedBcast (s : Stack) (ip : UInt32) : Bool :=
  s.anyDev fun d => d.ip ≠ 0 && ip = d.subnetBcast

/-- An error as it was transmitted: the stack then, and whether the datagram it is
about came in frames for the address of the interface only. -/
structure Elicited where
  error : IcmpError
  stack : Stack
  own : Bool

/-- The error is about a datagram that an error may be about. -/
structure Elicited.Proper (x : Elicited) : Prop where
  notError : ¬ (ipProto x.error.orig = ipProtoIcmp ∧
    icmpTypeIsError (x.error.orig.getD (ipHdrLen x.error.orig) 0) = true)
  first : ipFragOff x.error.orig &&& ipFragOffmask = 0
  source : icmpNoErrorTo (ipSaddr x.error.orig) = false
  sourceDirected : directedBcast x.stack (ipSaddr x.error.orig) = false
  dest : icmpNoErrorAbout (ipDaddr x.error.orig) = false
  destNamed : ipDaddr x.error.orig ≠ 0
  destDirected : directedBcast x.stack (ipDaddr x.error.orig) = false
  own : x.own = true

/-! ### Runs -/

/-- A stack, the keys under which reassembly holds a fragment that came in a broadcast
or multicast frame, and the errors transmitted. -/
structure QuoteHist where
  stack : Stack
  tainted : ReassKey → Bool
  log : List Elicited

/-- The frame is for the address of the interface. -/
def ownFrame (s : Stack) (dev : DevIdx) (f : RxFrame) : Bool :=
  Mac.read f.pkt.data 0 = (s.devs dev).mac

namespace QuoteHist

/-- Reassembly holds fragments under the key, one of which came in a broadcast or
multicast frame. -/
def holdsTainted (a : QuoteHist) (k : ReassKey) : Bool :=
  (ctxFind a.stack.reass k).isSome && a.tainted k

/-- The keys after an event: a fragment joins those under its key. -/
def taintedBy (a : QuoteHist) : StackEvent → ReassKey → Bool
  | .frame _ _ dev f =>
    match (ethVerdict a.stack dev f.pkt).2 with
    | .frag d =>
      if d.wellFormed then
        Function.update a.tainted d.key (!ownFrame a.stack dev f || a.holdsTainted d.key)
      else a.tainted
    | _ => a.tainted
  | _ => a.tainted

/-- Whether the datagram that an event has an error transmitted about came in frames
for the address of the interface only. -/
def ownFor (a : QuoteHist) (e : StackEvent) (x : IcmpError) : Bool :=
  match e with
  | .frame _ _ dev f =>
    match (ethVerdict a.stack dev f.pkt).2 with
    | .frag d => ownFrame a.stack dev f && !a.holdsTainted d.key
    | _ => ownFrame a.stack dev f
  | _ => !a.tainted (ipKey x.orig)

def step (a : QuoteHist) (e : StackEvent) : Except Fault QuoteHist := do
  let s ← stackStep a.stack e
  let new := s.errors.take (s.errors.length - a.stack.errors.length)
  return ⟨s, a.taintedBy e, new.map (fun x => ⟨x, a.stack, a.ownFor e x⟩) ++ a.log⟩

abbrev Reach (allowed : QuoteHist → StackEvent → Prop) : QuoteHist → Prop :=
  Checked.Reach (fun a => Fresh a.stack ∧ (∀ k, a.tainted k = false) ∧ a.log = []) allowed step

def Proper (a : QuoteHist) : Prop := ∀ x ∈ a.log, x.Proper

/-- The event has an error transmitted about a datagram with the directed broadcast of
one of our networks as its source or destination, or with no destination, or about one
that came in a broadcast or multicast frame. -/
def Breaks (a : QuoteHist) (e : StackEvent) : Prop :=
  ∃ x ∈ transmits a.stack e,
    directedBcast a.stack (ipSaddr x.orig) = true ∨ directedBcast a.stack (ipDaddr x.orig) = true ∨
      ipDaddr x.orig = 0 ∨ a.ownFor e x = false

end QuoteHist

/-- What is transmitted was allowed by the rules on headers. -/
theorem IcmpLog.asks_allowed (routes : UInt32 → Bool) (now : Nat) (asked : List IcmpError)
    {l : IcmpLog} (hl : ∀ x ∈ l.errors, errorAllowed x.orig) :
    ∀ x ∈ (l.asks routes now asked).errors, errorAllowed x.orig := by
  induction asked generalizing l with
  | nil => exact hl
  | cons e rest ih =>
    refine ih (l := l.ask routes now e) ?_
    unfold IcmpLog.ask
    split
    · rename_i hask
      split
      · intro x hx
        rcases List.mem_cons.mp hx with rfl | hx
        · exact hask.1
        · exact hl x hx
      · exact hl
    · exact hl

theorem transmits_allowed {s : Stack} {e : StackEvent} {x : IcmpError} (hx : x ∈ transmits s e) :
    errorAllowed x.orig :=
  IcmpLog.asks_allowed (routable s) (e.time.getD 0) (askedBy s e)
    (l := ⟨s.icmpLastErrMs, []⟩) nofun x hx

/-- An allowed error is proper up to what the rules do not look at. -/
theorem Elicited.proper_iff {x : Elicited} (h : errorAllowed x.error.orig) :
    x.Proper ↔ directedBcast x.stack (ipSaddr x.error.orig) = false ∧
      directedBcast x.stack (ipDaddr x.error.orig) = false ∧ ipDaddr x.error.orig ≠ 0 ∧
      x.own = true := by
  obtain ⟨-, -, hfrag, hto, habout, hinner⟩ := h
  constructor
  · exact fun hx => ⟨hx.sourceDirected, hx.destDirected, hx.destNamed, hx.own⟩
  · rintro ⟨hsrc, hdst, hnamed, hown⟩
    refine ⟨?_, hfrag, hto, hsrc, habout, hnamed, hdst, hown⟩
    rintro ⟨hproto, htype⟩
    by_cases hlen : ipHdrLen x.error.orig < x.error.orig.length
    · exact hinner ⟨hproto, hlen, htype⟩
    · -- an empty message has no type
      rw [List.getD_eq_getElem?_getD, List.getElem?_eq_none (Nat.not_lt.mp hlen)] at htype
      cases htype

namespace QuoteHist

variable {a b : QuoteHist} {e : StackEvent}

theorem step_log (hok : ReassOk a.stack) (h : a.step e = .ok b) :
    ReassOk b.stack ∧
      b.log = (transmits a.stack e).map (fun x => ⟨x, a.stack, a.ownFor e x⟩) ++ a.log := by
  obtain ⟨s, hs, hb⟩ := bind_ok_iff.mp h
  cases hb
  refine ⟨(stackStep_ok hok e).of_ok hs, ?_⟩
  simp only [stackStep_errors hok hs, List.length_append, Nat.add_sub_cancel, List.take_left]

theorem step_proper (hok : ReassOk a.stack) (ha : a.Proper) (h : a.step e = .ok b) :
    b.Proper ↔ ¬ a.Breaks e := by
  have hproper (x : IcmpError) (hx : x ∈ transmits a.stack e) :
      Elicited.Proper ⟨x, a.stack, a.ownFor e x⟩ ↔
        ¬ (directedBcast a.stack (ipSaddr x.orig) = true ∨
          directedBcast a.stack (ipDaddr x.orig) = true ∨ ipDaddr x.orig = 0 ∨
            a.ownFor e x = false) := by
    rw [Elicited.proper_iff (transmits_allowed hx)]
    simp only [not_or, Bool.not_eq_true, Bool.not_eq_false]
  rw [Proper, (step_log hok h).2]
  constructor
  · rintro hall ⟨x, hx, hbad⟩
    exact (hproper x hx).mp (hall _ (List.mem_append_left _ (List.mem_map_of_mem hx))) hbad
  · intro hno y hy
    rcases List.mem_append.mp hy with hnew | hold
    · obtain ⟨x, hx, rfl⟩ := List.mem_map.mp hnew
      exact (hproper x hx).mpr fun hbad => hno ⟨x, hx, hbad⟩
    · exact ha y hold

end QuoteHist

/-- Up to the first event that breaks the rules every error was proper, and an event
breaks them in these ways only. -/
theorem errors_proper_iff {a : QuoteHist} (hr : a.Reach fun a e => ¬ a.Breaks e) :
    a.Proper ∧ ∀ e b, a.step e = .ok b → (b.Proper ↔ ¬ a.Breaks e) := by
  have hinv : ReassOk a.stack ∧ a.Proper := by
    refine Checked.Reach.invariant (fun a : QuoteHist => ReassOk a.stack ∧ a.Proper) ?_ ?_ hr
    · rintro ⟨s, tainted, log⟩ ⟨hs, -, rfl⟩
      exact ⟨hs.reassOk, nofun⟩
    · rintro a e hno ⟨hok, hp⟩
      cases hstep : a.step e with
      | ok b =>
        exact ⟨(QuoteHist.step_log hok hstep).1, (QuoteHist.step_proper hok hp hstep).mpr hno⟩
      | error f => trivial
  exact ⟨hinv.2, fun e b hstep => QuoteHist.step_proper hinv.1 hinv.2 hstep⟩

/-! ### Datagrams for a closed port -/

def quoteHist : QuoteHist := ⟨lanStack, fun _ => false, []⟩

theorem quoteHist_reach (allowed : QuoteHist → StackEvent → Prop) : quoteHist.Reach allowed :=
  .start ⟨lanStack_fresh, fun _ => rfl, rfl⟩

/-- One in a frame for the interface is answered properly. -/
theorem errors_proper_iff_port : ∃ b,
    quoteHist.step (.frame 3 (fun _ => 0) lanDev closedPort) = .ok b ∧
      b.log.map (fun x => (x.error.type, x.error.code)) = [(3, 3)] ∧ b.Proper := by
  obtain ⟨b, hb, hlog⟩ : ∃ b, quoteHist.step (.frame 3 (fun _ => 0) lanDev closedPort) = .ok b ∧
      b.log.map (fun x => (x.error.type, x.error.code)) = [(3, 3)] := ⟨_, rfl, rfl⟩
  have hsent : transmits lanStack (.frame 3 (fun _ => 0) lanDev closedPort) =
      [⟨3, 3, lanUdpBytes 9⟩] := rfl
  have hno : ¬ quoteHist.Breaks (.frame 3 (fun _ => 0) lanDev closedPort) := by
    rintro ⟨x, hx, hbad⟩
    have hx : x ∈ transmits lanStack (.frame 3 (fun _ => 0) lanDev closedPort) := hx
    rw [hsent, List.mem_singleton] at hx
    subst hx
    revert hbad
    decide +kernel
  exact ⟨b, hb, hlog, ((errors_proper_iff (quoteHist_reach _)).2 _ b hb).mpr hno⟩

theorem bcastPort_fits :
    ([255, 255, 255, 255, 255, 255, 2, 0, 0, 0, 0, 9, 8, 0] ++ lanUdpBytes 9).length ≤
      pktBufSize - pktRxOffset := by
  change 14 + 29 ≤ 4096 - 2
  decide

def bcastPort : RxFrame :=
  ⟨[255, 255, 255, 255, 255, 255, 2, 0, 0, 0, 0, 9, 8, 0] ++ lanUdpBytes 9, bcastPort_fits⟩

/-- One in a broadcast frame is answered too. -/
theorem error_about_broadcast_frame : ∃ b x,
    quoteHist.step (.frame 3 (fun _ => 0) lanDev bcastPort) = .ok b ∧ x ∈ b.log ∧
      x.error = ⟨icmpTypeDestUnreach, 3, lanUdpBytes 9⟩ ∧ x.own = false ∧
      Mac.read bcastPort.bytes 0 = ethBcast :=
  ⟨_, _, rfl, List.mem_cons_self, rfl, rfl, rfl⟩

end PacketForge
