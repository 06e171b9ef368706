import PacketForge.Stack.Bounds

/-!
The ICMP errors that a stack transmits. Of the state, `icmp_send_error` reads and
writes the time of the last error only. An event asks it for a list of errors, which
the verdict on a frame or the contexts that time out determine, and what comes of
them depends on that time and on the routes.
-/

namespace PacketForge

open Checked

/-- What `icmp_send_error` reads and writes, with the errors transmitted so far. -/
structure IcmpLog where
  last : Nat
  errors : List IcmpError

def Stack.icmpLog (s : Stack) : IcmpLog := ⟨s.icmpLastErrMs, s.errors⟩

namespace IcmpLog

def tooSoon (l : IcmpLog) (now : Nat) : Bool :=
  l.last ≠ 0 && l.last ≤ now && now - l.last < icmpErrMinIntervalMs

def ask (routes : UInt32 → Bool) (now : Nat) (l : IcmpLog) (e : IcmpError) : IcmpLog :=
  if errorAllowed e.orig ∧ l.tooSoon now = false then
    ⟨now, if routes (ipSaddr e.orig) then e :: l.errors else l.errors⟩
  else l

def asks (routes : UInt32 → Bool) (now : Nat) (l : IcmpLog) (es : List IcmpError) : IcmpLog :=
  es.foldl (ask routes now) l

variable (routes : UInt32 → Bool) (now : Nat)

theorem ask_append (last : Nat) (es old : List IcmpError) (e : IcmpError) :
    ask routes now ⟨last, es ++ old⟩ e =
      ⟨(ask routes now ⟨last, es⟩ e).last, (ask routes now ⟨last, es⟩ e).errors ++ old⟩ := by
  have hsoon : tooSoon ⟨last, es ++ old⟩ now = tooSoon ⟨last, es⟩ now := rfl
  unfold ask
  rw [hsoon]
  split
  · split <;> rfl
  · rfl

theorem asks_append (last : Nat) (es old asked : List IcmpError) :
    asks routes now ⟨last, es ++ old⟩ asked =
      ⟨(asks routes now ⟨last, es⟩ asked).last,
        (asks routes now ⟨last, es⟩ asked).errors ++ old⟩ := by
  induction asked generalizing last es with
  | nil => rfl
  | cons e rest ih =>
    unfold asks at ih ⊢
    rw [List.foldl_cons, List.foldl_cons, ask_append]
    exact ih _ _

end IcmpLog

/-! ### One error -/

section Output

theorem icmpLog_transmitKept (l : IcmpLog) : TransmitKept fun s => s.icmpLog = l where
  count _ h := h
  putArp _ h := h
  ipId _ h := h

theorem routable_congr {s s' : Stack} (hdevs : s'.devs = s.devs) (hfib : s'.fib = s.fib) :
    routable s' = routable s := by
  funext dst
  unfold routable ipRouteLookup
  rw [hdevs, hfib]

theorem Sent.routable {s s' : Stack} (h : Sent s s') : routable s' = routable s :=
  routable_congr h.devs h.fib

theorem counts_routable (s : Stack) (cs : List Stat) : routable (s.counts cs) = routable s := by
  rw [Stack.counts_eq]
  rfl

theorem counts_icmpLog (s : Stack) (cs : List Stat) : (s.counts cs).icmpLog = s.icmpLog := by
  rw [Stack.counts_eq]
  rfl

theorem icmpTransmitError_icmpLog (s : Stack) (now : Nat) (orig : List UInt8) (type code : UInt8) :
    Post Fault.inBounds (fun s' => s'.icmpLog =
        ⟨now, if routable s (ipSaddr orig) then ⟨type, code, orig⟩ :: s.errors else s.errors⟩)
      (icmpTransmitError s now orig type code) := by
  unfold icmpTransmitError
  rw [readAt_take (Nat.min_le_left _ _), ok_bind]
  refine Post.bind (pktTx_inBounds _) fun p _ => ?_
  refine (icmpLog_transmitKept _).ipOutput ?_ _ _ _ _ p
  unfold Stack.noteError
  split
  · rename_i hroute
    rw [if_pos (show routable s (ipSaddr orig) = true from hroute)]
    rfl
  · rename_i hroute
    rw [if_neg (show ¬ routable s (ipSaddr orig) = true from hroute)]
    rfl

theorem icmpSendError_icmpLog (s : Stack) (now : Nat) (orig : List UInt8) (type code : UInt8) :
    Post Fault.inBounds
      (fun s' => s'.icmpLog = s.icmpLog.ask (routable s) now ⟨type, code, orig⟩)
      (icmpSendError s now orig type code) := by
  have hsoon : s.icmpLog.tooSoon now = icmpTooSoon s now := rfl
  rw [icmpSendError_eq]
  unfold IcmpLog.ask
  rw [hsoon]
  by_cases hallowed : errorAllowed orig
  · rw [if_pos hallowed]
    cases hlimit : icmpTooSoon s now with
    | true =>
      rw [if_neg fun h => nomatch h.2]
      rfl
    | false =>
      rw [if_pos ⟨hallowed, rfl⟩]
      exact icmpTransmitError_icmpLog s now orig type code
  · rw [if_neg hallowed, if_neg fun h => hallowed h.1]
    rfl

end Output

/-! ### What is asked for -/

def StackEvent.time : StackEvent → Option Nat
  | .frame now _ _ _ | .tick now | .call now _ | .resume now _ | .sendto now _ _ _ _ => some now
  | .recvfrom _ | .config _ => none

def Action.asks : Action → List IcmpError
  | .error orig type code => [⟨type, code, orig⟩]
  | _ => []

def Datagram.ofBytes (b : List UInt8) : Option Datagram :=
  if h : 20 ≤ ipHdrLen b ∧ ipHdrLen b ≤ b.length ∧ b.length < 65536 then
    some ⟨b, h.1, h.2.1, h.2.2⟩
  else none

theorem Datagram.ofBytes_bytes (d : Datagram) : Datagram.ofBytes d.bytes = some d :=
  dif_pos ⟨d.hdr_min, d.hdr_le, d.len_lt⟩

/-- What a verdict has done: a fragment may complete a datagram, which is delivered. -/
def Verdict.acts (s : Stack) (now : Nat) (heap : Nat → UInt8) (dev : DevIdx) : Verdict → List Action
  | .act a => [a]
  | .arp _ => []
  | .frag d =>
    let r := ipReassInput s.reass now (some dev) heap d
    (r.delivered.filterMap fun x => Datagram.ofBytes x.2).map fun whole =>
      (deliverAct (s.putReass r) whole).2

def frameActs (s : Stack) (now : Nat) (heap : Nat → UInt8) (dev : DevIdx) (f : RxFrame) :
    List Action :=
  let v := ethVerdict s dev f.pkt
  v.2.acts (s.counts v.1) now heap dev

/-- The errors that an event asks ICMP for. -/
def askedBy (s : Stack) : StackEvent → List IcmpError
  | .frame now heap dev f => (frameActs s now heap dev f).flatMap Action.asks
  | .tick now =>
    ((List.finRange ipReassCtxs).filterMap (timedOut s.reass now)).map
      (⟨icmpTypeTimeExceeded, 1, ·⟩)
  | _ => []

/-- The errors that an event has the stack transmit, the last one first. -/
def transmits (s : Stack) (e : StackEvent) : List IcmpError :=
  (IcmpLog.asks (routable s) (e.time.getD 0) ⟨s.icmpLastErrMs, []⟩ (askedBy s e)).errors

section Steps

variable {s : Stack}

theorem perform_icmpLog (s : Stack) (now : Nat) (a : Action) :
    Post Fault.inBounds (fun s' => s'.icmpLog = s.icmpLog.asks (routable s) now a.asks)
      (perform s now a) := by
  cases a with
  | quiet => rfl
  | echo d =>
    refine Post.bind (pktTx_inBounds _) fun p _ => ?_
    exact (icmpLog_transmitKept s.icmpLog).ipOutput rfl _ _ _ _ p
  | error orig type code => exact icmpSendError_icmpLog s now orig type code
  | hop out nextHop p => exact (icmpLog_transmitKept s.icmpLog).arpOutput rfl nextHop p
  | queue sk x => rfl
  | segment g => exact (icmpLog_transmitKept s.icmpLog).runHost _ rfl
  | null => exact Fault.inBounds_null

theorem deliver_icmpLog (s : Stack) (now : Nat) (d : Datagram) :
    Post Fault.inBounds
      (fun s' => s'.icmpLog = s.icmpLog.asks (routable s) now (deliverAct s d).2.asks)
      (deliver s now d) := by
  have h := perform_icmpLog (s.counts (deliverAct s d).1) now (deliverAct s d).2
  rw [counts_icmpLog, counts_routable] at h
  exact h

/-- What running a verdict comes to. -/
inductive Runs (s : Stack) (now : Nat) : List Action → Except Fault Stack → Prop where
  | act (a : Action) : Runs s now [a] (perform s now a)
  | arp (dev : DevIdx) (p : Pkt) : Runs s now [] (s.putArp <$> arpInput s.devs now dev p s.arp)
  | held (r : Reass) : Runs s now [] (.ok (s.putReass r))
  | handed (r : Reass) (whole : Datagram) :
      Runs s now [(deliverAct (s.putReass r) whole).2] (deliver (s.putReass r) now whole)

theorem runVerdict_runs (h : ReassOk s) (now : Nat) (heap : Nat → UInt8) (dev : DevIdx)
    (v : Verdict) : Runs s now (v.acts s now heap dev) (runVerdict s now heap dev v) := by
  cases v with
  | act a => exact .act a
  | arp p => exact .arp dev p
  | frag d =>
    change Runs s now _ (reassemble s now heap dev d)
    have hcases := reassemble_cases h now heap dev d
    generalize reassemble s now heap dev d = m at hcases ⊢
    cases hcases with
    | held hdel =>
      simp only [Verdict.acts, hdel]
      exact .held _
    | @handed whole src hwhole hdel =>
      simp only [Verdict.acts, hdel, List.filterMap_cons, List.filterMap_nil,
        Datagram.ofBytes_bytes, List.map_cons, List.map_nil]
      exact .handed _ whole

theorem frame_runs (h : ReassOk s) (now : Nat) (heap : Nat → UInt8) (dev : DevIdx) (f : RxFrame) :
    Runs (s.counts (ethVerdict s dev f.pkt).1) now (frameActs s now heap dev f)
      (ethInput s now heap dev f.pkt) := by
  rw [ethInput_eq]
  exact runVerdict_runs (h.of_ctxs (Stack.counts_ctxs _ _)) now heap dev _

theorem Runs.icmpLog {acts : List Action} {m : Except Fault Stack} {now : Nat}
    (h : Runs s now acts m) : Post Fault.inBounds
      (fun s' => s'.icmpLog = s.icmpLog.asks (routable s) now (acts.flatMap Action.asks)) m := by
  cases h with
  | act a =>
    rw [List.flatMap_singleton]
    exact perform_icmpLog s now a
  | arp dev p =>
    refine Post.bind (arpInput_same p s.arp) fun a _ => ?_
    exact Post.ok rfl
  | held r => exact Post.ok rfl
  | handed r whole =>
    rw [List.flatMap_singleton]
    exact (deliver_icmpLog (s.putReass r) now whole).imp fun _ hs' => hs'

theorem timeExceeded_icmpLog (now : Nat) (l : List (List UInt8)) (s : Stack) :
    Post (fun _ => True)
      (fun s' => s'.icmpLog =
        s.icmpLog.asks (routable s) now (l.map (⟨icmpTypeTimeExceeded, 1, ·⟩)))
      (l.foldlM (fun s quote => do
        writeAt 0 quote.length (ipv4HdrMax + 8)
        icmpSendError s now quote icmpTypeTimeExceeded 1) s) := by
  induction l generalizing s with
  | nil => rfl
  | cons quote rest ih =>
    rw [List.foldlM_cons]
    by_cases hfits : 0 + quote.length ≤ ipv4HdrMax + 8
    · rw [writeAt_ok hfits, ok_bind]
      have hone := (icmpSendError_icmpLog s now quote icmpTypeTimeExceeded 1).and
        (icmpSendError_sent (Sent.refl s) quote icmpTypeTimeExceeded 1)
      refine Post.bind (hone.mono (fun _ _ => trivial) fun _ h => h) fun t ht => ?_
      refine (ih t).imp fun s' hs' => ?_
      rw [hs', ht.1, ht.2.routable]
      rfl
    · rw [writeAt, if_neg hfits]
      trivial

theorem pfTick_icmpLog (s : Stack) (now : Nat) :
    Post (fun _ => True)
      (fun s' => s'.icmpLog = s.icmpLog.asks (routable s) now (askedBy s (.tick now)))
      (pfTick s now) := by
  have hall {α : Type} {Q : α → Prop} {m : Except Fault α} (h : Post Fault.inBounds Q m) :
      Post (fun _ => True) Q m := h.mono (fun _ _ => trivial) fun _ hq => hq
  refine Post.bind (hall (arpTick_same (a := s.arp) (Stats.Same.refl _))) fun a _ => ?_
  have hreass : Post (fun _ => True)
      (fun t => t.icmpLog = s.icmpLog.asks (routable s) now (askedBy s (.tick now)))
      (ipReassTickStack (s.putArp a) now) := by
    have h := timeExceeded_icmpLog now (ipReassTick (s.putArp a).reass now).timeExceeded
      ((s.putArp a).putReass (ipReassTick (s.putArp a).reass now))
    rw [ipReassTick_timedOut] at h
    unfold ipReassTickStack
    simp only
    rw [ipReassTick_timedOut]
    exact h
  refine Post.bind hreass fun t ht => ?_
  have hrun :
      Post Fault.inBounds (fun s' => s'.icmpLog = t.icmpLog) (t.runHost now (tcpTick now)) :=
    (icmpLog_transmitKept t.icmpLog).runHost _ rfl
  exact (hall hrun).imp fun s' hs' => hs'.trans ht

theorem stackStep_icmpLog (h : ReassOk s) (e : StackEvent) :
    Post (fun _ => True)
      (fun s' => s'.icmpLog = s.icmpLog.asks (routable s) (e.time.getD 0) (askedBy s e))
      (stackStep s e) := by
  have hall {Q : Stack → Prop} {m : Except Fault Stack} (h : Post Fault.inBounds Q m) :
      Post (fun _ => True) Q m := h.mono (fun _ _ => trivial) fun _ hq => hq
  have hkept := icmpLog_transmitKept s.icmpLog
  cases e with
  | frame now heap dev f =>
    have hrun := hall (frame_runs h now heap dev f).icmpLog
    rw [counts_icmpLog, counts_routable] at hrun
    exact hrun
  | tick now => exact pfTick_icmpLog s now
  | call now c =>
    unfold stackStep
    exact hall (hkept.runHost _ rfl)
  | resume now expired =>
    unfold stackStep
    exact hall (hkept.runHost _ rfl)
  | sendto now sock buf dstIp dstPort =>
    unfold stackStep
    simp only
    split
    · exact hall (hkept.pfSendto sock buf dstIp dstPort rfl)
    · exact Post.ok rfl
  | recvfrom sock =>
    unfold stackStep pfRecvfrom
    simp only
    split
    · exact Post.ok rfl
    split
    · exact Post.ok rfl
    · exact Post.ok rfl
  | config op =>
    refine Post.ok ?_
    cases op with
    | addr => rfl
    | route op => cases op <;> rfl
    | forwarding => rfl

/-- An event adds the errors that it has the stack transmit. -/
theorem stackStep_errors (h : ReassOk s) {e : StackEvent} {s' : Stack}
    (hs' : stackStep s e = .ok s') : s'.errors = transmits s e ++ s.errors := by
  have hlog := (stackStep_icmpLog h e).of_ok hs'
  unfold IcmpLog.asks at hlog
  have happ :=
    IcmpLog.asks_append (routable s) (e.time.getD 0) s.icmpLastErrMs [] s.errors (askedBy s e)
  exact congrArg IcmpLog.errors (hlog.trans happ)

end Steps

end PacketForge
