import PacketForge.Stack.Bounds

/-!
The configuration of a running stack. Only the calls that configure it change its
interfaces and routes, and the routes are always such that the FIB represents
them.
-/

namespace PacketForge

open Checked

structure Setup where
  devs : Devs
  ndevs : Nat
  forwarding : Bool
  fib : Fib

def Stack.setup (s : Stack) : Setup := ⟨s.devs, s.ndevs, s.forwarding, s.fib⟩

theorem Sent.setup {s s' : Stack} (h : Sent s s') : s'.setup = s.setup :=
  show s'.rest.setup = s.rest.setup by rw [h.rest]

section Steps

variable {s : Stack} {now : Nat}

theorem Stack.setup_kept (u : Setup) : Kept (fun s => s.setup = u) where
  rest {s s'} hrest hs := by
    have hsetup : s'.rest.setup = s.rest.setup := by rw [hrest]
    exact hsetup.trans hs
  ctxs _ hs := hs
  queue _ _ hs := hs
  segment _ _ hs := hs
  tick _ hs := hs

/-- A step that does not configure the stack leaves it configured as it was. -/
theorem stackStep_setup (h : ReassOk s) {e : StackEvent} (he : ∀ op, e ≠ .config op) :
    Post Fault.inBounds (fun s' => s'.setup = s.setup) (stackStep s e) := by
  cases e with
  | frame now heap dev f =>
    exact ((Stack.setup_kept _).ethInput heap dev f.pkt ⟨h, rfl⟩).imp fun _ hs => hs.2
  | tick now => exact ((Stack.setup_kept _).pfTick ⟨h, rfl⟩).imp fun _ hs => hs.2
  | call now c =>
    unfold stackStep
    exact (runHost_sent s now _).imp fun _ hs => hs.setup
  | resume now expired =>
    unfold stackStep
    exact (runHost_sent s now _).imp fun _ hs => hs.setup
  | sendto now sock buf dstIp dstPort =>
    unfold stackStep
    simp only
    split
    · exact (pfSendto_sent s now sock buf dstIp dstPort).imp fun _ hs => hs.setup
    · rfl
  | recvfrom sock =>
    change (pfRecvfrom s sock).setup = s.setup
    unfold pfRecvfrom
    split
    · rfl
    split <;> rfl
  | config op => exact absurd rfl (he op)

/-- A call keeps some routes represented. -/
theorem fibOp_represents {f : Fib} {routes : RouteMap} (h : FibRepresents f routes) (op : FibOp) :
    ∃ routes', FibRepresents (FibHist.step ⟨f, routes⟩ op).fib routes' :=
  ⟨_, FibHist.step_represents (s := ⟨f, routes⟩) h op⟩

theorem FibHist.step_add_fib (f : Fib) (routes : RouteMap) (addr : UInt32) (plen : UInt8)
    (nextHop : UInt32) (dev : Option DevIdx) (connected : Bool) :
    (FibHist.step ⟨f, routes⟩ (.add addr plen nextHop dev connected)).fib =
      (fibAdd f addr plen nextHop dev connected).1 := by
  unfold FibHist.step
  simp only
  split <;> rfl

theorem FibHist.step_del_fib (f : Fib) (routes : RouteMap) (addr : UInt32) (plen : UInt8) :
    (FibHist.step ⟨f, routes⟩ (.del addr plen)).fib = (fibDel f addr plen).1 := by
  unfold FibHist.step
  simp only
  split <;> rfl

theorem configure_represents {routes : RouteMap} (h : FibRepresents s.fib routes) (op : ConfigOp) :
    ∃ routes', FibRepresents (configure s op).fib routes' := by
  cases op with
  | addr dev ip mask =>
    have hadd := fibOp_represents h
      (.add (ip &&& mask) (UInt8.ofNat mask.toBitVec.cpop.toNat) 0 (some dev) true)
    rw [FibHist.step_add_fib] at hadd
    exact hadd
  | route op =>
    cases op with
    | add addr plen nextHop dev connected =>
      have hadd := fibOp_represents h (.add addr plen nextHop dev connected)
      rw [FibHist.step_add_fib] at hadd
      exact hadd
    | del addr plen =>
      have hdel := fibOp_represents h (.del addr plen)
      rw [FibHist.step_del_fib] at hdel
      exact hdel
  | forwarding on => exact ⟨routes, h⟩

/-- The FIB of a running stack represents some routes. -/
theorem Stack.Reach.represents (h : s.Reach) : ∃ routes, FibRepresents s.fib routes := by
  have hinv : ReassOk s ∧ ∃ routes, FibRepresents s.fib routes := by
    refine Checked.Reach.invariant
      (fun s => ReassOk s ∧ ∃ routes, FibRepresents s.fib routes) ?_ ?_ h
    · intro s hs
      refine ⟨hs.reassOk, ?_⟩
      obtain ⟨devs, ndevs, forwarding, fib, hfib, rfl⟩ := hs
      exact ⟨fib.routes, hfib.represents⟩
    · rintro s e - ⟨hok, routes, hroutes⟩
      have hnext : Post (fun _ => True) (fun s => ∃ routes, FibRepresents s.fib routes)
          (stackStep s e) := by
        by_cases hconfig : ∃ op, e = .config op
        · obtain ⟨op, rfl⟩ := hconfig
          exact configure_represents hroutes op
        · refine (stackStep_setup hok (not_exists.mp hconfig)).mono (fun _ _ => trivial)
            fun s' hs' => ?_
          have hfib : s'.fib = s.fib := congrArg Setup.fib hs'
          exact ⟨routes, hfib ▸ hroutes⟩
      exact ((stackStep_ok hok e).and hnext).mono (fun _ _ => trivial) fun _ h => h
  exact hinv.2

end Steps

end PacketForge
