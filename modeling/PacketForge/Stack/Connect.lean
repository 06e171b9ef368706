import PacketForge.Host.Connect
import PacketForge.Stack.Sockets

/-!
The source address of a connection. `pf_connect` takes the address of the
interface that the route to the destination uses, and writes it into the socket
before it knows that the connection comes about. A socket that was not bound may
then have the address of an earlier attempt.
-/

namespace PacketForge

open Checked

/-! ### Attempts -/

section Tries

/-- A socket that was not bound has an address all the same, and not the one of
the interface that the route uses. -/
def KeepsOldAddr (a : SockHist) : StackEvent → Prop
  | .call _ (.connect sock dstIp dstPort _) =>
    ∃ i, tcpSockGet a.stack.host sock = some i ∧ a.bound i = none ∧
      Opens a.stack.host i dstPort ∧ (a.stack.socks i).localIp ≠ 0 ∧
      routeAddr a.stack dstIp ≠ some (a.stack.socks i).localIp
  | _ => False

/-- Every attempt used the address of the interface that the route uses. -/
def SockHist.RoutedTries (a : SockHist) : Prop := ∀ x ∈ a.tries, x.route = some x.used

theorem noteTries_out {a : SockHist} {sock : Int} {i : SockIdx}
    (hs : tcpSockGet a.stack.host sock = some i) (hb : a.bound i = none) (now : Nat)
    (dstIp : UInt32)
    (dstPort : UInt16) (route : Option UInt32) :
    noteTries a.stack a.bound (.call now (.connect sock dstIp dstPort route)) =
      (hostStep a.stack.host
        (.call now (.connect sock dstIp dstPort (routeAddr a.stack dstIp)))).out.map
        fun g => ⟨routeAddr a.stack dstIp, g.src⟩ := by
  unfold noteTries
  simp only [hs, if_pos hb]
  rfl

theorem noteTries_connect (a : SockHist) (now : Nat) (sock : Int) (dstIp : UInt32)
    (dstPort : UInt16) (route : Option UInt32) :
    (∀ x ∈ noteTries a.stack a.bound (.call now (.connect sock dstIp dstPort route)),
      x.route = some x.used) ↔
        ¬ KeepsOldAddr a (.call now (.connect sock dstIp dstPort route)) := by
  have hnothing
      (hnil : noteTries a.stack a.bound (.call now (.connect sock dstIp dstPort route)) = [])
      (hno : ¬ KeepsOldAddr a (.call now (.connect sock dstIp dstPort route))) :
      (∀ x ∈ noteTries a.stack a.bound (.call now (.connect sock dstIp dstPort route)),
        x.route = some x.used) ↔
      ¬ KeepsOldAddr a (.call now (.connect sock dstIp dstPort route)) := by
    rw [hnil]
    exact iff_of_true (fun _ hx => nomatch hx) hno
  cases hs : tcpSockGet a.stack.host sock with
  | none =>
    refine hnothing ?_ ?_
    · simp only [noteTries, hs]
    · rintro ⟨i, hi, -⟩
      cases hs.symm.trans hi
  | some i =>
    have honly {j : SockIdx} (hj : tcpSockGet a.stack.host sock = some j) : j = i :=
      Option.some.inj (hj.symm.trans hs)
    by_cases hb : a.bound i = none
    swap
    · refine hnothing ?_ ?_
      · simp only [noteTries, hs, if_neg hb]
      · rintro ⟨j, hj, hnone, -⟩
        exact hb (honly hj ▸ hnone)
    have hout := noteTries_out hs hb now dstIp dstPort route
    by_cases hopen : Opens a.stack.host i dstPort ∧
        connectSrc a.stack.host i (routeAddr a.stack dstIp) ≠ none
    · obtain ⟨lip, hlip⟩ := Option.ne_none_iff_exists'.mp hopen.2
      obtain ⟨g, hg, hsrc⟩ : ∃ g, (pfConnect now sock _ _ _ _).1.out = [g] ∧ g.src = lip :=
        pfConnect_sends rfl hs hopen.1 hlip dstIp
      rw [hout, hostStep_call_out hopen.1.idle]
      change (∀ x ∈ List.map _ (pfConnect now sock _ _ _ a.stack.host).1.out, _) ↔ _
      rw [hg, List.map_singleton, List.forall_mem_singleton, hsrc]
      by_cases hip : (a.stack.host.socks i).localIp = 0
      · rw [connectSrc_free hip] at hlip
        refine iff_of_true hlip ?_
        rintro ⟨j, hj, -, -, hne, -⟩
        exact hne (honly hj ▸ hip)
      · rw [connectSrc_fixed hip] at hlip
        rw [← hlip]
        constructor
        · rintro heq ⟨j, hj, -, -, -, hne⟩
          exact hne (honly hj ▸ heq)
        · intro hno
          by_contra hne
          exact hno ⟨i, hs, hb, hopen.1, hip, hne⟩
    · refine hnothing ?_ ?_
      · rw [hout]
        cases hp : a.stack.pending with
        | some p => rw [hostStep_busy_out (h := a.stack.host) hp, List.map_nil]
        | none =>
          rw [hostStep_call_out (h := a.stack.host) hp]
          change List.map _ (pfConnect now sock _ _ _ a.stack.host).1.out = _
          rw [pfConnect_quiet rfl hp hs hopen, List.map_nil]
      · rintro ⟨j, hj, -, hopens, hip, -⟩
        rw [honly hj] at hopens hip
        refine hopen ⟨hopens, ?_⟩
        rw [connectSrc_fixed hip]
        exact Option.some_ne_none _

/-- The attempts of a run use the address of the interface that the FIB selects
as long as none is made from a socket that an earlier one left its address in. -/
theorem connect_uses_route {a : SockHist} (hr : a.Reach fun a e => ¬ KeepsOldAddr a e) :
    a.RoutedTries ∧ ∀ e b, sockHistStep a e = .ok b → (b.RoutedTries ↔ ¬ KeepsOldAddr a e) := by
  have hstep (a : SockHist) (ha : a.RoutedTries) (e : StackEvent) (b : SockHist)
      (hb : sockHistStep a e = .ok b) : b.RoutedTries ↔ ¬ KeepsOldAddr a e := by
    obtain ⟨s, -, heq⟩ := bind_ok_iff.mp hb
    cases heq
    have happ : (SockHist.mk s (noteBound a.stack a.bound e)
        (a.tries ++ noteTries a.stack a.bound e)).RoutedTries ↔
        ∀ x ∈ noteTries a.stack a.bound e, x.route = some x.used := by
      simp only [SockHist.RoutedTries, List.forall_mem_append]
      exact and_iff_right ha
    rw [happ]
    cases e with
    | call now c =>
      cases c with
      | connect sock dstIp dstPort route => exact noteTries_connect a now sock dstIp dstPort route
      | _ => exact ⟨fun _ h => h, nofun⟩
    | _ => exact ⟨fun _ h => h, nofun⟩
  have hrouted : a.RoutedTries := by
    refine Checked.Reach.invariant SockHist.RoutedTries ?_ ?_ hr
    · rintro a ⟨-, -, htries⟩ x hx
      rw [htries] at hx
      cases hx
    · intro a e hgood ha
      cases hb : sockHistStep a e with
      | error f => trivial
      | ok b => exact (hstep a ha e b hb).2 hgood
  exact ⟨hrouted, hstep a hrouted⟩

end Tries

/-! ### Two networks -/

theorem one_lt_pfMaxDevs : 1 < pfMaxDevs := by decide

def farDev : DevIdx := ⟨1, one_lt_pfMaxDevs⟩

/-- The interfaces 10.0.0.1/24 and 10.0.1.1/24. -/
def twoDevs : Devs := fun dev =>
  if dev = lanDev then ⟨⟨2, 0, 0, 0, 0, 1⟩, 0x0a000001, 0xffffff00, 1500⟩
  else ⟨⟨2, 0, 0, 0, 0, 2⟩, 0x0a000101, 0xffffff00, 1500⟩

def twoFib : FibHist := lanFib.step (.add 0x0a000100 24 0 (some farDev) true)

def twoHist : SockHist := ⟨pfStackInit twoDevs 2 false twoFib.fib, fun _ => none, []⟩

theorem twoHist_fresh : twoHist.Fresh :=
  ⟨⟨twoDevs, 2, false, twoFib, lanFib_reach.next _ trivial, rfl⟩, fun _ => rfl, rfl⟩

/-- A connection to 10.0.0.9 times out, and one to 10.0.0.10, on the same network,
is attempted. -/
theorem connect_uses_route_retry : ∃ a b,
    [.call 0 (.socket .tcp), .call 0 (.connect 0 0x0a000009 80 none), .resume 3000 true].foldlM
        sockHistStep twoHist = .ok a ∧
      a.stack.pending = none ∧ (a.stack.socks 0).tcb = none ∧
      sockHistStep a (.call 3000 (.connect 0 0x0a00000a 80 none)) = .ok b ∧
      b.tries.map (·.used) = [0x0a000001, 0x0a000001] ∧ b.RoutedTries := by
  obtain ⟨x, y, a, b, hx, hy, ha, hb, hused, hidle, hgone⟩ : ∃ x y a b,
      sockHistStep twoHist (.call 0 (.socket .tcp)) = .ok x ∧
        sockHistStep x (.call 0 (.connect 0 0x0a000009 80 none)) = .ok y ∧
        sockHistStep y (.resume 3000 true) = .ok a ∧
        sockHistStep a (.call 3000 (.connect 0 0x0a00000a 80 none)) = .ok b ∧
        b.tries.map (·.used) = [0x0a000001, 0x0a000001] ∧ a.stack.pending = none ∧
        (a.stack.socks 0).tcb = none := ⟨_, _, _, _, rfl, rfl, rfl, rfl, rfl, rfl, rfl⟩
  obtain ⟨hfirst, hfree⟩ : tcpSockGet x.stack.host 0 = some 0 ∧ (x.stack.socks 0).localIp = 0 := by
    cases hx
    exact ⟨rfl, rfl⟩
  obtain ⟨hsecond, hroute⟩ : tcpSockGet a.stack.host 0 = some 0 ∧
      routeAddr a.stack 0x0a00000a = some (a.stack.socks 0).localIp := by
    cases hx
    cases hy
    cases ha
    exact ⟨rfl, rfl⟩
  have hstart : twoHist.Reach fun a e => ¬ KeepsOldAddr a e := .start twoHist_fresh
  have htry : ¬ KeepsOldAddr x (.call 0 (.connect 0 0x0a000009 80 none)) := by
    rintro ⟨i, hi, -, -, hne, -⟩
    cases hfirst.symm.trans hi
    exact hne hfree
  have hr : a.Reach fun a e => ¬ KeepsOldAddr a e :=
    (((hstart.next _ id hx).next _ htry hy).next _ id ha)
  have hretry : ¬ KeepsOldAddr a (.call 3000 (.connect 0 0x0a00000a 80 none)) := by
    rintro ⟨i, hi, -, -, -, hne⟩
    cases hsecond.symm.trans hi
    exact hne hroute
  refine ⟨a, b, ?_, hidle, hgone, hb, hused, ((connect_uses_route hr).2 _ b hb).2 hretry⟩
  rw [List.foldlM_cons, hx, ok_bind, List.foldlM_cons, hy, ok_bind, List.foldlM_cons, ha, ok_bind]
  rfl

/-- A connection to 10.0.0.9 times out, and one to 10.0.1.9 is attempted. -/
theorem connect_keeps_old_addr : ∃ a,
    [.call 0 (.socket .tcp), .call 0 (.connect 0 0x0a000009 80 none), .resume 3000 true,
      .call 3000 (.connect 0 0x0a000109 80 none)].foldlM sockHistStep twoHist = .ok a ∧
      a.bound 0 = none ∧
      a.tries = [⟨some 0x0a000001, 0x0a000001⟩, ⟨some 0x0a000101, 0x0a000001⟩] :=
  ⟨_, rfl, rfl, rfl⟩

end PacketForge
