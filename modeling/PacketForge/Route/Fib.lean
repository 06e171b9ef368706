import PacketForge.Lib.BitTrie
import PacketForge.Lib.Slots

/-!
The forwarding information base (`fib.c`): a unibit trie whose nodes point into
a pool of 64 route entries. A walk of the source descends by `bit_at` from the
most significant bit; here it follows the list of these bits, and a pointer to
a pool entry is its index. Allocation of trie nodes is assumed to succeed, as
the source asserts.
-/

namespace PacketForge

abbrev fibMaxRoutes : Nat := 64
abbrev pfMaxDevs : Nat := 8

abbrev DevIdx := Fin pfMaxDevs

theorem pfMaxDevs_pos : 0 < pfMaxDevs := Nat.succ_pos _

structure FibEntry where
  inUse : Bool
  addr : UInt32
  plen : UInt8
  nextHop : UInt32
  dev : Option DevIdx
  connected : Bool

/-- An entry of a pool that was never used. -/
def FibEntry.zero : FibEntry where
  inUse := false
  addr := 0
  plen := 0
  nextHop := 0
  dev := none
  connected := false

structure Fib where
  root : BitTrie (Fin fibMaxRoutes)
  pool : Fin fibMaxRoutes → FibEntry

def Fib.init : Fib where
  root := .nil
  pool := fun _ => FibEntry.zero

def poolAlloc (f : Fib) : Option (Fin fibMaxRoutes) := Slots.first fun i => !(f.pool i).inUse

/-- The bit a walk branches on at a depth below 32. -/
def bitAt (addr : UInt32) (depth : Nat) : Bool := (addr >>> UInt32.ofNat (31 - depth)) &&& 1 == 1

/-- The bits of an address down to a depth. -/
def bitPath (addr : UInt32) (depth : Nat) : List Bool := (List.range depth).map (bitAt addr)

def prefixMask (plen : UInt8) : UInt32 :=
  if plen = 0 then 0 else 0xffffffff <<< (32 - plen.toUInt32)

/-- `fib_add`, with its return value. A failure for want of a pool entry leaves
the nodes it created on the way. -/
def fibAdd (f : Fib) (addr : UInt32) (plen : UInt8) (nextHop : UInt32) (dev : Option DevIdx)
    (connected : Bool) : Fib × Int :=
  if plen > 32 ∨ dev = none then (f, -1)
  else
    let addr := addr &&& prefixMask plen
    let path := bitPath addr plen.toNat
    let root := f.root.create path
    let entry : FibEntry :=
      { inUse := true, addr := addr, plen := plen, nextHop := nextHop, dev := dev,
        connected := connected }
    match root.get path with
    | some i => ({ root := root, pool := Function.update f.pool i entry }, 0)
    | none =>
      match poolAlloc f with
      | none => ({ f with root := root }, -1)
      | some i => ({ root := root.set path (some i), pool := Function.update f.pool i entry }, 0)

/-- `fib_del`: the entry goes back to the pool, and empty branches are pruned. -/
def fibDel (f : Fib) (addr : UInt32) (plen : UInt8) : Fib × Int :=
  if plen > 32 then (f, -1)
  else
    let path := bitPath (addr &&& prefixMask plen) plen.toNat
    let root := f.root.erase false path
    match f.root.get path with
    | none => ({ f with root := root }, -1)
    | some i =>
      ({ root := root, pool := Function.update f.pool i { f.pool i with inUse := false } }, 0)

/-- `fib_lookup`: the pool entry of the longest match. -/
def fibLookup (f : Fib) (dst : UInt32) : Option (Fin fibMaxRoutes) :=
  f.root.longest (bitPath dst 32) none

/-- `fib_add_via`: the device is that of a connected route to the next hop. -/
def fibAddVia (f : Fib) (addr : UInt32) (plen : UInt8) (nextHop : UInt32) : Fib × Int :=
  match fibLookup f nextHop with
  | none => (f, -1)
  | some i =>
    if (f.pool i).connected then fibAdd f addr plen nextHop (f.pool i).dev false else (f, -1)

/-- `fib_walk`: the callback is called with the entries the nodes point to. -/
def fibWalk {σ : Type*} (f : Fib) (cb : σ → FibEntry → σ) (arg : σ) : σ :=
  f.root.walk (fun s i => cb s (f.pool i)) arg

end PacketForge
