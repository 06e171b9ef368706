import PacketForge.Eth.Frame
import PacketForge.Ipv4.Reass

/-!
IPv4 headers and addresses (`ipv4.h`), with the parts of `checksum.c` that the
transport protocols and the forwarding plane use.
-/

namespace PacketForge

abbrev ipv4HdrMin : Nat := 20
abbrev ipv4HdrMax : Nat := 60
abbrev ipDefaultTtl : UInt8 := 64

abbrev ipProtoIcmp : UInt8 := 1
abbrev ipProtoTcp : UInt8 := 6
abbrev ipProtoUdp : UInt8 := 17

abbrev ipFragDf : UInt16 := 0x4000
abbrev ipFragMf : UInt16 := 0x2000
abbrev ipFragOffmask : UInt16 := 0x1fff

/-! ### Addresses -/

def ip4IsLoopback (ip : UInt32) : Bool := ip >>> 24 = 127

/-- Class D. -/
def ip4IsMulticast (ip : UInt32) : Bool := ip >>> 28 = 0xe

/-- Class E, which includes the limited broadcast. -/
def ip4IsExperimental (ip : UInt32) : Bool := ip >>> 28 = 0xf

def ip4IsLimitedBcast (ip : UInt32) : Bool := ip = 0xffffffff

/-- A datagram's source must be a unicast address. -/
def ip4BadSrc (src : UInt32) : Bool :=
  ip4IsMulticast src || ip4IsExperimental src || ip4IsLimitedBcast src || ip4IsLoopback src

/-! ### Header fields -/

def ipVersion (ih : List UInt8) : UInt8 := ih.getD 0 0 >>> 4

def ipTotalLen (ih : List UInt8) : Nat := (be16 ih 2).toNat

def ipFragOff (ih : List UInt8) : UInt16 := be16 ih 6

def ipTtl (ih : List UInt8) : UInt8 := ih.getD 8 0

def ipProto (ih : List UInt8) : UInt8 := ih.getD 9 0

def ipSaddr (ih : List UInt8) : UInt32 := be32 ih 12

def ipDaddr (ih : List UInt8) : UInt32 := be32 ih 16

/-- The header `ip_output_one` fills in, for a datagram of `len` bytes. -/
def ipv4Hdr (len : Nat) (id frag : UInt16) (ttl proto : UInt8) (src dst : UInt32) : List UInt8 :=
  let ih := [0x45, 0] ++ toBe16 (UInt16.ofNat len) ++ toBe16 id ++ toBe16 frag ++ [ttl, proto] ++
    toBe16 0 ++ toBe32 src ++ toBe32 dst
  putBe16 ih 10 (inetCsum ih)

theorem ipv4Hdr_length (len : Nat) (id frag : UInt16) (ttl proto : UInt8) (src dst : UInt32) :
    (ipv4Hdr len id frag ttl proto src dst).length = ipv4HdrMin := by
  rw [ipv4Hdr, putBe16_length]
  rfl

/-! ### Checksums -/

def csumPseudo (src dst : UInt32) (proto : UInt8) (l4len : UInt16) : UInt32 :=
  src >>> 16 + (src &&& (0xffff : UInt32)) + dst >>> 16 + (dst &&& (0xffff : UInt32)) +
    proto.toUInt32 + l4len.toUInt32

/-- The checksum of a transport segment under the pseudo header. -/
def l4Csum (src dst : UInt32) (proto : UInt8) (seg : List UInt8) : UInt16 :=
  csumFold (csumPartial seg (csumPseudo src dst proto (UInt16.ofNat seg.length)))

/-- The incremental update of RFC 1624, equation 3. -/
def csumUpdate16 (oldCsum oldField newField : UInt16) : UInt16 :=
  csumFold ((~~~oldCsum).toUInt32 + (~~~oldField).toUInt32 + newField.toUInt32)

/-- What `ip_forward` makes of a datagram: the TTL is decremented, and the
checksum updated over the word that holds it. -/
def decTtl (l : List UInt8) : List UInt8 :=
  let ttl := ipTtl l
  let oldWord := ttl.toUInt16 <<< 8 ||| (ipProto l).toUInt16
  let newWord := (ttl - 1).toUInt16 <<< 8 ||| (ipProto l).toUInt16
  putBe16 (l.set 8 (ttl - 1)) 10 (csumUpdate16 (be16 l 10) oldWord newWord)

theorem decTtl_length (l : List UInt8) : (decTtl l).length = l.length := by
  rw [decTtl, putBe16_length, List.length_set]

end PacketForge
