/-
ZGalaxy/InetAddress.lean

IP endpoints and Ethernet addresses.

An endpoint is nil, or an IPv4 or IPv6 address with a port, which where a netmask is
meant holds the number of its bits.  Address bytes are in network order, so the first
byte is the most significant one.

`containsAddress` treats the families differently: for IPv4 the network's own host
bits are ignored, for IPv6 they are compared with zeros.

Two addresses are derived from a network id and a ZeroTier address, `makeIpv66plane`
(a 40-bit network part, then the address) and `makeIpv6rfc4193` (an 88-bit network part, then
the address).
-/
import ZGalaxy.Address

namespace ZGalaxy

open ByteList

/-- `MAC`: an Ethernet address. -/
abbrev Mac := BitVec 48

namespace Mac

/-- `MAC::isBroadcast`. -/
def isBroadcast (m : Mac) : Bool := m == 0xffffffffffff

/-- `MAC::isMulticast`. -/
def isMulticast (m : Mac) : Bool := m &&& 0x010000000000 != 0

end Mac

/-- `InetAddress`, without flow information and scope. -/
inductive InetAddress
  | nil
  | v4 (ip : BitVec 32) (port : UInt16)
  | v6 (ip : BitVec 128) (port : UInt16)
deriving DecidableEq

namespace InetAddress

/-- `InetAddress::operator bool`. -/
def isSet : InetAddress → Bool
  | nil => false
  | _ => true

/-- `InetAddress::isV6`. -/
def isV6 : InetAddress → Bool
  | v6 _ _ => true
  | _ => false

/-- `InetAddress::ipsEqual`. -/
def ipsEqual : InetAddress → InetAddress → Bool
  | v4 ip _, v4 ip' _ => ip == ip'
  | v6 ip _, v6 ip' _ => ip == ip'
  | nil, nil => true
  | _, _ => false

/-- The IPv6 case of `InetAddress::netmask`, for at most 128 bits: two words of 64 bits. -/
def netmask6 (bits : ℕ) : BitVec 128 :=
  let ones : BitVec 64 := BitVec.allOnes 64
  if bits = 0 then 0
  else
    (if 64 ≤ bits then ones else ones <<< (64 - bits))
      ++ (if bits ≤ 64 then (0 : BitVec 64) else ones <<< (128 - bits))

/-- `InetAddress::containsAddress`, for netmasks no longer than the address. -/
def containsAddress : InetAddress → InetAddress → Bool
  | v4 net bits, v4 addr _ =>
      bits.toNat == 0 || addr >>> (32 - bits.toNat) == net >>> (32 - bits.toNat)
  | v6 net bits, v6 addr _ => addr &&& netmask6 bits.toNat == net
  | _, _ => false

/-- `InetAddress::makeIpv66plane`: an address in the /40 of the network, and in it in
the /80 of the member. -/
def makeIpv66plane (nwid : NetworkId) (zeroTierAddress : Address) : InetAddress :=
  let nwid := nwid ^^^ (nwid >>> 32)
  v6 ((0xfc : BitVec 8) ++ (nwid.setWidth 32 ++ (zeroTierAddress ++ (1 : BitVec 48)))) 40

/-- `InetAddress::makeIpv6rfc4193`: an address in the /88 of the network, all of whose
other bits are the member's. -/
def makeIpv6rfc4193 (nwid : NetworkId) (zeroTierAddress : Address) : InetAddress :=
  v6 ((0xfd : BitVec 8) ++ (nwid ++ ((0x9993 : BitVec 16) ++ zeroTierAddress))) 88

/-- The 16 bytes of an IPv6 address. -/
def ip6 : InetAddress → BitVec 128
  | v6 ip _ => ip
  | _ => 0

end InetAddress

end ZGalaxy
