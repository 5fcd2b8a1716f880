import Mathlib

/-!
# `HostAddr` of `cnet.h`

A `HostAddr` is the 16-bit `sin_port` above the 32-bit `sin_addr`, both as they stand in a
`sockaddr_in`, in network byte order.  The host is little-endian, so `htons` swaps bytes.
-/

namespace TinyMsg

/-- `HostAddr`, a `u64`. -/
abbrev HostAddr := ℕ

/-- The fields of a `sockaddr_in` that the program uses. -/
structure SockAddr where
  /-- `sin_port`, in network byte order. -/
  sinPort : UInt16
  /-- `sin_addr.s_addr`, in network byte order. -/
  sinAddr : UInt32
  deriving DecidableEq

/-- `htons` and `ntohs` on a little-endian host. -/
def htons (n : UInt16) : UInt16 := n <<< 8 ||| n >>> 8

/-- `HostAddrFromSockAddr` -/
def hostAddrFromSockAddr (sa : SockAddr) : HostAddr := sa.sinPort.toNat <<< 32 + sa.sinAddr.toNat

/-- It fits a `u64`. -/
theorem hostAddrFromSockAddr_lt (sa : SockAddr) : hostAddrFromSockAddr sa < 2 ^ 64 := by
  have hport : sa.sinPort.toNat < 2 ^ 16 := sa.sinPort.toNat_lt
  have haddr : sa.sinAddr.toNat < 2 ^ 32 := sa.sinAddr.toNat_lt
  have hsum : sa.sinPort.toNat * 2 ^ 32 + sa.sinAddr.toNat < 2 ^ 64 := by omega
  rw [hostAddrFromSockAddr, Nat.shiftLeft_eq]
  exact hsum

/-- `HostAddr_addr` -/
def hostAddrAddr (hostaddr : HostAddr) : UInt32 := UInt32.ofNat hostaddr

/-- `HostAddr_port` -/
def hostAddrPort (hostaddr : HostAddr) : UInt16 := UInt16.ofNat (hostaddr >>> 32)

/-- `SockAddrFromHostAddr` -/
def sockAddrFromHostAddr (hostaddr : HostAddr) : SockAddr :=
  ⟨hostAddrPort hostaddr, hostAddrAddr hostaddr⟩

/-- `HostAddr_ipaddr_equals` -/
def hostAddrIpaddrEquals (addr1 addr2 : HostAddr) : Bool := hostAddrAddr addr1 = hostAddrAddr addr2

/-- A `HostAddr` made from a socket address gives it back. -/
theorem sockAddrFromHostAddr_hostAddrFromSockAddr (sa : SockAddr) :
    sockAddrFromHostAddr (hostAddrFromSockAddr sa) = sa := by
  have haddr : sa.sinAddr.toNat < 2 ^ 32 := sa.sinAddr.toNat_lt
  have hport : sa.sinPort.toNat < 2 ^ 16 := sa.sinPort.toNat_lt
  obtain ⟨port, addr⟩ := sa
  simp only [sockAddrFromHostAddr, hostAddrFromSockAddr, hostAddrPort, hostAddrAddr,
    SockAddr.mk.injEq, Nat.shiftLeft_eq, Nat.shiftRight_eq_div_pow] at *
  constructor
  · apply UInt16.toNat_inj.mp
    rw [UInt16.toNat_ofNat']
    omega
  · apply UInt32.toNat_inj.mp
    rw [UInt32.toNat_ofNat']
    omega

end TinyMsg
