import Deezns.Octets

/-!
# Socket addresses

An address is its octets, in network order. `toCanonical` undoes the
IPv4-mapped form `::ffff:a.b.c.d`; it is the only comparison between families.
-/
namespace Deezns

open Octets (Bytes)

structure Ipv4Addr where
  octets : Bytes
  length_octets : octets.length = 4
  deriving DecidableEq, Repr

structure Ipv6Addr where
  octets : Bytes
  length_octets : octets.length = 16
  deriving DecidableEq, Repr

inductive IpAddr where
  | v4 (a : Ipv4Addr)
  | v6 (a : Ipv6Addr)
  deriving DecidableEq, Repr

structure SocketAddr where
  ip : IpAddr
  port : UInt16
  deriving DecidableEq, Repr

/-- The first twelve octets of an IPv4-mapped address. -/
def mappedPrefix : Bytes := [0, 0, 0, 0, 0, 0, 0, 0, 0, 0, 0xFF, 0xFF]

def Ipv4Addr.toIpv6Mapped (a : Ipv4Addr) : Ipv6Addr :=
  ⟨mappedPrefix ++ a.octets, by simp [mappedPrefix, a.length_octets]⟩

def Ipv6Addr.toIpv4Mapped (a : Ipv6Addr) : Option Ipv4Addr :=
  if a.octets.take 12 = mappedPrefix then
    some ⟨a.octets.drop 12, by simp [a.length_octets]⟩
  else none

def IpAddr.toCanonical : IpAddr → IpAddr
  | .v4 a => .v4 a
  | .v6 a =>
    match a.toIpv4Mapped with
    | some mapped => .v4 mapped
    | none => .v6 a

def IpAddr.isUnspecified : IpAddr → Bool
  | .v4 a => a.octets == List.replicate 4 0
  | .v6 a => a.octets == List.replicate 16 0

/-- `0.0.0.0`. -/
def IpAddr.unspecifiedV4 : IpAddr := .v4 ⟨List.replicate 4 0, rfl⟩

@[simp] theorem Ipv6Addr.toIpv4Mapped_toIpv6Mapped (a : Ipv4Addr) :
    a.toIpv6Mapped.toIpv4Mapped = some a := by
  simp [Ipv6Addr.toIpv4Mapped, Ipv4Addr.toIpv6Mapped, mappedPrefix]

/-- The mapped form of an IPv4 address is canonically that address. -/
@[simp] theorem IpAddr.toCanonical_mapped (a : Ipv4Addr) :
    (IpAddr.v6 a.toIpv6Mapped).toCanonical = .v4 a := by
  simp [IpAddr.toCanonical]

@[simp] theorem IpAddr.isUnspecified_mapped (a : Ipv4Addr) :
    (IpAddr.v6 a.toIpv6Mapped).isUnspecified = false := by
  have h : a.toIpv6Mapped.octets ≠ List.replicate 16 0 := by
    intro h
    have := congrArg (fun bs => bs.take 12) h
    revert this
    simp [Ipv4Addr.toIpv6Mapped, mappedPrefix]
  simpa [IpAddr.isUnspecified] using h

theorem IpAddr.isUnspecified_v4_iff (a : Ipv4Addr) :
    (IpAddr.v4 a).isUnspecified = true ↔ IpAddr.v4 a = IpAddr.unspecifiedV4 := by
  obtain ⟨octets, hlen⟩ := a
  simp [IpAddr.isUnspecified, IpAddr.unspecifiedV4]

end Deezns
