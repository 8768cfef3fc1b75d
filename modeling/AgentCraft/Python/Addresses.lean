import Mathlib.Data.List.Basic
import Mathlib.Data.Nat.Notation
import Mathlib.Tactic.NormNum

/-!
# The `ipaddress` module

IPv4 and IPv6 addresses, networks, and the properties by which `ipaddress` sorts addresses. An address is
publicly routable when no address registry sets it aside; `isSpecial_iff` says what the six properties of
`ipaddress` see of that and what they do not.
-/

namespace AgentCraft.Python

/-- An address of either version. -/
inductive IpAddress
  | v4 (value : BitVec 32)
  | v6 (value : BitVec 128)
deriving DecidableEq, Repr

/-- The addresses of `width` bits that begin with the first `prefixLength` bits of `base`. -/
structure Network (width : ℕ) where
  base : BitVec width
  prefixLength : ℕ
deriving DecidableEq, Repr

variable {width : ℕ}

/-- `address in network`. -/
def Network.contains (n : Network width) (address : BitVec width) : Bool :=
  address.toNat / 2 ^ (width - n.prefixLength) == n.base.toNat / 2 ^ (width - n.prefixLength)

/-- `any(address in network for network in networks)`. -/
def inAny (networks : List (Network width)) (address : BitVec width) : Bool :=
  networks.any fun n => n.contains address

/-- The address `a.b.c.d`. -/
def dotted (a b c d : BitVec 8) : BitVec 32 := a ++ b ++ c ++ d

/-- The address whose first four groups are given and whose other groups are zero. -/
def hextets (a b c d : BitVec 16) : BitVec 128 := a ++ b ++ c ++ d ++ (0 : BitVec 64)

/-! ## The constants of the module -/

namespace IPv4

/-- `_private_networks`. -/
def privateNetworks : List (Network 32) := [
  ⟨dotted 0 0 0 0, 8⟩, ⟨dotted 10 0 0 0, 8⟩, ⟨dotted 127 0 0 0, 8⟩, ⟨dotted 169 254 0 0, 16⟩,
  ⟨dotted 172 16 0 0, 12⟩, ⟨dotted 192 0 0 0, 24⟩, ⟨dotted 192 0 0 170, 31⟩, ⟨dotted 192 0 2 0, 24⟩,
  ⟨dotted 192 168 0 0, 16⟩, ⟨dotted 198 18 0 0, 15⟩, ⟨dotted 198 51 100 0, 24⟩,
  ⟨dotted 203 0 113 0, 24⟩, ⟨dotted 240 0 0 0, 4⟩, ⟨dotted 255 255 255 255, 32⟩]

/-- `_private_networks_exceptions`. -/
def privateExceptions : List (Network 32) := [⟨dotted 192 0 0 9, 32⟩, ⟨dotted 192 0 0 10, 32⟩]

def loopbackNetwork : Network 32 := ⟨dotted 127 0 0 0, 8⟩

def linkLocalNetwork : Network 32 := ⟨dotted 169 254 0 0, 16⟩

def multicastNetwork : Network 32 := ⟨dotted 224 0 0 0, 4⟩

def reservedNetwork : Network 32 := ⟨dotted 240 0 0 0, 4⟩

/-- `_public_network`, the address space that carriers share among their customers. -/
def sharedNetwork : Network 32 := ⟨dotted 100 64 0 0, 10⟩

def isPrivate (a : BitVec 32) : Bool := inAny privateNetworks a && !inAny privateExceptions a

end IPv4

namespace IPv6

/-- `_private_networks`. -/
def privateNetworks : List (Network 128) := [
  ⟨1, 128⟩, ⟨0, 128⟩, ⟨0xffff00000000, 96⟩, ⟨hextets 0x64 0xff9b 1 0, 48⟩, ⟨hextets 0x100 0 0 0, 64⟩,
  ⟨hextets 0x2001 0 0 0, 23⟩, ⟨hextets 0x2001 0xdb8 0 0, 32⟩, ⟨hextets 0x2002 0 0 0, 16⟩,
  ⟨hextets 0xfc00 0 0 0, 7⟩, ⟨hextets 0xfe80 0 0 0, 10⟩]

/-- `_private_networks_exceptions`. -/
def privateExceptions : List (Network 128) := [
  ⟨hextets 0x2001 1 0 0 + 1, 128⟩, ⟨hextets 0x2001 1 0 0 + 2, 128⟩, ⟨hextets 0x2001 3 0 0, 32⟩,
  ⟨hextets 0x2001 4 0x112 0, 48⟩, ⟨hextets 0x2001 0x20 0 0, 28⟩, ⟨hextets 0x2001 0x30 0 0, 28⟩]

def linkLocalNetwork : Network 128 := ⟨hextets 0xfe80 0 0 0, 10⟩

def multicastNetwork : Network 128 := ⟨hextets 0xff00 0 0 0, 8⟩

/-- `_reserved_networks`. -/
def reservedNetworks : List (Network 128) := [
  ⟨hextets 0 0 0 0, 8⟩, ⟨hextets 0x100 0 0 0, 8⟩, ⟨hextets 0x200 0 0 0, 7⟩, ⟨hextets 0x400 0 0 0, 6⟩,
  ⟨hextets 0x800 0 0 0, 5⟩, ⟨hextets 0x1000 0 0 0, 4⟩, ⟨hextets 0x4000 0 0 0, 3⟩,
  ⟨hextets 0x6000 0 0 0, 3⟩, ⟨hextets 0x8000 0 0 0, 3⟩, ⟨hextets 0xa000 0 0 0, 3⟩,
  ⟨hextets 0xc000 0 0 0, 3⟩, ⟨hextets 0xe000 0 0 0, 4⟩, ⟨hextets 0xf000 0 0 0, 5⟩,
  ⟨hextets 0xf800 0 0 0, 6⟩, ⟨hextets 0xfe00 0 0 0, 9⟩]

/-- `_sitelocal_network`. -/
def siteLocalNetwork : Network 128 := ⟨hextets 0xfec0 0 0 0, 10⟩

/-- The block from which addresses of single hosts are given out. -/
def globalUnicast : Network 128 := ⟨hextets 0x2000 0 0 0, 3⟩

/-- `ipv4_mapped`. -/
def ipv4Mapped (a : BitVec 128) : Option (BitVec 32) :=
  if a.toNat / 2 ^ 32 = 0xffff then some (a.setWidth 32) else none

def isPrivate (a : BitVec 128) : Bool :=
  match ipv4Mapped a with
  | some mapped => IPv4.isPrivate mapped
  | none => inAny privateNetworks a && !inAny privateExceptions a

end IPv6

/-! ## The properties of an address -/

namespace IpAddress

def isPrivate : IpAddress → Bool
  | v4 a => IPv4.isPrivate a
  | v6 a => IPv6.isPrivate a

def isLoopback : IpAddress → Bool
  | v4 a => IPv4.loopbackNetwork.contains a
  | v6 a => a == 1

def isLinkLocal : IpAddress → Bool
  | v4 a => IPv4.linkLocalNetwork.contains a
  | v6 a => IPv6.linkLocalNetwork.contains a

def isReserved : IpAddress → Bool
  | v4 a => IPv4.reservedNetwork.contains a
  | v6 a => inAny IPv6.reservedNetworks a

def isMulticast : IpAddress → Bool
  | v4 a => IPv4.multicastNetwork.contains a
  | v6 a => IPv6.multicastNetwork.contains a

def isUnspecified : IpAddress → Bool
  | v4 a => a == 0
  | v6 a => a == 0

/-- `is_site_local`, of IPv6 addresses only. -/
def isSiteLocal : IpAddress → Bool
  | v4 _ => false
  | v6 a => IPv6.siteLocalNetwork.contains a

/-- The shared address space, of IPv4 addresses only. -/
def isShared : IpAddress → Bool
  | v4 a => IPv4.sharedNetwork.contains a
  | v6 _ => false

end IpAddress

/-! ## Publicly routable addresses -/

namespace IpAddress

/-- The address is neither loopback nor private, link-local, shared, multicast, reserved or unspecified.
An IPv6 address outside the global unicast block is one of these, or of a block reserved for the future;
inside it only the networks of the special-purpose registry are. -/
def PubliclyRoutable : IpAddress → Prop
  | v4 a =>
    IPv4.loopbackNetwork.contains a = false ∧ IPv4.isPrivate a = false ∧
      IPv4.linkLocalNetwork.contains a = false ∧ IPv4.sharedNetwork.contains a = false ∧
        IPv4.multicastNetwork.contains a = false ∧ IPv4.reservedNetwork.contains a = false ∧ a ≠ 0
  | v6 a => IPv6.globalUnicast.contains a = true ∧ IPv6.isPrivate a = false

instance : DecidablePred PubliclyRoutable
  | v4 a => by
    unfold PubliclyRoutable
    infer_instance
  | v6 a => by
    unfold PubliclyRoutable
    infer_instance

/-- One of the six properties of `ipaddress` that set an address aside. -/
def isSpecial (a : IpAddress) : Bool :=
  a.isPrivate || a.isLoopback || a.isLinkLocal || a.isReserved || a.isMulticast || a.isUnspecified

end IpAddress

theorem Network.contains_iff {n : Network width} {a : BitVec width} :
    n.contains a = true ↔
      a.toNat / 2 ^ (width - n.prefixLength) = n.base.toNat / 2 ^ (width - n.prefixLength) :=
  beq_iff_eq

/-- A unique local address is private. -/
theorem IPv6.isPrivate_of_uniqueLocal {a : BitVec 128} (h : a.toNat / 2 ^ 121 = 0x7e) :
    IPv6.isPrivate a = true := by
  have hmapped : IPv6.ipv4Mapped a = none := if_neg (by omega)
  have hin : inAny IPv6.privateNetworks a = true := by
    refine List.any_eq_true.mpr ⟨⟨hextets 0xfc00 0 0 0, 7⟩, by simp [IPv6.privateNetworks], ?_⟩
    exact Network.contains_iff.mpr h
  have hout : inAny IPv6.privateExceptions a = false := by
    refine List.any_eq_false.mpr fun n hn => ?_
    simp only [IPv6.privateExceptions, List.mem_cons, List.not_mem_nil, or_false] at hn
    rw [Network.contains_iff]
    rcases hn with rfl | rfl | rfl | rfl | rfl | rfl <;> simp [hextets] <;> omega
  simp [IPv6.isPrivate, hmapped, hin, hout]

/-- No property of `ipaddress` sets an address of the global unicast block aside, except `is_private`. -/
theorem IPv6.unset_of_globalUnicast {a : BitVec 128} (h : IPv6.globalUnicast.contains a = true) :
    a ≠ 0 ∧ a ≠ 1 ∧ IPv6.linkLocalNetwork.contains a = false ∧
      inAny IPv6.reservedNetworks a = false ∧ IPv6.multicastNetwork.contains a = false ∧
        IPv6.siteLocalNetwork.contains a = false := by
  have hblock : a.toNat / 2 ^ 125 = 1 := Network.contains_iff.mp h
  have houtside {n : Network 128} (hn : a.toNat / 2 ^ (128 - n.prefixLength) ≠
      n.base.toNat / 2 ^ (128 - n.prefixLength)) : n.contains a = false :=
    Bool.eq_false_iff.mpr fun hc => hn (Network.contains_iff.mp hc)
  refine ⟨?_, ?_, houtside ?_, List.any_eq_false.mpr fun n hn => ?_, houtside ?_, houtside ?_⟩
  · rintro rfl
    simp at hblock
  · rintro rfl
    simp at hblock
  · simp [IPv6.linkLocalNetwork, hextets]
    omega
  · simp only [IPv6.reservedNetworks, List.mem_cons, List.not_mem_nil, or_false] at hn
    rw [houtside]
    · simp
    · rcases hn with rfl | rfl | rfl | rfl | rfl | rfl | rfl | rfl | rfl | rfl | rfl | rfl | rfl | rfl | rfl
        <;> simp [hextets] <;> omega
  · simp [IPv6.multicastNetwork, hextets]
    omega
  · simp [IPv6.siteLocalNetwork, hextets]
    omega

/-- Outside the global unicast block every address is reserved, link-local, site-local, multicast or unique
local. -/
theorem IPv6.globalUnicast_of_unset {a : BitVec 128} (hprivate : IPv6.isPrivate a = false)
    (hlink : IPv6.linkLocalNetwork.contains a = false) (hreserved : inAny IPv6.reservedNetworks a = false)
    (hmulticast : IPv6.multicastNetwork.contains a = false)
    (hsite : IPv6.siteLocalNetwork.contains a = false) : IPv6.globalUnicast.contains a = true := by
  have hlt := a.isLt
  have hlocal : a.toNat / 2 ^ 121 ≠ 0x7e := fun h => by
    rw [IPv6.isPrivate_of_uniqueLocal h] at hprivate
    cases hprivate
  have hquot {n : Network 128} (hn : ¬n.contains a = true) : a.toNat / 2 ^ (128 - n.prefixLength) ≠
      n.base.toNat / 2 ^ (128 - n.prefixLength) := fun h => hn (Network.contains_iff.mpr h)
  have hblocks : ∀ n ∈ IPv6.reservedNetworks, a.toNat / 2 ^ (128 - n.prefixLength) ≠
      n.base.toNat / 2 ^ (128 - n.prefixLength) := fun n hn => hquot (List.any_eq_false.mp hreserved n hn)
  have hlink' := hquot (Bool.eq_false_iff.mp hlink)
  have hmulticast' := hquot (Bool.eq_false_iff.mp hmulticast)
  have hsite' := hquot (Bool.eq_false_iff.mp hsite)
  simp [IPv6.reservedNetworks, IPv6.linkLocalNetwork, IPv6.multicastNetwork, IPv6.siteLocalNetwork,
    hextets] at hblocks hlink' hmulticast' hsite'
  rw [Network.contains_iff]
  simp [IPv6.globalUnicast, hextets]
  omega

/-- What the properties of `ipaddress` miss: the shared address space and the old site-local block. -/
theorem IpAddress.publiclyRoutable_iff (a : IpAddress) :
    a.PubliclyRoutable ↔ a.isSpecial = false ∧ a.isShared = false ∧ a.isSiteLocal = false := by
  cases a with
  | v4 a =>
    simp only [PubliclyRoutable, isSpecial, isPrivate, isLoopback, isLinkLocal, isReserved, isMulticast,
      isUnspecified, isShared, isSiteLocal, Bool.or_eq_false_iff, beq_eq_false_iff_ne]
    tauto
  | v6 a =>
    simp only [PubliclyRoutable, isSpecial, isPrivate, isLoopback, isLinkLocal, isReserved, isMulticast,
      isUnspecified, isShared, isSiteLocal, Bool.or_eq_false_iff, beq_eq_false_iff_ne]
    constructor
    · rintro ⟨hglobal, hprivate⟩
      obtain ⟨hzero, hone, hlink, hreserved, hmulticast, hsite⟩ := IPv6.unset_of_globalUnicast hglobal
      exact ⟨⟨⟨⟨⟨⟨hprivate, hone⟩, hlink⟩, hreserved⟩, hmulticast⟩, hzero⟩, trivial, hsite⟩
    · rintro ⟨⟨⟨⟨⟨⟨hprivate, _⟩, hlink⟩, hreserved⟩, hmulticast⟩, _⟩, _, hsite⟩
      exact ⟨IPv6.globalUnicast_of_unset hprivate hlink hreserved hmulticast hsite, hprivate⟩

/-! ## Embedded addresses -/

/-- `::ffff:0:0/96`. -/
def IPv6.mappedNetwork : Network 128 := ⟨0xffff00000000, 96⟩

/-- `::/96`, the deprecated IPv4-compatible addresses. -/
def IPv6.compatibleNetwork : Network 128 := ⟨0, 96⟩

/-- `64:ff9b::/96`, from which IPv6 hosts reach IPv4 hosts. -/
def IPv6.translatedNetwork : Network 128 := ⟨hextets 0x64 0xff9b 0 0, 96⟩

/-- `2002::/16`: the IPv4 address of a 6to4 router follows the prefix. -/
def IPv6.sixToFourNetwork : Network 128 := ⟨hextets 0x2002 0 0 0, 16⟩

/-- `2001::/32`: the IPv4 addresses of a Teredo server and, with its bits flipped, of its client. -/
def IPv6.teredoNetwork : Network 128 := ⟨hextets 0x2001 0 0 0, 32⟩

/-- The IPv4 addresses that an IPv6 address stands for or is reached through. -/
def IPv6.embedded (a : BitVec 128) : List (BitVec 32) :=
  if mappedNetwork.contains a || compatibleNetwork.contains a || translatedNetwork.contains a then [a.setWidth 32]
  else if sixToFourNetwork.contains a then [a.extractLsb' 80 32]
  else if teredoNetwork.contains a then [a.extractLsb' 64 32, ~~~(a.setWidth 32)]
  else []

/-- The address is publicly routable, and so is every IPv4 address that it embeds. -/
def IpAddress.GloballyRoutable (a : IpAddress) : Prop :=
  a.PubliclyRoutable ∧ match a with
    | v4 _ => True
    | v6 b => ∀ c ∈ IPv6.embedded b, (v4 c).PubliclyRoutable

end AgentCraft.Python
