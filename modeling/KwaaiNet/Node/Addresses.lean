import Mathlib

/-! # Which addresses a node announces

A node asks the daemon for its addresses and announces those that other nodes can reach. Addresses
through a relay are taken as they are; of the others, an IPv4 component is checked against all
ranges that are not routed, an IPv6 component only against the unspecified and the loopback
address. `KwaaiNet.announcesReachable_iff` says which addresses get through that nobody can reach.
-/

namespace KwaaiNet

/-- An IPv4 address by its octets. -/
structure Ipv4Addr where
  b0 : UInt8
  b1 : UInt8
  b2 : UInt8
  b3 : UInt8
  deriving DecidableEq

/-- An IPv6 address. -/
structure Ipv6Addr where
  bits : BitVec 128
  deriving DecidableEq

/-- The components of an address that are looked at; all others are alike. -/
inductive Protocol where
  | ip4 (address : Ipv4Addr)
  | ip6 (address : Ipv6Addr)
  | p2pCircuit
  | other (name : String)
  deriving DecidableEq

abbrev Multiaddr := List Protocol

namespace Ipv4Addr

variable (a : Ipv4Addr)

def isUnspecified : Bool := a.b0 = 0 && a.b1 = 0 && a.b2 = 0 && a.b3 = 0

def isLoopback : Bool := a.b0 = 127

def isLinkLocal : Bool := a.b0 = 169 && a.b1 = 254

def isBroadcast : Bool := a.b0 = 255 && a.b1 = 255 && a.b2 = 255 && a.b3 = 255

def isMulticast : Bool := 224 ≤ a.b0 && a.b0 ≤ 239

def isPrivate : Bool :=
  a.b0 = 10 || (a.b0 = 172 && 16 ≤ a.b1 && a.b1 ≤ 31) || (a.b0 = 192 && a.b1 = 168)

end Ipv4Addr

namespace Ipv6Addr

variable (a : Ipv6Addr)

def isUnspecified : Bool := a.bits = 0

def isLoopback : Bool := a.bits = 1

end Ipv6Addr

/-- `is_globally_routable_v4`. -/
def isGloballyRoutableV4 (a : Ipv4Addr) : Bool :=
  if a.isUnspecified || a.isLoopback || a.isLinkLocal || a.isBroadcast || a.isMulticast ||
      a.isPrivate then
    false
  -- carrier-grade NAT
  else if a.b0 = 100 && 64 ≤ a.b1 && a.b1 ≤ 127 then false
  else true

/-- What `is_announceable_addr` remembers of the components it has seen. -/
structure SeenComponents where
  hasCircuit : Bool
  routableIp : Bool
  badIp : Bool
  deriving DecidableEq

def SeenComponents.see (seen : SeenComponents) : Protocol → SeenComponents
  | .p2pCircuit => { seen with hasCircuit := true }
  | .ip4 a =>
    if !isGloballyRoutableV4 a then { seen with badIp := true }
    else { seen with routableIp := true }
  | .ip6 a =>
    if a.isUnspecified || a.isLoopback then { seen with badIp := true }
    else { seen with routableIp := true }
  | .other _ => seen

/-- `is_announceable_addr`. -/
def isAnnounceableAddr (ma : Multiaddr) : Bool :=
  let seen := ma.foldl SeenComponents.see ⟨false, false, false⟩
  if seen.hasCircuit then true else seen.routableIp && !seen.badIp

/-! ## Networks -/

def InNetwork (width : Nat) (network bits address : Nat) : Prop :=
  address / 2 ^ (width - bits) = network / 2 ^ (width - bits)

instance (width network bits address : Nat) : Decidable (InNetwork width network bits address) :=
  inferInstanceAs (Decidable (_ = _))

namespace Ipv4Addr

def toNat (a : Ipv4Addr) : Nat :=
  ((a.b0.toNat * 256 + a.b1.toNat) * 256 + a.b2.toNat) * 256 + a.b3.toNat

def ofNat (number : Nat) : Ipv4Addr :=
  ⟨.ofNat (number / 256 ^ 3), .ofNat (number / 256 ^ 2), .ofNat (number / 256), .ofNat number⟩

/-- The network `b0.b1.0.0/bits`. -/
def In (a : Ipv4Addr) (b0 b1 : UInt8) (bits : Nat) : Prop :=
  InNetwork 32 (toNat ⟨b0, b1, 0, 0⟩) bits a.toNat

instance (a : Ipv4Addr) (b0 b1 : UInt8) (bits : Nat) : Decidable (a.In b0 b1 bits) :=
  inferInstanceAs (Decidable (InNetwork _ _ _ _))

/-- The unspecified address, or one of a network that is not routed: loopback, link-local, private
and carrier-grade NAT. -/
def Unreachable (a : Ipv4Addr) : Prop :=
  a.In 0 0 32 ∨ a.In 127 0 8 ∨ a.In 169 254 16 ∨ (a.In 10 0 8 ∨ a.In 172 16 12 ∨ a.In 192 168 16) ∨
    a.In 100 64 10

instance (a : Ipv4Addr) : Decidable a.Unreachable := inferInstanceAs (Decidable (_ ∨ _))

end Ipv4Addr

namespace Ipv6Addr

/-- The network whose first 16 bits are given. -/
def In (a : Ipv6Addr) (lead bits : Nat) : Prop :=
  InNetwork 128 (lead * 2 ^ 112) bits a.bits.toNat

instance (a : Ipv6Addr) (lead bits : Nat) : Decidable (a.In lead bits) :=
  inferInstanceAs (Decidable (InNetwork _ _ _ _))

/-- The IPv4 address that is mapped into `::ffff:0:0/96`. -/
def toIpv4Mapped (a : Ipv6Addr) : Option Ipv4Addr :=
  if a.bits.toNat / 2 ^ 32 = 0xffff then some (.ofNat (a.bits.toNat % 2 ^ 32)) else none

/-- Link-local, unique-local, or mapped from an IPv4 address that cannot be reached. -/
def Overlooked (a : Ipv6Addr) : Prop :=
  a.In 0xfe80 10 ∨ a.In 0xfc00 7 ∨ ∃ mapped, a.toIpv4Mapped = some mapped ∧ mapped.Unreachable

/-- The unspecified or the loopback address, or one that `is_announceable_addr` overlooks. -/
def Unreachable (a : Ipv6Addr) : Prop :=
  InNetwork 128 0 128 a.bits.toNat ∨ InNetwork 128 1 128 a.bits.toNat ∨ a.Overlooked

end Ipv6Addr

/-- **Reachable.** The address has an IP component, and none of its IP components is unreachable. -/
structure Multiaddr.Reachable (ma : Multiaddr) : Prop where
  hasIp : ∃ component ∈ ma, (∃ a, component = .ip4 a) ∨ ∃ a, component = .ip6 a
  ip4 : ∀ a, .ip4 a ∈ ma → ¬ a.Unreachable
  ip6 : ∀ a, .ip6 a ∈ ma → ¬ a.Unreachable

/-! ## What the checks say -/

theorem not_unreachable_of_routable {a : Ipv4Addr} (routable : isGloballyRoutableV4 a = true) :
    ¬ a.Unreachable := by
  obtain ⟨b0, b1, b2, b3⟩ := a
  have small1 : b1.toNat < 256 := b1.toNat_lt
  have small2 : b2.toNat < 256 := b2.toNat_lt
  have small3 : b3.toNat < 256 := b3.toNat_lt
  rw [isGloballyRoutableV4] at routable
  split_ifs at routable with ranges carrier
  simp only [Ipv4Addr.isUnspecified, Ipv4Addr.isLoopback, Ipv4Addr.isLinkLocal,
    Ipv4Addr.isBroadcast, Ipv4Addr.isMulticast, Ipv4Addr.isPrivate, Bool.or_eq_true,
    Bool.and_eq_true, decide_eq_true_eq, ← UInt8.toNat_inj, UInt8.le_iff_toNat_le,
    UInt8.reduceToNat, not_or] at ranges carrier
  obtain ⟨⟨⟨⟨⟨unspecified, loopback⟩, linkLocal⟩, _⟩, _⟩, privates⟩ := ranges
  simp only [Ipv4Addr.Unreachable, Ipv4Addr.In, InNetwork, Ipv4Addr.toNat, UInt8.reduceToNat,
    Nat.reduceSub, Nat.reducePow, Nat.reduceMul, Nat.reduceAdd, Nat.reduceDiv]
  rintro (inside | inside | inside | inside | inside)
  · clear loopback linkLocal privates carrier
    omega
  · clear unspecified linkLocal privates carrier
    omega
  · clear unspecified loopback privates carrier
    omega
  · clear unspecified loopback linkLocal carrier
    omega
  · clear unspecified loopback linkLocal privates
    omega

theorem unreachable_ip6_iff {a : Ipv6Addr} :
    a.Unreachable ↔ (a.isUnspecified || a.isLoopback) = true ∨ a.Overlooked := by
  have bits {number : Nat} (small : number < 2 ^ 128) :
      InNetwork 128 number 128 a.bits.toNat ↔ a.bits = BitVec.ofNat 128 number := by
    rw [InNetwork, Nat.sub_self, pow_zero, Nat.div_one, Nat.div_one, ← BitVec.toNat_inj,
      BitVec.toNat_ofNat, Nat.mod_eq_of_lt small]
  rw [Ipv6Addr.Unreachable, bits (by decide), bits (by decide), Bool.or_eq_true, ← or_assoc]
  simp only [Ipv6Addr.isUnspecified, Ipv6Addr.isLoopback, decide_eq_true_eq]
  rfl

def Protocol.passes : Protocol → Bool
  | .ip4 a => isGloballyRoutableV4 a
  | .ip6 a => !(a.isUnspecified || a.isLoopback)
  | .p2pCircuit => false
  | .other _ => false

def Protocol.fails : Protocol → Bool
  | .ip4 a => !isGloballyRoutableV4 a
  | .ip6 a => a.isUnspecified || a.isLoopback
  | .p2pCircuit => false
  | .other _ => false

theorem SeenComponents.see_eq (seen : SeenComponents) (component : Protocol) :
    seen.see component =
      ⟨seen.hasCircuit || decide (component = .p2pCircuit), seen.routableIp || component.passes,
        seen.badIp || component.fails⟩ := by
  cases component with
  | ip4 a => cases routable : isGloballyRoutableV4 a <;> simp [see, Protocol.passes,
      Protocol.fails, routable]
  | ip6 a => cases bad : a.isUnspecified || a.isLoopback <;> simp [see, Protocol.passes,
      Protocol.fails, bad]
  | p2pCircuit => simp [see, Protocol.passes, Protocol.fails]
  | other name => simp [see, Protocol.passes, Protocol.fails]

theorem foldl_see (ma : Multiaddr) (seen : SeenComponents) :
    ma.foldl SeenComponents.see seen =
      ⟨seen.hasCircuit || ma.any fun component => component = .p2pCircuit,
        seen.routableIp || ma.any Protocol.passes, seen.badIp || ma.any Protocol.fails⟩ := by
  induction ma generalizing seen with
  | nil => simp
  | cons component ma ih =>
    rw [List.foldl_cons, ih, SeenComponents.see_eq]
    simp only [List.any_cons, Bool.or_assoc]

theorem isAnnounceableAddr_iff {ma : Multiaddr} (direct : .p2pCircuit ∉ ma) :
    isAnnounceableAddr ma = true ↔
      (∃ component ∈ ma, component.passes = true) ∧ ∀ component ∈ ma, component.fails = false := by
  have circuit : (ma.any fun component => component = .p2pCircuit) = false := by
    simpa using fun component member => ne_of_mem_of_not_mem member direct
  rw [isAnnounceableAddr, foldl_see]
  simp [circuit]

theorem reachable_iff {ma : Multiaddr} (direct : .p2pCircuit ∉ ma)
    (announced : isAnnounceableAddr ma = true) :
    ma.Reachable ↔ ∀ a, .ip6 a ∈ ma → ¬ a.Overlooked := by
  obtain ⟨⟨component, member, passes⟩, checked⟩ := (isAnnounceableAddr_iff direct).mp announced
  constructor
  · intro reachable a present overlooked
    exact reachable.ip6 a present (unreachable_ip6_iff.mpr (.inr overlooked))
  · intro seen
    refine ⟨⟨component, member, ?_⟩, fun a present => ?_, fun a present unreachable => ?_⟩
    · cases component with
      | ip4 a => exact .inl ⟨a, rfl⟩
      | ip6 a => exact .inr ⟨a, rfl⟩
      | p2pCircuit => cases passes
      | other name => cases passes
    · exact not_unreachable_of_routable (Bool.not_eq_eq_eq_not.mp (checked _ present))
    · rcases unreachable_ip6_iff.mp unreachable with refused | overlooked
      · have passed := checked _ present
        rw [Protocol.fails, refused] at passed
        cases passed
      · exact seen a present overlooked

/-- `fe80::1`, `fc00::1` and `::ffff:192.168.1.1`. -/
def overlookedAddresses : List Ipv6Addr :=
  [⟨0xfe80_0000_0000_0000_0000_0000_0000_0001⟩, ⟨0xfc00_0000_0000_0000_0000_0000_0000_0001⟩,
    ⟨0x0000_0000_0000_0000_0000_ffff_c0a8_0101⟩]

end KwaaiNet
