import Cidr.Network.Relation

/-!
# Purposes

Some blocks of addresses are set aside.  Each purpose has a list of networks in
each family, which may be empty.  An address serves a purpose when one of the
networks holds it, and a network when one of them contains all of it.

## Main definitions

* `Purpose` — what addresses are set aside for.
* `Purpose.networks`, `Purpose.texts` — the networks set aside for a purpose, and
  their written forms.
* `Address.Serves`, `Network.Serves` — serving a purpose.
-/

namespace Cidr

/-- What addresses are set aside for. -/
inductive Purpose where
  /-- To stand for no address. -/
  | unspecified
  /-- Traffic of a host with itself. -/
  | loopback
  /-- Traffic on one link. -/
  | linkLocal
  /-- Groups of hosts. -/
  | multicast
  /-- Private networks; for IPv6 the same as unique local ones. -/
  | privateUse
  /-- Examples in documents. -/
  | documentation
  /-- Future use. -/
  | reserved
  /-- Local IPv6 networks that are unlikely to clash. -/
  | uniqueLocal
  /-- Local IPv6 networks of the older, deprecated kind. -/
  | siteLocal
  /-- IPv6 traffic that is to be dropped. -/
  | discard
  deriving DecidableEq, Repr, Inhabited

namespace Purpose

/-- The IPv4 network around the address of four octets. -/
def block4 (a b c d : UInt8) (k : Nat) (h : k ≤ 32 := by decide) : Network :=
  .enclosing (.v4 a b c d) k h

/-- The IPv6 network around the address of eight hextets, of which the first two and the last
are given. -/
def block6 (first second last : UInt16) (k : Nat) (h : k ≤ 128 := by decide) : Network :=
  .enclosing (.ofHextets [first, second, 0, 0, 0, 0, 0, last] rfl) k h

/-- The networks of a family that are set aside for a purpose. -/
def networks : Purpose → Family → List Network
  | unspecified, .v4 => [block4 0 0 0 0 32]
  | unspecified, .v6 => [block6 0 0 0 128]
  | loopback, .v4 => [block4 127 0 0 0 8]
  | loopback, .v6 => [block6 0 0 1 128]
  | linkLocal, .v4 => [block4 169 254 0 0 16]
  | linkLocal, .v6 => [block6 0xFE80 0 0 10]
  | multicast, .v4 => [block4 224 0 0 0 4]
  | multicast, .v6 => [block6 0xFF00 0 0 8]
  | privateUse, .v4 => [block4 10 0 0 0 8, block4 172 16 0 0 12, block4 192 168 0 0 16]
  | privateUse, .v6 => [block6 0xFC00 0 0 7]
  | documentation, .v4 => [block4 192 0 2 0 24, block4 198 51 100 0 24, block4 203 0 113 0 24]
  | documentation, .v6 => [block6 0x2001 0xDB8 0 32]
  | reserved, .v4 => [block4 240 0 0 0 4]
  | reserved, .v6 =>
    [block6 0 0 0 8, block6 0x100 0 0 8, block6 0x200 0 0 7, block6 0x400 0 0 6,
      block6 0x800 0 0 5, block6 0x1000 0 0 4, block6 0x4000 0 0 3, block6 0x6000 0 0 3,
      block6 0x8000 0 0 3, block6 0xA000 0 0 3, block6 0xC000 0 0 3, block6 0xE000 0 0 4,
      block6 0xF000 0 0 5, block6 0xF800 0 0 6, block6 0xFE00 0 0 9]
  | uniqueLocal, .v4 => []
  | uniqueLocal, .v6 => [block6 0xFC00 0 0 7]
  | siteLocal, .v4 => []
  | siteLocal, .v6 => [block6 0xFEC0 0 0 10]
  | discard, .v4 => []
  | discard, .v6 => [block6 0x100 0 0 64]

/-- The networks of a family that are set aside for a purpose, as they are written. -/
def texts : Purpose → Family → List String
  | unspecified, .v4 => ["0.0.0.0/32"]
  | unspecified, .v6 => ["::/128"]
  | loopback, .v4 => ["127.0.0.0/8"]
  | loopback, .v6 => ["::1/128"]
  | linkLocal, .v4 => ["169.254.0.0/16"]
  | linkLocal, .v6 => ["fe80::/10"]
  | multicast, .v4 => ["224.0.0.0/4"]
  | multicast, .v6 => ["ff00::/8"]
  | privateUse, .v4 => ["10.0.0.0/8", "172.16.0.0/12", "192.168.0.0/16"]
  | privateUse, .v6 => ["fc00::/7"]
  | documentation, .v4 => ["192.0.2.0/24", "198.51.100.0/24", "203.0.113.0/24"]
  | documentation, .v6 => ["2001:db8::/32"]
  | reserved, .v4 => ["240.0.0.0/4"]
  | reserved, .v6 =>
    ["::/8", "100::/8", "200::/7", "400::/6", "800::/5", "1000::/4", "4000::/3", "6000::/3",
      "8000::/3", "a000::/3", "c000::/3", "e000::/4", "f000::/5", "f800::/6", "fe00::/9"]
  | uniqueLocal, .v4 => []
  | uniqueLocal, .v6 => ["fc00::/7"]
  | siteLocal, .v4 => []
  | siteLocal, .v6 => ["fec0::/10"]
  | discard, .v4 => []
  | discard, .v6 => ["100::/64"]

end Purpose

/-- The address belongs to one of the networks set aside for a purpose. -/
def Address.Serves (a : Address) (p : Purpose) : Prop := ∃ n ∈ p.networks a.family, a ∈ n

instance (a : Address) (p : Purpose) : Decidable (a.Serves p) :=
  inferInstanceAs (Decidable (∃ n ∈ p.networks a.family, a ∈ n))

/-- One of the networks set aside for a purpose contains the network. -/
def Network.Serves (n : Network) (p : Purpose) : Prop :=
  ∃ m ∈ p.networks n.family, m.Contains n

instance (n : Network) (p : Purpose) : Decidable (n.Serves p) :=
  inferInstanceAs (Decidable (∃ m ∈ p.networks n.family, m.Contains n))

end Cidr
