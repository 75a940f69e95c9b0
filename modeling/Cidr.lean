import Cidr.Address.Arithmetic
import Cidr.Address.Basic
import Cidr.Address.Grammar
import Cidr.Address.Guarded
import Cidr.Address.GuardedParser
import Cidr.Address.InPlace
import Cidr.Address.Mapped
import Cidr.Address.Parser
import Cidr.Address.Text
import Cidr.Address.ZeroRun
import Cidr.Bounds
import Cidr.Error
import Cidr.Failure
import Cidr.Family
import Cidr.Guarded
import Cidr.Interface
import Cidr.Interface.History
import Cidr.Interface.Record
import Cidr.Network.Addresses
import Cidr.Network.Basic
import Cidr.Network.Certificate
import Cidr.Network.Hierarchy
import Cidr.Network.History
import Cidr.Network.Record
import Cidr.Network.Relation
import Cidr.Network.Subnets
import Cidr.NetworkSet.Basic
import Cidr.NetworkSet.History
import Cidr.NetworkSet.Interval
import Cidr.NetworkSet.Record
import Cidr.Octets.Basic
import Cidr.Octets.Guarded
import Cidr.Octets.Hextet
import Cidr.Octets.Mask
import Cidr.Prefixed
import Cidr.Prefixed.Grammar
import Cidr.Proofs.Address
import Cidr.Proofs.Address.Arithmetic
import Cidr.Proofs.Address.Canonical
import Cidr.Proofs.Address.Fields
import Cidr.Proofs.Address.Grammar
import Cidr.Proofs.Address.Guarded
import Cidr.Proofs.Address.GuardedParser
import Cidr.Proofs.Address.InPlace
import Cidr.Proofs.Address.Mapped
import Cidr.Proofs.Address.Mask
import Cidr.Proofs.Address.Quad
import Cidr.Proofs.Address.RoundTrip
import Cidr.Proofs.Address.ZeroRun
import Cidr.Proofs.Encoding
import Cidr.Proofs.Guarded
import Cidr.Proofs.Interface.History
import Cidr.Proofs.Interface.Reading
import Cidr.Proofs.Interface.Record
import Cidr.Proofs.Network.Addresses
import Cidr.Proofs.Network.Adjacency
import Cidr.Proofs.Network.Bounds
import Cidr.Proofs.Network.Certificate
import Cidr.Proofs.Network.Enumeration
import Cidr.Proofs.Network.Halves
import Cidr.Proofs.Network.Hierarchy
import Cidr.Proofs.Network.History
import Cidr.Proofs.Network.Inclusion
import Cidr.Proofs.Network.Order
import Cidr.Proofs.Network.Record
import Cidr.Proofs.Network.Region
import Cidr.Proofs.Network.RoundTrip
import Cidr.Proofs.Network.Subnets
import Cidr.Proofs.Network.Union
import Cidr.Proofs.NetworkSet.Canonical
import Cidr.Proofs.NetworkSet.Difference
import Cidr.Proofs.NetworkSet.Filing
import Cidr.Proofs.NetworkSet.History
import Cidr.Proofs.NetworkSet.Insertion
import Cidr.Proofs.NetworkSet.Interval
import Cidr.Proofs.NetworkSet.Record
import Cidr.Proofs.NetworkSet.Work
import Cidr.Proofs.Octets
import Cidr.Proofs.Octets.Guarded
import Cidr.Proofs.Octets.Mask
import Cidr.Proofs.Octets.Netmask
import Cidr.Proofs.Order
import Cidr.Proofs.Prefixed
import Cidr.Proofs.Purpose
import Cidr.Proofs.Text
import Cidr.Proofs.Wide
import Cidr.Proofs.Wide.Arithmetic
import Cidr.Proofs.Wide.Bits
import Cidr.Proofs.Wide.Bitwise
import Cidr.Proofs.Wide.Decimal
import Cidr.Proofs.Wide.Guarded
import Cidr.Proofs.Wide.Shift
import Cidr.Purpose
import Cidr.Radix
import Cidr.Text.Addition
import Cidr.Text.Decimal
import Cidr.Text.Hex
import Cidr.Text.Numeral
import Cidr.Walk
import Cidr.Wide.Basic
import Cidr.Wide.Encoding
import Cidr.Wide.Guarded
import Cidr.Wide.Limb
import Cidr.Wide.UInt129
import Cidr.Wide.UInt33
