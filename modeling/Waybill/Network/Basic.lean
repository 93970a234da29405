import Waybill.Ordered.Map
import Waybill.Identifier
import Waybill.Text.Decimal
/-!
# Networks

A network is the set of domains that are configured, each at most once. A domain may have a bridge
router and a governance router, whose messages carry payloads, and a window in which a message
relayed to it can still be challenged.
-/

namespace Waybill

/-- What is configured for one domain. -/
structure Domain where
  id : UInt32
  name : String
  bridgeRouter : Option Identifier
  governanceRouter : Option Identifier
  /-- Seconds from the relay of a message until it may be processed. -/
  optimisticSeconds : Option UInt64
deriving DecidableEq

/-- The configured domains. -/
structure Network where
  domains : SortedMap UInt32 Domain

namespace Network

/-- Why a list of domains is no network. -/
inductive Fault where
  /-- The domain of this number is listed twice. -/
  | repeatedDomain (id : UInt32)
deriving DecidableEq, Repr

/-- The wording of a fault. -/
def Fault.message : Fault → String
  | repeatedDomain id => s!"invalid config: domain {Text.decimal id.toNat} is configured more than once"

/-- The network without any domain. -/
def empty : Network := ⟨SortedMap.empty⟩

instance : Inhabited Network := ⟨empty⟩

/-- Adds a domain that is not there yet. -/
def add (net : Network) (d : Domain) : Except Fault Network :=
  if net.domains.contains d.id then .error (.repeatedDomain d.id)
  else .ok ⟨net.domains.insert d.id d⟩

/-- The network of a list of domains. -/
def ofDomains (ds : List Domain) : Except Fault Network := ds.foldlM add empty

/-- What is configured for a domain. -/
def find? (net : Network) (id : UInt32) : Option Domain := net.domains.find? id

/-- The bridge router of a domain. -/
def bridgeRouter (net : Network) (id : UInt32) : Option Identifier :=
  (net.find? id).bind (·.bridgeRouter)

/-- The governance router of a domain. -/
def governanceRouter (net : Network) (id : UInt32) : Option Identifier :=
  (net.find? id).bind (·.governanceRouter)

/-- The challenge window of a domain. -/
def optimisticSeconds (net : Network) (id : UInt32) : Option UInt64 :=
  (net.find? id).bind (·.optimisticSeconds)

/-- Whether a domain is configured. -/
def knows (net : Network) (id : UInt32) : Bool := net.domains.contains id

/-- The numbers of the domains in increasing order. -/
def ids (net : Network) : List UInt32 := net.domains.keys

end Network

end Waybill
