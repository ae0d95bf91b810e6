import Mathlib.Algebra.Order.Ring.Nat
import Mathlib.Data.List.Sort
import Mathlib.Logic.Function.Basic

/-!
What every ingress routing policy works on (`pkg/ingress/routing`): the
configured leaves (`topology.go`), the routing state of one leaf (`model.go`)
and the result of a routing decision (`routing.go`, `reason.go`).
-/

namespace HyperFaaS.Ingress

/-- The branch a picker took for one request. -/
inductive Reason
  | random
  | roundRobin
  | consistentHashingHome
  | boundedLoadsHome
  | boundedLoadsForwarded
  | boundedLoadsLeastLoaded
  | rjchHome
  | rjchJump
  | rjchLeastLoaded
  | chrluHome
  | chrluForwarded
  | chrluLeastLoaded
  | leastLoaded
  | availableCapacity
  | coldCacheFallback
  deriving DecidableEq, Repr

/-- The routing result; a configured leaf has no reason yet. -/
structure LeafTarget where
  leafID : Nat
  httpAddress : String
  reason : Option Reason
  deriving DecidableEq, Repr

structure LeafAddress where
  httpAddress : String
  controlAddress : String
  deriving DecidableEq, Repr

/-- The configured leaves, in the order of their ids. -/
structure Topology where
  leaves : List LeafTarget
  sorted : leaves.Pairwise fun x y => x.leafID < y.leafID

namespace Topology

/-- The entries of the configured map, as a list with one entry for each id. -/
def newTopology (addrs : List (Nat × LeafAddress)) (h : (addrs.map Prod.fst).Nodup) : Topology where
  leaves := (addrs.insertionSort fun x y => x.1 ≤ y.1).map fun x => ⟨x.1, x.2.httpAddress, none⟩
  sorted := by
    have hperm := List.perm_insertionSort (fun x y : Nat × LeafAddress => x.1 ≤ y.1) addrs
    have hle := List.pairwise_insertionSort (fun x y : Nat × LeafAddress => x.1 ≤ y.1) addrs
    have hne := List.pairwise_map.mp ((hperm.map Prod.fst).nodup_iff.mpr h)
    refine List.pairwise_map.mpr (hle.imp₂ ?_ hne)
    intro x y hxy hxy'
    exact lt_of_le_of_ne hxy hxy'

/-- The position of a leaf, none for an id that is not configured. -/
def index (t : Topology) (leafID : Nat) : Option Nat :=
  t.leaves.findIdx? fun x => x.leafID == leafID

variable {t : Topology} {i : Nat}

theorem index_some {leafID : Nat} (h : t.index leafID = some i) :
    ∃ x, t.leaves[i]? = some x ∧ x.leafID = leafID := by
  obtain ⟨hi, hp, -⟩ := List.findIdx?_eq_some_iff_getElem.mp h
  exact ⟨t.leaves[i], List.getElem?_eq_getElem hi, by simpa using hp⟩

theorem eq_of_leafID {j : Nat} {x y : LeafTarget} (hi : t.leaves[i]? = some x)
    (hj : t.leaves[j]? = some y) (h : x.leafID = y.leafID) : i = j := by
  obtain ⟨hil, rfl⟩ := List.getElem?_eq_some_iff.mp hi
  obtain ⟨hjl, rfl⟩ := List.getElem?_eq_some_iff.mp hj
  have hlt := List.pairwise_iff_getElem.mp t.sorted
  rcases Nat.lt_trichotomy i j with hij | hij | hij
  · exact absurd h (hlt i j hil hjl hij).ne
  · exact hij
  · exact absurd h (hlt j i hjl hil hij).ne'

theorem index_eq {x : LeafTarget} (h : t.leaves[i]? = some x) : t.index x.leafID = some i := by
  cases hidx : t.index x.leafID with
  | none =>
    have hx := List.findIdx?_eq_none_iff.mp hidx x (List.mem_of_getElem? h)
    simp at hx
  | some j =>
    obtain ⟨y, hy, hid⟩ := index_some hidx
    rw [eq_of_leafID hy h hid]

end Topology

/-- Which leaves are routable. -/
structure Membership where
  topology : Topology
  healthy : Nat → Bool

namespace Membership

def newMembership (t : Topology) : Membership := ⟨t, fun _ => false⟩

/-- The second part of the result says whether the value changed. -/
def setHealthy (m : Membership) (leafID : Nat) (healthy : Bool) : Membership × Bool :=
  ({ m with healthy := Function.update m.healthy leafID healthy }, m.healthy leafID != healthy)

def healthyLeaves (m : Membership) : List LeafTarget :=
  m.topology.leaves.filter fun x => m.healthy x.leafID

theorem setHealthy_same {m : Membership} {leafID : Nat} {healthy : Bool}
    (h : (m.setHealthy leafID healthy).2 = false) :
    (m.setHealthy leafID healthy).1.healthy = m.healthy := by
  have he : m.healthy leafID = healthy := by simpa [setHealthy] using h
  simp [setHealthy, ← he]

end Membership

inductive CapacityStatus
  | unknown
  | cold
  | available
  deriving DecidableEq, Repr

/-- `core.FunctionCapacity` -/
structure FunctionCapacity where
  functionId : UInt64
  readyInstances : Nat
  availableConcurrency : Nat
  inFlight : Nat
  status : CapacityStatus
  deleted : Bool
  deriving DecidableEq, Repr

structure LeafState where
  configVersion : Nat
  leafID : Nat
  revision : Nat
  fullSnapshot : Bool
  healthyWorkers : Nat
  leafLoad : Float
  hasLeafLoad : Bool
  aggregateInFlight : Nat
  hasAggregateInFlight : Bool
  capacities : List FunctionCapacity

/-- What an update asks the controller to do. -/
inductive UpdateResult
  | noChange
  | changedInPlace
  | publishPicker
  deriving DecidableEq, Repr

structure RouteRequest where
  userID : Nat
  functionID : UInt64

/-- The errors of a pick, and the one way it can crash. -/
inductive PickErr
  | routingUnavailable
  | noHealthyLeaves
  | indexOutOfRange
  deriving DecidableEq, Repr

def hashFunctionID (functionID : UInt64) : UInt64 :=
  let x := functionID
  let x := x ^^^ (x >>> 33)
  let x := x * 0xff51afd7ed558ccd
  let x := x ^^^ (x >>> 33)
  let x := x * 0xc4ceb9fe1a85ec53
  x ^^^ (x >>> 33)

end HyperFaaS.Ingress
