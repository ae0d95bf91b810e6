import HyperFaaS.Ingress.Forwarding

/-!
The bounded-loads policy of a leaf (`pkg/leaf/scheduler`), which picks a worker from a snapshot
of the workers. Loads are of any ordered type.
-/

namespace HyperFaaS.Scheduler

structure ResourceSpec where
  cpuUnits : UInt64
  memoryBytes : UInt64
  diskBytes : UInt64
  deriving DecidableEq

structure CachedImage where
  image : String
  digest : String
  deriving DecidableEq

structure WorkerState (β : Type) where
  workerId : Nat
  healthy : Bool
  schedulable : Bool
  instances : UInt64
  coldStartsInFlight : UInt32
  capacity : Option ResourceSpec
  allocated : Option ResourceSpec
  loadAverageNorm : β
  cachedImages : List CachedImage
  deriving DecidableEq

/-- Worker 0 is no worker. -/
structure PlacementDecision where
  workerId : Nat
  reason : String
  deriving DecidableEq, Repr

variable {β : Type}

abbrev Workers (β : Type) := List (Option (WorkerState β))

/-- The count becomes a signed `int` before it is compared. -/
def eligibleByInstanceCount (w : Option (WorkerState β)) (maxInstances : Int) : Bool :=
  match w with
  | none => false
  | some w =>
      if w.workerId = 0 ∨ w.healthy = false ∨ w.schedulable = false then false
      else if maxInstances ≤ 0 then true
      else decide (w.instances.toInt64.toInt < maxInstances)

variable (maxInstances : Int) (workers : Workers β)

/-! ## Bounded loads -/

section BoundedLoads

open Ingress

variable [Zero β] [One β] [Add β] [LinearOrder β]

/-- `byID[id]`; a later worker with the same id replaces the earlier one. -/
def byID (id : Nat) : Option (WorkerState β) :=
  (workers.filterMap fun w => w).reverse.find? fun w => w.workerId == id && id != 0

def usable (id : Nat) : Bool := eligibleByInstanceCount (byID workers id) maxInstances

/-- `loads[id]`: a worker that is not eligible counts as over the bound. -/
def loadMap (bound : β) (id : Nat) : Option β :=
  (byID workers id).map fun w =>
    if eligibleByInstanceCount (some w) maxInstances then w.loadAverageNorm else bound + 1

def leastLoadedEligible (ids : List Nat) (bound : β) : Nat :=
  leastLoadedBy (ids.filter (usable maxInstances workers)) fun id =>
    (loadMap maxInstances workers bound id).getD 0

def reasonText : ForwardReason → String
  | .home => "bounded-loads-home"
  | .forwarded => "bounded-loads-forwarded"
  | .leastLoaded => "bounded-loads-least-loaded"

def boundedLoadsPick (bound : β) (maxChainLen : Int) (ring : Ring) (functionID : UInt64) :
    PlacementDecision :=
  if workers.all fun w => w.all fun w => w.workerId == 0 then ⟨0, "no workers"⟩
  else
    let (id, reason) := forward ring (loadMap maxInstances workers bound) bound maxChainLen
      (ring.home functionID)
    let (id, reason) := if usable maxInstances workers id then (id, reason)
      else (leastLoadedEligible maxInstances workers ring.ids bound, .leastLoaded)
    if usable maxInstances workers id then ⟨id, reasonText reason⟩ else ⟨0, "no worker capacity"⟩

end BoundedLoads

end HyperFaaS.Scheduler
