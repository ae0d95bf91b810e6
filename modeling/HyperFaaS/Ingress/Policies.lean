import HyperFaaS.Ingress.AvailableCapacity
import HyperFaaS.Ingress.Ring

/-!
The ingress routing policies (`stateless.go`, `consistent.go`, `boundedloads.go`,
`rjc.go`, `chrlu.go`, `leastloaded.go`), and the eight of them as one type of models
and one of pickers. Slots that a picker shares with its model (loads, in-flight
counts, samples, capacity cells) are kept in the model; `pick` reads them there.
-/

namespace HyperFaaS.Ingress

/-! ## Random and round-robin -/

structure RandomModel where
  membership : Membership
  seed : UInt64

/-- The update of the policies that read only health. -/
def healthResult (changed : Bool) : UpdateResult := if changed then .publishPicker else .noChange

def RandomModel.setHealthy (m : RandomModel) (leafID : Nat) (healthy : Bool) :
    RandomModel × UpdateResult :=
  let (membership, changed) := m.membership.setHealthy leafID healthy
  ({ m with membership := membership }, healthResult changed)

structure RandomPicker where
  leaves : List LeafTarget
  seed : UInt64
  counter : UInt64

def RandomModel.picker (m : RandomModel) : RandomPicker := ⟨m.membership.healthyLeaves, m.seed, 0⟩

/-- An index expression on the leaves; out of range, it crashes. -/
def leafAt (leaves : List LeafTarget) (i : Int) (reason : Reason) : Except PickErr LeafTarget :=
  if i < 0 then .error .indexOutOfRange
  else
    match leaves[i.toNat]? with
    | some target => .ok { target with reason := some reason }
    | none => .error .indexOutOfRange

def RandomPicker.pick (p : RandomPicker) : RandomPicker × Except PickErr LeafTarget :=
  if p.leaves = [] then (p, .error .noHealthyLeaves)
  else
    let counter := p.counter + 1
    let idx := (hashFunctionID (counter ^^^ p.seed)).toNat % p.leaves.length
    ({ p with counter := counter }, leafAt p.leaves idx .random)

structure RoundRobinModel where
  membership : Membership

def RoundRobinModel.setHealthy (m : RoundRobinModel) (leafID : Nat) (healthy : Bool) :
    RoundRobinModel × UpdateResult :=
  let (membership, changed) := m.membership.setHealthy leafID healthy
  (⟨membership⟩, healthResult changed)

structure RoundRobinPicker where
  leaves : List LeafTarget
  counter : UInt64

def RoundRobinModel.picker (m : RoundRobinModel) : RoundRobinPicker :=
  ⟨m.membership.healthyLeaves, 0⟩

/-- The counter becomes a signed `int` before the remainder is taken, which keeps
the sign. -/
def RoundRobinPicker.pick (p : RoundRobinPicker) : RoundRobinPicker × Except PickErr LeafTarget :=
  if p.leaves = [] then (p, .error .noHealthyLeaves)
  else
    let counter := p.counter + 1
    ({ p with counter := counter },
      leafAt p.leaves ((counter - 1).toInt64.toInt.tmod p.leaves.length) .roundRobin)

/-! ## Consistent hashing -/

structure ConsistentModel where
  membership : Membership
  template : Ring
  ring : Option Ring
  dirty : Bool

def Topology.ids (t : Topology) : List Nat := t.leaves.map LeafTarget.leafID

def ConsistentModel.newModel (t : Topology) : ConsistentModel :=
  ⟨.newMembership t, .newRing t.ids, none, false⟩

def ConsistentModel.setHealthy (m : ConsistentModel) (leafID : Nat) (healthy : Bool) :
    ConsistentModel × UpdateResult :=
  let (membership, changed) := m.membership.setHealthy leafID healthy
  ({ m with membership := membership, dirty := m.dirty || changed }, healthResult changed)

/-- The ring of the next picker: the cached one unless health changed since. -/
def cachedRing (membership : Membership) (template : Ring) (ring : Option Ring) (dirty : Bool) :
    Ring :=
  match ring with
  | none => template.subset membership.healthy
  | some r => if dirty then template.subset membership.healthy else r

structure ConsistentPicker where
  ring : Ring
  leaves : List LeafTarget

def ConsistentModel.picker (m : ConsistentModel) : ConsistentModel × ConsistentPicker :=
  let ring := cachedRing m.membership m.template m.ring m.dirty
  ({ m with ring := some ring, dirty := false }, ⟨ring, m.membership.healthyLeaves⟩)

/-- `byID[id]` -/
def byID (leaves : List LeafTarget) (id : Nat) : Option LeafTarget :=
  leaves.find? fun x => x.leafID == id

def ConsistentPicker.pick (p : ConsistentPicker) (req : RouteRequest) :
    Except PickErr LeafTarget :=
  match p.leaves with
  | [] => .error .noHealthyLeaves
  | first :: _ =>
      let target := (byID p.leaves (p.ring.home req.functionID)).getD first
      .ok { target with reason := some .consistentHashingHome }

/-! ## Bounded loads -/

structure BoundedLoadsModel where
  membership : Membership
  /-- the slots, as the bits of the loads -/
  loads : Nat → UInt64
  template : Ring
  ring : Option Ring
  dirty : Bool
  bound : Float
  maxChainLen : Nat

namespace BoundedLoadsModel

def newModel (t : Topology) (bound : Float) (maxChainLen : Int) : BoundedLoadsModel where
  membership := .newMembership t
  loads := fun _ => 0
  template := .newRing t.ids
  ring := none
  dirty := false
  bound := normalizeBound bound
  maxChainLen := normalizeMaxChainLen maxChainLen

def setHealthy (m : BoundedLoadsModel) (leafID : Nat) (healthy : Bool) : BoundedLoadsModel × Bool :=
  let (membership, changed) := m.membership.setHealthy leafID healthy
  ({ m with membership := membership, dirty := m.dirty || changed }, changed)

def replaceLeaf (m : BoundedLoadsModel) (s : LeafState) : BoundedLoadsModel × UpdateResult :=
  let (m, healthChanged) := m.setHealthy s.leafID (decide (s.healthyWorkers > 0))
  let slot := if s.fullSnapshot || s.hasLeafLoad then m.membership.topology.index s.leafID else none
  match slot with
  | none => (m, healthResult healthChanged)
  | some i =>
      if m.loads i = s.leafLoad.toBits then (m, healthResult healthChanged)
      else
        ({ m with loads := Function.update m.loads i s.leafLoad.toBits },
          if healthChanged then .publishPicker else .changedInPlace)

def leafDisconnected (m : BoundedLoadsModel) (leafID : Nat) : BoundedLoadsModel × UpdateResult :=
  let (m, changed) := m.setHealthy leafID false
  (m, healthResult changed)

end BoundedLoadsModel

structure BoundedLoadsPicker where
  ring : Ring
  /-- the load slot of each ring id, for the full scan -/
  ringSlots : List Nat
  leaves : List LeafTarget
  topology : Topology
  bound : Float
  maxChainLen : Nat

def BoundedLoadsModel.picker (m : BoundedLoadsModel) : BoundedLoadsModel × BoundedLoadsPicker :=
  let ring := cachedRing m.membership m.template m.ring m.dirty
  ({ m with ring := some ring, dirty := false },
    { ring := ring
      ringSlots := ring.ids.map fun id => (m.membership.topology.index id).getD 0
      leaves := m.membership.healthyLeaves
      topology := m.membership.topology
      bound := m.bound
      maxChainLen := m.maxChainLen })

/-! ## Random jumps -/

section Loads

variable {β : Type} [LT β] [DecidableLT β] (ring : Ring) (leaves : List LeafTarget)
  (load : Nat → β) (least : Nat) (bound : β) (functionID : UInt64)

/-- The jumps from number `attempt` on, `n` of them. -/
def jump : Nat → Nat → Option Nat
  | 0, _ => none
  | n + 1, attempt =>
      let x := functionID ^^^ (attempt.toUInt64 * 0x9e3779b97f4a7c15)
      match leaves[(hashFunctionID x).toNat % leaves.length]? with
      | none => none
      | some candidate =>
          if load candidate.leafID < bound then some candidate.leafID else jump n (attempt + 1)

/-- The id and the reason of `randomJumpPicker.Pick`; `least` is the scan of the slots. -/
def randomJump [LE β] [DecidableLE β] (maxJumps : Nat) : Nat × Reason :=
  let home := ring.home functionID
  if load home ≥ bound then
    let id := (jump leaves load bound functionID maxJumps 1).getD home
    if id = home then (least, .rjchLeastLoaded) else (id, .rjchJump)
  else (home, .rjchHome)

end Loads

namespace BoundedLoadsPicker

def load (p : BoundedLoadsPicker) (loads : Nat → UInt64) (id : Nat) : Float :=
  Float.ofBits (loads ((p.topology.index id).getD 0))

def leastLoadedID (p : BoundedLoadsPicker) (loads : Nat → UInt64) : Nat :=
  match p.ring.ids.zip p.ringSlots with
  | [] => 0
  | first :: rest => leastFrom Prod.fst (fun x => Float.ofBits (loads x.2)) rest first

def reason : ForwardReason → Reason
  | .home => .boundedLoadsHome
  | .forwarded => .boundedLoadsForwarded
  | .leastLoaded => .boundedLoadsLeastLoaded

def pick (p : BoundedLoadsPicker) (loads : Nat → UInt64) (req : RouteRequest) :
    Except PickErr LeafTarget :=
  match p.leaves with
  | [] => .error .noHealthyLeaves
  | first :: _ =>
      let (leafID, why) := forwardBy p.ring (p.load loads) (p.leastLoadedID loads) p.bound
        p.maxChainLen (p.ring.home req.functionID)
      let target := (byID p.leaves leafID).getD first
      .ok { target with reason := some (reason why) }

/-- `target := byID[id]` without a check: an id that is not there gives the zero
target. -/
def targetOf (p : BoundedLoadsPicker) (id : Nat) (reason : Reason) : LeafTarget :=
  let target := (byID p.leaves id).getD ⟨0, "", none⟩
  { target with reason := some reason }

def randomJumpPick (p : BoundedLoadsPicker) (loads : Nat → UInt64) (req : RouteRequest) :
    Except PickErr LeafTarget :=
  if p.leaves = [] then .error .noHealthyLeaves
  else
    let (id, reason) := randomJump p.ring p.leaves (p.load loads) (p.leastLoadedID loads) p.bound
      req.functionID p.maxChainLen
    .ok (p.targetOf id reason)

end BoundedLoadsPicker

/-! ## `ch-rlu` -/

structure IatSample where
  functionID : UInt64
  lastUnixNano : UInt64
  averageIAT : Int64

structure LatencyEstimate where
  coldMS : Float
  warmMS : Float

/-- What a `ch-rlu` picker takes from its model unchanged. -/
structure ChrluParams where
  samplePercent : Nat
  popularIAT : Int64
  noiseStddev : Float
  maxBound : Float
  defaultLatency : LatencyEstimate
  latencies : UInt64 → Option LatencyEstimate
  heartbeatSeconds : Float

structure ChrluModel where
  base : BoundedLoadsModel
  samples : Nat → Option IatSample
  counter : UInt64
  params : ChrluParams

structure ChrluPolicy where
  bound : Float
  maxBound : Float
  coldTimeMS : Float
  warmTimeMS : Float
  popularIATMS : Float
  noiseStddev : Float
  maxChainLen : Int
  samplePercent : Nat
  latencies : UInt64 → Option LatencyEstimate
  heartbeatSeconds : Float

def chrluSampleSlots : Nat := 16384

/-- A setting that is not a positive number is replaced by its default. -/
def positiveOr (x default : Float) : Float :=
  if x ≤ 0 ∨ x.isNaN = true ∨ x.isInf = true then default else x

/-- `now` seeds the counter. -/
def ChrluModel.newModel (t : Topology) (p : ChrluPolicy) (now : UInt64) : ChrluModel where
  base := .newModel t p.bound p.maxChainLen
  samples := fun _ => none
  counter := now
  params :=
    { samplePercent := if p.samplePercent = 0 ∨ p.samplePercent > 100 then 20 else p.samplePercent
      popularIAT := (positiveOr p.popularIATMS 1000 * 1000000).toInt64
      noiseStddev := positiveOr p.noiseStddev 0.1
      maxBound := positiveOr p.maxBound 6
      defaultLatency := ⟨p.coldTimeMS, p.warmTimeMS⟩
      latencies := p.latencies
      heartbeatSeconds := positiveOr p.heartbeatSeconds 0.5 }

structure ChrluPicker where
  base : BoundedLoadsPicker
  params : ChrluParams

def ChrluModel.picker (m : ChrluModel) : ChrluModel × ChrluPicker :=
  ({ m with base := m.base.picker.1 }, ⟨m.base.picker.2, m.params⟩)

namespace ChrluPicker

/-- `math.Min`, up to the sign of zero; neither argument is negative infinity here. -/
def mathMin (x y : Float) : Float :=
  if x.isNaN then x else if y.isNaN then y else if x < y then x else y

def boundFor (p : ChrluPicker) (functionID : UInt64) : Float :=
  let estimate := (p.params.latencies functionID).getD p.params.defaultLatency
  let bound :=
    if estimate.coldMS > 0 ∧ estimate.warmMS > 0 then
      p.base.bound * (estimate.coldMS / estimate.warmMS)
    else p.base.bound
  mathMin (if bound.isNaN || bound.isInf then p.base.bound else bound) p.params.maxBound

def popular (p : ChrluPicker) (average : Int64) : Bool :=
  decide (average > 0) && decide (average ≤ p.params.popularIAT)

/-- The samples after the request, its inter-arrival time and whether it is popular. -/
def observeIAT (p : ChrluPicker) (samples : Nat → Option IatSample) (functionID now : UInt64) :
    (Nat → Option IatSample) × Int64 × Bool :=
  let h := hashFunctionID functionID
  if h.toNat % 100 ≥ p.params.samplePercent then (samples, 0, false)
  else
    let slot := h.toNat % chrluSampleSlots
    let same := (samples slot).filter fun old => old.functionID == functionID
    match same with
    | none => (Function.update samples slot (some ⟨functionID, now, 0⟩), 0, false)
    | some old =>
        if now ≤ old.lastUnixNano then (samples, old.averageIAT, p.popular old.averageIAT)
        else
          let iat := (now - old.lastUnixNano).toInt64
          let average := if old.averageIAT > 0 then (old.averageIAT + iat) / 2 else iat
          (Function.update samples slot (some ⟨functionID, now, average⟩), average,
            p.popular average)

/-- Box-Muller from two hashes of the counter. -/
def gaussian (counter functionID : UInt64) (leafID : Nat) : Float :=
  let x := counter ^^^ functionID ^^^ (leafID.toUInt64 * 0x9e3779b97f4a7c15)
  let u1 := ((hashFunctionID x >>> 11) + 1).toFloat / 9007199254740992
  let u2 := (hashFunctionID (x ^^^ 0xbf58476d1ce4e5b9) >>> 11).toFloat / 9007199254740992
  Float.sqrt (-2 * Float.log u1) * Float.cos (2 * 3.141592653589793 * u2)

/-- `time.Duration.Seconds` -/
def seconds (d : Int64) : Float :=
  (d / 1000000000).toFloat + (d % 1000000000).toFloat / 1000000000

/-- The noisy walk of a popular function, `n` more steps after this one: the leaf
found and the counter. -/
def noisyWalk (p : ChrluPicker) (loads : Nat → UInt64) (functionID : UInt64) (bound mean : Float) :
    Nat → UInt64 → Nat → Option Nat × UInt64
  | 0, counter, id =>
      let load := p.base.load loads id + mean +
        gaussian (counter + 1) functionID id * p.params.noiseStddev
      (if load < bound then some id else none, counter + 1)
  | n + 1, counter, id =>
      let load := p.base.load loads id + mean +
        gaussian (counter + 1) functionID id * p.params.noiseStddev
      if load < bound then (some id, counter + 1)
      else noisyWalk p loads functionID bound mean n (counter + 1) (p.base.ring.next id)

def reason : ForwardReason → Reason
  | .home => .chrluHome
  | .forwarded => .chrluForwarded
  | .leastLoaded => .chrluLeastLoaded

/-- The samples and the counter are the model's; the walk stops at home in its
first step or not at all. -/
def pick (p : ChrluPicker) (m : ChrluModel) (now : UInt64) (req : RouteRequest) :
    ChrluModel × Except PickErr LeafTarget :=
  if p.base.leaves = [] then (m, .error .noHealthyLeaves)
  else
    let home := p.base.ring.home req.functionID
    let bound := p.boundFor req.functionID
    let least := p.base.leastLoadedID m.base.loads
    let (samples, iat, isPopular) := p.observeIAT m.samples req.functionID now
    let m := { m with samples := samples }
    if isPopular then
      let mean := p.params.heartbeatSeconds / seconds iat
      match p.noisyWalk m.base.loads req.functionID bound mean 0 m.counter home with
      | (some id, counter) => ({ m with counter := counter }, .ok (p.base.targetOf id .chrluHome))
      | (none, counter) =>
          match p.noisyWalk m.base.loads req.functionID bound mean (p.base.maxChainLen - 1) counter
              (p.base.ring.next home) with
          | (some id, counter) =>
              ({ m with counter := counter }, .ok (p.base.targetOf id .chrluForwarded))
          | (none, counter) =>
              ({ m with counter := counter }, .ok (p.base.targetOf least .chrluLeastLoaded))
    else
      let (id, why) := forwardBy p.base.ring (p.base.load m.base.loads) least bound
        p.base.maxChainLen home
      (m, .ok (p.base.targetOf id (reason why)))

end ChrluPicker

/-! ## Least loaded -/

structure LeastLoadedModel where
  membership : Membership
  inFlight : Nat → Nat

namespace LeastLoadedModel

def replaceLeaf (m : LeastLoadedModel) (s : LeafState) : LeastLoadedModel × UpdateResult :=
  let (membership, healthChanged) :=
    m.membership.setHealthy s.leafID (decide (s.healthyWorkers > 0))
  let m := { m with membership := membership }
  let slot :=
    if s.fullSnapshot || s.hasAggregateInFlight then m.membership.topology.index s.leafID else none
  match slot with
  | none => (m, healthResult healthChanged)
  | some i =>
      if m.inFlight i = s.aggregateInFlight then (m, healthResult healthChanged)
      else
        ({ m with inFlight := Function.update m.inFlight i s.aggregateInFlight },
          if healthChanged then .publishPicker else .changedInPlace)

def leafDisconnected (m : LeastLoadedModel) (leafID : Nat) : LeastLoadedModel × UpdateResult :=
  let (membership, changed) := m.membership.setHealthy leafID false
  ({ m with membership := membership }, healthResult changed)

end LeastLoadedModel

structure LeastLoadedPicker where
  leaves : List LeafTarget
  slots : List Nat

def LeastLoadedModel.picker (m : LeastLoadedModel) : LeastLoadedPicker where
  leaves := m.membership.healthyLeaves
  slots := m.membership.healthyLeaves.map fun x => (m.membership.topology.index x.leafID).getD 0

/-- The loop of `Pick`: the first leaf with the lowest count. -/
def leastInFlight (inFlight : Nat → Nat) : List (LeafTarget × Nat) → LeafTarget × Nat → LeafTarget
  | [], best => best.1
  | x :: rest, best =>
      if inFlight x.2 < inFlight best.2 then leastInFlight inFlight rest x
      else leastInFlight inFlight rest best

def LeastLoadedPicker.pick (p : LeastLoadedPicker) (inFlight : Nat → Nat) :
    Except PickErr LeafTarget :=
  match p.leaves.zip p.slots with
  | [] => .error .noHealthyLeaves
  | first :: rest =>
      .ok { leastInFlight inFlight rest first with reason := some .leastLoaded }

/-! ## The eight policies -/

inductive RoutingPolicy
  | random (seed : UInt64)
  | roundRobin
  | consistentHashing
  | boundedLoads (bound : Float) (maxChainLen : Int)
  | randomJump (bound : Float) (maxJumps : Int)
  | chrlu (p : ChrluPolicy)
  | leastLoaded
  | availableCapacity

inductive RoutingModel
  | random (m : RandomModel)
  | roundRobin (m : RoundRobinModel)
  | consistent (m : ConsistentModel)
  | boundedLoads (m : BoundedLoadsModel)
  | randomJump (m : BoundedLoadsModel)
  | chrlu (m : ChrluModel)
  | leastLoaded (m : LeastLoadedModel)
  | availableCapacity (m : AvailableCapacityModel)

inductive Picker
  | random (p : RandomPicker)
  | roundRobin (p : RoundRobinPicker)
  | consistent (p : ConsistentPicker)
  | boundedLoads (p : BoundedLoadsPicker)
  | randomJump (p : BoundedLoadsPicker)
  | chrlu (p : ChrluPicker)
  | leastLoaded (p : LeastLoadedPicker)
  | availableCapacity (p : AvailableCapacityPicker)

/-- `now` is read by `ch-rlu` only. -/
def RoutingPolicy.newModel (t : Topology) (now : UInt64) : RoutingPolicy → RoutingModel
  | .random seed => .random ⟨.newMembership t, seed⟩
  | .roundRobin => .roundRobin ⟨.newMembership t⟩
  | .consistentHashing => .consistent (.newModel t)
  | .boundedLoads bound maxChainLen => .boundedLoads (.newModel t bound maxChainLen)
  | .randomJump bound maxJumps => .randomJump (.newModel t bound maxJumps)
  | .chrlu p => .chrlu (.newModel t p now)
  | .leastLoaded => .leastLoaded ⟨.newMembership t, fun _ => 0⟩
  | .availableCapacity => .availableCapacity (.newModel t)

namespace RoutingModel

def membership : RoutingModel → Membership
  | .random m => m.membership
  | .roundRobin m => m.membership
  | .consistent m => m.membership
  | .boundedLoads m => m.membership
  | .randomJump m => m.membership
  | .chrlu m => m.base.membership
  | .leastLoaded m => m.membership
  | .availableCapacity m => m.membership

/-- The result of an update, as a routing model. -/
def lift {M : Type} (f : M → RoutingModel) (u : M × UpdateResult) : RoutingModel × UpdateResult :=
  (f u.1, u.2)

def replaceLeaf (s : LeafState) : RoutingModel → RoutingModel × UpdateResult
  | .random m => lift .random (m.setHealthy s.leafID (decide (s.healthyWorkers > 0)))
  | .roundRobin m => lift .roundRobin (m.setHealthy s.leafID (decide (s.healthyWorkers > 0)))
  | .consistent m => lift .consistent (m.setHealthy s.leafID (decide (s.healthyWorkers > 0)))
  | .boundedLoads m => lift .boundedLoads (m.replaceLeaf s)
  | .randomJump m => lift .randomJump (m.replaceLeaf s)
  | .chrlu m => lift (fun base => .chrlu { m with base := base }) (m.base.replaceLeaf s)
  | .leastLoaded m => lift .leastLoaded (m.replaceLeaf s)
  | .availableCapacity m => lift .availableCapacity (m.replaceLeaf s)

/-- Only available-capacity tells a delta from a full snapshot. -/
def apply (s : LeafState) : RoutingModel → RoutingModel × UpdateResult
  | .availableCapacity m => lift .availableCapacity (m.apply s)
  | m => m.replaceLeaf s

def leafDisconnected (leafID : Nat) : RoutingModel → RoutingModel × UpdateResult
  | .random m => lift .random (m.setHealthy leafID false)
  | .roundRobin m => lift .roundRobin (m.setHealthy leafID false)
  | .consistent m => lift .consistent (m.setHealthy leafID false)
  | .boundedLoads m => lift .boundedLoads (m.leafDisconnected leafID)
  | .randomJump m => lift .randomJump (m.leafDisconnected leafID)
  | .chrlu m => lift (fun base => .chrlu { m with base := base }) (m.base.leafDisconnected leafID)
  | .leastLoaded m => lift .leastLoaded (m.leafDisconnected leafID)
  | .availableCapacity m => lift .availableCapacity (m.leafDisconnected leafID)

def picker : RoutingModel → RoutingModel × Picker
  | .random m => (.random m, .random m.picker)
  | .roundRobin m => (.roundRobin m, .roundRobin m.picker)
  | .consistent m => (.consistent m.picker.1, .consistent m.picker.2)
  | .boundedLoads m => (.boundedLoads m.picker.1, .boundedLoads m.picker.2)
  | .randomJump m => (.randomJump m.picker.1, .randomJump m.picker.2)
  | .chrlu m => (.chrlu m.picker.1, .chrlu m.picker.2)
  | .leastLoaded m => (.leastLoaded m, .leastLoaded m.picker)
  | .availableCapacity m => (.availableCapacity m.picker.1, .availableCapacity m.picker.2)

end RoutingModel

namespace Picker

/-- A pick: the picker and the model after it, and the answer. A picker is only
ever used with the model that built it; the last case does not arise. -/
def pick (now : UInt64) (req : RouteRequest) :
    Picker → RoutingModel → Picker × RoutingModel × Except PickErr LeafTarget
  | .random p, m => (.random p.pick.1, m, p.pick.2)
  | .roundRobin p, m => (.roundRobin p.pick.1, m, p.pick.2)
  | .consistent p, m => (.consistent p, m, p.pick req)
  | .boundedLoads p, .boundedLoads m => (.boundedLoads p, .boundedLoads m, p.pick m.loads req)
  | .randomJump p, .randomJump m => (.randomJump p, .randomJump m, p.randomJumpPick m.loads req)
  | .chrlu p, .chrlu m => (.chrlu p, .chrlu (p.pick m now req).1, (p.pick m now req).2)
  | .leastLoaded p, .leastLoaded m => (.leastLoaded p, .leastLoaded m, p.pick m.inFlight)
  | .availableCapacity p, .availableCapacity m =>
      (.availableCapacity (p.pick m req).1, .availableCapacity m, (p.pick m req).2)
  | p, m => (p, m, .error .routingUnavailable)

/-- The counter of the picker itself; the other pickers have none. -/
def counter : Picker → UInt64
  | .random p => p.counter
  | .roundRobin p => p.counter
  | .availableCapacity p => p.counter
  | _ => 0

def withCounter (c : UInt64) : Picker → Picker
  | .random p => .random { p with counter := c }
  | .roundRobin p => .roundRobin { p with counter := c }
  | .availableCapacity p => .availableCapacity { p with counter := c }
  | p => p

end Picker

end HyperFaaS.Ingress
