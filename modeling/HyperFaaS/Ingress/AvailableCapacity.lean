import HyperFaaS.Ingress.Topology
import HyperFaaS.Lib.Sorted

/-!
The available-capacity policy (`pkg/ingress/routing/availablecapacity.go`). A
cell holds the routes of one function. Cells are objects: the writer's map and
the published table hold references to them, so a table that was published
earlier still sees what its cells publish later. `cell` is the heap they live in.
-/

namespace HyperFaaS.Ingress

structure CapacityRoute where
  leaf : Nat
  available : Nat
  deriving DecidableEq, Repr

structure CapacityCell where
  fn : UInt64
  parts : List CapacityRoute
  pub : Option (List CapacityRoute)
  dirty : Bool
  deriving DecidableEq, Repr

structure AvailableCapacityModel where
  membership : Membership
  byLeaf : Nat → Option (List UInt64)
  ncells : Nat
  cell : Nat → CapacityCell
  cells : UInt64 → Option Nat
  pub : Option (UInt64 → Option Nat)
  dirtyCells : List Nat
  keysDirty : Bool
  active : Bool

/-- The position of a leaf in the sorted writer slice. -/
def routeSlot (routes : List CapacityRoute) (leaf : Nat) : Nat :=
  Lib.lowerBound CapacityRoute.leaf routes leaf

namespace AvailableCapacityModel

def newModel (t : Topology) : AvailableCapacityModel where
  membership := .newMembership t
  byLeaf := fun _ => none
  ncells := 0
  cell := fun _ => ⟨0, [], none, false⟩
  cells := fun _ => none
  pub := none
  dirtyCells := []
  keysDirty := false
  active := false

def setCell (m : AvailableCapacityModel) (c : Nat) (x : CapacityCell) : AvailableCapacityModel :=
  { m with cell := Function.update m.cell c x }

/-- The cell's routes change, and it is touched. -/
def setParts (m : AvailableCapacityModel) (c : Nat) (parts : List CapacityRoute) :
    AvailableCapacityModel :=
  let x := m.cell c
  { m.setCell c { x with parts := parts, dirty := true } with
    dirtyCells := if x.dirty then m.dirtyCells else m.dirtyCells ++ [c] }

/-- `cell := m.cells[fn]`, a new one if there is none. -/
def cellFor (m : AvailableCapacityModel) (fn : UInt64) : AvailableCapacityModel × Nat :=
  match m.cells fn with
  | some c => (m, c)
  | none =>
      ({ m.setCell m.ncells ⟨fn, [], none, false⟩ with
          ncells := m.ncells + 1
          cells := Function.update m.cells fn (some m.ncells)
          keysDirty := true }, m.ncells)

def upsert (m : AvailableCapacityModel) (fn : UInt64) (leaf available : Nat) :
    AvailableCapacityModel :=
  let (m, c) := m.cellFor fn
  let parts := (m.cell c).parts
  let i := routeSlot parts leaf
  match parts[i]? with
  | some r =>
      if r.leaf = leaf then
        if r.available = available then m else m.setParts c (parts.set i ⟨leaf, available⟩)
      else m.setParts c (parts.insertIdx i ⟨leaf, available⟩)
  | none => m.setParts c (parts.insertIdx i ⟨leaf, available⟩)

def remove (m : AvailableCapacityModel) (fn : UInt64) (leaf : Nat) : AvailableCapacityModel :=
  match m.cells fn with
  | none => m
  | some c =>
      let parts := (m.cell c).parts
      let i := routeSlot parts leaf
      match parts[i]? with
      | some r => if r.leaf = leaf then m.setParts c (parts.eraseIdx i) else m
      | none => m

/-- The turn of one dirty cell in `commit`. -/
def commitCell (m : AvailableCapacityModel) (c : Nat) : AvailableCapacityModel :=
  let x := m.cell c
  if x.parts = [] then
    { m.setCell c { x with pub := some [], dirty := false } with
      cells := Function.update m.cells x.fn none
      keysDirty := true }
  else m.setCell c { x with pub := some x.parts, dirty := false }

/-- The outer table is replaced when keys came or went. -/
def publishKeys (m : AvailableCapacityModel) : AvailableCapacityModel :=
  if m.keysDirty then { m with pub := some m.cells, keysDirty := false } else m

def commit (m : AvailableCapacityModel) : AvailableCapacityModel × Bool :=
  if m.dirtyCells = [] then (m, false)
  else (({ m.dirtyCells.foldl commitCell m with dirtyCells := [] }).publishKeys, true)

/-- The common end of `ReplaceLeaf` and `Apply`. -/
def finish (m : AvailableCapacityModel) (healthChanged : Bool) :
    AvailableCapacityModel × UpdateResult :=
  if m.active then
    let (m, changed) := m.commit
    (m, if healthChanged then .publishPicker else if changed then .changedInPlace else .noChange)
  else (m, .noChange)

/-- The entries of a full snapshot, and the function ids among them. -/
def replaceEntries (leaf : Nat) : List FunctionCapacity → List UInt64 → AvailableCapacityModel →
    AvailableCapacityModel × List UInt64
  | [], next, m => (m, next)
  | c :: rest, next, m =>
      if c.deleted then replaceEntries leaf rest next m
      else
        replaceEntries leaf rest (next.insert c.functionId)
          (m.upsert c.functionId leaf c.availableConcurrency)

/-- The functions of the old baseline that the new one lacks. -/
def removeMissing (leaf : Nat) (next : List UInt64) (previous : List UInt64)
    (m : AvailableCapacityModel) : AvailableCapacityModel :=
  previous.foldl (fun m fn => if fn ∈ next then m else m.remove fn leaf) m

def setHealthy (m : AvailableCapacityModel) (leafID : Nat) (healthy : Bool) :
    AvailableCapacityModel × Bool :=
  let (membership, changed) := m.membership.setHealthy leafID healthy
  ({ m with membership := membership }, changed)

def replaceLeaf (m : AvailableCapacityModel) (s : LeafState) :
    AvailableCapacityModel × UpdateResult :=
  let (m, healthChanged) := m.setHealthy s.leafID (decide (s.healthyWorkers > 0))
  match m.membership.topology.index s.leafID with
  | none => (m, if healthChanged then .publishPicker else .noChange)
  | some leaf =>
      let previous := (m.byLeaf s.leafID).getD []
      let (m, next) := replaceEntries leaf s.capacities [] m
      let m := removeMissing leaf next previous m
      let m := { m with byLeaf := Function.update m.byLeaf s.leafID (some next) }
      m.finish healthChanged

/-- One entry of a delta. -/
def applyEntry (leafID leaf : Nat) (m : AvailableCapacityModel) (c : FunctionCapacity) :
    AvailableCapacityModel :=
  let known := (m.byLeaf leafID).getD []
  if c.deleted then
    ({ m with
        byLeaf := Function.update m.byLeaf leafID
          (some (known.filter fun fn => fn != c.functionId)) }).remove c.functionId leaf
  else
    ({ m with byLeaf := Function.update m.byLeaf leafID (some (known.insert c.functionId)) }).upsert
      c.functionId leaf c.availableConcurrency

def apply (m : AvailableCapacityModel) (s : LeafState) : AvailableCapacityModel × UpdateResult :=
  let (m, healthChanged) := m.setHealthy s.leafID (decide (s.healthyWorkers > 0))
  match m.membership.topology.index s.leafID with
  | none => (m, if healthChanged then .publishPicker else .noChange)
  | some leaf => (s.capacities.foldl (applyEntry s.leafID leaf) m).finish healthChanged

def leafDisconnected (m : AvailableCapacityModel) (leafID : Nat) :
    AvailableCapacityModel × UpdateResult :=
  let (m, changed) := m.setHealthy leafID false
  (m, if changed then .publishPicker else .noChange)

end AvailableCapacityModel

/-- The picker reads the model's table through its pointer; what it holds itself
was computed when it was built. -/
structure AvailableCapacityPicker where
  leaves : List LeafTarget
  healthyLeaves : List LeafTarget
  healthy : List Bool
  counter : UInt64
  deriving DecidableEq, Repr

def AvailableCapacityModel.picker (m : AvailableCapacityModel) :
    AvailableCapacityModel × AvailableCapacityPicker :=
  let m := { m.commit.1 with active := true }
  (m, ⟨m.membership.topology.leaves, m.membership.healthyLeaves,
    m.membership.topology.leaves.map fun x => m.membership.healthy x.leafID, 0⟩)

namespace AvailableCapacityPicker

def coldFallback (p : AvailableCapacityPicker) (functionID : UInt64) :
    Except PickErr LeafTarget :=
  match p.healthyLeaves[(hashFunctionID functionID).toNat % p.healthyLeaves.length]? with
  | some target => .ok { target with reason := some .coldCacheFallback }
  | none => .error .indexOutOfRange

/-- The first loop of `Pick`: the best value so far and how often it was seen. -/
def scan (healthy : List Bool) : List CapacityRoute → Nat → Nat → Nat × Nat
  | [], best, ties => (best, ties)
  | r :: rest, best, ties =>
      if healthy[r.leaf]? = some true then
        if ties = 0 ∨ r.available > best then scan healthy rest r.available 1
        else if r.available = best then scan healthy rest best (ties + 1)
        else scan healthy rest best ties
      else scan healthy rest best ties

/-- The second loop: the tied route number `chosen`. -/
def nth (healthy : List Bool) (best : Nat) : List CapacityRoute → Nat → Option CapacityRoute
  | [], _ => none
  | r :: rest, chosen =>
      if healthy[r.leaf]? = some true ∧ r.available = best then
        match chosen with
        | 0 => some r
        | n + 1 => nth healthy best rest n
      else nth healthy best rest chosen

/-- What the request sees of the model: `(*outer)[fn]`, then `cell.pub.Load()`. -/
def view (m : AvailableCapacityModel) (functionID : UInt64) : Option (List CapacityRoute) :=
  match m.pub with
  | none => none
  | some table =>
      match table functionID with
      | none => none
      | some c => (m.cell c).pub

/-- The picker after the request and its answer. -/
def pick (p : AvailableCapacityPicker) (m : AvailableCapacityModel) (req : RouteRequest) :
    AvailableCapacityPicker × Except PickErr LeafTarget :=
  if p.healthyLeaves = [] then (p, .error .noHealthyLeaves)
  else
    match view m req.functionID with
    | none => (p, p.coldFallback req.functionID)
    | some entries =>
        let (best, ties) := scan p.healthy entries 0 0
        if ties = 0 then (p, p.coldFallback req.functionID)
        else
          let chosen := p.counter.toNat % ties
          let p := { p with counter := p.counter + 1 }
          match nth p.healthy best entries chosen with
          | none => (p, p.coldFallback req.functionID)
          | some r =>
              match p.leaves[r.leaf]? with
              | some target => (p, .ok { target with reason := some .availableCapacity })
              | none => (p, .error .indexOutOfRange)

end AvailableCapacityPicker

end HyperFaaS.Ingress
