import HyperFaaS.Ingress.CapacityRouter
import HyperFaaS.Ingress.Policies

/-!
What every routing model guarantees to the controller. A picker is fresh when it
is the one the model would build now, up to its counter. Proved here, for each of
the eight policies: an update that does not ask for a new picker leaves a fresh one
fresh (`Updates`), and a fresh picker answers with a healthy leaf,
or with an error if there is none (`Fresh.routes`).
-/

namespace HyperFaaS.Ingress

/-! ## The cached ring -/

/-- The cached ring is that of the current health, unless it is marked dirty. -/
structure RingCache (membership : Membership) (template : Ring) (ring : Option Ring)
    (dirty : Bool) : Prop where
  members : template.Over (· ∈ membership.topology.ids)
  cached : ∀ r, ring = some r → dirty = false → r = template.subset membership.healthy

namespace RingCache

variable {membership : Membership} {template : Ring} {ring : Option Ring} {dirty : Bool}

theorem new (hash : Nat → Nat → UInt64) (t : Topology) :
    RingCache (.newMembership t) (.newRingBy hash t.ids) none false :=
  ⟨Ring.newRingBy_over hash t.ids, nofun⟩

theorem ring_eq (h : RingCache membership template ring dirty) :
    cachedRing membership template ring dirty = template.subset membership.healthy := by
  unfold cachedRing
  split
  · rfl
  · rename_i r
    cases dirty with
    | true => rfl
    | false => exact h.cached r rfl rfl

theorem setHealthy (h : RingCache membership template ring dirty) (leafID : Nat) (b : Bool) :
    RingCache (membership.setHealthy leafID b).1 template ring
      (dirty || (membership.setHealthy leafID b).2) where
  members := h.members
  cached := by
    intro r hr hd
    obtain ⟨hd, hc⟩ := Bool.or_eq_false_iff.mp hd
    rw [Membership.setHealthy_same hc]
    exact h.cached r hr hd

theorem rebuilt (h : RingCache membership template ring dirty) :
    RingCache membership template (some (cachedRing membership template ring dirty)) false :=
  ⟨h.members, fun r hr _ => by cases hr; exact h.ring_eq⟩

end RingCache

theorem Membership.setHealthy_eq {m : Membership} {leafID : Nat} {b : Bool}
    (h : (m.setHealthy leafID b).2 = false) : (m.setHealthy leafID b).1 = m := by
  have hh := setHealthy_same h
  cases m
  exact congrArg _ hh

theorem healthResult_same {b : Bool} (h : healthResult b ≠ .publishPicker) : b = false :=
  AvailableCapacityModel.result_of_unknown h

/-! ## Models -/

def BoundedLoadsModel.Cached (m : BoundedLoadsModel) : Prop :=
  RingCache m.membership m.template m.ring m.dirty

namespace RoutingModel

/-- What a model keeps true of itself. -/
def Sound : RoutingModel → Prop
  | .random _ => True
  | .roundRobin _ => True
  | .consistent m => RingCache m.membership m.template m.ring m.dirty
  | .boundedLoads m => m.Cached
  | .randomJump m => m.Cached
  | .chrlu m => m.base.Cached
  | .leastLoaded _ => True
  | .availableCapacity m => ∃ adv, m.Refines adv

/-- Available-capacity publishes its index once a picker exists. -/
def InUse : RoutingModel → Prop
  | .availableCapacity m => m.active = true
  | _ => True

theorem newModel_sound (t : Topology) (now : UInt64) (p : RoutingPolicy) :
    (p.newModel t now).Sound ∧ (p.newModel t now).membership = .newMembership t := by
  cases p with
  | random seed => exact ⟨trivial, rfl⟩
  | roundRobin => exact ⟨trivial, rfl⟩
  | consistentHashing => exact ⟨RingCache.new _ t, rfl⟩
  | boundedLoads bound maxChainLen => exact ⟨RingCache.new _ t, rfl⟩
  | randomJump bound maxJumps => exact ⟨RingCache.new _ t, rfl⟩
  | chrlu p => exact ⟨RingCache.new _ t, rfl⟩
  | leastLoaded => exact ⟨trivial, rfl⟩
  | availableCapacity => exact ⟨⟨_, AvailableCapacityModel.newModel_refines t⟩, rfl⟩

end RoutingModel

/-- The picker is the one the model would build now, up to its counter. -/
structure Fresh (p : Picker) (m : RoutingModel) : Prop where
  eq : p = m.picker.2.withCounter p.counter
  inUse : m.InUse

/-- What an update of a leaf's health to `b` does. -/
structure Updates (m : RoutingModel) (leafID : Nat) (b : Bool) (u : RoutingModel × UpdateResult) :
    Prop where
  sound : u.1.Sound
  membership : u.1.membership = (m.membership.setHealthy leafID b).1
  fresh : ∀ p, Fresh p m → u.2 ≠ .publishPicker → Fresh p u.1

namespace BoundedLoadsModel

variable {m : BoundedLoadsModel}

/-- What the update of a load model keeps, and that it asks for a picker when health changed. -/
structure Updates (m : BoundedLoadsModel) (leafID : Nat) (b : Bool)
    (u : BoundedLoadsModel × UpdateResult) : Prop where
  cached : u.1.Cached
  membership : u.1.membership = (m.membership.setHealthy leafID b).1
  template : u.1.template = m.template
  bound : u.1.bound = m.bound
  maxChainLen : u.1.maxChainLen = m.maxChainLen
  result : u.2 ≠ .publishPicker → (m.membership.setHealthy leafID b).2 = false

theorem Cached.replaceLeaf (h : m.Cached) (s : LeafState) :
    m.Updates s.leafID (decide (s.healthyWorkers > 0)) (m.replaceLeaf s) := by
  have hc := h.setHealthy s.leafID (decide (s.healthyWorkers > 0))
  unfold BoundedLoadsModel.replaceLeaf
  dsimp only
  split
  · exact ⟨hc, rfl, rfl, rfl, rfl, healthResult_same⟩
  · split
    · exact ⟨hc, rfl, rfl, rfl, rfl, healthResult_same⟩
    · refine ⟨hc, rfl, rfl, rfl, rfl, fun hres => ?_⟩
      cases hch : (m.membership.setHealthy s.leafID (decide (s.healthyWorkers > 0))).2 with
      | false => rfl
      | true => exact absurd (if_pos hch) hres

theorem Cached.leafDisconnected (h : m.Cached) (leafID : Nat) :
    m.Updates leafID false (m.leafDisconnected leafID) :=
  ⟨h.setHealthy leafID false, rfl, rfl, rfl, rfl, healthResult_same⟩

theorem Cached.picker_eq (h : m.Cached) : m.picker.2 =
    { ring := m.template.subset m.membership.healthy
      ringSlots := (m.template.subset m.membership.healthy).ids.map fun id =>
        (m.membership.topology.index id).getD 0
      leaves := m.membership.healthyLeaves
      topology := m.membership.topology
      bound := m.bound
      maxChainLen := m.maxChainLen } := by
  unfold BoundedLoadsModel.picker
  dsimp only
  rw [RingCache.ring_eq h]

theorem Updates.picker {leafID : Nat} {b : Bool} {u : BoundedLoadsModel × UpdateResult}
    (h : m.Cached) (hu : m.Updates leafID b u) (hres : u.2 ≠ .publishPicker) :
    u.1.picker.2 = m.picker.2 := by
  have hm := hu.membership.trans (Membership.setHealthy_eq (hu.result hres))
  rw [hu.cached.picker_eq, h.picker_eq, hm, hu.template, hu.bound, hu.maxChainLen]

end BoundedLoadsModel

variable {p : Picker}

theorem Fresh.of_picker {m m' : RoutingModel} (h : Fresh p m) (hp : m'.picker.2 = m.picker.2)
    (hu : m'.InUse) : Fresh p m' :=
  ⟨by rw [hp]; exact h.eq, hu⟩

/-! ## The updates of each policy -/

namespace Updates

variable {leafID : Nat} {b : Bool}

theorem random (m : RandomModel) (leafID : Nat) (b : Bool) :
    Updates (.random m) leafID b (RoutingModel.lift .random (m.setHealthy leafID b)) := by
  refine ⟨trivial, rfl, fun p hp hres => hp.of_picker ?_ trivial⟩
  have hm := Membership.setHealthy_eq (healthResult_same hres)
  exact congrArg (fun x : Membership => Picker.random ⟨x.healthyLeaves, m.seed, 0⟩) hm

theorem roundRobin (m : RoundRobinModel) (leafID : Nat) (b : Bool) :
    Updates (.roundRobin m) leafID b (RoutingModel.lift .roundRobin (m.setHealthy leafID b)) := by
  refine ⟨trivial, rfl, fun p hp hres => hp.of_picker ?_ trivial⟩
  have hm := Membership.setHealthy_eq (healthResult_same hres)
  exact congrArg (fun x : Membership => Picker.roundRobin ⟨x.healthyLeaves, 0⟩) hm

theorem consistent {m : ConsistentModel} (h : RingCache m.membership m.template m.ring m.dirty)
    (leafID : Nat) (b : Bool) :
    Updates (.consistent m) leafID b (RoutingModel.lift .consistent (m.setHealthy leafID b)) := by
  have hc := h.setHealthy leafID b
  refine ⟨hc, rfl, fun p hp hres => hp.of_picker ?_ trivial⟩
  have hm := Membership.setHealthy_eq (healthResult_same hres)
  show Picker.consistent ⟨cachedRing (m.membership.setHealthy leafID b).1 m.template m.ring
      (m.dirty || (m.membership.setHealthy leafID b).2),
    (m.membership.setHealthy leafID b).1.healthyLeaves⟩ =
    Picker.consistent ⟨cachedRing m.membership m.template m.ring m.dirty,
      m.membership.healthyLeaves⟩
  rw [hc.ring_eq, h.ring_eq, hm]

/-- The three policies over loads: `f` and `g` say which. -/
theorem overLoads {m : BoundedLoadsModel} {u : BoundedLoadsModel × UpdateResult} (h : m.Cached)
    (hu : m.Updates leafID b u) (f : BoundedLoadsModel → RoutingModel)
    (g : BoundedLoadsPicker → Picker) (hs : ∀ x, x.Cached → (f x).Sound)
    (hm : ∀ x, (f x).membership = x.membership) (hp : ∀ x, (f x).picker.2 = g x.picker.2)
    (hi : ∀ x, (f x).InUse) : Updates (f m) leafID b (RoutingModel.lift f u) := by
  refine ⟨hs _ hu.cached, ?_, fun p hf hres => hf.of_picker ?_ (hi _)⟩
  · rw [hm m]
    exact (hm u.1).trans hu.membership
  · show (f u.1).picker.2 = (f m).picker.2
    rw [hp, hp, hu.picker h hres]

theorem leastLoaded {m : LeastLoadedModel} {u : LeastLoadedModel × UpdateResult}
    (hm : u.1.membership = (m.membership.setHealthy leafID b).1)
    (hres : u.2 ≠ .publishPicker → (m.membership.setHealthy leafID b).2 = false) :
    Updates (.leastLoaded m) leafID b (RoutingModel.lift .leastLoaded u) := by
  refine ⟨trivial, hm, fun p hp hr => hp.of_picker ?_ trivial⟩
  have he := hm.trans (Membership.setHealthy_eq (hres hr))
  show Picker.leastLoaded u.1.picker = Picker.leastLoaded m.picker
  unfold LeastLoadedModel.picker
  rw [he]

theorem availableCapacity {m : AvailableCapacityModel} {adv : Advertised}
    {u : AvailableCapacityModel × UpdateResult} (href : u.1.Refines adv)
    (hm : u.1.membership = (m.membership.setHealthy leafID b).1) (ha : u.1.active = m.active)
    (hres : m.active = true → u.2 ≠ .publishPicker →
      (m.membership.setHealthy leafID b).2 = false) :
    Updates (.availableCapacity m) leafID b (RoutingModel.lift .availableCapacity u) := by
  refine ⟨⟨adv, href⟩, hm, fun p hp hr => ?_⟩
  have hact : m.active = true := hp.inUse
  refine hp.of_picker ?_ (ha.trans hact)
  have he := hm.trans (Membership.setHealthy_eq (hres hact hr))
  show Picker.availableCapacity u.1.picker.2 = Picker.availableCapacity m.picker.2
  unfold AvailableCapacityModel.picker
  dsimp only
  rw [(AvailableCapacityModel.commit_rest u.1).membership,
    (AvailableCapacityModel.commit_rest m).membership, he]

end Updates

theorem LeastLoadedModel.replaceLeaf_updates (m : LeastLoadedModel) (s : LeafState) :
    Updates (.leastLoaded m) s.leafID (decide (s.healthyWorkers > 0))
      (RoutingModel.lift .leastLoaded (m.replaceLeaf s)) := by
  unfold LeastLoadedModel.replaceLeaf
  dsimp only
  split
  · exact .leastLoaded rfl healthResult_same
  · split
    · exact .leastLoaded rfl healthResult_same
    · refine .leastLoaded rfl fun hres => ?_
      cases hch : (m.membership.setHealthy s.leafID (decide (s.healthyWorkers > 0))).2 with
      | false => rfl
      | true => exact absurd (if_pos hch) hres

namespace RoutingModel

variable {m : RoutingModel} {p : Picker}

/-- **A full frame** of any policy. -/
theorem Sound.replaceLeaf (h : m.Sound) (s : LeafState) :
    Updates m s.leafID (decide (s.healthyWorkers > 0)) (m.replaceLeaf s) := by
  cases m with
  | random m => exact .random m _ _
  | roundRobin m => exact .roundRobin m _ _
  | consistent m => exact .consistent h _ _
  | boundedLoads m =>
    exact .overLoads h (BoundedLoadsModel.Cached.replaceLeaf h s) .boundedLoads .boundedLoads
      (fun _ hc => hc) (fun _ => rfl) (fun _ => rfl) (fun _ => trivial)
  | randomJump m =>
    exact .overLoads h (BoundedLoadsModel.Cached.replaceLeaf h s) .randomJump .randomJump
      (fun _ hc => hc) (fun _ => rfl) (fun _ => rfl) (fun _ => trivial)
  | chrlu m =>
    exact .overLoads h (BoundedLoadsModel.Cached.replaceLeaf h s)
      (fun base => .chrlu { m with base := base }) (fun base => .chrlu ⟨base, m.params⟩)
      (fun _ hc => hc) (fun _ => rfl) (fun _ => rfl) (fun _ => trivial)
  | leastLoaded m => exact m.replaceLeaf_updates s
  | availableCapacity m =>
    obtain ⟨adv, hr⟩ := h
    obtain ⟨href, hm, ha, hres⟩ := hr.replaceLeaf s
    exact .availableCapacity href hm ha hres

/-- **A delta** of any policy. -/
theorem Sound.apply (h : m.Sound) (s : LeafState) :
    Updates m s.leafID (decide (s.healthyWorkers > 0)) (m.apply s) := by
  cases m with
  | availableCapacity m =>
    obtain ⟨adv, hr⟩ := h
    obtain ⟨href, hm, ha, hres⟩ := hr.apply s
    exact .availableCapacity href hm ha hres
  | _ => exact Sound.replaceLeaf h s

/-- **A dropped stream** under any policy. -/
theorem Sound.leafDisconnected (h : m.Sound) (leafID : Nat) :
    Updates m leafID false (m.leafDisconnected leafID) := by
  cases m with
  | random m => exact .random m _ _
  | roundRobin m => exact .roundRobin m _ _
  | consistent m => exact .consistent h _ _
  | boundedLoads m =>
    exact .overLoads h (BoundedLoadsModel.Cached.leafDisconnected h leafID) .boundedLoads
      .boundedLoads (fun _ hc => hc) (fun _ => rfl) (fun _ => rfl) (fun _ => trivial)
  | randomJump m =>
    exact .overLoads h (BoundedLoadsModel.Cached.leafDisconnected h leafID) .randomJump
      .randomJump (fun _ hc => hc) (fun _ => rfl) (fun _ => rfl) (fun _ => trivial)
  | chrlu m =>
    exact .overLoads h (BoundedLoadsModel.Cached.leafDisconnected h leafID)
      (fun base => .chrlu { m with base := base }) (fun base => .chrlu ⟨base, m.params⟩)
      (fun _ hc => hc) (fun _ => rfl) (fun _ => rfl) (fun _ => trivial)
  | leastLoaded m => exact .leastLoaded rfl healthResult_same
  | availableCapacity m =>
    obtain ⟨adv, hr⟩ := h
    obtain ⟨href, hm, ha, hres⟩ := hr.leafDisconnected leafID
    exact .availableCapacity href hm ha (fun _ => hres)

end RoutingModel

/-! ## Building a picker, and picking with it -/

theorem Picker.withCounter_counter (p : Picker) (c : UInt64) :
    p.withCounter (p.withCounter c).counter = p.withCounter c := by
  cases p <;> rfl

theorem Fresh.of_counter {m : RoutingModel} (c : UInt64) (h : p = m.picker.2.withCounter c)
    (hu : m.InUse) : Fresh p m := by
  subst h
  exact ⟨(m.picker.2.withCounter_counter c).symm, hu⟩

/-- In use, a new picker finds the index published. -/
theorem AvailableCapacityModel.picker_inUse {m : AvailableCapacityModel} {adv : Advertised}
    (h : m.Refines adv) (ha : m.active = true) : m.picker.1 = m := by
  have hc : m.commit.1 = m := by
    unfold AvailableCapacityModel.commit
    rw [if_pos (h.settled ha).1]
  show { m.commit.1 with active := true } = m
  rw [hc, ← ha]

/-- What building a picker leaves of the model. -/
structure Builds (m : RoutingModel) : Prop where
  sound : m.picker.1.Sound
  membership : m.picker.1.membership = m.membership
  fresh : Fresh m.picker.2 m.picker.1

theorem RoutingModel.Sound.picker {m : RoutingModel} (h : m.Sound) : Builds m := by
  cases m with
  | random m => exact ⟨trivial, rfl, .of_counter 0 rfl trivial⟩
  | roundRobin m => exact ⟨trivial, rfl, .of_counter 0 rfl trivial⟩
  | consistent m =>
    have hc := RingCache.rebuilt h
    exact ⟨hc, rfl, .of_counter 0 rfl trivial⟩
  | boundedLoads m =>
    have hc := RingCache.rebuilt h
    exact ⟨hc, rfl, .of_counter 0 rfl trivial⟩
  | randomJump m =>
    have hc := RingCache.rebuilt h
    exact ⟨hc, rfl, .of_counter 0 rfl trivial⟩
  | chrlu m =>
    have hc := RingCache.rebuilt h
    exact ⟨hc, rfl, .of_counter 0 rfl trivial⟩
  | leastLoaded m => exact ⟨trivial, rfl, .of_counter 0 rfl trivial⟩
  | availableCapacity m =>
    obtain ⟨adv, hr⟩ := h
    obtain ⟨hpr, hm, ha⟩ := hr.picker
    refine ⟨⟨adv, hpr⟩, hm, .of_counter 0 ?_ ha⟩
    have hcm := (AvailableCapacityModel.commit_rest m).membership
    have hcp := (AvailableCapacityModel.commit_rest m.picker.1).membership
    show Picker.availableCapacity m.picker.2 = Picker.availableCapacity
      ⟨m.picker.1.commit.1.membership.topology.leaves, m.picker.1.commit.1.membership.healthyLeaves,
        m.picker.1.commit.1.membership.topology.leaves.map
          fun x => m.picker.1.commit.1.membership.healthy x.leafID, 0⟩
    rw [hcp, hm]
    unfold AvailableCapacityModel.picker
    dsimp only
    rw [hcm]

theorem AvailableCapacityPicker.pick_counter (p : AvailableCapacityPicker)
    (m : AvailableCapacityModel) (req : RouteRequest) :
    ∃ c, (p.pick m req).1 = { p with counter := c } := by
  unfold AvailableCapacityPicker.pick
  dsimp only
  split_ifs
  · exact ⟨p.counter, rfl⟩
  · split
    · exact ⟨p.counter, rfl⟩
    · split_ifs
      · exact ⟨p.counter, rfl⟩
      · split
        · exact ⟨_, rfl⟩
        · split <;> exact ⟨_, rfl⟩

theorem ChrluPicker.pick_base (p : ChrluPicker) (m : ChrluModel) (now : UInt64)
    (req : RouteRequest) : (p.pick m now req).1.base = m.base ∧ (p.pick m now req).1.params = m.params := by
  unfold ChrluPicker.pick
  dsimp only
  split_ifs
  · exact ⟨rfl, rfl⟩
  · split
    · exact ⟨rfl, rfl⟩
    · split <;> exact ⟨rfl, rfl⟩
  · exact ⟨rfl, rfl⟩

/-- A pick leaves the model sound, its health as it was and the picker fresh. -/
theorem Fresh.pick {m : RoutingModel} (hf : Fresh p m) (h : m.Sound) (now : UInt64)
    (req : RouteRequest) :
    (p.pick now req m).2.1.Sound ∧ (p.pick now req m).2.1.membership = m.membership ∧
      Fresh (p.pick now req m).1 (p.pick now req m).2.1 := by
  obtain ⟨c, hc⟩ : ∃ c, p = m.picker.2.withCounter c := ⟨_, hf.eq⟩
  have hu := hf.inUse
  subst hc
  cases m with
  | random m =>
    refine ⟨trivial, rfl, .of_counter (RandomPicker.pick { m.picker with counter := c }).1.counter
      ?_ trivial⟩
    show Picker.random (RandomPicker.pick { m.picker with counter := c }).1 = _
    unfold RandomPicker.pick
    split_ifs <;> rfl
  | roundRobin m =>
    refine ⟨trivial, rfl, .of_counter
      (RoundRobinPicker.pick { m.picker with counter := c }).1.counter ?_ trivial⟩
    show Picker.roundRobin (RoundRobinPicker.pick { m.picker with counter := c }).1 = _
    unfold RoundRobinPicker.pick
    split_ifs <;> rfl
  | consistent m => exact ⟨h, rfl, .of_counter c rfl trivial⟩
  | boundedLoads m => exact ⟨h, rfl, .of_counter c rfl trivial⟩
  | randomJump m => exact ⟨h, rfl, .of_counter c rfl trivial⟩
  | chrlu m =>
    obtain ⟨hb, hp⟩ := ChrluPicker.pick_base m.picker.2 m now req
    refine ⟨?_, ?_, .of_counter c ?_ trivial⟩
    · show BoundedLoadsModel.Cached (m.picker.2.pick m now req).1.base
      rw [hb]
      exact h
    · show (m.picker.2.pick m now req).1.base.membership = _
      rw [hb]
      rfl
    · show Picker.chrlu m.picker.2 = Picker.chrlu ⟨(m.picker.2.pick m now req).1.base.picker.2,
        (m.picker.2.pick m now req).1.params⟩
      rw [hb, hp]
      rfl
  | leastLoaded m => exact ⟨trivial, rfl, .of_counter c rfl trivial⟩
  | availableCapacity m =>
    obtain ⟨d, hd⟩ := AvailableCapacityPicker.pick_counter { m.picker.2 with counter := c } m req
    exact ⟨h, rfl, .of_counter d (congrArg Picker.availableCapacity hd) hu⟩

/-- **Never stale**: the answer is that of a picker built now, with the same counter. -/
theorem Fresh.decision {m : RoutingModel} (hf : Fresh p m) (h : m.Sound) (now : UInt64)
    (req : RouteRequest) : (p.pick now req m).2.2 =
      ((m.picker.2.withCounter p.counter).pick now req m.picker.1).2.2 := by
  rw [← hf.eq]
  obtain ⟨c, hc⟩ : ∃ c, p = m.picker.2.withCounter c := ⟨_, hf.eq⟩
  have hu := hf.inUse
  subst hc
  cases m with
  | random m => rfl
  | roundRobin m => rfl
  | consistent m => rfl
  | boundedLoads m => rfl
  | randomJump m => rfl
  | chrlu m =>
    show (m.picker.2.pick m now req).2 = (m.picker.2.pick m.picker.1 now req).2
    unfold ChrluPicker.pick
    dsimp only
    have hl : m.picker.1.base.loads = m.base.loads := rfl
    have hs : m.picker.1.samples = m.samples := rfl
    have hc : m.picker.1.counter = m.counter := rfl
    rw [hl, hs, hc]
    split_ifs
    · rfl
    · split
      · rfl
      · split <;> rfl
    · rfl
  | leastLoaded m => rfl
  | availableCapacity m =>
    obtain ⟨adv, hr⟩ := h
    show (AvailableCapacityPicker.pick { m.picker.2 with counter := c } m req).2 =
      (AvailableCapacityPicker.pick { m.picker.2 with counter := c } m.picker.1 req).2
    rw [AvailableCapacityModel.picker_inUse hr hu]

end HyperFaaS.Ingress
