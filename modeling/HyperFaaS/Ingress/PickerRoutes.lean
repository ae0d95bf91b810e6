import HyperFaaS.Ingress.PickerFresh

/-!
Where the pickers send requests. Proved here, for each of the eight policies: a
fresh picker answers with a healthy leaf, and fails only when there is none
(`Fresh.routes`). Round-robin needs its counter below 2^63: from there on the index
is a negative `int`.
-/

namespace HyperFaaS.Ingress

/-- The answer is one of the leaves, or an error if there are none. -/
def Routes (leaves : List LeafTarget) : Except PickErr LeafTarget → Prop
  | .ok target => ∃ x ∈ leaves, target.leafID = x.leafID ∧ target.httpAddress = x.httpAddress
  | .error e => leaves = [] ∧ e = .noHealthyLeaves

theorem Routes.of_mem {leaves : List LeafTarget} {x : LeafTarget} (h : x ∈ leaves)
    (reason : Reason) : Routes leaves (.ok { x with reason := some reason }) :=
  ⟨x, h, rfl, rfl⟩

theorem leafAt_routes {leaves : List LeafTarget} {i : Int} (reason : Reason) (h0 : 0 ≤ i)
    (h : i < leaves.length) : Routes leaves (leafAt leaves i reason) := by
  have hi : i.toNat < leaves.length := by omega
  unfold leafAt
  rw [if_neg (by omega), List.getElem?_eq_getElem hi]
  exact .of_mem (List.getElem_mem hi) reason

theorem length_pos_of_ne {α : Type} {l : List α} (h : ¬ l = []) : 0 < l.length :=
  List.length_pos_iff.mpr h

theorem RandomPicker.routes (p : RandomPicker) : Routes p.leaves p.pick.2 := by
  unfold RandomPicker.pick
  split_ifs with hnil
  · exact ⟨hnil, rfl⟩
  · refine leafAt_routes _ (Int.natCast_nonneg _) ?_
    exact_mod_cast Nat.mod_lt _ (length_pos_of_ne hnil)

theorem counter_toInt (c : UInt64) (h : c.toNat < 2 ^ 63) :
    (c + 1 - 1).toInt64.toInt = c.toNat := by
  have hbv : c.toBitVec.toNat = c.toNat := rfl
  rw [UInt64.add_sub_cancel]
  show c.toBitVec.toInt = c.toNat
  rw [BitVec.toInt_eq_toNat_of_lt (by omega), hbv]

theorem RoundRobinPicker.routes (p : RoundRobinPicker) (h : p.counter.toNat < 2 ^ 63) :
    Routes p.leaves p.pick.2 := by
  unfold RoundRobinPicker.pick
  split_ifs with hnil
  · exact ⟨hnil, rfl⟩
  · have hpos := length_pos_of_ne hnil
    dsimp only
    rw [counter_toInt p.counter h]
    refine leafAt_routes _ (Int.tmod_nonneg _ (Int.natCast_nonneg _)) ?_
    exact Int.tmod_lt_of_pos _ (by exact_mod_cast hpos)

theorem byID_mem {leaves : List LeafTarget} {id : Nat} {x : LeafTarget}
    (h : byID leaves id = some x) : x ∈ leaves :=
  List.mem_of_find?_eq_some h

theorem getD_byID_mem {leaves rest : List LeafTarget} {first : LeafTarget} (id : Nat)
    (h : leaves = first :: rest) : (byID leaves id).getD first ∈ leaves := by
  cases hb : byID leaves id with
  | none =>
    rw [h]
    exact List.mem_cons_self
  | some x => exact byID_mem hb

theorem ConsistentPicker.routes (p : ConsistentPicker) (req : RouteRequest) :
    Routes p.leaves (p.pick req) := by
  unfold ConsistentPicker.pick
  split
  · rename_i hnil
    exact ⟨hnil, rfl⟩
  · rename_i first rest hl
    exact .of_mem (getD_byID_mem _ hl) _

/-! ## The policies over loads -/

theorem jump_mem {β : Type} [LT β] [DecidableLT β] {leaves : List LeafTarget} {load : Nat → β}
    {bound : β} {fn : UInt64} {n attempt id : Nat} (h : jump leaves load bound fn n attempt = some id) :
    (∃ x ∈ leaves, x.leafID = id) ∧ load id < bound := by
  induction n generalizing attempt with
  | zero => cases h
  | succ n ih =>
    simp only [jump] at h
    split at h
    · cases h
    · rename_i candidate hc
      split_ifs at h with hlt
      · cases h
        exact ⟨⟨candidate, List.mem_of_getElem? hc, rfl⟩, hlt⟩
      · exact ih h

theorem randomJump_cases {β : Type} [LT β] [DecidableLT β] [LE β] [DecidableLE β] (ring : Ring)
    (leaves : List LeafTarget) (load : Nat → β) (least : Nat) (bound : β) (fn : UInt64) (n : Nat) :
    (randomJump ring leaves load least bound fn n).1 = ring.home fn ∧
        ¬ load (ring.home fn) ≥ bound ∨
      load (ring.home fn) ≥ bound ∧ ((randomJump ring leaves load least bound fn n).1 = least ∨
        (∃ x ∈ leaves, x.leafID = (randomJump ring leaves load least bound fn n).1) ∧
          load (randomJump ring leaves load least bound fn n).1 < bound) := by
  unfold randomJump
  dsimp only
  split_ifs with hload hid
  · exact .inr ⟨hload, .inl rfl⟩
  · cases hj : jump leaves load bound fn n 1 with
    | none =>
      rw [hj] at hid
      exact absurd rfl hid
    | some id => exact .inr ⟨hload, .inr (jump_mem hj)⟩
  · exact .inl ⟨rfl, hload⟩

namespace BoundedLoadsPicker

/-- The ring has the ids of the leaves, and each id its slot. -/
structure OverLeaves (p : BoundedLoadsPicker) : Prop where
  ring : p.ring.Over fun id => ∃ x ∈ p.leaves, x.leafID = id
  slots : p.ringSlots.length = p.ring.ids.length

variable {p : BoundedLoadsPicker}

theorem byID_some {leaves : List LeafTarget} {id : Nat} (h : ∃ x ∈ leaves, x.leafID = id) :
    ∃ x, byID leaves id = some x := by
  obtain ⟨x, hx, he⟩ := h
  cases hb : byID leaves id with
  | none =>
    have hn := List.find?_eq_none.mp hb x hx
    simp [he] at hn
  | some y => exact ⟨y, rfl⟩

theorem targetOf_routes {id : Nat} (h : ∃ x ∈ p.leaves, x.leafID = id) (reason : Reason) :
    Routes p.leaves (.ok (p.targetOf id reason)) := by
  obtain ⟨x, hx⟩ := byID_some h
  unfold targetOf
  rw [hx]
  exact .of_mem (byID_mem hx) reason

theorem OverLeaves.home (h : p.OverLeaves) (hne : ¬ p.leaves = []) (fn : UInt64) :
    ∃ x ∈ p.leaves, x.leafID = p.ring.home fn := by
  obtain ⟨x, hx⟩ := List.exists_mem_of_ne_nil _ hne
  exact h.ring.home ⟨x, hx, rfl⟩ fn

theorem OverLeaves.least (h : p.OverLeaves) (hne : ¬ p.leaves = []) (loads : Nat → UInt64) :
    ∃ x ∈ p.leaves, x.leafID = p.leastLoadedID loads := by
  obtain ⟨x, hx⟩ := List.exists_mem_of_ne_nil _ hne
  have hid := (h.ring.ids x.leafID).mpr ⟨x, hx, rfl⟩
  unfold leastLoadedID
  split
  · rename_i hz
    have hlen := congrArg List.length hz
    rw [List.length_zip, h.slots, Nat.min_self] at hlen
    rw [List.length_eq_zero_iff.mp hlen] at hid
    cases hid
  · rename_i first rest hz
    obtain ⟨y, hy, he⟩ := leastFrom_mem Prod.fst (fun x : Nat × Nat => Float.ofBits (loads x.2))
      rest first
    rw [← hz] at hy
    rw [he]
    exact (h.ring.ids y.1).mp (List.of_mem_zip hy).1

theorem routes (p : BoundedLoadsPicker) (loads : Nat → UInt64) (req : RouteRequest) :
    Routes p.leaves (p.pick loads req) := by
  unfold pick
  split
  · rename_i hnil
    exact ⟨hnil, rfl⟩
  · rename_i first rest hl
    exact .of_mem (getD_byID_mem _ hl) _

theorem OverLeaves.randomJump (h : p.OverLeaves) (loads : Nat → UInt64) (req : RouteRequest) :
    Routes p.leaves (p.randomJumpPick loads req) := by
  unfold randomJumpPick
  split_ifs with hnil
  · exact ⟨hnil, rfl⟩
  · generalize hr : Ingress.randomJump p.ring p.leaves (p.load loads) (p.leastLoadedID loads) p.bound
      req.functionID p.maxChainLen = r
    have hcases := randomJump_cases p.ring p.leaves (p.load loads) (p.leastLoadedID loads) p.bound
      req.functionID p.maxChainLen
    rw [hr] at hcases
    refine targetOf_routes ?_ _
    rcases hcases with ⟨he, -⟩ | ⟨-, he | ⟨he, -⟩⟩
    · exact he ▸ h.home hnil _
    · exact he ▸ h.least hnil loads
    · exact he

end BoundedLoadsPicker

theorem ChrluPicker.noisyWalk_mem (p : ChrluPicker) (h : p.base.OverLeaves) (loads : Nat → UInt64)
    (fn : UInt64) (bound mean : Float) (n : Nat) (counter : UInt64) {id found : Nat}
    (hid : ∃ x ∈ p.base.leaves, x.leafID = id)
    (hf : (p.noisyWalk loads fn bound mean n counter id).1 = some found) :
    ∃ x ∈ p.base.leaves, x.leafID = found := by
  induction n generalizing counter id with
  | zero =>
    simp only [noisyWalk] at hf
    split_ifs at hf
    cases hf
    exact hid
  | succ n ih =>
    simp only [noisyWalk] at hf
    split_ifs at hf
    · cases hf
      exact hid
    · exact ih (counter + 1) (h.ring.next hid) hf

theorem ChrluPicker.routes (p : ChrluPicker) (h : p.base.OverLeaves) (m : ChrluModel) (now : UInt64)
    (req : RouteRequest) : Routes p.base.leaves (p.pick m now req).2 := by
  unfold ChrluPicker.pick
  split_ifs with hnil
  · exact ⟨hnil, rfl⟩
  · have hhome := h.home hnil req.functionID
    have hleast := h.least hnil m.base.loads
    dsimp only
    split_ifs
    · split
      · rename_i id counter hw
        exact BoundedLoadsPicker.targetOf_routes
          (p.noisyWalk_mem h _ _ _ _ _ _ hhome (congrArg Prod.fst hw)) _
      · split
        · rename_i id counter hw
          exact BoundedLoadsPicker.targetOf_routes
            (p.noisyWalk_mem h _ _ _ _ _ _ (h.ring.next hhome) (congrArg Prod.fst hw)) _
        · exact BoundedLoadsPicker.targetOf_routes hleast _
    · exact BoundedLoadsPicker.targetOf_routes (forwardBy_mem h.ring _ _ _ hleast hhome) _

/-! ## Least loaded and available capacity -/

theorem leastInFlight_mem (inFlight : Nat → Nat) (l : List (LeafTarget × Nat))
    (best : LeafTarget × Nat) : ∃ x ∈ best :: l, leastInFlight inFlight l best = x.1 := by
  induction l generalizing best with
  | nil => exact ⟨best, List.mem_cons_self, rfl⟩
  | cons y rest ih =>
    rw [leastInFlight]
    split
    · obtain ⟨x, hx, he⟩ := ih y
      exact ⟨x, List.mem_cons_of_mem _ hx, he⟩
    · obtain ⟨x, hx, he⟩ := ih best
      rcases List.mem_cons.mp hx with rfl | hx
      · exact ⟨x, List.mem_cons_self, he⟩
      · exact ⟨x, List.mem_cons_of_mem _ (List.mem_cons_of_mem _ hx), he⟩

theorem LeastLoadedPicker.routes (p : LeastLoadedPicker) (inFlight : Nat → Nat)
    (h : p.slots.length = p.leaves.length) : Routes p.leaves (p.pick inFlight) := by
  unfold LeastLoadedPicker.pick
  split
  · rename_i hz
    have hlen := congrArg List.length hz
    rw [List.length_zip, h, Nat.min_self] at hlen
    exact ⟨List.length_eq_zero_iff.mp hlen, rfl⟩
  · rename_i first rest hz
    obtain ⟨x, hx, he⟩ := leastInFlight_mem inFlight rest first
    rw [← hz] at hx
    rw [he]
    exact .of_mem (List.of_mem_zip hx).1 _

namespace AvailableCapacityPicker

theorem coldFallback_routes (p : AvailableCapacityPicker) (h : ¬ p.healthyLeaves = [])
    (fn : UInt64) : Routes p.healthyLeaves (p.coldFallback fn) := by
  have hi := Nat.mod_lt (hashFunctionID fn).toNat (length_pos_of_ne h)
  unfold coldFallback
  rw [List.getElem?_eq_getElem hi]
  exact .of_mem (List.getElem_mem hi) _

theorem nth_healthy {healthy : List Bool} {best n : Nat} {l : List CapacityRoute}
    {r : CapacityRoute} (h : nth healthy best l n = some r) : healthy[r.leaf]? = some true := by
  rw [nth_eq] at h
  have hr := List.mem_of_getElem? h
  have hu := (List.mem_filter.mp hr).1
  simpa using (List.mem_filter.mp hu).2

theorem routes (mem : Membership) (p : AvailableCapacityPicker) (m : AvailableCapacityModel)
    (req : RouteRequest) (hl : p.leaves = mem.topology.leaves)
    (hh : p.healthyLeaves = mem.healthyLeaves)
    (hb : p.healthy = mem.topology.leaves.map fun x => mem.healthy x.leafID) :
    Routes p.healthyLeaves (p.pick m req).2 := by
  unfold pick
  split_ifs with hnil
  · exact ⟨hnil, rfl⟩
  · split
    · exact p.coldFallback_routes hnil _
    · dsimp only
      split_ifs
      · exact p.coldFallback_routes hnil _
      · split
        · exact coldFallback_routes { p with counter := p.counter + 1 } hnil _
        · rename_i r hr
          have htrue := nth_healthy hr
          rw [hb, List.getElem?_map] at htrue
          obtain ⟨x, hx, hxt⟩ := Option.map_eq_some_iff.mp htrue
          have hmem : x ∈ p.healthyLeaves := by
            rw [hh]
            exact List.mem_filter.mpr ⟨List.mem_of_getElem? hx, hxt⟩
          rw [hl, hx]
          exact .of_mem hmem _

end AvailableCapacityPicker

/-! ## All policies -/

/-- The counter of a round-robin picker is an `int` without a sign. -/
def Picker.Unsigned : Picker → Prop
  | .roundRobin p => p.counter.toNat < 2 ^ 63
  | _ => True

instance (p : Picker) : Decidable p.Unsigned := by
  unfold Picker.Unsigned
  split <;> infer_instance

theorem BoundedLoadsModel.Cached.overLeaves {m : BoundedLoadsModel} (h : m.Cached) :
    m.picker.2.OverLeaves := by
  rw [h.picker_eq]
  refine ⟨?_, by simp⟩
  have ho := RingCache.members h |>.subset m.membership.healthy
  have hS : ∀ id, (id ∈ m.membership.topology.ids ∧ m.membership.healthy id = true) ↔
      ∃ x ∈ m.membership.healthyLeaves, x.leafID = id := by
    intro id
    constructor
    · rintro ⟨hid, hh⟩
      obtain ⟨x, hx, rfl⟩ := List.mem_map.mp hid
      exact ⟨x, List.mem_filter.mpr ⟨hx, hh⟩, rfl⟩
    · rintro ⟨x, hx, rfl⟩
      obtain ⟨hx, hh⟩ := List.mem_filter.mp hx
      exact ⟨List.mem_map.mpr ⟨x, hx, rfl⟩, hh⟩
  exact ⟨fun id => (ho.ids id).trans (hS id), fun x hx => (hS _).mp (ho.nodes x hx),
    fun id hid => ho.full id ((hS id).mpr hid)⟩

/-- **A fresh picker** routes to the healthy leaves. -/
theorem Fresh.routes {p : Picker} {m : RoutingModel} (hf : Fresh p m) (h : m.Sound)
    (hs : p.Unsigned) (now : UInt64) (req : RouteRequest) :
    Routes m.membership.healthyLeaves (p.pick now req m).2.2 := by
  obtain ⟨c, hc⟩ : ∃ c, p = m.picker.2.withCounter c := ⟨_, hf.eq⟩
  subst hc
  cases m with
  | random m => exact RandomPicker.routes { m.picker with counter := c }
  | roundRobin m => exact RoundRobinPicker.routes { m.picker with counter := c } hs
  | consistent m => exact m.picker.2.routes req
  | boundedLoads m => exact m.picker.2.routes m.loads req
  | randomJump m => exact (BoundedLoadsModel.Cached.overLeaves h).randomJump m.loads req
  | chrlu m => exact m.picker.2.routes (BoundedLoadsModel.Cached.overLeaves h) m now req
  | leastLoaded m => exact m.picker.routes m.inFlight (List.length_map _)
  | availableCapacity m =>
    have hm := (AvailableCapacityModel.commit_rest m).membership
    have hr := AvailableCapacityPicker.routes m.commit.1.membership
      { m.picker.2 with counter := c } m req rfl rfl rfl
    show Routes m.membership.healthyLeaves
      (AvailableCapacityPicker.pick { m.picker.2 with counter := c } m req).2
    rw [← hm]
    exact hr

end HyperFaaS.Ingress
