import HyperFaaS.Scheduler.Policies

/-!
The guarantee of consistent hashing with bounded loads, for the four places that choose
by it (`bounded_load_guarantee`): a candidate below the bound is chosen if there is one,
else the least loaded candidate, and the home before all others.
-/

namespace HyperFaaS.Scheduler

open Ingress

variable {β : Type} {maxInstances : Int} {workers : Workers β} {id : Nat}

/-- The load a worker reports. -/
def loadOf [Zero β] (workers : Workers β) (id : Nat) : β :=
  ((byID workers id).map (·.loadAverageNorm)).getD 0

/-- An eligible worker of the ring. -/
def Candidate (ids : List Nat) (maxInstances : Int) (workers : Workers β) (id : Nat) : Prop :=
  id ∈ ids ∧ usable maxInstances workers id = true

theorem usable_some (h : usable maxInstances workers id = true) :
    ∃ w, byID workers id = some w ∧ w.workerId = id ∧ id ≠ 0 ∧
      eligibleByInstanceCount (some w) maxInstances = true := by
  unfold usable at h
  cases hw : byID workers id with
  | none =>
    rw [hw] at h
    cases h
  | some w =>
    have hid := List.find?_some hw
    simp only [Bool.and_eq_true, beq_iff_eq, bne_iff_ne] at hid
    exact ⟨w, rfl, hid.1, hid.2, hw ▸ h⟩

theorem not_all_zero (h : usable maxInstances workers id = true) :
    ¬ (workers.all fun w => w.all fun w => w.workerId == 0) = true := by
  obtain ⟨w, hw, hid, hne, -⟩ := usable_some h
  intro hall
  have hmem := List.mem_reverse.mp (List.mem_of_find?_eq_some hw)
  obtain ⟨x, hx, rfl⟩ := List.mem_filterMap.mp hmem
  have hzero := List.all_eq_true.mp hall _ hx
  simp only [Option.all_some, beq_iff_eq] at hzero
  exact hne (hid.symm.trans hzero)

variable [Zero β] [One β] [Add β] {bound : β} {ids : List Nat} {ring : Ring}

theorem loadMap_usable (h : usable maxInstances workers id = true) :
    (loadMap maxInstances workers bound id).getD 0 = loadOf workers id := by
  obtain ⟨w, hw, -, -, he⟩ := usable_some h
  simp [loadMap, loadOf, hw, he]

variable [LinearOrder β]

/-- Some worker of the ring is eligible: its pick is one of them, whatever the others
count as. -/
theorem boundedLoadsPick_bounded (hring : ring.Over (· ∈ ids)) (hb : 0 < bound)
    (hc : Candidate ids maxInstances workers id) (maxChainLen : Int) (fn : UInt64) :
    Bounded (Candidate ids maxInstances workers) (loadOf workers) bound (ring.home fn)
      (boundedLoadsPick maxInstances workers bound maxChainLen ring fn).workerId := by
  have hhome : ring.home fn ∈ ids := hring.home hc.1 fn
  have hsub : ∀ x, Candidate ids maxInstances workers x → x ∈ ids ∧
      (loadMap maxInstances workers bound x).getD 0 = loadOf workers x :=
    fun x hx => ⟨hx.1, loadMap_usable hx.2⟩
  have hmem : ∀ x, x ∈ ring.ids.filter (usable maxInstances workers) ↔
      Candidate ids maxInstances workers x := fun x => by
    rw [List.mem_filter, hring.ids]
    rfl
  -- over all members of the ring, ineligible ones included
  have hforward := hring.forward_bounded hb hhome (loadMap maxInstances workers bound) maxChainLen
  have hleast : Least (Candidate ids maxInstances workers) (loadOf workers)
      (leastLoadedEligible maxInstances workers ring.ids bound) := by
    have h := leastLoadedBy_least (fun x => (loadMap maxInstances workers bound x).getD 0)
      (List.ne_nil_of_mem ((hmem id).mpr hc))
    exact h.restrict ((hmem _).mp h.mem) fun x hx => ⟨(hmem x).mpr hx, (hsub x hx).2⟩
  rw [boundedLoadsPick, if_neg (not_all_zero hc.2)]
  generalize forward ring (loadMap maxInstances workers bound) bound maxChainLen
    (ring.home fn) = f at hforward ⊢
  by_cases hu : usable maxInstances workers f.1 = true
  · simp only [hu, if_true]
    exact hforward.restrict ⟨hforward.mem, hu⟩ hsub
  · simp only [hu, Bool.false_eq_true, if_false, hleast.mem.2, if_true]
    refine hleast.bounded fun hh hlow => absurd ?_ hu
    rw [hforward.home hhome ((hsub _ hh).2 ▸ hlow)]
    exact hh.2

/-- A decision for a worker is one for an eligible worker of the ring. -/
theorem boundedLoadsPick_mem (hring : ring.Over (· ∈ ids)) (hb : 0 < bound) {maxChainLen : Int}
    {fn : UInt64}
    (h : (boundedLoadsPick maxInstances workers bound maxChainLen ring fn).workerId ≠ 0) :
    Candidate ids maxInstances workers
      (boundedLoadsPick maxInstances workers bound maxChainLen ring fn).workerId := by
  by_cases hc : ∃ id, Candidate ids maxInstances workers id
  · obtain ⟨id, hc⟩ := hc
    exact (boundedLoadsPick_bounded hring hb hc maxChainLen fn).mem
  · -- the walk ends on a member or on worker 0, and neither is eligible
    have hnone : ∀ id, id ∈ ids ∨ id = 0 → usable maxInstances workers id = false := by
      rintro id (hid | rfl)
      · exact eq_false_of_ne_true fun hu => hc ⟨id, hid, hu⟩
      · exact eq_false_of_ne_true fun hu => (usable_some hu).choose_spec.2.2.1 rfl
    have hleast : leastLoadedEligible maxInstances workers ring.ids bound = 0 := by
      have hnil : ring.ids.filter (usable maxInstances workers) = [] :=
        List.filter_eq_nil_iff.mpr fun id hid => by simp [hnone id (.inl ((hring.ids id).mp hid))]
      rw [leastLoadedEligible, hnil]
      rfl
    have hforward : (forward ring (loadMap maxInstances workers bound) bound maxChainLen
        (ring.home fn)).1 ∈ ids ∨ (forward ring (loadMap maxInstances workers bound) bound
          maxChainLen (ring.home fn)).1 = 0 := by
      by_cases hids : ∃ x, x ∈ ids
      · obtain ⟨x, hx⟩ := hids
        exact .inl (hring.forward_bounded hb (hring.home hx fn) _ maxChainLen).mem
      · have hnil : ring.ids = [] :=
          List.eq_nil_iff_forall_not_mem.mpr fun x hx => hids ⟨x, (hring.ids x).mp hx⟩
        have hnodes : ring.nodes = [] :=
          List.eq_nil_iff_forall_not_mem.mpr fun x hx => hids ⟨_, hring.nodes x hx⟩
        refine .inr ?_
        simp [forward, hnil, Ring.home, Ring.homeAt, hnodes]
    refine absurd ?_ h
    simp only [boundedLoadsPick, hnone _ hforward, hleast, hnone 0 (.inr rfl), Bool.false_eq_true,
      if_false]
    split <;> rfl

/-- **Bounded loads.** For every hash, loads in any linear order and every positive bound:
`Forward`, `ForwardBy` and the random jump over the healthy leaves, and the placement over
the eligible workers, choose a candidate below the bound if there is one and else the least
loaded candidate, ties to the lowest id; the home is chosen whenever it is below the bound;
and no placement is on a worker that is not eligible. -/
theorem bounded_load_guarantee (hash : Nat → Nat → UInt64) (bound : β) (hb : 0 < bound)
    (maxChainLen : Int) (fn : UInt64) :
    (∀ (targets : List LeafTarget) (healthy : Nat → Bool),
      let ring := (Ring.newRingBy hash (targets.map (·.leafID))).subset healthy
      let leaf := fun id => id ∈ targets.map (·.leafID) ∧ healthy id = true
      (∃ id, leaf id) →
        (∀ loads : Nat → Option β, Bounded leaf (fun id => (loads id).getD 0) bound (ring.home fn)
          (forward ring loads bound maxChainLen (ring.home fn)).1) ∧
        (∀ load : Nat → β, Bounded leaf load bound (ring.home fn)
          (forwardBy ring load (leastLoadedBy ring.ids load) bound maxChainLen (ring.home fn)).1) ∧
        ∀ (load : Nat → β) (maxJumps : Nat), Bounded leaf load bound (ring.home fn)
          (randomJump ring (targets.filter fun x => healthy x.leafID) load
            (leastLoadedBy ring.ids load) bound fn maxJumps).1) ∧
    ∀ (ids : List Nat) (maxInstances : Int) (workers : Workers β),
      let ring := Ring.newRingBy hash ids
      let worker := Candidate ids maxInstances workers
      let chosen := (boundedLoadsPick maxInstances workers bound maxChainLen ring fn).workerId
      (chosen ≠ 0 → worker chosen) ∧
        ((∃ id, worker id) → Bounded worker (loadOf workers) bound (ring.home fn) chosen) := by
  refine ⟨fun targets healthy => ?_, fun ids maxInstances workers => ?_⟩
  · rintro ring leaf ⟨id, hid⟩
    have hover : ring.Over leaf := (Ring.newRingBy_over hash _).subset healthy
    have hhome := hover.home hid fn
    refine ⟨fun loads => hover.forward_bounded hb hhome loads maxChainLen,
      fun load => hover.forwardBy_bounded hb hhome (hover.leastLoaded hid load) maxChainLen,
      fun load maxJumps => randomJump_bounded (fun x hx => ?_) hhome (hover.leastLoaded hid load) maxJumps⟩
    obtain ⟨hx, hh⟩ := List.mem_filter.mp hx
    exact ⟨List.mem_map_of_mem hx, hh⟩
  · have hover := Ring.newRingBy_over hash ids
    exact ⟨fun h => boundedLoadsPick_mem hover hb h,
      fun ⟨id, hid⟩ => boundedLoadsPick_bounded hover hb hid maxChainLen fn⟩

/-- One leaf, over the bound: it is chosen all the same. -/
theorem bounded_load_guarantee_one :
    let ring := (Ring.newRingBy (fun id i => (id * 100 + i).toUInt64) [1]).subset fun _ => true
    (forwardBy ring (fun _ => (3 : Int)) (leastLoadedBy ring.ids fun _ => 3) 2 3
      (ring.home 7)).1 = 1 := by
  have h := (bounded_load_guarantee (fun id i => (id * 100 + i).toUInt64) (2 : Int) (by decide)
    3 7).1 [⟨1, "a", none⟩] (fun _ => true) ⟨1, by simp, rfl⟩
  exact List.mem_singleton.mp (h.2.1 fun _ => 3).mem.1

end HyperFaaS.Scheduler
