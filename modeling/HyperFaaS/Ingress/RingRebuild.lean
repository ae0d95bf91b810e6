import HyperFaaS.Ingress.PickerFresh

/-!
A ring under changes of its members, for any hash of the virtual nodes. Proved here:

* `subset_newRingBy`: filtering a ring gives the ring built from the kept ids, with
  the same nodes, ids and first nodes;
* `homeAt_subset`: taking an id off the ring moves only the functions at home there.
-/

namespace HyperFaaS.Ingress

namespace Ring

theorem nodeLe_iff (x y : RingNode) : nodeLe x y ↔ x.position.toNat < y.position.toNat ∨
    x.position.toNat = y.position.toNat ∧ x.id ≤ y.id := by
  rw [nodeLe, UInt64.lt_iff_toNat_lt, UInt64.toNat_inj]

instance : Std.Total nodeLe where
  total x y := by
    rw [nodeLe_iff, nodeLe_iff]
    omega

instance : IsTrans RingNode nodeLe where
  trans x y z := by
    rw [nodeLe_iff, nodeLe_iff, nodeLe_iff]
    omega

-- two nodes at one position with one id are the same node, so sorting leaves no choice
instance : Std.Antisymm nodeLe where
  antisymm x y hxy hyx := by
    rw [nodeLe_iff] at hxy hyx
    have hposition : x.position = y.position := UInt64.toNat_inj.mp (by omega)
    have hid : x.id = y.id := by omega
    cases x
    cases y
    exact congrArg₂ RingNode.mk hposition hid

/-! ## Filtering -/

theorem filter_replicas (hash : Nat → Nat → UInt64) (healthy : Nat → Bool) (id : Nat) :
    (replicas hash id).filter (fun x => healthy x.id) =
      if healthy id = true then replicas hash id else [] := by
  unfold replicas
  rw [List.filter_map]
  split_ifs with h <;> simp [Function.comp_def, h]

theorem filter_flatMap_replicas (hash : Nat → Nat → UInt64) (healthy : Nat → Bool)
    (ids : List Nat) :
    (ids.flatMap (replicas hash)).filter (fun x => healthy x.id) =
      (ids.filter healthy).flatMap (replicas hash) := by
  induction ids with
  | nil => rfl
  | cons id rest ih =>
    rw [List.flatMap_cons, List.filter_append, filter_replicas, ih, List.filter_cons]
    split_ifs with h
    · rw [List.flatMap_cons]
    · rw [List.nil_append]

theorem nodes_filter (hash : Nat → Nat → UInt64) (healthy : Nat → Bool) (ids : List Nat) :
    (newRingBy hash ids).nodes.filter (fun x => healthy x.id) =
      (newRingBy hash (ids.filter healthy)).nodes := by
  unfold newRingBy
  dsimp only
  rw [Lib.filter_insertionSort, filter_flatMap_replicas, Lib.filter_insertionSort]

theorem ids_filter (hash : Nat → Nat → UInt64) (healthy : Nat → Bool) (ids : List Nat) :
    (newRingBy hash ids).ids.filter healthy = (newRingBy hash (ids.filter healthy)).ids :=
  Lib.filter_insertionSort _ _ _

theorem subset_newRingBy (hash : Nat → Nat → UInt64) (ids : List Nat) (healthy : Nat → Bool) :
    (newRingBy hash ids).subset healthy = newRingBy hash (ids.filter healthy) := by
  by_cases hall : (newRingBy hash ids).ids.all healthy = true
  · have hids : ids.filter healthy = ids := by
      refine List.filter_eq_self.mpr fun id hid => ?_
      exact List.all_eq_true.mp hall id ((List.mem_insertionSort _).mpr hid)
    rw [subset, if_pos hall, hids]
  · rw [subset_eq _ _ hall, nodes_filter, ids_filter]
    rfl

theorem foldl_subset (hash : Nat → Nat → UInt64) (changes : List (Nat → Bool)) (ids : List Nat) :
    changes.foldl subset (newRingBy hash ids) =
      newRingBy hash (ids.filter fun id => changes.all fun healthy => healthy id) := by
  induction changes generalizing ids with
  | nil => simp
  | cons healthy rest ih =>
    rw [List.foldl_cons, subset_newRingBy, ih, List.filter_filter]
    simp [Bool.and_comm]

end Ring

/-! ## The cached ring of a model -/

/-- What changes a consistent-hashing model, or only asks it for a picker. -/
inductive HealthEvent
  | setHealthy (leafID : Nat) (healthy : Bool)
  | picker

namespace HealthEvent

/-- The health after the event. -/
def health (healthy : Nat → Bool) : HealthEvent → Nat → Bool
  | .setHealthy leafID b => Function.update healthy leafID b
  | .picker => healthy

def apply (m : ConsistentModel) : HealthEvent → ConsistentModel
  | .setHealthy leafID b => (m.setHealthy leafID b).1
  | .picker => m.picker.1

end HealthEvent

/-- `NewModel`, with the hash of the virtual nodes as a parameter. -/
def ConsistentModel.newModelBy (hash : Nat → Nat → UInt64) (t : Topology) : ConsistentModel :=
  ⟨.newMembership t, .newRingBy hash t.ids, none, false⟩

theorem ConsistentModel.newModel_eq (t : Topology) :
    newModel t = newModelBy Ring.virtualNode t := rfl

namespace HealthEvent

variable {m : ConsistentModel}

theorem apply_rest (m : ConsistentModel) (e : HealthEvent) :
    (e.apply m).template = m.template ∧ (e.apply m).membership.topology = m.membership.topology ∧
      (e.apply m).membership.healthy = e.health m.membership.healthy := by
  cases e <;> exact ⟨rfl, rfl, rfl⟩

theorem apply_cached (h : RingCache m.membership m.template m.ring m.dirty) (e : HealthEvent) :
    RingCache (e.apply m).membership (e.apply m).template (e.apply m).ring (e.apply m).dirty := by
  cases e with
  | setHealthy leafID b => exact h.setHealthy leafID b
  | picker => exact h.rebuilt

/-- The picker after any events has the template's subset of the final health. -/
theorem run_ring (h : RingCache m.membership m.template m.ring m.dirty) (events : List HealthEvent) :
    (events.foldl apply m).picker.2.ring =
      m.template.subset (events.foldl health m.membership.healthy) := by
  induction events generalizing m with
  | nil => exact h.ring_eq
  | cons e rest ih =>
    obtain ⟨ht, -, hh⟩ := apply_rest m e
    rw [List.foldl_cons, List.foldl_cons, ih (apply_cached h e), ht, hh]

end HealthEvent

/-- **Filtering is rebuilding**, once, many times, and through the cache of a model. -/
theorem subset_eq_rebuild (hash : Nat → Nat → UInt64) :
    (∀ ids healthy,
      (Ring.newRingBy hash ids).subset healthy = .newRingBy hash (ids.filter healthy)) ∧
    (∀ ids (changes : List (Nat → Bool)), changes.foldl Ring.subset (.newRingBy hash ids) =
      .newRingBy hash (ids.filter fun id => changes.all fun healthy => healthy id)) ∧
    ∀ (t : Topology) (events : List HealthEvent),
      (events.foldl HealthEvent.apply (.newModelBy hash t)).picker.2.ring =
        .newRingBy hash (t.ids.filter (events.foldl HealthEvent.health fun _ => false)) := by
  refine ⟨Ring.subset_newRingBy hash, fun ids changes => Ring.foldl_subset hash changes ids, ?_⟩
  intro t events
  have hrun := HealthEvent.run_ring (m := .newModelBy hash t) (RingCache.new hash t) events
  rw [hrun]
  exact Ring.subset_newRingBy hash t.ids _

/-! ## Homes -/

namespace Ring

/-- On nodes in order, the search finds the first node from the position on, or else
the first node of all. -/
theorem homeAt_eq {r : Ring} (h : r.nodes.Pairwise nodeLe) (position : UInt64) :
    r.homeAt position =
      (((r.nodes.find? fun x => decide (x.position ≥ position)).or r.nodes.head?).map
        RingNode.id).getD 0 := by
  have hmono : r.nodes.Pairwise fun x y =>
      decide (x.position ≥ position) = true → decide (y.position ≥ position) = true := by
    refine h.imp fun {x y} hxy hx => ?_
    rw [nodeLe_iff] at hxy
    rw [decide_eq_true_iff, ge_iff_le, UInt64.le_iff_toNat_le] at hx ⊢
    omega
  have hfind := Lib.getElem?_search _ hmono
  have hle := Lib.search_le r.nodes.length fun i =>
    (r.nodes[i]?).any fun x => decide (x.position ≥ position)
  unfold homeAt
  dsimp only
  rw [← hfind]
  generalize Lib.search r.nodes.length _ = idx at hle ⊢
  by_cases hidx : idx = r.nodes.length
  · rw [if_pos hidx, hidx, List.getElem?_eq_none (Nat.le_refl _), Option.none_or,
      List.head?_eq_getElem?]
    cases r.nodes[0]? <;> rfl
  · have hlt : idx < r.nodes.length := by omega
    rw [if_neg hidx, List.getElem?_eq_getElem hlt]
    rfl

theorem newRingBy_sorted (hash : Nat → Nat → UInt64) (ids : List Nat) :
    (newRingBy hash ids).nodes.Pairwise nodeLe :=
  List.pairwise_insertionSort _ _

theorem find?_filter_keep {α : Type} {q keep : α → Bool} {l : List α} {x : α}
    (h : l.find? q = some x) (hx : keep x = true) : (l.filter keep).find? q = some x := by
  obtain ⟨hq, i, hi, rfl, hbefore⟩ := List.find?_eq_some_iff_getElem.mp h
  rw [List.find?_filter, List.find?_eq_some_iff_getElem]
  refine ⟨by simp [hq, hx], i, hi, rfl, fun j hj => ?_⟩
  have hno := hbefore j hj
  simp_all

theorem homeAt_filter (hash : Nat → Nat → UInt64) (ids : List Nat) (x : Nat) (position : UInt64)
    (h : (newRingBy hash ids).homeAt position ≠ x) :
    (newRingBy hash (ids.filter (· != x))).homeAt position =
      (newRingBy hash ids).homeAt position := by
  rw [homeAt_eq (newRingBy_sorted hash _)] at h ⊢
  rw [homeAt_eq (newRingBy_sorted hash _), ← nodes_filter]
  generalize (newRingBy hash ids).nodes = nodes at h ⊢
  cases hfind : nodes.find? fun x => decide (x.position ≥ position) with
  | some y =>
    have hy : (y.id != x) = true := by simpa [hfind] using h
    rw [find?_filter_keep hfind hy]
    rfl
  | none =>
    -- nothing is left clockwise, before or after: the first node is the home
    have hnone : (nodes.filter fun y => y.id != x).find?
        (fun x => decide (x.position ≥ position)) = none :=
      List.find?_eq_none.mpr fun y hy => List.find?_eq_none.mp hfind y (List.mem_of_mem_filter hy)
    rw [hnone, Option.none_or, Option.none_or]
    cases nodes with
    | nil => rfl
    | cons y rest =>
      have hy : (y.id != x) = true := by simpa [hfind] using h
      rw [List.filter_cons, if_pos hy]
      rfl

end Ring

/-- **Minimal disruption.** Taking `x` off a ring, by a rebuild or by `Subset`, moves
only the functions whose home was `x`; a new id `y` only draws functions to itself. -/
theorem home_minimal_disruption (hash : Nat → Nat → UInt64) (ids : List Nat) (fn : UInt64) :
    (∀ x ∈ ids, (Ring.newRingBy hash (ids.filter (· != x))).home fn ≠
        (Ring.newRingBy hash ids).home fn → (Ring.newRingBy hash ids).home fn = x) ∧
    (∀ x ∈ ids, ((Ring.newRingBy hash ids).subset (· != x)).home fn ≠
        (Ring.newRingBy hash ids).home fn → (Ring.newRingBy hash ids).home fn = x) ∧
    ∀ y, y ∉ ids → (Ring.newRingBy hash (y :: ids)).home fn ≠ (Ring.newRingBy hash ids).home fn →
      (Ring.newRingBy hash (y :: ids)).home fn = y := by
  have hremove : ∀ x, (Ring.newRingBy hash (ids.filter (· != x))).home fn ≠
      (Ring.newRingBy hash ids).home fn → (Ring.newRingBy hash ids).home fn = x :=
    fun x hne => by_contra fun hx => hne (Ring.homeAt_filter hash ids x _ hx)
  refine ⟨fun x _ => hremove x, fun x _ => ?_, fun y hy hne => ?_⟩
  · rw [Ring.subset_newRingBy]
    exact hremove x
  · -- taking `y` off again gives back the ring without it
    have hids : (y :: ids).filter (· != y) = ids := by
      rw [List.filter_cons_of_neg (by simp)]
      refine List.filter_eq_self.mpr fun id hid => ?_
      have hid' : id ≠ y := fun he => hy (he ▸ hid)
      simpa using hid'
    by_contra hx
    have hback := Ring.homeAt_filter hash (y :: ids) y (functionPosition fn) hx
    rw [hids] at hback
    exact hne hback.symm

end HyperFaaS.Ingress
