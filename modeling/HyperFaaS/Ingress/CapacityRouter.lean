import HyperFaaS.Ingress.CapacityUpdates
import Mathlib.Data.List.Perm.Lattice

/-!
The available-capacity policy against a plain map from leaves and functions to
advertised values. `Router` is the model with its most recent picker, `Naive` the
map; both read the same events. Proved here: what the two loops of a pick find, and
that every run of the router follows the map (`Router.run_sim`).
-/

namespace HyperFaaS.Ingress

open Function AvailableCapacityModel

/-! ## The plain map -/

structure Naive where
  healthy : Nat → Bool
  /-- the latest value a leaf advertised for a function, none once withdrawn -/
  advert : Nat → UInt64 → Option Nat

namespace Naive

/-- The healthy leaves. -/
def routable (n : Naive) (t : Topology) : List LeafTarget :=
  t.leaves.filter fun x => n.healthy x.leafID

/-- The healthy leaves that advertise the function with the largest value. -/
def tied (n : Naive) (t : Topology) (fn : UInt64) : List LeafTarget :=
  (n.routable t).filter fun x => (n.advert x.leafID fn).any fun a =>
    (n.routable t).all fun y => (n.advert y.leafID fn).all fun b => decide (b ≤ a)

end Naive

inductive Event
  | replaceLeaf (s : LeafState)
  | apply (s : LeafState)
  | leafDisconnected (leafID : Nat)
  | picker
  | pick (req : RouteRequest)

def Naive.step (n : Naive) : Event → Naive
  | .replaceLeaf s =>
      ⟨update n.healthy s.leafID (decide (s.healthyWorkers > 0)),
        update n.advert s.leafID (live s.capacities)⟩
  | .apply s =>
      ⟨update n.healthy s.leafID (decide (s.healthyWorkers > 0)),
        update n.advert s.leafID (s.capacities.foldl
          (fun adv c => update adv c.functionId c.advertises) (n.advert s.leafID))⟩
  | .leafDisconnected leafID => { n with healthy := update n.healthy leafID false }
  | .picker => n
  | .pick _ => n

/-! ## The model and its most recent picker -/

structure Router where
  model : AvailableCapacityModel
  active : Option AvailableCapacityPicker

namespace Router

/-- After the first picker, an update that asks for a new picker gets one. -/
def publish (r : Router) (u : AvailableCapacityModel × UpdateResult) : Router :=
  match r.active with
  | none => ⟨u.1, none⟩
  | some p =>
      if u.2 = .publishPicker then ⟨u.1.picker.1, some u.1.picker.2⟩ else ⟨u.1, some p⟩

def step (r : Router) : Event → Router
  | .replaceLeaf s => r.publish (r.model.replaceLeaf s)
  | .apply s => r.publish (r.model.apply s)
  | .leafDisconnected leafID => r.publish (r.model.leafDisconnected leafID)
  | .picker => ⟨r.model.picker.1, some r.model.picker.2⟩
  | .pick req =>
      match r.active with
      | none => r
      | some p => ⟨r.model, some (p.pick r.model req).1⟩

def run (t : Topology) (events : List Event) : Router :=
  events.foldl step ⟨.newModel t, none⟩

end Router

def Naive.run (events : List Event) : Naive :=
  events.foldl Naive.step ⟨fun _ => false, fun _ _ => none⟩

/-! ## The loops of `Pick` -/

namespace AvailableCapacityPicker

variable {healthy : List Bool} {l : List CapacityRoute} {best ties : Nat}

/-- The routes of healthy leaves. -/
def usable (healthy : List Bool) (l : List CapacityRoute) : List CapacityRoute :=
  l.filter fun r => decide (healthy[r.leaf]? = some true)

/-- Those with the value `best`. -/
def bestOf (healthy : List Bool) (best : Nat) (l : List CapacityRoute) : List CapacityRoute :=
  (usable healthy l).filter fun r => decide (r.available = best)

theorem nth_eq (healthy : List Bool) (best : Nat) (l : List CapacityRoute) (n : Nat) :
    nth healthy best l n = (bestOf healthy best l)[n]? := by
  induction l generalizing n with
  | nil => rfl
  | cons r rest ih =>
    simp only [nth, bestOf, usable]
    by_cases hh : healthy[r.leaf]? = some true
    · by_cases hb : r.available = best
      · rw [if_pos ⟨hh, hb⟩]
        cases n with
        | zero => simp [hh, hb]
        | succ n =>
          show nth healthy best rest n = _
          rw [ih n]
          simp [hh, hb, bestOf, usable]
      · rw [if_neg (fun h => hb h.2), ih n]
        simp [hh, hb, bestOf, usable]
    · rw [if_neg (fun h => hh h.1), ih n]
      simp [hh, bestOf, usable]

theorem bestOf_cons (r : CapacityRoute) (rest : List CapacityRoute)
    (hh : healthy[r.leaf]? = some true) :
    (bestOf healthy best (r :: rest)).length =
      (bestOf healthy best rest).length + if r.available = best then 1 else 0 := by
  by_cases hb : r.available = best
  · simp [bestOf, usable, hh, hb]
  · simp [bestOf, usable, hh, hb]

theorem usable_skip (r : CapacityRoute) (rest : List CapacityRoute)
    (hh : ¬ healthy[r.leaf]? = some true) : usable healthy (r :: rest) = usable healthy rest := by
  simp [usable, hh]

theorem scan_found (healthy : List Bool) (l : List CapacityRoute) (best ties : Nat) (ht : 0 < ties) :
    best ≤ (scan healthy l best ties).1 ∧ 0 < (scan healthy l best ties).2 ∧
      (∀ r ∈ usable healthy l, r.available ≤ (scan healthy l best ties).1) ∧
      (scan healthy l best ties).2 =
        (if (scan healthy l best ties).1 = best then ties else 0) +
          (bestOf healthy (scan healthy l best ties).1 l).length := by
  induction l generalizing best ties with
  | nil => exact ⟨le_rfl, ht, by simp [usable], by simp [scan, bestOf, usable]⟩
  | cons r rest ih =>
    by_cases hh : healthy[r.leaf]? = some true
    · have hmem : ∀ x, x ∈ usable healthy (r :: rest) ↔ x = r ∨ x ∈ usable healthy rest := by
        intro x
        simp [usable, hh]
      by_cases hgt : r.available > best
      · have he : scan healthy (r :: rest) best ties = scan healthy rest r.available 1 := by
          simp [scan, hh, hgt]
        obtain ⟨h1, h2, h3, h4⟩ := ih r.available 1 Nat.one_pos
        rw [he]
        refine ⟨by omega, h2, fun x hx => ?_, ?_⟩
        · rcases (hmem x).mp hx with rfl | hx
          · exact h1
          · exact h3 x hx
        · rw [bestOf_cons r rest hh]
          split_ifs at h4 ⊢ <;> omega
      · by_cases heq : r.available = best
        · have he : scan healthy (r :: rest) best ties = scan healthy rest best (ties + 1) := by
            simp only [scan, hh, if_true, heq]
            rw [if_neg (by omega)]
          obtain ⟨h1, h2, h3, h4⟩ := ih best (ties + 1) (Nat.succ_pos _)
          rw [he]
          refine ⟨h1, h2, fun x hx => ?_, ?_⟩
          · rcases (hmem x).mp hx with rfl | hx
            · omega
            · exact h3 x hx
          · rw [bestOf_cons r rest hh]
            split_ifs at h4 ⊢ <;> omega
        · have he : scan healthy (r :: rest) best ties = scan healthy rest best ties := by
            simp only [scan, hh, if_true, heq, if_false]
            rw [if_neg (by omega)]
          obtain ⟨h1, h2, h3, h4⟩ := ih best ties ht
          rw [he]
          refine ⟨h1, h2, fun x hx => ?_, ?_⟩
          · rcases (hmem x).mp hx with rfl | hx
            · omega
            · exact h3 x hx
          · rw [bestOf_cons r rest hh]
            split_ifs at h4 ⊢ <;> omega
    · have he : scan healthy (r :: rest) best ties = scan healthy rest best ties := by
        simp [scan, hh]
      rw [he, bestOf, usable_skip r rest hh]
      exact ih best ties ht

theorem scan_spec (healthy : List Bool) (l : List CapacityRoute) :
    (usable healthy l = [] ∧ (scan healthy l 0 0).2 = 0) ∨
      (0 < (scan healthy l 0 0).2 ∧
        (scan healthy l 0 0).2 = (bestOf healthy (scan healthy l 0 0).1 l).length ∧
        ∀ r ∈ usable healthy l, r.available ≤ (scan healthy l 0 0).1) := by
  induction l with
  | nil => exact .inl ⟨rfl, rfl⟩
  | cons r rest ih =>
    by_cases hh : healthy[r.leaf]? = some true
    · have he : scan healthy (r :: rest) 0 0 = scan healthy rest r.available 1 := by
        simp [scan, hh]
      obtain ⟨h1, h2, h3, h4⟩ := scan_found healthy rest r.available 1 Nat.one_pos
      rw [he]
      refine .inr ⟨h2, ?_, fun x hx => ?_⟩
      · rw [bestOf_cons r rest hh]
        split_ifs at h4 ⊢ <;> omega
      · have hx' : x = r ∨ x ∈ usable healthy rest := by simpa [usable, hh] using hx
        rcases hx' with rfl | hx'
        · exact h1
        · exact h3 x hx'
    · have he : scan healthy (r :: rest) 0 0 = scan healthy rest 0 0 := by simp [scan, hh]
      rw [he, bestOf, usable_skip r rest hh]
      exact ih

end AvailableCapacityPicker

/-! ## The simulation -/

namespace Router

variable {t : Topology} {r : Router} {n : Naive} {p : AvailableCapacityPicker}

/-- The router and the map agree. -/
structure Sim (t : Topology) (r : Router) (n : Naive) : Prop where
  topology : r.model.membership.topology = t
  health : r.model.membership.healthy = n.healthy
  map : ∃ adv, r.model.Refines adv ∧ ∀ i x, t.leaves[i]? = some x → adv i = n.advert x.leafID
  used : r.active.isSome = true → r.model.active = true
  picker : ∀ p, r.active = some p → p.leaves = t.leaves ∧ p.healthyLeaves = n.routable t ∧
    p.healthy = t.leaves.map fun x => n.healthy x.leafID

theorem Sim.build (ht : r.model.membership.topology = t)
    (hh : r.model.membership.healthy = n.healthy)
    (hm : ∃ adv, r.model.Refines adv ∧ ∀ i x, t.leaves[i]? = some x → adv i = n.advert x.leafID) :
    Sim t ⟨r.model.picker.1, some r.model.picker.2⟩ n := by
  obtain ⟨adv, hr, hadv⟩ := hm
  obtain ⟨hpr, hpm, hpa⟩ := hr.picker
  have hmem : r.model.commit.1.membership = r.model.membership :=
    (AvailableCapacityModel.commit_rest r.model).membership
  refine ⟨by rw [hpm, ht], by rw [hpm, hh], ⟨adv, hpr, hadv⟩, fun _ => hpa, ?_⟩
  intro p hp
  cases hp
  simp only [AvailableCapacityModel.picker, hmem, ht, hh, Membership.healthyLeaves, Naive.routable]
  exact ⟨trivial, trivial, trivial⟩

/-- An update keeps the agreement, if it asks for a picker whenever health changed. -/
theorem Sim.publish {u : AvailableCapacityModel × UpdateResult} {n' : Naive} (h : Sim t r n)
    (ht : u.1.membership.topology = t) (hh : u.1.membership.healthy = n'.healthy)
    (hm : ∃ adv, u.1.Refines adv ∧ ∀ i x, t.leaves[i]? = some x → adv i = n'.advert x.leafID)
    (ha : u.1.active = r.model.active)
    (hres : r.model.active = true → u.2 ≠ .publishPicker → n'.healthy = n.healthy) :
    Sim t (r.publish u) n' := by
  unfold Router.publish
  cases hact : r.active with
  | none =>
    exact ⟨ht, hh, hm, fun h' => (Bool.false_ne_true h').elim, nofun⟩
  | some p =>
    dsimp only
    have hused := h.used (by rw [hact]; rfl)
    by_cases hpub : u.2 = .publishPicker
    · rw [if_pos hpub]
      exact Sim.build (r := ⟨u.1, none⟩) ht hh hm
    · rw [if_neg hpub]
      refine ⟨ht, hh, hm, fun _ => ha.trans hused, ?_⟩
      intro q hq
      cases hq
      have hsame := hres hused hpub
      have hp := h.picker p hact
      rw [Naive.routable] at hp ⊢
      rw [hsame]
      exact hp

/-- What a delta does to the map of one leaf, by position and by id. -/
theorem applyDelta_same (adv : Advertised) (leaf : Nat) (caps : List FunctionCapacity) :
    adv.applyDelta leaf caps leaf = caps.foldl
      (fun a c => update a c.functionId c.advertises) (adv leaf) := by
  induction caps generalizing adv with
  | nil => rfl
  | cons c rest ih =>
    refine (ih (adv.set leaf c.functionId c.advertises)).trans ?_
    simp [Advertised.set]

theorem advert_update {adv adv' : Advertised} {leafID leaf : Nat} {v : UInt64 → Option Nat}
    (hidx : t.index leafID = some leaf)
    (hadv : ∀ i x, t.leaves[i]? = some x → adv i = n.advert x.leafID)
    (hsame : adv' leaf = v) (hother : ∀ i, i ≠ leaf → adv' i = adv i) :
    ∀ i x, t.leaves[i]? = some x → adv' i = update n.advert leafID v x.leafID := by
  intro i x hx
  obtain ⟨y, hy, hid⟩ := Topology.index_some hidx
  by_cases hi : i = leaf
  · subst hi
    rw [hx] at hy
    cases hy
    rw [hid, update_self]
    exact hsame
  · have hne : x.leafID ≠ leafID := fun he => hi (Topology.eq_of_leafID hx hy (he.trans hid.symm))
    rw [hother i hi, update_of_ne hne]
    exact hadv i x hx

theorem advert_unknown {adv : Advertised} {leafID : Nat} {v : UInt64 → Option Nat}
    (hidx : t.index leafID = none)
    (hadv : ∀ i x, t.leaves[i]? = some x → adv i = n.advert x.leafID) :
    ∀ i x, t.leaves[i]? = some x → adv i = update n.advert leafID v x.leafID := by
  intro i x hx
  have hne : x.leafID ≠ leafID := by
    rintro rfl
    rw [Topology.index_eq hx] at hidx
    cases hidx
  rw [update_of_ne hne]
  exact hadv i x hx

theorem Sim.health_update (h : Sim t r n) (leafID : Nat) (b : Bool) :
    (r.model.membership.setHealthy leafID b).1.healthy = update n.healthy leafID b := by
  rw [← h.health]
  rfl

theorem Sim.step (h : Sim t r n) (e : Event) : Sim t (r.step e) (n.step e) := by
  obtain ⟨adv, hr, hadv⟩ := h.map
  cases e with
  | replaceLeaf s =>
    obtain ⟨href, hm, ha, hres⟩ := hr.replaceLeaf s
    refine h.publish (by rw [hm]; exact h.topology) ?_ ?_ ha ?_
    · rw [hm]
      exact h.health_update _ _
    · rw [h.topology] at href
      cases hidx : t.index s.leafID with
      | none =>
        rw [hidx] at href
        exact ⟨adv, href, advert_unknown hidx hadv⟩
      | some leaf =>
        rw [hidx] at href
        exact ⟨_, href, advert_update hidx hadv (by simp [Advertised.replace])
          (fun i hi => by simp [Advertised.replace, hi])⟩
    · intro hact hne
      have hsame := Membership.setHealthy_same (hres hact hne)
      exact (h.health_update _ _).symm.trans (hsame.trans h.health)
  | apply s =>
    obtain ⟨href, hm, ha, hres⟩ := hr.apply s
    refine h.publish (by rw [hm]; exact h.topology) ?_ ?_ ha ?_
    · rw [hm]
      exact h.health_update _ _
    · rw [h.topology] at href
      cases hidx : t.index s.leafID with
      | none =>
        rw [hidx] at href
        exact ⟨adv, href, advert_unknown hidx hadv⟩
      | some leaf =>
        rw [hidx] at href
        obtain ⟨y, hy, hid⟩ := Topology.index_some hidx
        refine ⟨adv.applyDelta leaf s.capacities, href, advert_update hidx hadv ?_
          (fun i hi => applyDelta_other adv s.capacities hi)⟩
        rw [applyDelta_same, hadv leaf y hy, hid]
    · intro hact hne
      have hsame := Membership.setHealthy_same (hres hact hne)
      exact (h.health_update _ _).symm.trans (hsame.trans h.health)
  | leafDisconnected leafID =>
    obtain ⟨href, hm, ha, hres⟩ := hr.leafDisconnected leafID
    refine h.publish (by rw [hm]; exact h.topology) ?_ ⟨adv, href, hadv⟩ ha ?_
    · rw [hm]
      exact h.health_update _ _
    · intro _ hne
      have hsame := Membership.setHealthy_same (hres hne)
      exact (h.health_update _ _).symm.trans (hsame.trans h.health)
  | picker => exact Sim.build h.topology h.health h.map
  | pick req =>
    show Sim t (match r.active with
      | none => r
      | some p => ⟨r.model, some (p.pick r.model req).1⟩) n
    cases hact : r.active with
    | none => exact h
    | some p =>
      refine ⟨h.topology, h.health, h.map, fun _ => h.used (by rw [hact]; rfl), ?_⟩
      intro q hq
      cases hq
      have hsame : (p.pick r.model req).1.leaves = p.leaves ∧
          (p.pick r.model req).1.healthyLeaves = p.healthyLeaves ∧
          (p.pick r.model req).1.healthy = p.healthy := by
        unfold AvailableCapacityPicker.pick
        dsimp only
        split_ifs
        · exact ⟨rfl, rfl, rfl⟩
        · split
          · exact ⟨rfl, rfl, rfl⟩
          · split_ifs
            · exact ⟨rfl, rfl, rfl⟩
            · split
              · exact ⟨rfl, rfl, rfl⟩
              · split <;> exact ⟨rfl, rfl, rfl⟩
      rw [hsame.1, hsame.2.1, hsame.2.2]
      exact h.picker p hact

theorem init_sim (t : Topology) :
    Sim t ⟨.newModel t, none⟩ ⟨fun _ => false, fun _ _ => none⟩ where
  topology := rfl
  health := rfl
  map := ⟨_, newModel_refines t, fun _ _ _ => rfl⟩
  used := fun h => (Bool.false_ne_true h).elim
  picker := nofun

/-- **Every run** of the router follows the map. -/
theorem run_sim (t : Topology) (events : List Event) :
    Sim t (Router.run t events) (Naive.run events) := by
  have hall : ∀ (l : List Event) r n, Sim t r n →
      Sim t (l.foldl Router.step r) (l.foldl Naive.step n) := by
    intro l
    induction l with
    | nil => exact fun r n h => h
    | cons e l ih => exact fun r n h => ih _ _ (h.step e)
  exact hall events _ _ (init_sim t)

end Router

end HyperFaaS.Ingress
