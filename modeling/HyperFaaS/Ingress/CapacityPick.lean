import HyperFaaS.Ingress.CapacityRouter

/-!
Picks of the available-capacity policy, read off the plain map: which leaf, and
in which order the tied leaves come.
-/

namespace HyperFaaS.Ingress

variable {t : Topology} {r : Router} {n : Naive} {p : AvailableCapacityPicker} {fn : UInt64}

namespace Naive

theorem mem_routable {x : LeafTarget} :
    x ∈ n.routable t ↔ x ∈ t.leaves ∧ n.healthy x.leafID = true := by
  simp [routable]

theorem mem_tied {x : LeafTarget} : x ∈ n.tied t fn ↔
    x ∈ t.leaves ∧ n.healthy x.leafID = true ∧ ∃ a, n.advert x.leafID fn = some a ∧
      ∀ y ∈ t.leaves, n.healthy y.leafID = true → ∀ b, n.advert y.leafID fn = some b → b ≤ a := by
  simp only [tied, List.mem_filter, mem_routable, Option.any_eq_true, List.all_eq_true,
    Option.all_eq_true, decide_eq_true_eq, and_imp, and_assoc]

end Naive

namespace Router

open AvailableCapacityPicker

theorem Sim.entries (h : Sim t r n) (hact : r.active = some p) (fn : UInt64) :
    Lib.Sorted CapacityRoute.leaf ((view r.model fn).getD []) ∧
      ∀ e, e ∈ (view r.model fn).getD [] ↔
        ∃ x, t.leaves[e.leaf]? = some x ∧ n.advert x.leafID fn = some e.available := by
  obtain ⟨adv, hr, hadv⟩ := h.map
  obtain ⟨hd, hk⟩ := hr.settled (h.used (by rw [hact]; rfl))
  have hindex := hr.tracks.index
  -- by position the routes are those of the index
  have hmain : Lib.Sorted CapacityRoute.leaf ((view r.model fn).getD []) ∧
      ∀ e, e ∈ (view r.model fn).getD [] ↔ adv e.leaf fn = some e.available := by
    unfold view
    rcases hindex.table hk with hpub | ⟨hpub, hnone⟩
    · rw [hpub]
      dsimp only
      cases hc : r.model.cells fn with
      | none => exact ⟨List.Pairwise.nil, fun e => by simp [hindex.missing fn hc]⟩
      | some c =>
        have hclean : (r.model.cell c).dirty = false := by
          by_contra hdirty
          have hmem := (hindex.dirty c).mpr (by simpa using hdirty)
          rw [hd] at hmem
          cases hmem
        dsimp only
        rw [hindex.clean fn c hc hclean]
        exact ⟨hindex.sorted fn c hc, hindex.parts fn c hc⟩
    · rw [hpub]
      exact ⟨List.Pairwise.nil, fun e => by simp [hindex.missing fn (hnone fn)]⟩
  refine ⟨hmain.1, fun e => ?_⟩
  rw [hmain.2 e]
  constructor
  · intro he
    have hlt := hr.inside e.leaf fn (by rw [he]; rfl)
    rw [h.topology] at hlt
    have hx := List.getElem?_eq_getElem hlt
    exact ⟨_, hx, by rw [← hadv e.leaf _ hx, he]⟩
  · rintro ⟨x, hx, ha⟩
    rw [hadv e.leaf x hx, ha]

theorem Sim.healthy_at (h : Sim t r n) (hact : r.active = some p) {i : Nat} {x : LeafTarget}
    (hx : t.leaves[i]? = some x) : p.healthy[i]? = some true ↔ n.healthy x.leafID = true := by
  rw [(h.picker p hact).2.2, List.getElem?_map, hx]
  simp

theorem Sim.mem_usable (h : Sim t r n) (hact : r.active = some p) (fn : UInt64) (e : CapacityRoute) :
    e ∈ usable p.healthy ((view r.model fn).getD []) ↔ ∃ x, t.leaves[e.leaf]? = some x ∧
      n.healthy x.leafID = true ∧ n.advert x.leafID fn = some e.available := by
  rw [usable, List.mem_filter, (h.entries hact fn).2 e, decide_eq_true_eq]
  constructor
  · rintro ⟨⟨x, hx, ha⟩, hh⟩
    exact ⟨x, hx, (h.healthy_at hact hx).mp hh, ha⟩
  · rintro ⟨x, hx, hh, ha⟩
    exact ⟨⟨x, hx, ha⟩, (h.healthy_at hact hx).mpr hh⟩

/-- The leaf of a route. -/
def leafOf (t : Topology) (e : CapacityRoute) : LeafTarget :=
  (t.leaves[e.leaf]?).getD ⟨0, "", none⟩

/-- **The tied routes are the tied leaves**, in the same order. -/
theorem Sim.tied_eq (h : Sim t r n) (hact : r.active = some p) {best : Nat}
    (hbest : bestOf p.healthy best ((view r.model fn).getD []) ≠ [])
    (hmax : ∀ e ∈ usable p.healthy ((view r.model fn).getD []), e.available ≤ best) :
    (bestOf p.healthy best ((view r.model fn).getD [])).map (leafOf t) = n.tied t fn := by
  have hmem : ∀ e, e ∈ bestOf p.healthy best ((view r.model fn).getD []) ↔
      ∃ x, t.leaves[e.leaf]? = some x ∧ n.healthy x.leafID = true ∧
        n.advert x.leafID fn = some best ∧ e.available = best := by
    intro e
    rw [bestOf, List.mem_filter, h.mem_usable hact fn e, decide_eq_true_eq]
    constructor
    · rintro ⟨⟨x, hx, hh, ha⟩, he⟩
      exact ⟨x, hx, hh, he ▸ ha, he⟩
    · rintro ⟨x, hx, hh, ha, he⟩
      exact ⟨⟨x, hx, hh, he ▸ ha⟩, he⟩
  have hof : ∀ e x, t.leaves[e.leaf]? = some x → leafOf t e = x := by
    intro e x hx
    rw [leafOf, hx]
    rfl
  obtain ⟨e0, he0⟩ := List.exists_mem_of_ne_nil _ hbest
  -- both lists are sorted by id, so it is enough that they have the same members
  have hsorted : ((bestOf p.healthy best ((view r.model fn).getD [])).map (leafOf t)).Pairwise
      fun x y => x.leafID < y.leafID := by
    refine List.pairwise_map.mpr ?_
    refine List.Pairwise.imp_of_mem ?_ (((h.entries hact fn).1.filter _).filter _)
    intro a b ha hb hab
    obtain ⟨x, hx, -⟩ := (hmem a).mp ha
    obtain ⟨y, hy, -⟩ := (hmem b).mp hb
    rw [hof a x hx, hof b y hy]
    obtain ⟨hil, rfl⟩ := List.getElem?_eq_some_iff.mp hx
    obtain ⟨hjl, rfl⟩ := List.getElem?_eq_some_iff.mp hy
    exact List.pairwise_iff_getElem.mp t.sorted _ _ hil hjl hab
  have hsorted' : (n.tied t fn).Pairwise fun x y => x.leafID < y.leafID :=
    (t.sorted.filter _).filter _
  have hnodup : ∀ l : List LeafTarget, (l.Pairwise fun x y => x.leafID < y.leafID) → l.Nodup :=
    fun l hl => hl.imp fun hlt he => (he ▸ hlt).ne rfl
  have hperm := (List.perm_ext_iff_of_nodup (hnodup _ hsorted) (hnodup _ hsorted')).mpr ?_
  · exact hperm.eq_of_pairwise (fun a b _ _ hab hba => absurd hab (by omega)) hsorted hsorted'
  · intro y
    rw [List.mem_map, Naive.mem_tied]
    constructor
    · rintro ⟨e, he, rfl⟩
      obtain ⟨x, hx, hh, ha, -⟩ := (hmem e).mp he
      rw [hof e x hx]
      refine ⟨List.mem_of_getElem? hx, hh, best, ha, fun z hz hzh b hb => ?_⟩
      obtain ⟨j, hj⟩ := List.mem_iff_getElem?.mp hz
      exact hmax ⟨j, b⟩ ((h.mem_usable hact fn ⟨j, b⟩).mpr ⟨z, hj, hzh, hb⟩)
    · rintro ⟨hy, hh, a, ha, hall⟩
      obtain ⟨i, hi⟩ := List.mem_iff_getElem?.mp hy
      obtain ⟨x0, hx0, hh0, ha0, -⟩ := (hmem e0).mp he0
      have hle := hmax ⟨i, a⟩ ((h.mem_usable hact fn ⟨i, a⟩).mpr ⟨y, hi, hh, ha⟩)
      have hge := hall x0 (List.mem_of_getElem? hx0) hh0 best ha0
      have heq : a = best := by
        have : a ≤ best := hle
        omega
      exact ⟨⟨i, best⟩, (hmem _).mpr ⟨y, hi, hh, heq ▸ ha, rfl⟩, hof _ y hi⟩

theorem Sim.tied_nil (h : Sim t r n) (hact : r.active = some p)
    (hnone : usable p.healthy ((view r.model fn).getD []) = []) : n.tied t fn = [] := by
  refine List.eq_nil_iff_forall_not_mem.mpr fun y hy => ?_
  obtain ⟨hy, hh, a, ha, -⟩ := Naive.mem_tied.mp hy
  obtain ⟨i, hi⟩ := List.mem_iff_getElem?.mp hy
  have hmem := (h.mem_usable hact fn ⟨i, a⟩).mpr ⟨y, hi, hh, ha⟩
  rw [hnone] at hmem
  cases hmem

theorem pick_eq (p : AvailableCapacityPicker) (m : AvailableCapacityModel) (req : RouteRequest)
    (hne : p.healthyLeaves ≠ []) :
    p.pick m req =
      if (scan p.healthy ((view m req.functionID).getD []) 0 0).2 = 0 then
        (p, p.coldFallback req.functionID)
      else
        match nth p.healthy (scan p.healthy ((view m req.functionID).getD []) 0 0).1
            ((view m req.functionID).getD [])
            (p.counter.toNat % (scan p.healthy ((view m req.functionID).getD []) 0 0).2) with
        | none => ({ p with counter := p.counter + 1 },
            ({ p with counter := p.counter + 1 } : AvailableCapacityPicker).coldFallback
              req.functionID)
        | some e =>
            match p.leaves[e.leaf]? with
            | some target => ({ p with counter := p.counter + 1 },
                .ok { target with reason := some .availableCapacity })
            | none => ({ p with counter := p.counter + 1 }, .error .indexOutOfRange) := by
  unfold AvailableCapacityPicker.pick
  rw [if_neg hne]
  cases hv : view m req.functionID with
  | none => rfl
  | some entries => rfl

/-- **A pick**, by the map. -/
theorem Sim.pick (h : Sim t r n) (hact : r.active = some p) (req : RouteRequest) :
    (n.routable t = [] → p.pick r.model req = (p, .error .noHealthyLeaves)) ∧
    (n.routable t ≠ [] → n.tied t req.functionID = [] → ∃ x,
      (n.routable t)[(hashFunctionID req.functionID).toNat % (n.routable t).length]? = some x ∧
      p.pick r.model req = (p, .ok { x with reason := some .coldCacheFallback })) ∧
    (n.tied t req.functionID ≠ [] → ∃ x,
      (n.tied t req.functionID)[p.counter.toNat % (n.tied t req.functionID).length]? = some x ∧
      p.pick r.model req =
        ({ p with counter := p.counter + 1 },
          .ok { x with reason := some .availableCapacity })) := by
  obtain ⟨hleaves, hroutable, -⟩ := h.picker p hact
  refine ⟨fun hnil => ?_, fun hne hnil => ?_, fun htied => ?_⟩
  · unfold AvailableCapacityPicker.pick
    rw [if_pos (hroutable.trans hnil)]
  · have hlt : (hashFunctionID req.functionID).toNat % (n.routable t).length <
        (n.routable t).length := Nat.mod_lt _ (List.length_pos_of_ne_nil hne)
    have hget := List.getElem?_eq_getElem hlt
    refine ⟨_, hget, ?_⟩
    rw [pick_eq p r.model req (hroutable ▸ hne), if_pos]
    · unfold AvailableCapacityPicker.coldFallback
      rw [hroutable, hget]
    · rcases scan_spec p.healthy ((view r.model req.functionID).getD []) with
        ⟨-, hzero⟩ | ⟨hpos, hlen, hmax⟩
      · exact hzero
      · rw [hlen] at hpos
        have heq := h.tied_eq hact (List.ne_nil_of_length_pos hpos) hmax
        rw [hnil, List.map_eq_nil_iff] at heq
        rw [heq] at hpos
        cases hpos
  · have hne : n.routable t ≠ [] := by
      intro hnil
      rw [Naive.tied, hnil] at htied
      exact htied rfl
    rcases scan_spec p.healthy ((view r.model req.functionID).getD []) with
      ⟨hnone, -⟩ | ⟨hpos, hlen, hmax⟩
    · exact absurd (h.tied_nil hact hnone) htied
    · have heq := h.tied_eq hact (List.ne_nil_of_length_pos (hlen ▸ hpos)) hmax
      have hlen' : (n.tied t req.functionID).length =
          (scan p.healthy ((view r.model req.functionID).getD []) 0 0).2 := by
        rw [← heq, List.length_map, ← hlen]
      obtain ⟨e, hget⟩ : ∃ e, (bestOf p.healthy
          (scan p.healthy ((view r.model req.functionID).getD []) 0 0).1
          ((view r.model req.functionID).getD []))[p.counter.toNat %
            (scan p.healthy ((view r.model req.functionID).getD []) 0 0).2]? = some e := by
        have hlt := Nat.mod_lt p.counter.toNat hpos
        exact ⟨_, List.getElem?_eq_getElem (by omega)⟩
      rw [pick_eq p r.model req (hroutable ▸ hne), if_neg (by omega), nth_eq, hget]
      have hmem := List.mem_of_getElem? hget
      rw [bestOf, List.mem_filter, h.mem_usable hact req.functionID e] at hmem
      obtain ⟨⟨x, hx, -⟩, -⟩ := hmem
      refine ⟨x, ?_, ?_⟩
      · rw [hlen', ← heq, List.getElem?_map, hget]
        simp [leafOf, hx]
      · dsimp only
        rw [hleaves, hx]

/-! ## Consecutive picks -/

/-- The picker after `k` picks of one request, with no update between them. -/
def picks (p : AvailableCapacityPicker) (m : AvailableCapacityModel) (req : RouteRequest) :
    Nat → AvailableCapacityPicker
  | 0 => p
  | k + 1 => ((picks p m req k).pick m req).1

theorem Sim.picks (h : Sim t r n) (hact : r.active = some p) (req : RouteRequest)
    (htied : n.tied t req.functionID ≠ []) (k : Nat) :
    picks p r.model req k = { p with counter := p.counter + UInt64.ofNat k } := by
  induction k with
  | zero =>
    have hz : p.counter + UInt64.ofNat 0 = p.counter := by simp
    rw [hz]
    rfl
  | succ k ih =>
    have hs : Sim t ⟨r.model, some { p with counter := p.counter + UInt64.ofNat k }⟩ n :=
      ⟨h.topology, h.health, h.map, fun _ => h.used (by rw [hact]; rfl), fun q hq => by
        cases hq
        exact h.picker p hact⟩
    obtain ⟨x, -, hpick⟩ := (hs.pick rfl req).2.2 htied
    show ((Router.picks p r.model req k).pick r.model req).1 = _
    rw [ih, hpick]
    have hadd : p.counter + UInt64.ofNat k + 1 = p.counter + UInt64.ofNat (k + 1) := by
      rw [UInt64.ofNat_add, UInt64.add_assoc]
      rfl
    simp only [hadd]

/-- **The index refines the map.** After any events, with `p` the most recent
picker: it errs exactly when no leaf is healthy; where healthy leaves advertise
the function it picks one of those with the largest value, otherwise the healthy
leaf of the function's hash; and consecutive picks go round the tied leaves one
by one, as long as the counter does not wrap. -/
theorem capacity_index_refines (t : Topology) (events : List Event)
    (hp : (Router.run t events).active = some p) (req : RouteRequest) :
    ((∃ e, (p.pick (Router.run t events).model req).2 = .error e) ↔
      ∀ x ∈ t.leaves, (Naive.run events).healthy x.leafID = false) ∧
    (∀ x, x ∈ (Naive.run events).tied t req.functionID ↔
      x ∈ t.leaves ∧ (Naive.run events).healthy x.leafID = true ∧
        ∃ a, (Naive.run events).advert x.leafID req.functionID = some a ∧
          ∀ y ∈ t.leaves, (Naive.run events).healthy y.leafID = true →
            ∀ b, (Naive.run events).advert y.leafID req.functionID = some b → b ≤ a) ∧
    ((∃ x ∈ t.leaves, (Naive.run events).healthy x.leafID = true ∧
        ((Naive.run events).advert x.leafID req.functionID).isSome = true) →
      (Naive.run events).tied t req.functionID ≠ []) ∧
    ((Naive.run events).tied t req.functionID = [] → (Naive.run events).routable t ≠ [] →
      ∃ x, ((Naive.run events).routable t)[(hashFunctionID req.functionID).toNat %
          ((Naive.run events).routable t).length]? = some x ∧
        (p.pick (Router.run t events).model req).2 =
          .ok { x with reason := some .coldCacheFallback }) ∧
    ((Naive.run events).tied t req.functionID ≠ [] → ∀ k, p.counter.toNat + k < 2 ^ 64 →
      ∃ x, ((Naive.run events).tied t req.functionID)[(p.counter.toNat + k) %
          ((Naive.run events).tied t req.functionID).length]? = some x ∧
        ((picks p (Router.run t events).model req k).pick (Router.run t events).model req).2 =
          .ok { x with reason := some .availableCapacity }) := by
  have h := run_sim t events
  obtain ⟨herr, hcold, hwarm⟩ := h.pick hp req
  generalize Naive.run events = n at *
  have hroutable : n.routable t = [] ↔ ∀ x ∈ t.leaves, n.healthy x.leafID = false := by
    simp [Naive.routable]
  refine ⟨⟨?_, ?_⟩, fun x => Naive.mem_tied, ?_, ?_, ?_⟩
  · rintro ⟨e, he⟩
    rw [← hroutable]
    by_contra hne
    by_cases htied : n.tied t req.functionID = []
    · obtain ⟨x, -, hx⟩ := hcold hne htied
      rw [hx] at he
      cases he
    · obtain ⟨x, -, hx⟩ := hwarm htied
      rw [hx] at he
      cases he
  · intro hall
    exact ⟨.noHealthyLeaves, by rw [herr (hroutable.mpr hall)]⟩
  · -- the largest of the advertised values is attained
    rintro ⟨x, hx, hh, ha⟩
    rcases scan_spec p.healthy ((view (Router.run t events).model req.functionID).getD []) with
      ⟨hnone, -⟩ | ⟨hpos, hlen, hmax⟩
    · obtain ⟨a, ha⟩ := Option.isSome_iff_exists.mp ha
      obtain ⟨i, hi⟩ := List.mem_iff_getElem?.mp hx
      have hmem := (h.mem_usable hp req.functionID ⟨i, a⟩).mpr ⟨x, hi, hh, ha⟩
      rw [hnone] at hmem
      cases hmem
    · have heq := h.tied_eq hp (List.ne_nil_of_length_pos (hlen ▸ hpos)) hmax
      rw [← heq, ne_eq, List.map_eq_nil_iff]
      exact List.ne_nil_of_length_pos (hlen ▸ hpos)
  · intro htied hne
    obtain ⟨x, hx, hpick⟩ := hcold hne htied
    exact ⟨x, hx, by rw [hpick]⟩
  · intro htied k hk
    have hs : Sim t ⟨(Router.run t events).model,
        some { p with counter := p.counter + UInt64.ofNat k }⟩ n :=
      ⟨h.topology, h.health, h.map, fun _ => h.used (by rw [hp]; rfl), fun q hq => by
        cases hq
        exact h.picker p hp⟩
    obtain ⟨x, hx, hpick⟩ := (hs.pick rfl req).2.2 htied
    have hcount : (p.counter + UInt64.ofNat k).toNat = p.counter.toNat + k := by
      rw [UInt64.toNat_add, UInt64.toNat_ofNat']
      omega
    rw [hcount] at hx
    refine ⟨x, hx, ?_⟩
    rw [h.picks hp req htied k, hpick]

def threeLeaves : Topology := ⟨[⟨1, "a", none⟩, ⟨2, "b", none⟩, ⟨3, "c", none⟩], by decide⟩

/-- A full snapshot of a healthy leaf that advertises one slot for function 5. -/
def oneSlot (leafID : Nat) : LeafState :=
  ⟨1, leafID, 1, true, 1, 0, false, 0, false, [⟨5, 1, 1, 0, .available, false⟩]⟩

/-- The three leaves tie for function 5. -/
def threeTied : List Event :=
  [.replaceLeaf (oneSlot 1), .replaceLeaf (oneSlot 2), .replaceLeaf (oneSlot 3), .picker]

theorem threeTied_active :
    ∃ p, (run threeLeaves threeTied).active = some p ∧ p.counter = 0 := by
  have htest : ((run threeLeaves threeTied).active.any fun p => p.counter == 0) = true := by
    decide +kernel
  rw [Option.any_eq_true] at htest
  obtain ⟨p, hp, hc⟩ := htest
  exact ⟨p, hp, by simpa using hc⟩

theorem threeTied_tied : (Naive.run threeTied).tied threeLeaves 5 = threeLeaves.leaves := by
  decide +kernel

/-- The second of two consecutive picks is the second leaf. -/
theorem capacity_index_three : ∃ p x, (Router.run threeLeaves threeTied).active = some p ∧
    threeLeaves.leaves[1]? = some x ∧
    ((picks p (Router.run threeLeaves threeTied).model ⟨0, 5⟩ 1).pick
      (Router.run threeLeaves threeTied).model ⟨0, 5⟩).2 =
        .ok { x with reason := some .availableCapacity } := by
  obtain ⟨p, hp, hc⟩ := threeTied_active
  obtain ⟨-, -, -, -, hwarm⟩ := capacity_index_refines threeLeaves threeTied hp ⟨0, 5⟩
  rw [threeTied_tied] at hwarm
  obtain ⟨x, hx, hpick⟩ := hwarm (by decide) 1 (by rw [hc]; decide)
  rw [hc] at hx
  exact ⟨p, x, hp, hx, hpick⟩

/-! ## The wrap of the counter -/

theorem run_picks (r : Router) (req : RouteRequest) (k : Nat) (hp : r.active = some p) :
    (List.replicate k (Event.pick req)).foldl step r =
      ⟨r.model, some (picks p r.model req k)⟩ := by
  induction k with
  | zero =>
    cases r
    cases hp
    rfl
  | succ k ih =>
    rw [List.replicate_succ', List.foldl_append, ih]
    rfl

theorem naive_picks (n : Naive) (req : RouteRequest) (k : Nat) :
    (List.replicate k (Event.pick req)).foldl Naive.step n = n := by
  induction k with
  | zero => rfl
  | succ k ih =>
    rw [List.replicate_succ', List.foldl_append, ih]
    rfl

/-- Past `2 ^ 64 - 1` picks the counter starts over, in the middle of a round. -/
theorem threeTied_wraps (k : Nat) (hk : k = 2 ^ 64 - 1) :
    ∃ p x, (Router.run threeLeaves (threeTied ++ List.replicate k (.pick ⟨0, 5⟩))).active = some p ∧
      ((Naive.run (threeTied ++ List.replicate k (.pick ⟨0, 5⟩))).tied threeLeaves 5).length = 3 ∧
      (p.pick (Router.run threeLeaves (threeTied ++ List.replicate k (.pick ⟨0, 5⟩))).model
        ⟨0, 5⟩).2 = .ok x ∧
      ((p.pick (Router.run threeLeaves (threeTied ++ List.replicate k (.pick ⟨0, 5⟩))).model
        ⟨0, 5⟩).1.pick (Router.run threeLeaves
          (threeTied ++ List.replicate k (.pick ⟨0, 5⟩))).model ⟨0, 5⟩).2 = .ok x := by
  obtain ⟨p, hp, hc⟩ := threeTied_active
  have h := run_sim threeLeaves threeTied
  have htied : (Naive.run threeTied).tied threeLeaves (RouteRequest.functionID ⟨0, 5⟩) ≠ [] := by
    rw [threeTied_tied]
    decide
  have hrun : Router.run threeLeaves (threeTied ++ List.replicate k (.pick ⟨0, 5⟩)) =
      ⟨(Router.run threeLeaves threeTied).model, some { p with counter := UInt64.ofNat k }⟩ := by
    rw [Router.run, List.foldl_append]
    refine (run_picks _ ⟨0, 5⟩ k hp).trans ?_
    rw [h.picks hp ⟨0, 5⟩ htied k, hc, UInt64.zero_add]
  have hnaive : Naive.run (threeTied ++ List.replicate k (.pick ⟨0, 5⟩)) =
      Naive.run threeTied := by
    rw [Naive.run, List.foldl_append]
    exact naive_picks _ _ _
  have hsim : ∀ c : UInt64, Sim threeLeaves
      ⟨(Router.run threeLeaves threeTied).model, some { p with counter := c }⟩
      (Naive.run threeTied) := by
    intro c
    refine ⟨h.topology, h.health, h.map, fun _ => h.used (by rw [hp]; rfl), fun q hq => ?_⟩
    cases hq
    exact h.picker p hp
  obtain ⟨x, hx, hpick⟩ := ((hsim (UInt64.ofNat k)).pick rfl ⟨0, 5⟩).2.2 htied
  obtain ⟨y, hy, hpick'⟩ := ((hsim (UInt64.ofNat k + 1)).pick rfl ⟨0, 5⟩).2.2 htied
  have hlast : (UInt64.ofNat k).toNat = 2 ^ 64 - 1 := by
    rw [UInt64.toNat_ofNat']
    omega
  have hfirst : (UInt64.ofNat k + 1).toNat = 0 := by
    rw [UInt64.toNat_add, hlast]
    rfl
  -- both counters are multiples of three
  have hxy : x = y := by
    rw [threeTied_tied, hlast] at hx
    rw [threeTied_tied, hfirst] at hy
    exact Option.some.inj (hx.symm.trans hy)
  rw [hrun, hnaive, threeTied_tied]
  refine ⟨_, { x with reason := some .availableCapacity }, rfl, rfl, by rw [hpick], ?_⟩
  rw [hpick]
  dsimp only
  rw [hpick', hxy]

/-- Three leaves tie, and two consecutive picks choose the same one. -/
theorem capacity_rotation_wraps : ∃ events p x,
    (run threeLeaves events).active = some p ∧
      ((Naive.run events).tied threeLeaves 5).length = 3 ∧
      (p.pick (run threeLeaves events).model ⟨0, 5⟩).2 = .ok x ∧
      ((p.pick (run threeLeaves events).model ⟨0, 5⟩).1.pick
        (run threeLeaves events).model ⟨0, 5⟩).2 = .ok x :=
  ⟨_, threeTied_wraps (2 ^ 64 - 1) rfl⟩

end Router

end HyperFaaS.Ingress
