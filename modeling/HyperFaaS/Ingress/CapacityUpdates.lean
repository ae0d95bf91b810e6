import HyperFaaS.Ingress.CapacityIndex

/-!
The updates of the available-capacity model do to the plain map what a frame
says: a full snapshot replaces what its leaf advertises (`Refines.replaceLeaf`),
a delta edits it entry by entry (`Refines.apply`), a dropped stream leaves it
alone (`Refines.leafDisconnected`).
-/

namespace HyperFaaS.Ingress

open Function Advertised

/-- The value a full snapshot gives a function: its last entry that is no tombstone. -/
def live : List FunctionCapacity → UInt64 → Option Nat
  | [], _ => none
  | c :: rest, fn =>
      (live rest fn).or
        (if c.deleted = false ∧ c.functionId = fn then some c.availableConcurrency else none)

/-- A full snapshot of a leaf. -/
def Advertised.replace (adv : Advertised) (leaf : Nat) (caps : List FunctionCapacity) :
    Advertised :=
  update adv leaf (live caps)

/-- One entry of a delta: a value or a tombstone. -/
def FunctionCapacity.advertises (c : FunctionCapacity) : Option Nat :=
  if c.deleted then none else some c.availableConcurrency

/-- A delta of a leaf. -/
def Advertised.applyDelta (adv : Advertised) (leaf : Nat) (caps : List FunctionCapacity) :
    Advertised :=
  caps.foldl (fun adv c => adv.set leaf c.functionId c.advertises) adv

namespace AvailableCapacityModel

variable {m m' : AvailableCapacityModel} {adv : Advertised} {fn : UInt64} {leaf available : Nat}

/-- The parts of the model that the index edits leave alone. -/
structure Rest (m m' : AvailableCapacityModel) : Prop where
  membership : m'.membership = m.membership
  byLeaf : m'.byLeaf = m.byLeaf
  active : m'.active = m.active

theorem Rest.refl (m : AvailableCapacityModel) : Rest m m := ⟨rfl, rfl, rfl⟩

theorem Rest.trans {n : AvailableCapacityModel} (h : Rest m m') (h' : Rest m' n) : Rest m n :=
  ⟨h'.membership.trans h.membership, h'.byLeaf.trans h.byLeaf, h'.active.trans h.active⟩

theorem cellFor_rest (m : AvailableCapacityModel) (fn : UInt64) : Rest m (m.cellFor fn).1 := by
  unfold cellFor
  split
  · exact .refl m
  · exact ⟨rfl, rfl, rfl⟩

theorem setParts_rest (m : AvailableCapacityModel) (c : Nat) (parts : List CapacityRoute) :
    Rest m (m.setParts c parts) := ⟨rfl, rfl, rfl⟩

theorem upsert_rest (m : AvailableCapacityModel) (fn : UInt64) (leaf available : Nat) :
    Rest m (m.upsert fn leaf available) := by
  rcases upsert_eq m fn leaf available with ⟨he, -⟩ | he
  · rw [he]
    exact cellFor_rest m fn
  · rw [he]
    exact (cellFor_rest m fn).trans (setParts_rest _ _ _)

theorem remove_rest (m : AvailableCapacityModel) (fn : UInt64) (leaf : Nat) :
    Rest m (m.remove fn leaf) := by
  cases hc : m.cells fn with
  | none =>
    unfold remove
    rw [hc]
    exact .refl m
  | some c =>
    rcases remove_eq leaf hc with ⟨he, -⟩ | he
    · rw [he]
      exact .refl m
    · rw [he]
      exact setParts_rest _ _ _

theorem commitCell_rest (m : AvailableCapacityModel) (c : Nat) : Rest m (m.commitCell c) := by
  unfold commitCell
  dsimp only
  split <;> exact ⟨rfl, rfl, rfl⟩

theorem commitCells_rest (l : List Nat) (m : AvailableCapacityModel) :
    Rest m (l.foldl commitCell m) := by
  induction l generalizing m with
  | nil => exact .refl m
  | cons c l ih => exact (commitCell_rest m c).trans (ih _)

theorem commit_rest (m : AvailableCapacityModel) : Rest m m.commit.1 := by
  unfold commit
  split
  · exact .refl m
  · refine (commitCells_rest m.dirtyCells m).trans ?_
    unfold publishKeys
    split <;> exact ⟨rfl, rfl, rfl⟩

/-! ## The loops over the entries of a frame -/

theorem Tracks.of_rest (h : m.Tracks adv) (hn : m'.ncells = m.ncells) (hc : m'.cell = m.cell)
    (hs : m'.cells = m.cells) (hp : m'.pub = m.pub) (hd : m'.dirtyCells = m.dirtyCells)
    (hk : m'.keysDirty = m.keysDirty) : m'.Tracks adv where
  index := by
    obtain ⟨h1, h2, h3, h4, h5, h6, h7, h8, h9, h10, h11⟩ := h.index
    constructor <;> simp only [hn, hc, hs, hp, hd, hk] <;> assumption
  keyed := by
    rw [hd, hk]
    exact h.keyed

theorem Tracks.setByLeaf (h : m.Tracks adv) (lists : Nat → Option (List UInt64)) :
    ({ m with byLeaf := lists } : AvailableCapacityModel).Tracks adv :=
  h.of_rest rfl rfl rfl rfl rfl rfl

/-- What the entries of a full snapshot add to a map. -/
def Advertised.fill (adv : Advertised) (leaf : Nat) : List FunctionCapacity → Advertised
  | [] => adv
  | c :: rest =>
      if c.deleted then fill adv leaf rest
      else fill (adv.set leaf c.functionId (some c.availableConcurrency)) leaf rest

theorem Tracks.replaceEntries (h : m.Tracks adv) (leaf : Nat) (caps : List FunctionCapacity)
    (next : List UInt64) :
    (replaceEntries leaf caps next m).1.Tracks (Advertised.fill adv leaf caps) ∧
      Rest m (replaceEntries leaf caps next m).1 := by
  induction caps generalizing m adv next with
  | nil => exact ⟨h, .refl m⟩
  | cons c rest ih =>
    simp only [AvailableCapacityModel.replaceEntries, Advertised.fill]
    cases hd : c.deleted with
    | true =>
      simp only [if_true]
      exact ih h next
    | false =>
      simp only [Bool.false_eq_true, if_false]
      obtain ⟨ht, hr⟩ := ih (h.upsert c.functionId leaf c.availableConcurrency)
        (next.insert c.functionId)
      exact ⟨ht, (upsert_rest m _ _ _).trans hr⟩

variable {i leafID : Nat}

theorem fill_other (adv : Advertised) (caps : List FunctionCapacity) (hi : i ≠ leaf) :
    Advertised.fill adv leaf caps i = adv i := by
  induction caps generalizing adv with
  | nil => rfl
  | cons c rest ih =>
    simp only [Advertised.fill]
    split
    · exact ih adv
    · rw [ih]
      funext g
      simp [set_apply, hi]

theorem fill_same (adv : Advertised) (leaf : Nat) (caps : List FunctionCapacity) (fn : UInt64) :
    Advertised.fill adv leaf caps leaf fn = (live caps fn).or (adv leaf fn) := by
  induction caps generalizing adv with
  | nil => simp [Advertised.fill, live]
  | cons c rest ih =>
    simp only [Advertised.fill, live]
    cases hd : c.deleted with
    | true => simp [ih]
    | false =>
      simp only [Bool.false_eq_true, if_false, ih]
      by_cases hf : c.functionId = fn
      · subst hf
        simp [Advertised.set_apply]
      · simp [hf, Advertised.set_apply, Ne.symm hf]

theorem mem_replaceEntries (leaf : Nat) (caps : List FunctionCapacity) (next : List UInt64)
    (m : AvailableCapacityModel) (fn : UInt64) :
    fn ∈ (replaceEntries leaf caps next m).2 ↔ fn ∈ next ∨ (live caps fn).isSome = true := by
  induction caps generalizing next m with
  | nil => simp [replaceEntries, live]
  | cons c rest ih =>
    simp only [replaceEntries, live]
    cases hd : c.deleted with
    | true => simp [ih]
    | false =>
      simp only [Bool.false_eq_true, if_false, ih, List.mem_insert_iff]
      by_cases hf : c.functionId = fn
      · subst hf
        simp
      · simp [hf, Ne.symm hf]

theorem Tracks.removeMissing (h : m.Tracks adv) (leaf : Nat) (next previous : List UInt64) :
    ∃ adv', (removeMissing leaf next previous m).Tracks adv' ∧
      Rest m (removeMissing leaf next previous m) ∧ (∀ i, i ≠ leaf → adv' i = adv i) ∧
      ∀ fn, adv' leaf fn = if fn ∈ previous ∧ fn ∉ next then none else adv leaf fn := by
  induction previous generalizing m adv with
  | nil => exact ⟨adv, h, .refl m, fun _ _ => rfl, fun fn => by simp⟩
  | cons g previous ih =>
    simp only [removeMissing, List.foldl_cons]
    by_cases hg : g ∈ next
    · rw [if_pos hg]
      obtain ⟨adv', ht, hr, hother, hsame⟩ := ih h
      refine ⟨adv', ht, hr, hother, fun fn => ?_⟩
      rw [hsame]
      by_cases hf : fn = g
      · subst hf
        simp [hg]
      · simp [hf]
    · rw [if_neg hg]
      obtain ⟨adv', ht, hr, hother, hsame⟩ := ih (h.remove g leaf)
      refine ⟨adv', ht, (remove_rest m g leaf).trans hr, ?_, fun fn => ?_⟩
      · intro i hi
        rw [hother i hi]
        funext f
        simp [set_apply, hi]
      · rw [hsame]
        by_cases hf : fn = g
        · subst hf
          simp [hg, set_apply]
        · simp [hf, set_apply]

/-! ## The refinement -/

/-- The model holds the map `adv`. Once a picker exists, nothing waits to be published. -/
structure Refines (m : AvailableCapacityModel) (adv : Advertised) : Prop where
  tracks : m.Tracks adv
  lists : ∀ leafID leaf, m.membership.topology.index leafID = some leaf →
    ∀ fn, fn ∈ (m.byLeaf leafID).getD [] ↔ (adv leaf fn).isSome = true
  inside : ∀ leaf fn, (adv leaf fn).isSome = true → leaf < m.membership.topology.leaves.length
  settled : m.active = true → m.dirtyCells = [] ∧ m.keysDirty = false

theorem newModel_refines (t : Topology) : (newModel t).Refines (fun _ _ => none) := by
  refine ⟨⟨?_, ?_⟩, ?_, ?_, ?_⟩
  · constructor <;> simp [newModel]
  · intro hk
    cases hk
  · simp [newModel]
  · simp
  · intro ha
    cases ha

theorem finish_eq (m : AvailableCapacityModel) (b : Bool) :
    (m.finish b).1 = if m.active then m.commit.1 else m := by
  unfold finish
  split <;> rfl

theorem Tracks.finish (h : m.Tracks adv) (b : Bool)
    (hl : ∀ leafID leaf, m.membership.topology.index leafID = some leaf →
      ∀ fn, fn ∈ (m.byLeaf leafID).getD [] ↔ (adv leaf fn).isSome = true)
    (hin : ∀ leaf fn, (adv leaf fn).isSome = true → leaf < m.membership.topology.leaves.length) :
    (m.finish b).1.Refines adv ∧ Rest m (m.finish b).1 := by
  rw [finish_eq]
  by_cases ha : m.active = true
  · rw [if_pos ha]
    obtain ⟨ht, hd, hk⟩ := h.commit
    have hr := commit_rest m
    refine ⟨⟨ht, ?_, ?_, fun _ => ⟨hd, hk⟩⟩, hr⟩
    · rw [hr.membership, hr.byLeaf]
      exact hl
    · rw [hr.membership]
      exact hin
  · rw [if_neg ha]
    exact ⟨⟨h, hl, hin, fun h' => absurd h' ha⟩, .refl m⟩

theorem finish_result {b : Bool} (ha : m.active = true) (h : (m.finish b).2 ≠ .publishPicker) :
    b = false := by
  unfold finish at h
  rw [if_pos ha] at h
  cases b with
  | false => rfl
  | true => exact absurd rfl h

theorem result_of_unknown {b : Bool}
    (h : (if b = true then UpdateResult.publishPicker else .noChange) ≠ .publishPicker) :
    b = false := by
  cases b with
  | false => rfl
  | true => exact absurd rfl h

theorem Refines.setHealthy (h : m.Refines adv) (leafID : Nat) (b : Bool) :
    (m.setHealthy leafID b).1.Refines adv :=
  ⟨h.tracks.of_rest rfl rfl rfl rfl rfl rfl, h.lists, h.inside, h.settled⟩

/-- **A full snapshot** replaces what its leaf advertises. -/
theorem Refines.replaceLeaf (h : m.Refines adv) (s : LeafState) :
    (m.replaceLeaf s).1.Refines (match m.membership.topology.index s.leafID with
      | some leaf => adv.replace leaf s.capacities
      | none => adv) ∧
    (m.replaceLeaf s).1.membership = (m.membership.setHealthy s.leafID
      (decide (s.healthyWorkers > 0))).1 ∧ (m.replaceLeaf s).1.active = m.active ∧
    (m.active = true → (m.replaceLeaf s).2 ≠ .publishPicker →
      (m.membership.setHealthy s.leafID (decide (s.healthyWorkers > 0))).2 = false) := by
  have hh := h.setHealthy s.leafID (decide (s.healthyWorkers > 0))
  have htop : (m.setHealthy s.leafID (decide (s.healthyWorkers > 0))).1.membership.topology =
      m.membership.topology := rfl
  unfold AvailableCapacityModel.replaceLeaf
  dsimp only
  rw [htop]
  cases hidx : m.membership.topology.index s.leafID with
  | none => exact ⟨hh, rfl, rfl, fun _ hres => result_of_unknown hres⟩
  | some leaf =>
    dsimp only
    generalize hm : (m.setHealthy s.leafID (decide (s.healthyWorkers > 0))).1 = m1 at hh ⊢
    have hm1 : m1.membership = (m.membership.setHealthy s.leafID
        (decide (s.healthyWorkers > 0))).1 := by subst hm; rfl
    have hm1a : m1.active = m.active := by subst hm; rfl
    have hidx1 : m1.membership.topology.index s.leafID = some leaf := by rw [hm1]; exact hidx
    obtain ⟨ht, hr⟩ := hh.tracks.replaceEntries leaf s.capacities []
    have hnext := mem_replaceEntries leaf s.capacities [] m1
    obtain ⟨adv', ht', hr', hother, hsame⟩ := ht.removeMissing leaf
      (replaceEntries leaf s.capacities [] m1).2
      ((m1.byLeaf s.leafID).getD [])
    have hrest := hr.trans hr'
    -- what is left is exactly the snapshot
    have hadv : adv' = adv.replace leaf s.capacities := by
      funext i
      by_cases hi : i = leaf
      · subst hi
        funext fn
        have hlist := hh.lists s.leafID i hidx1 fn
        rw [hsame fn, fill_same, replace, update_self]
        simp only [hnext, List.not_mem_nil, false_or, hlist]
        cases hlive : live s.capacities fn with
        | some v => simp
        | none =>
          cases hold : adv i fn with
          | none => simp
          | some v => simp
      · rw [hother i hi, fill_other adv s.capacities hi, replace,
          update_of_ne hi]
    rw [hadv] at ht'
    generalize hm2 : removeMissing leaf
      (replaceEntries leaf s.capacities [] m1).2
      ((m1.byLeaf s.leafID).getD [])
      (replaceEntries leaf s.capacities [] m1).1 = m2 at ht' hrest ⊢
    have ht3 := ht'.setByLeaf (update m2.byLeaf s.leafID
      (some (replaceEntries leaf s.capacities [] m1).2))
    have hfin := ht3.finish (m.setHealthy s.leafID (decide (s.healthyWorkers > 0))).2 ?_ ?_
    · refine ⟨hfin.1, ?_, ?_, fun ha hres => ?_⟩
      · rw [hfin.2.membership]
        exact hrest.membership.trans hm1
      · rw [hfin.2.active]
        exact hrest.active.trans hm1a
      · refine finish_result ?_ hres
        exact (hrest.active.trans hm1a).trans ha
    · intro leafID i hi fn
      simp only [hrest.membership] at hi
      by_cases hid : leafID = s.leafID
      · subst hid
        rw [hidx1] at hi
        cases hi
        simp only [update_self, Option.getD_some, hnext, List.not_mem_nil, false_or,
          replace]
      · have hne : i ≠ leaf := by
          rintro rfl
          obtain ⟨x, hx, hxid⟩ := Topology.index_some hi
          obtain ⟨y, hy, hyid⟩ := Topology.index_some hidx1
          rw [hx] at hy
          cases hy
          exact hid (hxid.symm.trans hyid)
        simp only [ne_eq, hid, not_false_eq_true, update_of_ne, replace, hne,
          hrest.byLeaf]
        exact hh.lists leafID i hi fn
    · intro i fn hi
      simp only [hrest.membership]
      by_cases hil : i = leaf
      · subst hil
        obtain ⟨x, hx, -⟩ := Topology.index_some hidx1
        exact (List.getElem?_eq_some_iff.mp hx).1
      · rw [replace, update_of_ne hil] at hi
        exact hh.inside i fn hi

theorem index_inj {t : Topology} {a b : Nat} (ha : t.index a = some i) (hb : t.index b = some i) :
    a = b := by
  obtain ⟨x, hx, hxa⟩ := Topology.index_some ha
  obtain ⟨y, hy, hyb⟩ := Topology.index_some hb
  rw [hx] at hy
  cases hy
  exact hxa.symm.trans hyb

theorem Refines.applyEntry (h : m.Tracks adv)
    (hl : ∀ id i, m.membership.topology.index id = some i →
      ∀ fn, fn ∈ (m.byLeaf id).getD [] ↔ (adv i fn).isSome = true)
    (hidx : m.membership.topology.index leafID = some leaf) (c : FunctionCapacity) :
    (applyEntry leafID leaf m c).Tracks (adv.set leaf c.functionId c.advertises) ∧
      (applyEntry leafID leaf m c).membership = m.membership ∧
      (applyEntry leafID leaf m c).active = m.active ∧
      ∀ id i, m.membership.topology.index id = some i → ∀ fn,
        fn ∈ ((applyEntry leafID leaf m c).byLeaf id).getD [] ↔
          (adv.set leaf c.functionId c.advertises i fn).isSome = true := by
  -- the lists after the entry, for any new list of this leaf with the right members
  have hlists : ∀ l : List UInt64, (∀ fn, fn ∈ l ↔
      (adv.set leaf c.functionId c.advertises leaf fn).isSome = true) →
      ∀ id i, m.membership.topology.index id = some i → ∀ fn,
        fn ∈ (update m.byLeaf leafID (some l) id).getD [] ↔
          (adv.set leaf c.functionId c.advertises i fn).isSome = true := by
    intro l hmem id i hi fn
    by_cases hid : id = leafID
    · subst hid
      rw [hidx] at hi
      cases hi
      rw [update_self]
      exact hmem fn
    · have hne : i ≠ leaf := fun he => hid (index_inj (he ▸ hi) hidx)
      rw [update_of_ne hid, set_apply, if_neg (by simp [hne])]
      exact hl id i hi fn
  unfold AvailableCapacityModel.applyEntry FunctionCapacity.advertises at *
  dsimp only
  cases hd : c.deleted with
  | true =>
    simp only [hd, if_true] at hlists ⊢
    have hr := remove_rest { m with
      byLeaf := update m.byLeaf leafID
        (some (((m.byLeaf leafID).getD []).filter fun fn => fn != c.functionId)) } c.functionId leaf
    refine ⟨(h.setByLeaf _).remove c.functionId leaf,
      hr.membership, hr.active, ?_⟩
    rw [hr.byLeaf]
    refine hlists _ fun fn => ?_
    rw [List.mem_filter, hl leafID leaf hidx fn]
    by_cases hf : fn = c.functionId
    · subst hf
      simp [set_apply]
    · simp [hf, set_apply]
  | false =>
    simp only [hd, Bool.false_eq_true, if_false] at hlists ⊢
    have hr := upsert_rest { m with
      byLeaf := update m.byLeaf leafID
        (some (((m.byLeaf leafID).getD []).insert c.functionId)) } c.functionId leaf
      c.availableConcurrency
    refine ⟨(h.setByLeaf _).upsert c.functionId leaf _,
      hr.membership, hr.active, ?_⟩
    rw [hr.byLeaf]
    refine hlists _ fun fn => ?_
    rw [List.mem_insert_iff, hl leafID leaf hidx fn]
    by_cases hf : fn = c.functionId
    · subst hf
      simp [set_apply]
    · simp [hf, set_apply]

theorem Refines.applyEntries (caps : List FunctionCapacity) (h : m.Tracks adv)
    (hl : ∀ id i, m.membership.topology.index id = some i →
      ∀ fn, fn ∈ (m.byLeaf id).getD [] ↔ (adv i fn).isSome = true)
    (hidx : m.membership.topology.index leafID = some leaf) :
    (caps.foldl (AvailableCapacityModel.applyEntry leafID leaf) m).Tracks
        (adv.applyDelta leaf caps) ∧
      (caps.foldl (AvailableCapacityModel.applyEntry leafID leaf) m).membership = m.membership ∧
      (caps.foldl (AvailableCapacityModel.applyEntry leafID leaf) m).active = m.active ∧
      ∀ id i, m.membership.topology.index id = some i → ∀ fn,
        fn ∈ ((caps.foldl (AvailableCapacityModel.applyEntry leafID leaf) m).byLeaf id).getD [] ↔
          (adv.applyDelta leaf caps i fn).isSome = true := by
  induction caps generalizing m adv with
  | nil => exact ⟨h, rfl, rfl, hl⟩
  | cons c rest ih =>
    obtain ⟨ht, hm, ha, hl'⟩ := Refines.applyEntry h hl hidx c
    have hrest := ih ht (by rw [hm]; exact hl') (by rw [hm]; exact hidx)
    rw [hm, ha] at hrest
    exact hrest

theorem applyDelta_other (adv : Advertised) (caps : List FunctionCapacity) (hi : i ≠ leaf) :
    adv.applyDelta leaf caps i = adv i := by
  induction caps generalizing adv with
  | nil => rfl
  | cons c rest ih =>
    refine (ih (adv.set leaf c.functionId c.advertises)).trans ?_
    funext fn
    simp [set_apply, hi]

/-- **A delta** edits what its leaf advertises. -/
theorem Refines.apply (h : m.Refines adv) (s : LeafState) :
    (m.apply s).1.Refines (match m.membership.topology.index s.leafID with
      | some leaf => adv.applyDelta leaf s.capacities
      | none => adv) ∧
    (m.apply s).1.membership = (m.membership.setHealthy s.leafID
      (decide (s.healthyWorkers > 0))).1 ∧ (m.apply s).1.active = m.active ∧
    (m.active = true → (m.apply s).2 ≠ .publishPicker →
      (m.membership.setHealthy s.leafID (decide (s.healthyWorkers > 0))).2 = false) := by
  have hh := h.setHealthy s.leafID (decide (s.healthyWorkers > 0))
  have htop : (m.setHealthy s.leafID (decide (s.healthyWorkers > 0))).1.membership.topology =
      m.membership.topology := rfl
  unfold AvailableCapacityModel.apply
  dsimp only
  rw [htop]
  cases hidx : m.membership.topology.index s.leafID with
  | none => exact ⟨hh, rfl, rfl, fun _ hres => result_of_unknown hres⟩
  | some leaf =>
    dsimp only
    have hidx1 : (m.setHealthy s.leafID
        (decide (s.healthyWorkers > 0))).1.membership.topology.index s.leafID = some leaf := hidx
    obtain ⟨ht, hm, ha, hl⟩ := Refines.applyEntries s.capacities hh.tracks hh.lists hidx1
    have hfin := ht.finish (m.setHealthy s.leafID (decide (s.healthyWorkers > 0))).2
      (by rw [hm]; exact hl) ?_
    · refine ⟨hfin.1, ?_, ?_, fun hact hres => ?_⟩
      · rw [hfin.2.membership, hm]
        rfl
      · rw [hfin.2.active, ha]
        rfl
      · exact finish_result (ha.trans hact) hres
    · intro i fn hi
      rw [hm]
      by_cases hil : i = leaf
      · subst hil
        obtain ⟨x, hx, -⟩ := Topology.index_some hidx
        exact (List.getElem?_eq_some_iff.mp hx).1
      · rw [applyDelta_other adv s.capacities hil] at hi
        exact hh.inside i fn hi

/-- **A dropped stream** changes health alone. -/
theorem Refines.leafDisconnected (h : m.Refines adv) (leafID : Nat) :
    (m.leafDisconnected leafID).1.Refines adv ∧
    (m.leafDisconnected leafID).1.membership = (m.membership.setHealthy leafID false).1 ∧
    (m.leafDisconnected leafID).1.active = m.active ∧
    ((m.leafDisconnected leafID).2 ≠ .publishPicker →
      (m.membership.setHealthy leafID false).2 = false) :=
  ⟨h.setHealthy leafID false, rfl, rfl, fun hres => result_of_unknown hres⟩

theorem Refines.picker (h : m.Refines adv) :
    m.picker.1.Refines adv ∧ m.picker.1.membership = m.membership ∧ m.picker.1.active = true := by
  obtain ⟨ht, hd, hk⟩ := h.tracks.commit
  have hr := commit_rest m
  refine ⟨⟨ht.of_rest rfl rfl rfl rfl rfl rfl, ?_, ?_, fun _ => ⟨hd, hk⟩⟩, hr.membership, rfl⟩
  · show ∀ id i, m.commit.1.membership.topology.index id = some i → ∀ fn,
      fn ∈ (m.commit.1.byLeaf id).getD [] ↔ _
    rw [hr.membership, hr.byLeaf]
    exact h.lists
  · show ∀ i fn, _ → i < m.commit.1.membership.topology.leaves.length
    rw [hr.membership]
    exact h.inside

end AvailableCapacityModel

end HyperFaaS.Ingress
