import HyperFaaS.Ingress.AvailableCapacity

/-!
The index of the available-capacity model against a plain map from leaves and
functions to advertised values. `Index` is the relation; every edit of the index
is the edit of the map (`Index.upsert`, `Index.remove`), and publishing changes
nothing in it (`Index.commit`).
-/

namespace HyperFaaS.Ingress

open Function

/-- What each leaf, by its position, advertises for each function. -/
abbrev Advertised := Nat → UInt64 → Option Nat

/-- A leaf advertises a value, or withdraws it. -/
def Advertised.set (adv : Advertised) (leaf : Nat) (fn : UInt64) (v : Option Nat) : Advertised :=
  update adv leaf (update (adv leaf) fn v)

theorem Advertised.set_apply (adv : Advertised) (leaf : Nat) (fn : UInt64) (v : Option Nat) (i : Nat)
    (g : UInt64) : adv.set leaf fn v i g = if i = leaf ∧ g = fn then v else adv i g := by
  by_cases hi : i = leaf
  · subst hi
    simp [Advertised.set, update_apply]
  · simp [Advertised.set, hi]

theorem Advertised.set_eq_self {adv : Advertised} {leaf : Nat} {fn : UInt64} {v : Option Nat}
    (h : adv leaf fn = v) : adv.set leaf fn v = adv := by
  rw [Advertised.set, ← h, Function.update_eq_self, Function.update_eq_self]

namespace AvailableCapacityModel

variable {m : AvailableCapacityModel} {adv : Advertised} {todo : List Nat} {fn : UInt64}
  {leaf available c : Nat}

/-- The cells and their lists are the map `adv`; `todo` are the dirty cells. -/
structure Index (m : AvailableCapacityModel) (adv : Advertised) (todo : List Nat) : Prop where
  name : ∀ fn c, m.cells fn = some c → (m.cell c).fn = fn
  bound : ∀ fn c, m.cells fn = some c → c < m.ncells
  sorted : ∀ fn c, m.cells fn = some c → Lib.Sorted CapacityRoute.leaf (m.cell c).parts
  parts : ∀ fn c, m.cells fn = some c → ∀ r,
    r ∈ (m.cell c).parts ↔ adv r.leaf fn = some r.available
  missing : ∀ fn, m.cells fn = none → ∀ leaf, adv leaf fn = none
  fresh : ∀ c, m.ncells ≤ c → (m.cell c).dirty = false
  dirty : ∀ c, c ∈ todo ↔ (m.cell c).dirty = true
  nodup : todo.Nodup
  owned : ∀ c ∈ todo, m.cells (m.cell c).fn = some c
  clean : ∀ fn c, m.cells fn = some c → (m.cell c).dirty = false →
    (m.cell c).pub.getD [] = (m.cell c).parts
  table : m.keysDirty = false → m.pub = some m.cells ∨ m.pub = none ∧ ∀ fn, m.cells fn = none

theorem Index.cell_ne (h : m.Index adv todo) {g : UInt64} {d : Nat} (hc : m.cells fn = some c)
    (hd : m.cells g = some d) (hne : g ≠ fn) : d ≠ c := by
  rintro rfl
  exact hne ((h.name g d hd).symm.trans (h.name fn d hc))

theorem Index.setParts (h : m.Index adv m.dirtyCells) (hc : m.cells fn = some c)
    {parts : List CapacityRoute} {v : Option Nat} (hs : Lib.Sorted CapacityRoute.leaf parts)
    (hp : ∀ r, r ∈ parts ↔ adv.set leaf fn v r.leaf fn = some r.available) :
    (m.setParts c parts).Index (adv.set leaf fn v) (m.setParts c parts).dirtyCells := by
  generalize hm : m.setParts c parts = m'
  have hcells : ∀ g, m'.cells g = m.cells g := by subst hm; exact fun _ => rfl
  have hn : m'.ncells = m.ncells := by subst hm; rfl
  have hcell : ∀ d, m'.cell d =
      if d = c then { m.cell c with parts := parts, dirty := true } else m.cell d := by
    subst hm
    exact update_apply _ _ _
  have hdirty : m'.dirtyCells = if (m.cell c).dirty then m.dirtyCells else m.dirtyCells ++ [c] := by
    subst hm
    rfl
  have hadv := adv.set_apply leaf fn v
  have hne : ∀ g d, m.cells g = some d → g ≠ fn → d ≠ c := fun g d hd => h.cell_ne hc hd
  have hlt := h.bound fn c hc
  constructor
  case name => grind [h.name]
  case bound => exact fun g d hd => by have := h.bound g d; grind
  case sorted => grind [h.sorted]
  case parts => exact fun g d hd r => by have := h.parts g d; grind
  case missing => grind [h.missing]
  case fresh => grind [h.fresh]
  case dirty => exact fun d => by have := h.dirty d; grind
  case nodup =>
    have hin := h.dirty c
    rw [hdirty]
    split
    · exact h.nodup
    · exact List.nodup_append.mpr ⟨h.nodup, by simp, by grind⟩
  case owned =>
    have hown := h.name fn c hc
    exact fun d hd => by have := h.owned d; grind
  case clean => grind [h.clean]
  case table => subst hm; exact h.table

theorem Index.cellFor (h : m.Index adv todo) (fn : UInt64) :
    (m.cellFor fn).1.Index adv todo ∧ (m.cellFor fn).1.cells fn = some (m.cellFor fn).2 ∧
      (m.cellFor fn).1.dirtyCells = m.dirtyCells := by
  unfold AvailableCapacityModel.cellFor
  cases hfn : m.cells fn with
  | some c => exact ⟨h, hfn, rfl⟩
  | none =>
    refine ⟨?_, by simp, rfl⟩
    dsimp only
    generalize hm : ({ m.setCell m.ncells ⟨fn, [], none, false⟩ with
      ncells := m.ncells + 1
      cells := update m.cells fn (some m.ncells)
      keysDirty := true } : AvailableCapacityModel) = m'
    have hcell : ∀ d, m'.cell d = if d = m.ncells then ⟨fn, [], none, false⟩ else m.cell d := by
      subst hm
      exact update_apply _ _ _
    have hcells : ∀ g, m'.cells g = if g = fn then some m.ncells else m.cells g := by
      subst hm
      exact update_apply _ _ _
    have hn : m'.ncells = m.ncells + 1 ∧ m'.keysDirty = true := by
      subst hm
      exact ⟨rfl, rfl⟩
    have hlt : ∀ g d, m.cells g = some d → d ≠ m.ncells :=
      fun g d hd => Nat.ne_of_lt (h.bound g d hd)
    have hfresh := h.fresh m.ncells le_rfl
    constructor
    case name => grind [h.name]
    case bound => exact fun g d hd => by have := h.bound g d; grind
    case sorted => grind [h.sorted, Lib.Sorted]
    case parts => exact fun g d hd r => by have := h.parts g d; grind [h.missing]
    case missing => grind [h.missing]
    case fresh => grind [h.fresh]
    case dirty => exact fun d => by have := h.dirty d; grind
    case nodup => exact h.nodup
    case owned => exact fun d hd => by have := h.owned d hd; grind
    case clean => grind [h.clean]
    case table => grind

theorem Index.mem_put (h : m.Index adv todo) (hc : m.cells fn = some c) (leaf available : Nat)
    (r : CapacityRoute) :
    r ∈ Lib.put CapacityRoute.leaf (m.cell c).parts ⟨leaf, available⟩ ↔
      adv.set leaf fn (some available) r.leaf fn = some r.available := by
  rw [Lib.mem_put (h.sorted fn c hc), Advertised.set_apply]
  have hparts := h.parts fn c hc r
  grind [CapacityRoute]

theorem Index.mem_erase (h : m.Index adv todo) (hc : m.cells fn = some c) (leaf : Nat)
    (r : CapacityRoute) :
    r ∈ Lib.erase CapacityRoute.leaf (m.cell c).parts leaf ↔
      adv.set leaf fn none r.leaf fn = some r.available := by
  rw [Lib.mem_erase (h.sorted fn c hc), Advertised.set_apply]
  have hparts := h.parts fn c hc r
  grind

theorem upsert_eq (m : AvailableCapacityModel) (fn : UInt64) (leaf available : Nat) :
    (m.upsert fn leaf available = (m.cellFor fn).1 ∧
        ⟨leaf, available⟩ ∈ ((m.cellFor fn).1.cell (m.cellFor fn).2).parts) ∨
      m.upsert fn leaf available = (m.cellFor fn).1.setParts (m.cellFor fn).2
        (Lib.put CapacityRoute.leaf ((m.cellFor fn).1.cell (m.cellFor fn).2).parts
          ⟨leaf, available⟩) := by
  unfold upsert
  dsimp only [routeSlot, Lib.put]
  generalize ((m.cellFor fn).1.cell (m.cellFor fn).2).parts = parts
  cases hget : parts[Lib.lowerBound CapacityRoute.leaf parts leaf]? with
  | none => exact .inr rfl
  | some r =>
    dsimp only
    by_cases hr : r.leaf = leaf
    · rw [if_pos hr, if_pos hr]
      by_cases ha : r.available = available
      · rw [if_pos ha]
        refine .inl ⟨rfl, ?_⟩
        have hmem := List.mem_of_getElem? hget
        cases r
        cases hr
        cases ha
        exact hmem
      · rw [if_neg ha]
        exact .inr rfl
    · rw [if_neg hr, if_neg hr]
      exact .inr rfl

/-- **An upsert advertises.** -/
theorem Index.upsert (h : m.Index adv m.dirtyCells) (fn : UInt64) (leaf available : Nat) :
    (m.upsert fn leaf available).Index (adv.set leaf fn (some available))
      (m.upsert fn leaf available).dirtyCells := by
  obtain ⟨hi, hc, hd⟩ := h.cellFor fn
  rw [← hd] at hi
  rcases upsert_eq m fn leaf available with ⟨he, hmem⟩ | he
  · rw [he, Advertised.set_eq_self ((hi.parts fn _ hc _).mp hmem)]
    exact hi
  · rw [he]
    exact hi.setParts hc ((hi.sorted fn _ hc).put _) (hi.mem_put hc leaf available)

theorem remove_eq (leaf : Nat) (hc : m.cells fn = some c) :
    (m.remove fn leaf = m ∧
        Lib.erase CapacityRoute.leaf (m.cell c).parts leaf = (m.cell c).parts) ∨
      m.remove fn leaf =
        m.setParts c (Lib.erase CapacityRoute.leaf (m.cell c).parts leaf) := by
  unfold remove
  dsimp only [routeSlot, Lib.erase]
  rw [hc]
  dsimp only
  cases hget : (m.cell c).parts[Lib.lowerBound CapacityRoute.leaf (m.cell c).parts leaf]? with
  | none => exact .inl ⟨rfl, rfl⟩
  | some r =>
    dsimp only
    by_cases hr : r.leaf = leaf
    · rw [if_pos hr, if_pos hr]
      exact .inr rfl
    · rw [if_neg hr, if_neg hr]
      exact .inl ⟨rfl, rfl⟩

/-- **A removal withdraws.** -/
theorem Index.remove (h : m.Index adv m.dirtyCells) (fn : UInt64) (leaf : Nat) :
    (m.remove fn leaf).Index (adv.set leaf fn none) (m.remove fn leaf).dirtyCells := by
  cases hc : m.cells fn with
  | none =>
    have he : m.remove fn leaf = m := by
      unfold AvailableCapacityModel.remove
      rw [hc]
    rw [he, Advertised.set_eq_self (h.missing fn hc leaf)]
    exact h
  | some c =>
    rcases remove_eq leaf hc with ⟨he, hsame⟩ | he
    · have hnone : adv leaf fn = none := by
        by_contra hne
        obtain ⟨a, ha⟩ := Option.ne_none_iff_exists'.mp hne
        have hmem := (h.parts fn c hc ⟨leaf, a⟩).mpr ha
        rw [← hsame, h.mem_erase hc, Advertised.set_apply] at hmem
        simp at hmem
      rw [he, Advertised.set_eq_self hnone]
      exact h
    · rw [he]
      exact h.setParts hc ((h.sorted fn c hc).erase leaf) (h.mem_erase hc leaf)

/-! ## Publishing -/

/-- The turn of one dirty cell: it is published, and dropped if it has no routes. -/
theorem Index.commitCell (h : m.Index adv (c :: todo)) : (m.commitCell c).Index adv todo := by
  have hown := h.owned c List.mem_cons_self
  have hnot : c ∉ todo := (List.nodup_cons.mp h.nodup).1
  generalize hm : m.commitCell c = m'
  have hcell : ∀ d, m'.cell d = if d = c then
      { m.cell c with pub := some (m.cell c).parts, dirty := false } else m.cell d := by
    intro d
    subst hm
    unfold AvailableCapacityModel.commitCell
    dsimp only
    split
    · rename_i hnil
      simp [setCell, update_apply, hnil]
    · exact update_apply _ _ _ _
  have hn : m'.ncells = m.ncells := by
    subst hm
    unfold AvailableCapacityModel.commitCell
    dsimp only
    split <;> rfl
  -- the writer's map loses the function of an empty cell
  have hcells : (∀ g, m'.cells g = m.cells g) ∧ m'.pub = m.pub ∧ m'.keysDirty = m.keysDirty ∧
        m'.cells = m.cells ∨
      (m.cell c).parts = [] ∧
        (∀ g, m'.cells g = if g = (m.cell c).fn then none else m.cells g) ∧
        m'.keysDirty = true := by
    subst hm
    unfold AvailableCapacityModel.commitCell
    dsimp only
    split
    · rename_i hnil
      exact .inr ⟨hnil, fun g => update_apply _ _ _ _, rfl⟩
    · exact .inl ⟨fun _ => rfl, rfl, rfl, rfl⟩
  have hold : ∀ g d, m'.cells g = some d → m.cells g = some d := by grind
  have hlt := h.bound _ c hown
  constructor
  case name => grind [h.name]
  case bound => exact fun g d hd => hn ▸ h.bound g d (hold g d hd)
  case sorted => grind [h.sorted]
  case parts => exact fun g d hd r => by have := h.parts g d (hold g d hd) r; grind
  case missing =>
    intro g hg i
    by_cases hgf : g = (m.cell c).fn
    · cases ha : adv i g with
      | none => rfl
      | some a =>
        have hmem := h.parts _ c hown ⟨i, a⟩
        grind
    · exact h.missing g (by grind) i
  case fresh => grind [h.fresh]
  case dirty => exact fun d => by have := h.dirty d; grind
  case nodup => exact (List.nodup_cons.mp h.nodup).2
  case owned => exact fun d hd => by have := h.owned d (List.mem_cons_of_mem _ hd); grind
  case clean => grind [h.clean]
  case table => grind [h.table]

theorem Index.commitCells (h : m.Index adv todo) : (todo.foldl AvailableCapacityModel.commitCell m).Index adv [] := by
  induction todo generalizing m with
  | nil => exact h
  | cons c todo ih => exact ih h.commitCell

theorem Index.publishKeys (h : m.Index adv todo) :
    m.publishKeys.Index adv todo ∧ m.publishKeys.keysDirty = false := by
  unfold AvailableCapacityModel.publishKeys
  cases hk : m.keysDirty with
  | true =>
    rw [if_pos rfl]
    exact ⟨⟨h.name, h.bound, h.sorted, h.parts, h.missing, h.fresh, h.dirty, h.nodup, h.owned,
      h.clean, fun _ => .inl rfl⟩, rfl⟩
  | false =>
    simp only [Bool.false_eq_true, if_false]
    exact ⟨h, hk⟩

/-- The index holds the map, and has cells to publish when its keys changed. -/
structure Tracks (m : AvailableCapacityModel) (adv : Advertised) : Prop where
  index : m.Index adv m.dirtyCells
  keyed : m.keysDirty = true → m.dirtyCells ≠ []

/-- **Publishing** changes nothing in the map and leaves nothing to publish. -/
theorem Tracks.commit (h : m.Tracks adv) :
    m.commit.1.Tracks adv ∧ m.commit.1.dirtyCells = [] ∧ m.commit.1.keysDirty = false := by
  unfold AvailableCapacityModel.commit
  by_cases hd : m.dirtyCells = []
  · rw [if_pos hd]
    refine ⟨h, hd, ?_⟩
    by_contra hk
    exact h.keyed (by simpa using hk) hd
  · rw [if_neg hd]
    have hfold : ({ m.dirtyCells.foldl AvailableCapacityModel.commitCell m with
        dirtyCells := [] } : AvailableCapacityModel).Index adv [] :=
      have hi := h.index.commitCells
      ⟨hi.name, hi.bound, hi.sorted, hi.parts, hi.missing, hi.fresh, hi.dirty, hi.nodup, hi.owned,
        hi.clean, hi.table⟩
    obtain ⟨hpub, hk⟩ := hfold.publishKeys
    have hnil : (AvailableCapacityModel.publishKeys { m.dirtyCells.foldl
        AvailableCapacityModel.commitCell m with dirtyCells := [] }).dirtyCells = [] := by
      unfold AvailableCapacityModel.publishKeys
      split <;> rfl
    refine ⟨⟨?_, ?_⟩, hnil, hk⟩
    · dsimp only
      rw [hnil]
      exact hpub
    · dsimp only
      rw [hk]
      intro hf
      cases hf

theorem setParts_dirtyCells (m : AvailableCapacityModel) (c : Nat) (parts : List CapacityRoute)
    (h : (m.cell c).dirty = true → m.dirtyCells ≠ []) : (m.setParts c parts).dirtyCells ≠ [] := by
  unfold setParts
  dsimp only
  split
  · rename_i hd
    exact h hd
  · simp

theorem Index.dirtyCells_ne (h : m.Index adv m.dirtyCells) (c : Nat)
    (hd : (m.cell c).dirty = true) : m.dirtyCells ≠ [] :=
  List.ne_nil_of_mem ((h.dirty c).mpr hd)

theorem Tracks.upsert (h : m.Tracks adv) (fn : UInt64) (leaf available : Nat) :
    (m.upsert fn leaf available).Tracks (adv.set leaf fn (some available)) := by
  refine ⟨h.index.upsert fn leaf available, ?_⟩
  obtain ⟨hi, hc, hd⟩ := h.index.cellFor fn
  rw [← hd] at hi
  rcases upsert_eq m fn leaf available with ⟨he, hmem⟩ | he
  · -- the cell was there, so nothing has changed
    rw [he]
    have hsame : (m.cellFor fn).1 = m := by
      unfold cellFor at hmem ⊢
      cases hfn : m.cells fn with
      | some c => rfl
      | none => simp [hfn, setCell] at hmem
    rw [hsame]
    exact h.keyed
  · rw [he]
    exact fun _ => setParts_dirtyCells _ _ _ (hi.dirtyCells_ne _)

theorem Tracks.remove (h : m.Tracks adv) (fn : UInt64) (leaf : Nat) :
    (m.remove fn leaf).Tracks (adv.set leaf fn none) := by
  refine ⟨h.index.remove fn leaf, ?_⟩
  cases hc : m.cells fn with
  | none =>
    have he : m.remove fn leaf = m := by
      unfold AvailableCapacityModel.remove
      rw [hc]
    rw [he]
    exact h.keyed
  | some c =>
    rcases remove_eq leaf hc with ⟨he, -⟩ | he
    · rw [he]
      exact h.keyed
    · rw [he]
      exact fun _ => setParts_dirtyCells _ _ _ (h.index.dirtyCells_ne _)

end AvailableCapacityModel

end HyperFaaS.Ingress
