import HyperFaaS.Ingress.PickerRoutes
import Mathlib.Order.Defs.LinearOrder

/-!
The three ways to forward a request from its home (`pkg/chbl`): `Forward` over a map of
loads, `ForwardBy` over a reader, and `ForwardBy` over the slots of the bounded-loads
picker. Proved here: they agree (`forward_agree`), whatever loads and health the model of
the picker received before; and what a choice under a bound guarantees (`Bounded`) holds
of the walk and of the random jumps.
-/

namespace HyperFaaS.Ingress

section Loads

variable {β : Type} [LT β] [DecidableLT β]

def leastLoadedBy [BEq β] (ids : List Nat) (load : Nat → β) : Nat :=
  match ids with
  | [] => 0
  | first :: rest => leastFrom (fun id => id) load rest first

variable [OfNat β 0]

/-- `LeastLoaded`, on a map where a missing entry reads as zero. -/
def leastLoaded [BEq β] (ids : List Nat) (loads : Nat → Option β) : Nat :=
  leastLoadedBy ids fun id => (loads id).getD 0

/-- The loop of `Forward` from step number `step` on, `n` steps. -/
def forwardLoop (ring : Ring) (loads : Nat → Option β) (bound : β) :
    Nat → Nat → Nat → Option (Nat × ForwardReason)
  | 0, _, _ => none
  | n + 1, step, id =>
      if (loads id).getD 0 < bound then some (id, if step = 0 then .home else .forwarded)
      else forwardLoop ring loads bound n (step + 1) (ring.next id)

def forward [BEq β] [LE β] [DecidableLE β] [OfNat β 1] (ring : Ring) (loads : Nat → Option β)
    (bound : β) (maxChainLen : Int) (home : Nat) : Nat × ForwardReason :=
  if ring.ids = [] then (home, .home)
  else
    (forwardLoop ring loads (normalizeBound bound) (normalizeMaxChainLen maxChainLen + 1) 0
      home).getD (leastLoaded ring.ids loads, .leastLoaded)

theorem forwardLoop_eq (ring : Ring) (loads : Nat → Option β) (bound : β) (n step id : Nat) :
    forwardLoop ring loads bound (n + 1) (step + 1) id =
      (forwardWalk ring (fun id => (loads id).getD 0) bound n id).map (·, .forwarded) := by
  induction n generalizing step id with
  | zero =>
    rw [forwardLoop, forwardWalk, if_neg (Nat.succ_ne_zero step)]
    split_ifs <;> rfl
  | succ n ih =>
    rw [forwardLoop, forwardWalk, ih, if_neg (Nat.succ_ne_zero step)]
    split_ifs <;> rfl

theorem normalizeMaxChainLen_pos (maxChainLen : Int) : 0 < normalizeMaxChainLen maxChainLen := by
  unfold normalizeMaxChainLen
  split_ifs <;> omega

theorem forward_eq [BEq β] [LE β] [DecidableLE β] [OfNat β 1] (ring : Ring) (loads : Nat → Option β)
    (bound : β) (maxChainLen : Int) (home : Nat) :
    forward ring loads bound maxChainLen home =
      forwardBy ring (fun id => (loads id).getD 0) (leastLoaded ring.ids loads) bound maxChainLen
        home := by
  obtain ⟨n, hn⟩ := Nat.exists_eq_succ_of_ne_zero (normalizeMaxChainLen_pos maxChainLen).ne'
  unfold forward forwardBy
  rw [hn, Nat.succ_sub_one, forwardLoop, forwardLoop_eq, if_pos rfl]
  split_ifs
  · rfl
  · rfl
  · cases forwardWalk ring (fun id => (loads id).getD 0) (normalizeBound bound) n
      (ring.next home) <;> rfl

end Loads

/-! ## Readers that agree on the ids in question -/

section Readers

variable {β : Type} [LT β] [DecidableLT β]

theorem leastFrom_map [BEq β] {α γ : Type} (g : γ → α) (id : α → Nat) (load : α → β) (l : List γ) (b : γ) :
    leastFrom id load (l.map g) (g b) = leastFrom (fun x => id (g x)) (fun x => load (g x)) l b := by
  induction l generalizing b with
  | nil => rfl
  | cons x rest ih =>
    rw [List.map_cons, leastFrom, leastFrom, ih, ih]

theorem leastLoadedBy_congr [BEq β] {ids : List Nat} {load load' : Nat → β}
    (h : ∀ id ∈ ids, load id = load' id) : leastLoadedBy ids load = leastLoadedBy ids load' := by
  have hfrom : ∀ (l : List Nat) (b : Nat), (∀ id ∈ b :: l, load id = load' id) →
      leastFrom (fun id => id) load l b = leastFrom (fun id => id) load' l b := by
    intro l
    induction l with
    | nil => exact fun _ _ => rfl
    | cons x rest ih =>
      intro b hb
      rw [leastFrom, leastFrom, ih x (by grind), ih b (by grind), hb b (by simp), hb x (by simp)]
  cases ids with
  | nil => rfl
  | cons b rest => exact hfrom rest b h

theorem forwardBy_congr [LE β] [DecidableLE β] [OfNat β 0] [OfNat β 1] {ring : Ring}
    {load load' : Nat → β} {S : Nat → Prop} (h : ∀ id, S id → load id = load' id)
    (hring : ∀ x ∈ ring.nodes, S x.id) {home : Nat} (hh : S home) (least : Nat) (bound : β)
    (maxChainLen : Int) :
    forwardBy ring load least bound maxChainLen home =
      forwardBy ring load' least bound maxChainLen home := by
  have hwalk : ∀ n id, S id → forwardWalk ring load (normalizeBound bound) n id =
      forwardWalk ring load' (normalizeBound bound) n id := by
    intro n
    induction n with
    | zero =>
      intro id hid
      rw [forwardWalk, forwardWalk, h id hid]
    | succ n ih =>
      intro id hid
      rw [forwardWalk, forwardWalk, h id hid, ih _ (Ring.next_mem hring hid)]
  unfold forwardBy
  rw [h home hh, hwalk _ _ (Ring.next_mem hring hh)]

theorem forwardBy_normalized [LE β] [DecidableLE β] [OfNat β 0] [OfNat β 1] (ring : Ring)
    (load : Nat → β) (least : Nat) (bound : β) (maxChainLen : Int) (home : Nat) :
    forwardBy ring load least (normalizeBound bound) (normalizeMaxChainLen maxChainLen) home =
      forwardBy ring load least bound maxChainLen home := by
  have hb : normalizeBound (normalizeBound bound) = normalizeBound bound := by
    unfold normalizeBound
    split_ifs <;> rfl
  have hn : normalizeMaxChainLen (normalizeMaxChainLen maxChainLen) =
      normalizeMaxChainLen maxChainLen := by
    unfold normalizeMaxChainLen
    split_ifs <;> omega
  unfold forwardBy
  rw [hb, hn]

end Readers

/-! ## What a choice under a bound guarantees -/

section Bounded

variable {β : Type} [LinearOrder β] {S : Nat → Prop} {load : Nat → β} {bound : β}
  {home id least : Nat} {ring : Ring}

/-- Of least load among the candidates, ties to the lowest id. -/
structure Least (S : Nat → Prop) (load : Nat → β) (id : Nat) : Prop where
  mem : S id
  le : ∀ x, S x → load id < load x ∨ load id = load x ∧ id ≤ x

structure Bounded (S : Nat → Prop) (load : Nat → β) (bound : β) (home chosen : Nat) : Prop where
  mem : S chosen
  below : (∃ x, S x ∧ load x < bound) → load chosen < bound
  least : (∀ x, S x → bound ≤ load x) → Least S load chosen
  home : S home → load home < bound → chosen = home

theorem Least.bounded (h : Least S load id) (hh : S home → load home < bound → id = home) :
    Bounded S load bound home id where
  mem := h.mem
  below := by
    rintro ⟨x, hx, hlt⟩
    rcases h.le x hx with hle | ⟨heq, -⟩
    · exact hle.trans hlt
    · exact heq ▸ hlt
  least := fun _ => h
  home := hh

/-- A candidate below the bound will do, if the home was tried first. -/
theorem Bounded.of_below (hid : S id) (hlt : load id < bound)
    (hh : S home → load home < bound → id = home) : Bounded S load bound home id :=
  ⟨hid, fun _ => hlt, fun hall => absurd hlt (not_lt.mpr (hall id hid)), hh⟩

theorem Least.restrict {C : Nat → Prop} {load' : Nat → β} (h : Least S load id) (hid : C id)
    (hsub : ∀ x, C x → S x ∧ load x = load' x) : Least C load' id :=
  ⟨hid, fun x hx => (hsub id hid).2 ▸ (hsub x hx).2 ▸ h.le x (hsub x hx).1⟩

/-- A choice among more candidates that fell on one of ours. -/
theorem Bounded.restrict {C : Nat → Prop} {load' : Nat → β} (h : Bounded S load bound home id)
    (hid : C id) (hsub : ∀ x, C x → S x ∧ load x = load' x) : Bounded C load' bound home id := by
  by_cases hlt : load id < bound
  · exact .of_below hid ((hsub id hid).2 ▸ hlt) fun hh hlow =>
      h.home (hsub home hh).1 ((hsub home hh).2 ▸ hlow)
  · -- then no candidate is below the bound, and the choice is the least of all
    have hall : ∀ x, S x → bound ≤ load x := fun x hx =>
      not_lt.mp fun hx' => hlt (h.below ⟨x, hx, hx'⟩)
    exact ((h.least hall).restrict hid hsub).bounded fun hh hlow =>
      absurd ((hsub home hh).2 ▸ hlow) (not_lt.mpr (hall home (hsub home hh).1))

theorem leastLoadedBy_least (load : Nat → β) {ids : List Nat} (h : ids ≠ []) :
    Least (· ∈ ids) load (leastLoadedBy ids load) := by
  have hfrom : ∀ (l : List Nat) (b : Nat),
      Least (· ∈ b :: l) load (leastFrom (fun id => id) load l b) := by
    intro l
    induction l with
    | nil => exact fun b => ⟨by simp [leastFrom], by simp [leastFrom]⟩
    | cons x rest ih =>
      intro b
      rw [leastFrom]
      split_ifs with hx
      · obtain ⟨hmem, hle⟩ := ih x
        have hxle := hle x List.mem_cons_self
        exact ⟨by grind, by grind⟩
      · obtain ⟨hmem, hle⟩ := ih b
        have hble := hle b List.mem_cons_self
        exact ⟨by grind, by grind⟩
  cases ids with
  | nil => exact absurd rfl h
  | cons b rest => exact hfrom rest b

theorem normalizeBound_pos [Zero β] [One β] (h : 0 < bound) : normalizeBound bound = bound :=
  if_neg (not_le.mpr h)

theorem Ring.Over.forwardBy_bounded [Zero β] [One β] (h : ring.Over S) (hb : 0 < bound)
    (hhome : S home) (hleast : Least S load least) (maxChainLen : Int) :
    Bounded S load bound home (forwardBy ring load least bound maxChainLen home).1 := by
  have hids : ring.ids ≠ [] := List.ne_nil_of_mem ((h.ids home).mpr hhome)
  rw [forwardBy, normalizeBound_pos hb, if_neg hids]
  split_ifs with hlt
  · exact .of_below hhome hlt fun _ _ => rfl
  · split
    · rename_i id hid
      obtain ⟨hmem, hbelow⟩ := forwardWalk_mem h load bound _ (h.next hhome) hid
      exact .of_below hmem hbelow fun _ hh => absurd hh hlt
    · exact hleast.bounded fun _ hh => absurd hh hlt

theorem Ring.Over.leastLoaded (h : ring.Over S) (hid : S id) (load : Nat → β) :
    Least S load (leastLoadedBy ring.ids load) := by
  have hleast := leastLoadedBy_least load (List.ne_nil_of_mem ((h.ids id).mpr hid))
  exact hleast.restrict ((h.ids _).mp hleast.mem) fun x hx => ⟨(h.ids x).mpr hx, rfl⟩

theorem Ring.Over.forward_bounded [Zero β] [One β] (h : ring.Over S) (hb : 0 < bound)
    (hhome : S home) (loads : Nat → Option β) (maxChainLen : Int) :
    Bounded S (fun id => (loads id).getD 0) bound home
      (forward ring loads bound maxChainLen home).1 := by
  rw [forward_eq]
  exact h.forwardBy_bounded hb hhome (h.leastLoaded hhome _) maxChainLen

theorem randomJump_bounded {leaves : List LeafTarget} {fn : UInt64}
    (hleaves : ∀ x ∈ leaves, S x.leafID) (hhome : S (ring.home fn))
    (hleast : Least S load least) (maxJumps : Nat) :
    Bounded S load bound (ring.home fn)
      (randomJump ring leaves load least bound fn maxJumps).1 := by
  rcases randomJump_cases ring leaves load least bound fn maxJumps with
    ⟨he, hlt⟩ | ⟨hge, he | ⟨⟨x, hx, he⟩, hlt⟩⟩
  · rw [he]
    exact .of_below hhome (not_le.mp hlt) fun _ _ => rfl
  · rw [he]
    exact hleast.bounded fun _ hh => absurd hh (not_lt.mpr hge)
  · exact .of_below (he ▸ hleaves x hx) hlt fun _ hh => absurd hh (not_lt.mpr hge)

end Bounded

/-! ## What the model of a picker received -/

inductive LoadEvent
  | replaceLeaf (s : LeafState)
  | leafDisconnected (leafID : Nat)
  | picker

namespace LoadEvent

def apply (m : BoundedLoadsModel) : LoadEvent → BoundedLoadsModel
  | .replaceLeaf s => (m.replaceLeaf s).1
  | .leafDisconnected leafID => (m.leafDisconnected leafID).1
  | .picker => m.picker.1

/-- The health the events leave. -/
def health (h : Nat → Bool) : LoadEvent → Nat → Bool
  | .replaceLeaf s => Function.update h s.leafID (decide (s.healthyWorkers > 0))
  | .leafDisconnected leafID => Function.update h leafID false
  | .picker => h

/-- The load last reported for each leaf, as its bits. -/
def load (l : Nat → UInt64) : LoadEvent → Nat → UInt64
  | .replaceLeaf s =>
      if s.fullSnapshot || s.hasLeafLoad then Function.update l s.leafID s.leafLoad.toBits else l
  | _ => l

/-- The ring of the leaves the events leave healthy. -/
def ring (t : Topology) (events : List LoadEvent) : Ring :=
  (Ring.newRing t.ids).subset (events.foldl health fun _ => false)

/-- The loads the events leave; a leaf that reported none has the zero bits. -/
def loads (events : List LoadEvent) (id : Nat) : Float :=
  Float.ofBits (events.foldl load (fun _ => 0) id)

def model (t : Topology) (bound : Float) (maxChainLen : Int) (events : List LoadEvent) :
    BoundedLoadsModel :=
  events.foldl apply (.newModel t bound maxChainLen)

end LoadEvent

/-- `ForwardBy` with the picker as the reader and as the scanner. -/
def BoundedLoadsPicker.forwardBy (p : BoundedLoadsPicker) (loads : Nat → UInt64) (home : Nat) :
    Nat × ForwardReason :=
  Ingress.forwardBy p.ring (p.load loads) (p.leastLoadedID loads) p.bound p.maxChainLen home

/-- The model has the health and, in the slot of each leaf, its load. -/
structure Received (m₀ : BoundedLoadsModel) (healthy : Nat → Bool) (bits : Nat → UInt64)
    (m : BoundedLoadsModel) : Prop where
  cached : m.Cached
  membership : m.membership = ⟨m₀.membership.topology, healthy⟩
  template : m.template = m₀.template
  bound : m.bound = m₀.bound
  maxChainLen : m.maxChainLen = m₀.maxChainLen
  slots : ∀ id i, m₀.membership.topology.index id = some i → m.loads i = bits id

namespace Received

variable {m₀ m : BoundedLoadsModel} {healthy : Nat → Bool} {bits : Nat → UInt64}

theorem of_updates (h : Received m₀ healthy bits m) {leafID : Nat} {b : Bool}
    {u : BoundedLoadsModel × UpdateResult} (hu : m.Updates leafID b u) {bits' : Nat → UInt64}
    (hslots : ∀ id i, m₀.membership.topology.index id = some i → u.1.loads i = bits' id) :
    Received m₀ (Function.update healthy leafID b) bits' u.1 where
  cached := hu.cached
  membership := by
    rw [hu.membership, h.membership]
    rfl
  template := hu.template.trans h.template
  bound := hu.bound.trans h.bound
  maxChainLen := hu.maxChainLen.trans h.maxChainLen
  slots := hslots

theorem replaceLeaf_loads (m : BoundedLoadsModel) (s : LeafState) (i : Nat) :
    (m.replaceLeaf s).1.loads i = if (s.fullSnapshot || s.hasLeafLoad) = true ∧
      m.membership.topology.index s.leafID = some i then s.leafLoad.toBits else m.loads i := by
  have hloads : (m.setHealthy s.leafID (decide (s.healthyWorkers > 0))).1.loads = m.loads := rfl
  have htop : (m.setHealthy s.leafID (decide (s.healthyWorkers > 0))).1.membership.topology =
    m.membership.topology := rfl
  unfold BoundedLoadsModel.replaceLeaf
  dsimp only
  split
  · grind
  · split <;> grind [Function.update_apply]

theorem apply (h : Received m₀ healthy bits m) (e : LoadEvent) :
    Received m₀ (e.health healthy) (e.load bits) (e.apply m) := by
  cases e with
  | leafDisconnected leafID => exact h.of_updates (h.cached.leafDisconnected leafID) h.slots
  | picker =>
    exact ⟨RingCache.rebuilt h.cached, h.membership, h.template, h.bound, h.maxChainLen, h.slots⟩
  | replaceLeaf s =>
    refine h.of_updates (h.cached.replaceLeaf s) fun id i hi => ?_
    have hold := h.slots id i hi
    -- the slot of the leaf that reports is no other leaf's slot
    have hslot : m.membership.topology.index s.leafID = some i ↔ s.leafID = id := by
      rw [h.membership]
      exact ⟨fun hs => AvailableCapacityModel.index_inj hs hi, fun he => he ▸ hi⟩
    simp only [replaceLeaf_loads, hslot, hold, LoadEvent.load]
    grind [Function.update_apply]

theorem run (h : Received m₀ healthy bits m) (events : List LoadEvent) :
    Received m₀ (events.foldl LoadEvent.health healthy) (events.foldl LoadEvent.load bits)
      (events.foldl LoadEvent.apply m) := by
  induction events generalizing m healthy bits with
  | nil => exact h
  | cons e rest ih => exact ih (h.apply e)

end Received

theorem received_model (t : Topology) (bound : Float) (maxChainLen : Int)
    (events : List LoadEvent) :
    Received (.newModel t bound maxChainLen) (events.foldl LoadEvent.health fun _ => false)
      (events.foldl LoadEvent.load fun _ => 0) (LoadEvent.model t bound maxChainLen events) := by
  refine Received.run (m := .newModel t bound maxChainLen) ?_ events
  exact ⟨RingCache.new _ t, rfl, rfl, rfl, rfl, fun _ _ _ => rfl⟩

/-- **The implementations of forwarding agree.** A model receives loads and health in any
order; `Forward` over the map of the loads, `ForwardBy` over them and `ForwardBy` over the
slots of the model's picker then give the same node and reason. The home is a leaf, or
whatever `Home` gives on an empty ring. -/
theorem forward_agree (t : Topology) (bound : Float) (maxChainLen : Int)
    (events : List LoadEvent) (home : Nat)
    (hhome : (LoadEvent.ring t events).ids ≠ [] → home ∈ t.ids) :
    let m := LoadEvent.model t bound maxChainLen events
    let ring := LoadEvent.ring t events
    let loads := LoadEvent.loads events
    forward ring (fun id => some (loads id)) bound maxChainLen home =
        forwardBy ring loads (leastLoadedBy ring.ids loads) bound maxChainLen home ∧
      m.picker.2.forwardBy m.loads home =
        forwardBy ring loads (leastLoadedBy ring.ids loads) bound maxChainLen home := by
  have hr := received_model t bound maxChainLen events
  have hover := (Ring.newRingBy_over Ring.virtualNode t.ids).subset
    (events.foldl LoadEvent.health fun _ => false)
  intro m ring loads
  refine ⟨forward_eq .., ?_⟩
  have hp : m.picker.2 = ⟨ring, ring.ids.map fun id => (t.index id).getD 0,
      m.membership.healthyLeaves, t, normalizeBound bound, normalizeMaxChainLen maxChainLen⟩ := by
    rw [hr.cached.picker_eq, hr.template, hr.bound, hr.maxChainLen, hr.membership]
    rfl
  have hload : ∀ id ∈ t.ids, Float.ofBits (m.loads ((t.index id).getD 0)) = loads id := by
    intro id hid
    obtain ⟨x, hx, rfl⟩ := List.mem_map.mp hid
    obtain ⟨i, hi⟩ := List.getElem?_of_mem hx
    rw [Topology.index_eq hi]
    exact congrArg Float.ofBits (hr.slots _ i (Topology.index_eq hi))
  have hleast : m.picker.2.leastLoadedID m.loads = leastLoadedBy ring.ids loads := by
    rw [hp, BoundedLoadsPicker.leastLoadedID]
    dsimp only
    rw [← List.map_prod_left_eq_zip]
    refine Eq.trans ?_ (leastLoadedBy_congr fun id hid => hload id ((hover.ids id).mp hid).1)
    unfold leastLoadedBy
    cases ring.ids with
    | nil => rfl
    | cons first rest => exact leastFrom_map (fun id => (id, (t.index id).getD 0)) ..
  rw [BoundedLoadsPicker.forwardBy, hleast, hp, forwardBy_normalized]
  by_cases hempty : ring.ids = []
  · rw [forwardBy, forwardBy, if_pos hempty, if_pos hempty]
  · exact forwardBy_congr hload (fun x hx => (hover.nodes x hx).1) (hhome hempty) ..

/-- One leaf, healthy and loaded. -/
theorem forward_agree_one :
    let t : Topology := ⟨[⟨1, "a", none⟩], List.pairwise_singleton _ _⟩
    let events := [LoadEvent.replaceLeaf ⟨1, 1, 1, true, 1, 2, true, 0, false, []⟩, .picker]
    let m := LoadEvent.model t 1.5 2 events
    (LoadEvent.ring t events).ids = [1] ∧ 1 ∈ t.ids ∧
      m.picker.2.forwardBy m.loads 1 = forward (LoadEvent.ring t events)
        (fun id => some (LoadEvent.loads events id)) 1.5 2 1 := by
  intro t events m
  have hagree := forward_agree t 1.5 2 events 1 fun _ => by decide
  exact ⟨by decide +kernel, by decide, hagree.2.trans hagree.1.symm⟩

end HyperFaaS.Ingress
