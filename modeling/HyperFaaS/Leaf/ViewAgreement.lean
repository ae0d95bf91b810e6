import HyperFaaS.Leaf.Registries

/-!
The three registries of a function agree when nothing is in progress
(`leaf_view_agreement`): the actuator tracks what the store holds and what the
pool offers, no instance is marked, no sandbox is draining.

* `Drains`: every `Drain` call in progress is that of one stop in progress.
* `Views`: an instance that is in one registry and not in another has the
  operation that will settle it (`View`, of one instance).
* `Marked`: every mark has its stop, not yet begun or in progress.
-/

namespace HyperFaaS.Leaf

open Function Dataplane.World Job

open Autoscaling

def JobPC.running : JobPC → Bool
  | .idle | .done => false
  | _ => true

def StopPC.running : StopPC → Bool
  | .idle | .done => false
  | _ => true

/-- The `Drain` call a stop is in, or whose finish function it still holds. -/
def StopPC.drain : StopPC → Option Nat
  | .draining d | .calling d | .finishing d _ => some d
  | _ => none

namespace World

variable {w w' : World}

/-! ## Drain calls -/

structure Drains (w : World) : Prop where
  reached : ∀ f, Dataplane.World.machine.ReachesWhile
    (fun _ a => Dataplane.World.resident a = true) (w.pool f)
  opened : ∀ f, (w.pool f).pool.closed = false
  owner : ∀ f d id, ((w.pool f).drain d).about = some id →
    ∃ k, (w.stop k).function = f ∧ (w.stop k).pc.drain = some d
  name : ∀ k d, (w.stop k).pc.drain = some d →
    d < (w.pool (w.stop k).function).ndrains ∧
      ∀ id, ((w.pool (w.stop k).function).drain d).about = some id →
        id = (w.stop k).item.instanceID

theorem Drains.congr (h : w.Drains) (hp : w'.pool = w.pool) (hs : w'.stop = w.stop) :
    w'.Drains where
  reached := by rw [hp]; exact h.reached
  opened := by rw [hp]; exact h.opened
  owner := by rw [hp, hs]; exact h.owner
  name := by rw [hp, hs]; exact h.name

variable {f k b j m idx : Nat} {p : Dataplane.World} {act : Action} {xs : List TrackedInstance}

theorem Drains.enters (h : w.Drains) {a : Dataplane.Action} (ha : Dataplane.World.resident a = true)
    (hs : (w.pool f).step a = .ok p) : Dataplane.World.Enters (w.pool f) a p :=
  Dataplane.World.step_enters (Dataplane.World.inv_of_reachable (h.reached f).reachable) ha hs

theorem setPool_at (w : World) (f : Nat) (p : Dataplane.World) (g : Nat) :
    (w.setPool f p).pool g = if g = f then p else w.pool g :=
  update_apply _ _ _ _

theorem goStop_at (w : World) (k : Nat) (pc : StopPC) (i : Nat) :
    (w.goStop k pc).stop i = if i = k then { w.stop k with pc := pc } else w.stop i :=
  update_apply _ _ _ _

theorem Drains.poolStep (h : w.Drains) {a : Dataplane.Action}
    (ha : Dataplane.World.resident a = true) (hno : ∀ id, a ≠ .drain id)
    (hs : (w.pool f).step a = .ok p) : (w.setPool f p).Drains := by
  have he := h.enters ha hs
  have habout : ∀ d id, (p.drain d).about = some id → ((w.pool f).drain d).about = some id :=
    fun d id hd => (he.about d id hd).resolve_right fun hnew => hno id hnew.1
  have hset := setPool_at w f p
  constructor
  case reached =>
    intro g
    have hp := (h.reached f).next ha hs
    grind [h.reached g]
  case opened => grind [h.opened, he.closed]
  case owner => exact fun g d id hd => h.owner g d id (by grind)
  case name =>
    intro k d hk
    obtain ⟨hlt, hid⟩ := h.name k d hk
    have hmore := he.ndrains
    have hstop : (w.setPool f p).stop k = w.stop k := rfl
    grind

/-- A stop moves on in its `Drain` call, or leaves one that is over. -/
theorem Drains.goStop (h : w.Drains) {pc : StopPC}
    (hpc : pc.drain = (w.stop k).pc.drain ∨ pc.drain = none ∧ ∀ d, (w.stop k).pc.drain = some d →
      ((w.pool (w.stop k).function).drain d).about = none) : (w.goStop k pc).Drains := by
  have hset := goStop_at w k pc
  have hpool : (w.goStop k pc).pool = w.pool := rfl
  constructor
  case reached => exact h.reached
  case opened => exact h.opened
  case owner =>
    intro f d id hd
    obtain ⟨i, hf, hi⟩ := h.owner f d id hd
    exact ⟨i, by grind⟩
  case name =>
    intro i d hi
    have hname := h.name i d
    grind

theorem Drains.leave (h : w.Drains) {a : SandboxActuator} (hpc : (w.stop k).pc.drain = none) :
    ((w.setActuator f a).goStop k .done).Drains := by
  have hset : (w.setActuator f a).Drains := h.congr rfl rfl
  exact hset.goStop (.inl hpc.symm)

theorem Drains.drain (h : w.Drains) (hpc : (w.stop k).pc = .starting)
    (hs : (w.pool (w.stop k).function).step (.drain (w.stop k).item.instanceID) = .ok p) :
    ((w.setPool (w.stop k).function p).goStop k
      (.draining (w.pool (w.stop k).function).ndrains)).Drains := by
  have he := h.enters rfl hs
  have hn : p.ndrains = (w.pool (w.stop k).function).ndrains + 1 := by
    cases hs
    rfl
  generalize hw : (w.setPool (w.stop k).function p).goStop k
    (.draining (w.pool (w.stop k).function).ndrains) = w'
  have hpool : ∀ g, w'.pool g = if g = (w.stop k).function then p else w.pool g :=
    fun g => hw ▸ setPool_at w (w.stop k).function p g
  have hstop : ∀ i, w'.stop i = if i = k then
      { w.stop k with pc := .draining (w.pool (w.stop k).function).ndrains } else w.stop i :=
    fun i => hw ▸ goStop_at (w.setPool (w.stop k).function p) k _ i
  have hno : (w.stop k).pc.drain = none := by rw [hpc]; rfl
  -- no call before this one has its number
  have hnew : ∀ id, ((w.pool (w.stop k).function).drain
      (w.pool (w.stop k).function).ndrains).about ≠ some id := by
    intro id habout
    obtain ⟨i, hf, hi⟩ := h.owner _ _ id habout
    have hlt := (h.name i _ hi).1
    rw [hf] at hlt
    omega
  constructor
  case reached =>
    intro g
    have hp : Dataplane.World.machine.ReachesWhile
        (fun _ a => Dataplane.World.resident a = true) p :=
      .next (a := Dataplane.Action.drain (w.stop k).item.instanceID) (h.reached _) rfl hs
    grind [h.reached g]
  case opened => grind [h.opened, he.closed]
  case owner =>
    intro g d id habout
    rcases Classical.em (((w.pool g).drain d).about = some id) with hold | hold
    · obtain ⟨i, hf, hi⟩ := h.owner g d id hold
      exact ⟨i, by grind⟩
    · exact ⟨k, by grind [he.about d id, StopPC.drain]⟩
  case name =>
    intro i d hi
    have hname := h.name i d
    have habout := fun id => he.about d id
    grind [StopPC.drain]

theorem ambient_resident {a : Dataplane.Action} (ha : ambient a = true) :
    resident a = true ∧ ∀ id, a ≠ .drain id := by
  cases a with
  | add _ | sync _ _ _ | remove _ | close | drain _ | drainFinish _ _ => cases ha
  | _ => exact ⟨rfl, nofun⟩

theorem Drains.launch (h : w.Drains) (hn : w.Names) {item : StopItem} {rest : List StopItem} :
    (w.spawnStop b item rest).Drains := by
  have hidle := hn.noStop w.nstops (Nat.le_refl _)
  have hset : ∀ k, (w.spawnStop b item rest).stop k = if k = w.nstops then
      ⟨(w.batch b).function, item, .starting⟩ else w.stop k :=
    fun k => update_apply _ _ _ _
  have hpool : (w.spawnStop b item rest).pool = w.pool := rfl
  constructor
  case reached => exact h.reached
  case opened => exact h.opened
  case owner =>
    intro f d id hd
    obtain ⟨k, hf, hk⟩ := h.owner f d id hd
    exact ⟨k, by grind [StopPC.drain]⟩
  case name =>
    intro k d hk
    have hname := h.name k d
    grind [StopPC.drain]

/-- **One step** and the `Drain` calls. -/
theorem Transition.drains (hs : Transition w act w') (hn : w.Names) (h : w.Drains) : w'.Drains := by
  cases hs with
  | pool _ ha hp =>
    obtain ⟨hres, hno⟩ := ambient_resident ha
    exact h.poolStep hres hno hp
  | add _ hp => exact (h.poolStep rfl (fun _ he => by cases he) hp).congr rfl rfl
  | poolRemove _ _ hp => exact (h.poolStep rfl (fun _ he => by cases he) hp).congr rfl rfl
  | launch _ => exact h.launch hn
  | drain hpc hp => exact h.drain hpc hp
  | drainHanded hpc _ => exact h.goStop (.inl (by rw [hpc]; rfl))
  | stopReply hpc => exact h.goStop (.inl (by rw [hpc]; rfl))
  | @drainFailed k d e hpc hfailed =>
    refine h.goStop (.inr ⟨rfl, fun d' hd' => ?_⟩)
    rw [hpc] at hd'
    cases hd'
    rw [hfailed]
    rfl
  | @finishDrain k d stopped p hpc hp =>
    have hstep := h.poolStep rfl (fun _ he => by cases he) hp
    refine hstep.goStop (.inr ⟨by cases stopped <;> rfl, fun d' hd' => ?_⟩)
    have hd' : (w.stop k).pc.drain = some d' := hd'
    rw [hpc] at hd'
    cases hd'
    have hover := drainFinish_about hp
    simpa [setPool] using hover
  | removeNothing hpc _ | cancelStop hpc => exact h.leave (by rw [hpc]; rfl)
  | remove hpc _ _ => exact (h.leave (by rw [hpc]; rfl)).congr rfl rfl
  | _ => exact h.congr rfl rfl

theorem init_drains (c : Config) : (init c).Drains where
  reached := fun f => .start ⟨_, _, _, rfl⟩
  opened := fun _ => rfl
  owner := fun _ _ _ hd => by cases hd
  name := fun _ _ hk => by cases hk

/-! ## The registries -/

/-- A start has the instance in the pool, and on no list yet. -/
def adding (w : World) (f id : Nat) : Prop :=
  ∃ j, (w.job j).pc = .added ∧ (w.job j).function = f ∧ (w.job j).inst.instanceId = id

/-- A start has it in the store, and on no list yet. -/
def holds (w : World) (f id : Nat) : Prop :=
  ∃ j, (w.job j).holding = true ∧ (w.job j).function = f ∧ (w.job j).inst.instanceId = id

/-- A stop has it out of the pool, and on its list still. -/
def leaving (w : World) (f id : Nat) : Prop :=
  ∃ k, (w.stop k).pc = .removing ∧ (w.stop k).function = f ∧ (w.stop k).item.instanceID = id

/-- A removal has it out of the store, and in the pool still. -/
def dropping (w : World) (f id : Nat) : Prop :=
  ∃ m, (w.removal m).pc = .pooling ∧ (w.removal m).function = f ∧
    (w.removal m).items.head? = some id

/-- What is known of one instance. -/
structure View (tracks pools stores removes adding holds leaving dropping : Prop) : Prop where
  gone : removes → ¬ tracks
  pooledBy : pools → tracks ∨ adding ∨ removes
  trackedPool : tracks → pools ∨ leaving
  addedPool : adding → pools
  storedBy : stores → tracks ∨ holds ∨ removes
  trackedStore : tracks → stores
  heldStore : holds → stores
  pooling : dropping → ¬ stores

structure Views (w : World) : Prop where
  own : ∀ j, (w.job j).pc = .created → (w.job j).inst.functionId = (w.job j).function
  view : ∀ f id, View (w.tracks f id) (w.pools f id) (w.stores f id) (w.removes f id)
    (w.adding f id) (w.holds f id) (w.leaving f id) (w.dropping f id)

theorem Job.holding_of_added {x : Job} (h : x.pc = .added) : x.holding = true := by
  simp [holding, h]

theorem Job.not_appended {x : Job} (h : x.holding = true) : x.appended = false := by
  unfold holding at h
  unfold appended
  cases hpc : x.pc <;> simp_all

/-- One start has moved on: what it was and is about, and what the others are about. -/
theorem adding_moved {x : Job} (h : w'.job = update w.job j x) (f id : Nat) : ∃ others : Prop,
      (w.adding f id ↔ ((w.job j).pc = .added ∧ (w.job j).function = f ∧
        (w.job j).inst.instanceId = id) ∨ others) ∧
      (w'.adding f id ↔ (x.pc = .added ∧ x.function = f ∧ x.inst.instanceId = id) ∨ others) :=
  Lib.exists_moved (P := fun y : Job => y.pc = .added ∧ y.function = f ∧ y.inst.instanceId = id) h

theorem holds_moved {x : Job} (h : w'.job = update w.job j x) (f id : Nat) : ∃ others : Prop,
      (w.holds f id ↔ ((w.job j).holding = true ∧ (w.job j).function = f ∧
        (w.job j).inst.instanceId = id) ∨ others) ∧
      (w'.holds f id ↔ (x.holding = true ∧ x.function = f ∧ x.inst.instanceId = id) ∨ others) :=
  Lib.exists_moved
    (P := fun y : Job => y.holding = true ∧ y.function = f ∧ y.inst.instanceId = id) h

theorem leaving_moved {x : Stop} (h : w'.stop = update w.stop k x) (f id : Nat) : ∃ others : Prop,
      (w.leaving f id ↔ ((w.stop k).pc = .removing ∧ (w.stop k).function = f ∧
        (w.stop k).item.instanceID = id) ∨ others) ∧
      (w'.leaving f id ↔ (x.pc = .removing ∧ x.function = f ∧ x.item.instanceID = id) ∨ others) :=
  Lib.exists_moved
    (P := fun y : Stop => y.pc = .removing ∧ y.function = f ∧ y.item.instanceID = id) h

theorem removes_moved {x : Removal} (h : w'.removal = update w.removal m x) (f id : Nat) :
    ∃ others : Prop,
      (w.removes f id ↔ ((w.removal m).function = f ∧ id ∈ (w.removal m).items) ∨ others) ∧
      (w'.removes f id ↔ (x.function = f ∧ id ∈ x.items) ∨ others) :=
  Lib.exists_moved (P := fun y : Removal => y.function = f ∧ id ∈ y.items) h

theorem dropping_moved {x : Removal} (h : w'.removal = update w.removal m x) (f id : Nat) :
    ∃ others : Prop,
      (w.dropping f id ↔ ((w.removal m).pc = .pooling ∧ (w.removal m).function = f ∧
        (w.removal m).items.head? = some id) ∨ others) ∧
      (w'.dropping f id ↔ (x.pc = .pooling ∧ x.function = f ∧ x.items.head? = some id) ∨ others) :=
  Lib.exists_moved
    (P := fun y : Removal => y.pc = .pooling ∧ y.function = f ∧ y.items.head? = some id) h

theorem tracks_relist {a : SandboxActuator}
    (hk : ∀ idx, ((a.tracked idx).map key).Perm (((w.actuator f).tracked idx).map key))
    (g id : Nat) : (w.setActuator f a).tracks g id ↔ w.tracks g id := by
  unfold tracks
  by_cases hg : g = f
  · subst hg
    refine exists_congr fun idx => ?_
    have hid := (((hk idx).map Prod.fst).mem_iff (a := id))
    simp only [List.map_map, List.mem_map, Function.comp, key] at hid
    simpa [setActuator] using hid
  · simp [setActuator, hg]

/-- Steps that settle nothing: no registry changes, and no operation that has
something to settle ends. -/
structure Idles (w w' : World) : Prop where
  job : ∀ j, w'.job j = w.job j ∨ (w.job j).holding = false ∧ (w'.job j).holding = false ∧
    ((w'.job j).pc = .created → (w'.job j).inst.functionId = (w'.job j).function) := by
    exact fun _ => .inl rfl
  list : ∀ f id, w'.tracks f id ↔ w.tracks f id := by exact fun _ _ => Iff.rfl
  pool : ∀ f, (w'.pool f).pool.sandboxes = (w.pool f).pool.sandboxes := by exact fun _ => rfl
  store : w'.store = w.store := by rfl
  stop : ∀ k, (w.stop k).pc = .removing → w'.stop k = w.stop k ∨
    ¬ w.tracks (w.stop k).function (w.stop k).item.instanceID := by exact fun _ _ => .inl rfl
  removal : ∀ m, (w'.removal m).function = (w.removal m).function ∧
    (w'.removal m).items = (w.removal m).items ∧
    ((w'.removal m).pc = .pooling → (w.removal m).pc = .pooling) := by
    exact fun _ => ⟨rfl, rfl, id⟩

theorem Views.frame (h : w.Views) (s : Idles w w') : w'.Views := by
  obtain ⟨hjob, hlist, hpool, hstore, hstop, hremoval⟩ := s
  refine ⟨fun j hj => ?_, fun f id => ?_⟩
  · rcases hjob j with he | ⟨-, -, ho⟩
    · rw [he] at hj ⊢
      exact h.own j hj
    · exact ho hj
  have hadding : w'.adding f id ↔ w.adding f id :=
    exists_congr fun j => by grind [Job.holding_of_added]
  have hholds : w'.holds f id ↔ w.holds f id := exists_congr fun j => by grind
  have hremoves : w'.removes f id ↔ w.removes f id := exists_congr fun m => by grind
  have hleaving : w.leaving f id → w.tracks f id → w'.leaving f id := by
    rintro ⟨k, hk⟩ ht
    exact ⟨k, by grind⟩
  have hdropping : w'.dropping f id → w.dropping f id := by
    rintro ⟨m, hm⟩
    exact ⟨m, by grind⟩
  have hpools : w'.pools f id ↔ w.pools f id := by rw [pools, pools, hpool f]
  have hstores : w'.stores f id ↔ w.stores f id := by rw [stores, stores, hstore]
  rw [hlist, hpools, hstores, hremoves, hadding, hholds]
  obtain ⟨h1, h2, h3, h4, h5, h6, h7, h8⟩ := h.view f id
  exact ⟨h1, h2, fun ht => (h3 ht).imp_right (hleaving · ht), h4, h5, h6, h7, h8 ∘ hdropping⟩

theorem Names.not_removes (hn : w.Names) (hr : w.Roster) (hj : (w.job j).appended = false) :
    ¬ w.removes f (w.job j).inst.instanceId := by
  rintro ⟨m, -, hm⟩
  exact hr.not_past hj (hn.removal m _ hm)

theorem removes_of_dropping {id : Nat} (h : w.dropping f id) : w.removes f id := by
  obtain ⟨m, -, hf, hid⟩ := h
  exact ⟨m, hf, List.mem_of_mem_head? hid⟩

theorem update_entry {α : Type} (t : Nat → Nat → α) (f id : Nat) (v : α) (g y : Nat) :
    update t f (update (t f) id v) g y = if g = f ∧ y = id then v else t g y := by
  by_cases hg : g = f
  · subst hg
    simp [update_apply]
  · simp [hg]

theorem Views.own_moved (h : w.Views) {x : Job} (hjob : w'.job = update w.job j x)
    (hx : x.pc ≠ .created) (i : Nat) (hi : (w'.job i).pc = .created) :
    (w'.job i).inst.functionId = (w'.job i).function := by
  have hown := h.own i
  rw [hjob] at hi ⊢
  grind [update_apply]

theorem Views.put (h : w.Views) (hr : w.Roster) (hn : w.Names) {s : Store}
    (hpc : (w.job j).pc = .created) (hput : w.store.putInstance (w.job j).inst = some s) :
    ((w.setStore s).goJob j .stored).Views := by
  have hs : s.byFunction = update w.store.byFunction (w.job j).function
      (update (w.store.byFunction (w.job j).function) (w.job j).inst.instanceId
        (some (w.job j).inst)) := by
    unfold Store.putInstance at hput
    split at hput
    · cases hput
    · cases hput
      rw [h.own j hpc]
  generalize hw : (w.setStore s).goJob j .stored = w'
  have hjob : w'.job = update w.job j { w.job j with pc := .stored } := hw ▸ rfl
  refine ⟨h.own_moved hjob nofun, fun f id => ?_⟩
  have hstores : w'.stores f id ↔
      w.stores f id ∨ (w.job j).function = f ∧ (w.job j).inst.instanceId = id := by
    subst hw
    show ((s.byFunction f id).isSome = true) ↔ (w.store.byFunction f id).isSome = true ∨ _
    rw [hs, update_entry]
    grind
  obtain ⟨_, hadd, hadd'⟩ := adding_moved hjob f id
  obtain ⟨_, hheld, hheld'⟩ := holds_moved hjob f id
  have hno := hn.not_removes hr (j := j) (f := f) (by simp [appended, hpc])
  have hdrop : w.dropping f id → w.removes f id := removes_of_dropping
  have hview := h.view f id
  subst hw
  change View (w.tracks f id) (w.pools f id) _ (w.removes f id) _ _ (w.leaving f id)
    (w.dropping f id)
  constructor <;> grind [holding, View]

theorem Views.add (h : w.Views) (hr : w.Roster) (hd : w.Drains) (hpc : (w.job j).pc = .stored)
    (hp : (w.pool (w.job j).function).step (.add (target (w.job j).inst)) = .ok p) :
    ((w.setPool (w.job j).function p).goJob j .added).Views := by
  have he := hd.enters rfl hp
  have hvalid : Dataplane.SandboxPool.validTarget (target (w.job j).inst) = true := by
    have hid := hr.filled j (.inl hpc)
    have haddr := hr.addressed j (.inr (.inl hpc))
    simp [Dataplane.SandboxPool.validTarget, target, hid, haddr]
  have hsome : (p.pool.sandboxes (w.job j).inst.instanceId).isSome = true :=
    add_isSome hp hvalid (hd.opened _)
  generalize hw : (w.setPool (w.job j).function p).goJob j .added = w'
  have hjob : w'.job = update w.job j { w.job j with pc := .added } := hw ▸ rfl
  refine ⟨h.own_moved hjob nofun, fun f id => ?_⟩
  have hpools : w'.pools f id ↔
      w.pools f id ∨ (w.job j).function = f ∧ (w.job j).inst.instanceId = id := by
    have hentry := he.entry id
    subst hw
    show ((((w.setPool (w.job j).function p).pool f).pool.sandboxes id).isSome = true) ↔
      ((w.pool f).pool.sandboxes id).isSome = true ∨ _
    rw [setPool_at]
    grind [target]
  obtain ⟨_, hadd, hadd'⟩ := adding_moved hjob f id
  obtain ⟨_, hheld, hheld'⟩ := holds_moved hjob f id
  have hview := h.view f id
  subst hw
  change View (w.tracks f id) _ (w.stores f id) (w.removes f id) _ _ (w.leaving f id)
    (w.dropping f id)
  constructor <;> grind [holding, View]

theorem Views.register (h : w.Views) (hr : w.Roster) (hn : w.Names) (hpc : (w.job j).pc = .added) :
    ((w.setActuator (w.job j).function ((w.actuator (w.job j).function).registerStart
      (w.job j).worker (trackedOf (w.job j).inst))).goJob j .registered).Views := by
  generalize hw : (w.setActuator (w.job j).function ((w.actuator
    (w.job j).function).registerStart (w.job j).worker (trackedOf (w.job j).inst))).goJob j
      .registered = w'
  have hjob : w'.job = update w.job j { w.job j with pc := .registered } := hw ▸ rfl
  refine ⟨h.own_moved hjob nofun, fun f id => ?_⟩
  have htracks : w'.tracks f id ↔
      w.tracks f id ∨ (w.job j).function = f ∧ (w.job j).inst.instanceId = id := by
    subst hw
    by_cases hf : f = (w.job j).function
    · subst hf
      simp only [tracks, goJob, setJob, setActuator, update_self,
        SandboxActuator.registerStart_tracked, List.mem_append]
      constructor
      · rintro ⟨idx, x, hx | hx, rfl⟩
        · exact .inl ⟨idx, x, hx, rfl⟩
        · grind [trackedOf]
      · rintro (⟨idx, x, hx, rfl⟩ | ⟨-, rfl⟩)
        · exact ⟨idx, x, .inl hx, rfl⟩
        · exact ⟨(w.job j).worker, trackedOf (w.job j).inst, .inr (by simp), rfl⟩
    · simp [tracks, goJob, setJob, setActuator, hf, Ne.symm hf]
  obtain ⟨_, hadd, hadd'⟩ := adding_moved hjob f id
  obtain ⟨_, hheld, hheld'⟩ := holds_moved hjob f id
  have hno := hn.not_removes hr (j := j) (f := f) (by simp [appended, hpc])
  have hview := h.view f id
  subst hw
  change View _ (w.pools f id) (w.stores f id) (w.removes f id) _ _ (w.leaving f id)
    (w.dropping f id)
  constructor <;> grind [holding, View]

theorem drops_subset {a a' : SandboxActuator} {clear : Bool → Int → Int} {i : Nat}
    (hd : SandboxActuator.Drops clear a a' i xs) (idx : Nat) (x : TrackedInstance)
    (hx : x ∈ a'.tracked idx) : x ∈ a.tracked idx := by
  by_cases hi : idx = i
  · subst hi
    exact hd.perm.mem_iff.mpr (List.mem_append_right _ hx)
  · rwa [hd.other hi] at hx

/-- What a section that drops `xs` leaves tracked. An id is on no other list: it
would be that of the same start. -/
theorem Roster.tracks_drops (hr : w.Roster) {a : SandboxActuator} {clear : Bool → Int → Int}
    (hd : SandboxActuator.Drops clear (w.actuator f) a idx xs)
    (ha : w'.actuator = update w.actuator f a) (g id : Nat) :
    w'.tracks g id ↔ w.tracks g id ∧ ¬ (g = f ∧ id ∈ xs.map (·.id)) := by
  by_cases hg : g = f
  · subst hg
    have hlist : ∀ i x, x ∈ (w'.actuator g).tracked i ↔ x ∈ a.tracked i := by
      intro i x
      rw [ha, update_self]
    constructor
    · rintro ⟨i, x, hx, rfl⟩
      rw [hlist] at hx
      have hold := drops_subset hd i x hx
      refine ⟨⟨i, x, hold, rfl⟩, ?_⟩
      rintro ⟨-, hmem⟩
      have hpast := hr.past_of_drops hd _ hmem
      have hi : idx = i := (hr.past_unique hpast (hr.past_of_tracked hold)).2
      subst hi
      -- both would be on the one list, which has each id once
      have hnodup := (hd.perm.map (·.id)).nodup_iff.mp (hr.nodup g idx)
      rw [List.map_append, List.nodup_append] at hnodup
      exact hnodup.2.2 _ hmem _ (List.mem_map_of_mem hx) rfl
    · rintro ⟨⟨i, x, hx, rfl⟩, hno⟩
      refine ⟨i, x, ?_, rfl⟩
      rw [hlist]
      by_cases hi : i = idx
      · subst hi
        rcases List.mem_append.mp (hd.perm.mem_iff.mp hx) with hgone | hkept
        · exact absurd ⟨rfl, List.mem_map_of_mem hgone⟩ hno
        · exact hkept
      · rw [hd.other hi]
        exact hx
  · unfold tracks
    rw [ha, update_of_ne hg]
    exact ⟨fun ht => ⟨ht, fun hno => hg hno.1⟩, fun ht => ht.1⟩

/-- Instances are taken off a list, and a removal takes over. A stop may end with
this step if its instance is among them. -/
theorem Views.drops (h : w.Views) (hr : w.Roster) (hn : w.Names) {a : SandboxActuator}
    {clear : Bool → Int → Int} (hd : SandboxActuator.Drops clear (w.actuator f) a idx xs)
    (ha : w'.actuator = update w.actuator f a) (hjob : w'.job = w.job) (hpool : w'.pool = w.pool)
    (hstore : w'.store = w.store) (hnew : w'.removal = update w.removal w.nremovals
      ⟨f, idx, xs.map (·.id), .recording⟩)
    (hstop : ∀ k, (w.stop k).pc = .removing → w'.stop k = w.stop k ∨
      (w.stop k).function = f ∧ (w.stop k).item.instanceID ∈ xs.map (·.id)) : w'.Views := by
  refine ⟨by rw [hjob]; exact h.own, fun g id => ?_⟩
  have htracks := hr.tracks_drops hd ha g id
  obtain ⟨_, hrem, hrem'⟩ := removes_moved hnew g id
  obtain ⟨_, hdrop, hdrop'⟩ := dropping_moved hnew g id
  rw [hn.noRemoval _ (Nat.le_refl _)] at hrem hdrop
  have hleaving : w.leaving g id → w'.leaving g id ∨ g = f ∧ id ∈ xs.map (·.id) := by
    rintro ⟨k, hk, hf, hid⟩
    rcases hstop k hk with he | ⟨hf', hmem⟩
    · exact .inl ⟨k, by rw [he]; exact ⟨hk, hf, hid⟩⟩
    · exact .inr ⟨hf.symm.trans hf', hid ▸ hmem⟩
  have hview := h.view g id
  have hsame : w'.pools g id = w.pools g id ∧ w'.stores g id = w.stores g id ∧
      w'.adding g id = w.adding g id ∧ w'.holds g id = w.holds g id := by
    simp only [pools, stores, adding, holds, hpool, hstore, hjob, and_self]
  constructor <;> grind [View]

theorem Views.finishDrain (h : w.Views) (hr : w.Roster) (hn : w.Names) (hd : w.Drains) {d : Nat}
    {stopped : Bool} (hpc : (w.stop k).pc = .finishing d stopped)
    (hp : (w.pool (w.stop k).function).step (.drainFinish d stopped) = .ok p) :
    ((w.setPool (w.stop k).function p).goStop k
      (if stopped then .removing else .cancelling)).Views := by
  have he := hd.enters rfl hp
  have hname := (hd.name k d (by rw [hpc]; rfl)).2
  have hpast := (hn.stop k (by simp [hpc])).2
  refine ⟨h.own, fun f id => ?_⟩
  generalize hw : (w.setPool (w.stop k).function p).goStop k
    (if stopped then .removing else .cancelling) = w'
  have hstop : w'.stop = update w.stop k
      { w.stop k with pc := if stopped then .removing else .cancelling } := hw ▸ rfl
  -- the only entry that can go is that of the stop's own instance
  have hpools : (w'.pools f id → w.pools f id) ∧ (w.pools f id → w'.pools f id ∨
      (w.stop k).function = f ∧ (w.stop k).item.instanceID = id ∧ stopped = true) := by
    have hentry := he.entry id
    subst hw
    show (((((w.setPool (w.stop k).function p).pool f).pool.sandboxes id).isSome = true) → _) ∧
      (_ → ((((w.setPool (w.stop k).function p).pool f).pool.sandboxes id).isSome = true) ∨ _)
    rw [setPool_at, pools]
    rcases hentry with hsame | ⟨t, ht, -⟩ | ⟨hnone, hrem | ⟨d', r, hfin, hhanded⟩⟩
    · grind
    · cases ht
    · cases hrem
    · cases hfin
      have hid := hname id (by rw [hhanded]; rfl)
      grind
  have hadded : w.adding f id → (w.stop k).item.instanceID ≠ id := by
    rintro ⟨j, hj, -, rfl⟩ hid
    rw [hid] at hpast
    exact hr.not_past (by simp [appended, hj]) hpast
  obtain ⟨_, hl, hl'⟩ := leaving_moved hstop f id
  have hview := h.view f id
  subst hw
  change View (w.tracks f id) _ (w.stores f id) (w.removes f id) (w.adding f id) (w.holds f id) _
    (w.dropping f id)
  constructor <;> grind [View]

/-- Whatever is in the store under an id is there for one function. -/
theorem Views.stores_unique (h : w.Views) (hr : w.Roster) (hn : w.Names) {g id : Nat}
    (hp : w.past f idx id) (hst : w.stores g id) : g = f := by
  rcases (h.view g id).storedBy hst with ⟨i, x, hx, rfl⟩ | ⟨j, hj, -, hid⟩ | ⟨m, hg, hm⟩
  · exact (hr.past_unique (hr.past_of_tracked hx) hp).1
  · rw [← hid] at hp
    exact absurd hp (hr.not_past (Job.not_appended hj))
  · exact (hr.past_unique (hg ▸ hn.removal m id hm) hp).1

theorem Views.storeRemove (h : w.Views) (hr : w.Roster) (hn : w.Names) {id : Nat} {rest : List Nat}
    {found : Option Nat} {s : Store} (hitems : (w.removal m).items = id :: rest)
    (hs : w.store.removeInstance w.functions id found = some s) :
    ((w.setStore s).goRemoval m .pooling).Views := by
  have hpast := hn.removal m id (by rw [hitems]; exact List.mem_cons_self)
  have hf : (w.removal m).function < w.functions := by
    obtain ⟨j, happ, hfj, -, -, -⟩ := hpast
    rw [← hfj]
    refine hr.functions j ?_
    by_contra hge
    simp [appended, (hr.unborn j (by omega)).1] at happ
  refine ⟨h.own, fun g y => ?_⟩
  have hstores : ((w.setStore s).goRemoval m .pooling).stores g y ↔
      w.stores g y ∧ ¬ ((w.removal m).function = g ∧ id = y) := by
    show ((s.byFunction g y).isSome = true) ↔ (w.store.byFunction g y).isSome = true ∧ _
    cases found with
    | none =>
      have hnone := fun hall : ∀ f < w.functions, (w.store.byFunction f id).isNone = true =>
        hall _ hf
      grind [Store.removeInstance, Option.isNone_iff_eq_none]
    | some f' =>
      have hff : (w.store.byFunction f' id).isSome = true → f' = (w.removal m).function :=
        h.stores_unique hr hn hpast
      simp only [Store.removeInstance] at hs
      split at hs
      · cases hs
        simp only [Store.delete, update_entry]
        grind
      · cases hs
  generalize hw : (w.setStore s).goRemoval m .pooling = w' at hstores
  have hremoval : w'.removal = update w.removal m { w.removal m with pc := .pooling } := hw ▸ rfl
  obtain ⟨_, hrem, hrem'⟩ := removes_moved hremoval g y
  obtain ⟨_, hdrop, hdrop'⟩ := dropping_moved hremoval g y
  have hheld : w.holds g y → id ≠ y := by
    rintro ⟨j, hj, -, rfl⟩ hid
    rw [hid] at hpast
    exact hr.not_past (Job.not_appended hj) hpast
  have hview := h.view g y
  subst hw
  change View (w.tracks g y) (w.pools g y) _ _ (w.adding g y) (w.holds g y) (w.leaving g y) _
  constructor <;> grind [View]

theorem Views.poolRemove (h : w.Views) (hr : w.Roster) (hn : w.Names) (hd : w.Drains) {id : Nat}
    {rest : List Nat} (hpc : (w.removal m).pc = .pooling)
    (hitems : (w.removal m).items = id :: rest)
    (hp : (w.pool (w.removal m).function).step (.remove id) = .ok p) :
    ((w.setPool (w.removal m).function p).setRemoval m
      { w.removal m with items := rest, pc := .recording }).Views := by
  have he := hd.enters rfl hp
  have hpast := hn.removal m id (by rw [hitems]; exact List.mem_cons_self)
  have hnone := remove_isNone hp
  refine ⟨h.own, fun g y => ?_⟩
  generalize hw : (w.setPool (w.removal m).function p).setRemoval m
    { w.removal m with items := rest, pc := .recording } = w'
  have hremoval : w'.removal = update w.removal m
      { w.removal m with items := rest, pc := .recording } := hw ▸ rfl
  have hpools : w'.pools g y ↔ w.pools g y ∧ ¬ ((w.removal m).function = g ∧ id = y) := by
    have hentry := he.entry y
    subst hw
    show ((((w.setPool (w.removal m).function p).pool g).pool.sandboxes y).isSome = true) ↔
      ((w.pool g).pool.sandboxes y).isSome = true ∧ _
    rw [setPool_at]
    grind
  obtain ⟨_, hrem, hrem'⟩ := removes_moved hremoval g y
  obtain ⟨_, hdrop, hdrop'⟩ := dropping_moved hremoval g y
  have hadded : w.adding g y → id ≠ y := by
    rintro ⟨j, hj, -, rfl⟩ hid
    rw [hid] at hpast
    exact hr.not_past (by simp [appended, hj]) hpast
  have hview := h.view g y
  subst hw
  change View (w.tracks g y) _ (w.stores g y) _ (w.adding g y) (w.holds g y) (w.leaving g y) _
  constructor <;> grind [View]

theorem ambient_sandboxes (h : w.Drains) {a : Dataplane.Action} (ha : ambient a = true)
    (hp : (w.pool f).step a = .ok p) (g : Nat) :
    ((w.setPool f p).pool g).pool.sandboxes = (w.pool g).pool.sandboxes := by
  rw [setPool_at]
  split
  · rename_i hg
    subst hg
    funext id
    rcases (h.enters (ambient_resident ha).1 hp).entry id with
      hsame | ⟨t, rfl, -⟩ | ⟨-, rfl | ⟨d, r, rfl, -⟩⟩
    · exact hsame
    · cases ha
    · cases ha
    · cases ha
  · rfl

theorem job_idles {x : Job} (hj : w'.job = update w.job j x) (hb : (w.job j).holding = false)
    (hx : x.holding = false) (ho : x.pc = .created → x.inst.functionId = x.function) (i : Nat) :
    w'.job i = w.job i ∨ (w.job i).holding = false ∧ (w'.job i).holding = false ∧
      ((w'.job i).pc = .created → (w'.job i).inst.functionId = (w'.job i).function) := by
  rw [hj]
  grind [update_apply]

theorem stop_idles {x : Stop} (hk : w'.stop = update w.stop k x) (hb : (w.stop k).pc ≠ .removing)
    (i : Nat) (hi : (w.stop i).pc = .removing) : w'.stop i = w.stop i ∨
      ¬ w.tracks (w.stop i).function (w.stop i).item.instanceID := by
  rw [hk]
  grind [update_apply]

theorem removal_idles {x : Removal} (hm : w'.removal = update w.removal m x)
    (hf : x.function = (w.removal m).function) (hi : x.items = (w.removal m).items)
    (hpc : x.pc ≠ .pooling) (n : Nat) : (w'.removal n).function = (w.removal n).function ∧
      (w'.removal n).items = (w.removal n).items ∧
      ((w'.removal n).pc = .pooling → (w.removal n).pc = .pooling) := by
  rw [hm]
  grind [update_apply]

/-- A stop that finds no address has nothing to remove: every tracked instance
has one. -/
theorem Roster.removeNothing (hr : w.Roster) (hl : w.Ledger) (hn : w.Names) {a : SandboxActuator}
    (hpc : (w.stop k).pc = .removing)
    (ha : (w.actuator (w.stop k).function).removeInstance (w.stop k).item.workerIdx
      (w.stop k).item.instanceID = (a, "")) :
    SandboxActuator.Drops clearStop (w.actuator (w.stop k).function) a
        (w.stop k).item.workerIdx [] ∧
      ¬ w.tracks (w.stop k).function (w.stop k).item.instanceID := by
  obtain ⟨hlt, hpast⟩ := hn.stop k (by simp [hpc])
  have hspec := SandboxActuator.removeInstanceWith_spec clearStop
    (w.actuator (w.stop k).function) (w.stop k).item.workerIdx (w.stop k).item.instanceID
  rw [← SandboxActuator.removeInstance, ha] at hspec
  rcases hspec with ⟨hdrop, -, hno⟩ | ⟨x, hdrop, haddr, -⟩
  · refine ⟨hdrop, ?_⟩
    rintro ⟨idx, x, hx, hid⟩
    rw [← hid] at hpast
    have hidx := (hr.past_unique (hr.past_of_tracked hx) hpast).2
    rw [hidx] at hx
    exact hno (hl.workers _ ▸ hlt) x hx hid
  · have hx : x ∈ (w.actuator (w.stop k).function).tracked (w.stop k).item.workerIdx :=
      hdrop.perm.mem_iff.mpr List.mem_cons_self
    exact absurd haddr.symm (hr.valid _ _ x hx).2

theorem remove_drops {a : SandboxActuator} {address : String}
    (ha : (w.actuator (w.stop k).function).removeInstance (w.stop k).item.workerIdx
      (w.stop k).item.instanceID = (a, address)) (hne : address ≠ "") :
    ∃ x, SandboxActuator.Drops clearStop (w.actuator (w.stop k).function) a
        (w.stop k).item.workerIdx [x] ∧ x.id = (w.stop k).item.instanceID := by
  have hspec := SandboxActuator.removeInstanceWith_spec clearStop
    (w.actuator (w.stop k).function) (w.stop k).item.workerIdx (w.stop k).item.instanceID
  rw [← SandboxActuator.removeInstance, ha] at hspec
  rcases hspec with ⟨-, hnone, -⟩ | ⟨x, hdrop, -, hid⟩
  · exact absurd hnone hne
  · exact ⟨x, hdrop, hid⟩

/-- **One step** and the registries. -/
theorem Transition.views (hs : Transition w act w') (hr : w.Roster) (hl : w.Ledger) (hn : w.Names)
    (hd : w.Drains) (h : w.Views) : w'.Views := by
  cases hs with
  | placement _ _ => exact h.frame {}
  | pool _ ha hp => exact h.frame { pool := ambient_sandboxes hd ha hp }
  | setTarget _ => exact h.frame { list := tracks_relist fun _ => .refl _ }
  | schedule _ _ _ | scheduleAlone _ _ =>
    have hb : (w.job w.njobs).holding = false := by
      simp [holding, (hr.unborn w.njobs (Nat.le_refl _)).1]
    exact h.frame { job := job_idles rfl hb rfl nofun }
  | planNothing hpc _ | planRefused hpc _ _ | createFailed hpc | putFailed hpc _ | finish hpc _ =>
    exact h.frame { job := job_idles rfl (by simp [holding, hpc]) rfl nofun }
  | planned hpc _ ha =>
    obtain ⟨-, -, rfl⟩ := SandboxActuator.reserveLocalStart_ok ha
    exact h.frame
      { job := job_idles rfl (by simp [holding, hpc]) rfl nofun
        list := tracks_relist fun idx => by rw [Shrinks.restart_same] }
  | created hpc =>
    exact h.frame { job := job_idles rfl (by simp [holding, hpc]) rfl fun _ => rfl }
  | put hpc hput => exact h.put hr hn hpc hput
  | add hpc hp => exact h.add hr hd hpc hp
  | register hpc => exact h.register hr hn hpc
  | fail hpc =>
    exact h.frame
      { job := job_idles rfl (by simp [holding, hpc]) rfl nofun
        list := tracks_relist fun idx => by
          rw [SandboxActuator.failStart_eq, Shrinks.restart_same] }
  | completeNone hpc _ | complete hpc _ _ =>
    refine h.frame { job := job_idles rfl ?_ rfl nofun }
    rcases hpc with hpc | hpc <;> simp [holding, hpc]
  | stop _ =>
    exact h.frame
      { list := tracks_relist fun idx =>
          .of_eq (Shrinks.map_key ((chosen_marks _ _ _).lists idx)) }
  | launch hb =>
    exact h.frame { stop := stop_idles rfl (by simp [hn.noStop _ (Nat.le_refl _)]) }
  | @drain k p hpc hp =>
    have hmap : p.pool.sandboxes = (w.pool (w.stop k).function).pool.sandboxes := by
      cases hp
      rfl
    refine h.frame { stop := stop_idles rfl (by simp [hpc]), pool := fun f => ?_ }
    show ((w.setPool (w.stop k).function p).pool f).pool.sandboxes = _
    grind [setPool_at]
  | drainHanded hpc _ | drainFailed hpc _ | stopReply hpc =>
    exact h.frame { stop := stop_idles rfl (by simp [hpc]) }
  | finishDrain hpc hp => exact h.finishDrain hr hn hd hpc hp
  | @removeNothing k a hpc ha =>
    obtain ⟨hdrop, hno⟩ := hr.removeNothing hl hn hpc ha
    refine h.frame { list := fun f id => ?_, stop := fun i hi => ?_ }
    · rw [hr.tracks_drops hdrop rfl]
      simp
    · by_cases hik : i = k
      · subst hik
        exact .inr hno
      · exact .inl (update_of_ne hik _ _)
  | @remove k a address hpc ha hne =>
    obtain ⟨x, hdrop, hid⟩ := remove_drops ha hne
    refine h.drops hr hn hdrop rfl rfl rfl rfl ?_ fun i hi => ?_
    · rw [List.map_singleton, hid]
      rfl
    · by_cases hik : i = k
      · subst hik
        exact .inr ⟨rfl, by simp [hid]⟩
      · exact .inl (update_of_ne hik _ _)
  | cancelStop hpc =>
    exact h.frame
      { stop := stop_idles rfl (by simp [hpc])
        list := tracks_relist fun idx => .of_eq (Shrinks.cancelStop_key _ _ _ idx) }
  | @reconcile f idx presence _ =>
    obtain ⟨xs, hdrop, hxs, -⟩ :=
      SandboxActuator.reconcileWorkerStateWith_spec clearStop (w.actuator f) idx presence
    refine h.drops hr hn hdrop rfl rfl rfl rfl ?_ fun i hi => .inl rfl
    rw [evict, SandboxActuator.reconcileWorkerState, hxs, List.map_map]
    rfl
  | @sandboxRemoved f idx id revision _ =>
    obtain ⟨xs, hdrop, hxs, -⟩ :=
      SandboxActuator.handleSandboxRemovedWith_spec clearStop (w.actuator f) idx id revision
    refine h.drops hr hn hdrop rfl rfl rfl rfl ?_ fun i hi => .inl rfl
    rw [evict, SandboxActuator.handleSandboxRemoved, hxs, List.map_map]
    rfl
  | recordStop _ _ _ _ | recordNothing _ _ _ | recorded _ _ =>
    exact h.frame { removal := removal_idles rfl rfl rfl (by simp) }
  | storeRemove _ hitems hst => exact h.storeRemove hr hn hitems hst
  | poolRemove hpc hitems hp => exact h.poolRemove hr hn hd hpc hitems hp

theorem init_views (c : Config) : (init c).Views where
  own := nofun
  view := fun _ _ => by
    constructor
    case gone => exact fun ⟨_, _, hm⟩ => by cases hm
    case pooledBy => exact nofun
    case trackedPool => exact fun ⟨_, _, hx, _⟩ => by cases hx
    case addedPool => exact fun ⟨_, hj, _⟩ => by cases hj
    case storedBy => exact nofun
    case trackedStore => exact fun ⟨_, _, hx, _⟩ => by cases hx
    case heldStore => exact fun ⟨_, hj, _⟩ => by cases hj
    case pooling => exact fun ⟨_, hm, _⟩ => by cases hm

/-! ## Marks -/

/-- The stop of the item is chosen and not over. -/
def chosenFor (w : World) (f : Nat) (item : StopItem) : Prop :=
  (∃ b, (w.batch b).function = f ∧ item ∈ (w.batch b).items) ∨
    ∃ k, (w.stop k).function = f ∧ (w.stop k).item = item ∧ (w.stop k).pc.running = true

structure Marked (w : World) : Prop where
  noBatch : ∀ b, w.nbatches ≤ b → (w.batch b).items = []
  mark : ∀ f idx, ∀ x ∈ (w.actuator f).tracked idx, x.stopping = true →
    w.chosenFor f ⟨idx, x.id, x.address⟩

/-- No new mark, and no stop ends whose instance is still marked. -/
theorem Marked.frame (h : w.Marked)
    (hbatch : ∀ b, w'.nbatches ≤ b → (w'.batch b).items = [])
    (hmark : ∀ f idx, ∀ x ∈ (w'.actuator f).tracked idx, x.stopping = true →
      x ∈ (w.actuator f).tracked idx ∧ (w.chosenFor f ⟨idx, x.id, x.address⟩ →
        w'.chosenFor f ⟨idx, x.id, x.address⟩)) : w'.Marked where
  noBatch := hbatch
  mark := by
    intro f idx x hx hs
    obtain ⟨hold, hchosen⟩ := hmark f idx x hx hs
    exact hchosen (h.mark f idx x hold hs)

theorem Marked.shrinks (h : w.Marked)
    (hl : ∀ f idx, ∀ x ∈ (w'.actuator f).tracked idx, x.stopping = true →
      x ∈ (w.actuator f).tracked idx) (hn : w'.nbatches = w.nbatches := by rfl)
    (hb : w'.batch = w.batch := by rfl) (hs : w'.stop = w.stop := by rfl) : w'.Marked := by
  refine h.frame (by rw [hn, hb]; exact h.noBatch) fun f idx x hx hst => ⟨hl f idx x hx hst, ?_⟩
  unfold chosenFor
  rw [hb, hs]
  exact id

theorem Marked.goStop (h : w.Marked) {pc : StopPC}
    (hk : pc.running = true ∨ ∀ x ∈ (w.actuator (w.stop k).function).tracked
      (w.stop k).item.workerIdx, x.id = (w.stop k).item.instanceID → x.stopping = false) :
    (w.goStop k pc).Marked := by
  refine h.frame h.noBatch fun f idx x hx hs => ⟨hx, ?_⟩
  rintro (hbatch | ⟨i, hf, hitem, hrun⟩)
  · exact .inl hbatch
  · have hx : x ∈ (w.actuator f).tracked idx := hx
    exact .inr ⟨i, by grind [goStop_at]⟩

theorem tracked_setActuator {a : SandboxActuator}
    (ha : ∀ idx, ∀ x ∈ a.tracked idx, x.stopping = true → x ∈ (w.actuator f).tracked idx) :
    ∀ g idx, ∀ x ∈ ((w.setActuator f a).actuator g).tracked idx, x.stopping = true →
      x ∈ (w.actuator g).tracked idx := by
  intro g idx x hx hs
  by_cases hg : g = f
  · subst hg
    simp only [setActuator, update_self] at hx
    exact ha idx x hx hs
  · simpa [setActuator, hg] using hx

/-- After a cancelled stop the instance is not marked, and nothing else is. -/
theorem cancelStop_marks (a : SandboxActuator) (id : Nat) (hb : idx < a.workers)
    (hnodup : ((a.tracked idx).map (·.id)).Nodup) :
    (∀ x ∈ (a.cancelStop idx id).tracked idx, x.id = id → x.stopping = false) ∧
      ∀ i, ∀ x ∈ (a.cancelStop idx id).tracked i, x.stopping = true → x ∈ a.tracked i := by
  rcases SandboxActuator.cancelStopWith_spec clearStop a idx id with
    ⟨he, hclear⟩ | ⟨pre, y, post, -, hl, hid, -, he⟩
  · rw [SandboxActuator.cancelStop, he]
    exact ⟨hclear hb hnodup, fun i x hx _ => hx⟩
  · rw [SandboxActuator.cancelStop, he]
    constructor
    · intro x hx hxid
      rw [SandboxActuator.edit_tracked] at hx
      rw [hl, List.map_append, List.map_cons, List.nodup_append, List.nodup_cons] at hnodup
      rcases List.mem_append.mp hx with hpre | hx
      · exact absurd (hxid.trans hid.symm) (hnodup.2.2 _ (List.mem_map_of_mem hpre) _
          List.mem_cons_self)
      · rcases List.mem_cons.mp hx with rfl | hpost
        · rfl
        · exact absurd (List.mem_map.mpr ⟨x, hpost, hxid.trans hid.symm⟩) hnodup.2.1.1
    · intro i x hx hs
      by_cases hi : i = idx
      · subst hi
        rw [SandboxActuator.edit_tracked] at hx
        rw [hl]
        rcases List.mem_append.mp hx with hpre | hx
        · exact List.mem_append_left _ hpre
        · rcases List.mem_cons.mp hx with rfl | hpost
          · cases hs
          · exact List.mem_append_right _ (List.mem_cons_of_mem _ hpost)
      · rwa [SandboxActuator.edit_tracked_other a hi] at hx

/-- A batch is chosen: what it marks is among its items. -/
theorem Marked.spawnBatch (h : w.Marked) {a : SandboxActuator} {items : List StopItem}
    (hm : SandboxActuator.Marks (w.actuator f) a items) :
    ((w.setActuator f a).spawnBatch f items).Marked := by
  generalize hw : (w.setActuator f a).spawnBatch f items = w'
  have hbatch : ∀ b, w'.batch b = if b = w.nbatches then ⟨f, items⟩ else w.batch b :=
    fun b => hw ▸ update_apply _ _ _ _
  have hactuator : ∀ g, w'.actuator g = if g = f then a else w.actuator g :=
    fun g => hw ▸ update_apply _ _ _ _
  have hn : w'.nbatches = w.nbatches + 1 ∧ w'.stop = w.stop := by
    subst hw
    exact ⟨rfl, rfl⟩
  have hkeep : ∀ g item, w.chosenFor g item → w'.chosenFor g item := by
    rintro g item (⟨b, hg, hitem⟩ | hstop)
    · have hnone := h.noBatch w.nbatches (Nat.le_refl _)
      exact .inl ⟨b, by grind⟩
    · exact .inr (hn.2 ▸ hstop)
  constructor
  case noBatch =>
    intro b hb
    have hnone := h.noBatch b
    grind
  case mark =>
    intro g idx y hy hs
    rw [hactuator] at hy
    split at hy
    · rename_i hg
      subst hg
      obtain ⟨x, hx, rfl | ⟨-, rfl, hitem⟩⟩ := SandboxActuator.Marked.source (hm.lists idx) hy
      · exact hkeep g _ (h.mark g idx _ hx hs)
      · exact .inl ⟨w.nbatches, by grind⟩
    · exact hkeep g _ (h.mark g idx y hy hs)

theorem Marked.spawnStop (h : w.Marked) (hn : w.Names) {item : StopItem} {rest : List StopItem}
    (hb : (w.batch b).items = item :: rest) : (w.spawnStop b item rest).Marked := by
  have hstop : ∀ k, (w.spawnStop b item rest).stop k = if k = w.nstops then
      ⟨(w.batch b).function, item, .starting⟩ else w.stop k :=
    fun k => update_apply _ _ _ _
  have hbatch : ∀ c, (w.spawnStop b item rest).batch c = if c = b then
      { w.batch b with items := rest } else w.batch c :=
    fun c => update_apply _ _ _ _
  have hidle := hn.noStop _ (Nat.le_refl _)
  refine h.frame (fun c hc => ?_) fun f idx x hx _ => ⟨hx, ?_⟩
  · have hnone := h.noBatch c hc
    grind
  · rintro (⟨c, hf, hitem⟩ | ⟨k, hf, hitem, hrun⟩)
    · by_cases hrest : c = b ∧ ⟨idx, x.id, x.address⟩ = item
      · exact .inr ⟨w.nstops, by grind [StopPC.running]⟩
      · exact .inl ⟨c, by grind⟩
    · exact .inr ⟨k, by grind [StopPC.running]⟩

/-- **One step** and the marks. -/
theorem Transition.marked (hs : Transition w act w') (hr : w.Roster) (hl : w.Ledger) (hn : w.Names)
    (h : w.Marked) : w'.Marked := by
  cases hs with
  | setTarget _ => exact h.shrinks (tracked_setActuator fun _ _ hx _ => hx)
  | planned _ _ ha =>
    obtain ⟨-, -, rfl⟩ := SandboxActuator.reserveLocalStart_ok ha
    refine h.shrinks (tracked_setActuator fun idx x hx _ => ?_)
    rwa [Shrinks.restart_same] at hx
  | fail _ =>
    refine h.shrinks (tracked_setActuator fun idx x hx _ => ?_)
    rwa [SandboxActuator.failStart_eq, Shrinks.restart_same] at hx
  | register _ =>
    refine h.shrinks (tracked_setActuator fun idx x hx hst => ?_)
    rw [SandboxActuator.registerStart_tracked] at hx
    rcases List.mem_append.mp hx with hold | hnew
    · exact hold
    · split at hnew
      · rw [List.mem_singleton.mp hnew] at hst
        cases hst
      · cases hnew
  | stop _ => exact h.spawnBatch (chosen_marks _ _ _)
  | launch hb => exact h.spawnStop hn hb
  | @drain k p _ _ =>
    have hset : (w.setPool (w.stop k).function p).Marked :=
      h.shrinks fun _ _ _ hx _ => hx
    exact hset.goStop (.inl rfl)
  | @finishDrain k _ stopped p _ _ =>
    have hset : (w.setPool (w.stop k).function p).Marked :=
      h.shrinks fun _ _ _ hx _ => hx
    exact hset.goStop (.inl (by cases stopped <;> rfl))
  | drainHanded _ _ | drainFailed _ _ | stopReply _ => exact h.goStop (.inl rfl)
  | @removeNothing k a hpc ha =>
    obtain ⟨hdrop, hno⟩ := hr.removeNothing hl hn hpc ha
    have hset : (w.setActuator (w.stop k).function a).Marked :=
      h.shrinks (tracked_setActuator fun idx x hx _ => drops_subset hdrop idx x hx)
    refine hset.goStop (.inr fun x hx hid => absurd ?_ hno)
    have hx : x ∈ a.tracked (w.stop k).item.workerIdx := by simpa [setActuator] using hx
    exact ⟨_, x, drops_subset hdrop _ x hx, hid⟩
  | @remove k a address hpc ha hne =>
    obtain ⟨y, hdrop, hyid⟩ := remove_drops ha hne
    have hset : (w.setActuator (w.stop k).function a).Marked :=
      h.shrinks (tracked_setActuator fun idx x hx _ => drops_subset hdrop idx x hx)
    have hgo : ((w.setActuator (w.stop k).function a).goStop k .done).Marked := by
      refine hset.goStop (.inr fun x hx hid => ?_)
      have htracks : (w.setActuator (w.stop k).function a).tracks (w.stop k).function x.id :=
        ⟨_, x, hx, rfl⟩
      have hgone := ((hr.tracks_drops hdrop rfl _ _).mp htracks).2
      exact absurd ⟨rfl, by simp [hyid, hid, setActuator]⟩ hgone
    exact hgo.shrinks fun _ _ _ hx _ => hx
  | @cancelStop k hpc =>
    obtain ⟨hlt, -⟩ := hn.stop k (by simp [hpc])
    obtain ⟨hclear, hsub⟩ := cancelStop_marks (w.actuator (w.stop k).function)
      (w.stop k).item.instanceID (hl.workers _ ▸ hlt) (hr.nodup _ _)
    have hset : (w.setActuator (w.stop k).function _).Marked :=
      h.shrinks (tracked_setActuator hsub)
    refine hset.goStop (.inr fun x hx hid => hclear x ?_ hid)
    simpa [setActuator] using hx
  | @reconcile f idx presence _ =>
    obtain ⟨xs, hdrop, -⟩ :=
      SandboxActuator.reconcileWorkerStateWith_spec clearStop (w.actuator f) idx presence
    exact h.shrinks (tracked_setActuator fun i x hx _ => drops_subset hdrop i x hx)
  | @sandboxRemoved f idx id revision _ =>
    obtain ⟨xs, hdrop, -⟩ :=
      SandboxActuator.handleSandboxRemovedWith_spec clearStop (w.actuator f) idx id revision
    exact h.shrinks (tracked_setActuator fun i x hx _ => drops_subset hdrop i x hx)
  | _ => exact h.shrinks fun _ _ _ hx _ => hx

theorem init_marked (c : Config) : (init c).Marked where
  noBatch := fun _ _ => rfl
  mark := nofun

/-! ## Every run -/

/-- All that is known of the registries and of the operations in progress. -/
structure Registered (w : World) : Prop where
  roster : w.Roster
  ledger : w.Ledger
  names : w.Names
  drains : w.Drains
  views : w.Views
  marked : w.Marked

theorem Transition.registered (hs : Transition w act w') (hok : w.distinctAnswer act = true)
    (h : w.Registered) : w'.Registered where
  roster := hs.roster hok h.roster
  ledger := hs.ledger h.ledger
  names := hs.names h.roster h.ledger h.names
  drains := hs.drains h.names h.drains
  views := hs.views h.roster h.ledger h.names h.drains h.views
  marked := hs.marked h.roster h.ledger h.names h.marked

/-- **Run lemma.** -/
theorem registered_of_run {ok : World → Action → Prop}
    (hw : machine.ReachesWhile ok w) (hok : ∀ s a, ok s a → s.distinctAnswer a = true) :
    w.Registered := by
  refine hw.invariant (I := Registered) ?_ ?_
  · rintro s ⟨c, rfl⟩
    exact ⟨init_roster c, init_ledger c, init_names c, init_drains c, init_views c, init_marked c⟩
  · intro s a s' hs ha hstep
    exact (step_transition hstep).registered (hok s a ha) hs

/-- No start, stop or removal of the function is in progress. -/
def quiet (w : World) (f : Nat) : Bool :=
  ((List.range w.njobs).all fun j => (w.job j).function != f || !(w.job j).pc.running) &&
    ((List.range w.nbatches).all fun b => (w.batch b).function != f || (w.batch b).items.isEmpty) &&
    ((List.range w.nstops).all fun k => (w.stop k).function != f || !(w.stop k).pc.running) &&
    (List.range w.nremovals).all fun m =>
      (w.removal m).function != f || (w.removal m).items.isEmpty

/-- The tests of `quiet`, of every operation there is or could be. -/
theorem Registered.still (h : w.Registered) (hq : w.quiet f = true) :
    (∀ j, (w.job j).function = f → (w.job j).pc.running = false) ∧
      (∀ b, (w.batch b).function = f → (w.batch b).items = []) ∧
      (∀ k, (w.stop k).function = f → (w.stop k).pc.running = false) ∧
      ∀ id, ¬ w.removes f id := by
  simp only [quiet, Bool.and_eq_true, List.all_eq_true, List.mem_range, Bool.or_eq_true,
    bne_iff_ne, Bool.not_eq_true', List.isEmpty_iff] at hq
  obtain ⟨⟨⟨hjobs, hbatches⟩, hstops⟩, hremovals⟩ := hq
  refine ⟨fun j hj => ?_, fun b hb => ?_, fun k hk => ?_, ?_⟩
  · have hnone := fun hge => (h.roster.unborn j hge).1
    grind [JobPC.running]
  · have hnone := h.marked.noBatch b
    grind
  · have hnone := h.names.noStop k
    grind [StopPC.running]
  · rintro id ⟨m, hm, hid⟩
    have hnone := h.names.noRemoval m
    grind

/-- With no operation of `f` in progress the three registries of `f` hold the
same instances, no instance is marked and no sandbox is draining. -/
theorem leaf_view_agreement
    (hw : machine.ReachesWhile (fun s a => s.distinctAnswer a = true) w)
    (f : Nat) (hq : w.quiet f = true) :
    (∀ id, w.tracks f id ↔ w.stores f id) ∧ (∀ id, w.tracks f id ↔ w.pools f id) ∧
      (∀ idx, ∀ x ∈ (w.actuator f).tracked idx, x.stopping = false) ∧
      ∀ id r, (w.pool f).pool.sandboxes id = some r →
        ((w.pool f).pool.heap r).draining = false := by
  have h : w.Registered := registered_of_run hw fun _ _ ha => ha
  obtain ⟨hjobs, hbatches, hstops, hremovals⟩ := h.still hq
  have hview := h.views.view f
  have hholds : ∀ id, ¬ w.holds f id := by
    rintro id ⟨j, hj, hf, -⟩
    have hrun := hjobs j hf
    unfold holding at hj
    cases hpc : (w.job j).pc <;> simp_all [JobPC.running]
  have hadding : ∀ id, ¬ w.adding f id :=
    fun id ⟨j, hpc, hf, hid⟩ => hholds id ⟨j, Job.holding_of_added hpc, hf, hid⟩
  have hleaving : ∀ id, ¬ w.leaving f id := by
    rintro id ⟨k, hpc, hf, -⟩
    have hrun := hstops k hf
    rw [hpc] at hrun
    cases hrun
  refine ⟨fun id => ?_, fun id => ?_, fun idx x hx => ?_, fun id r hr => ?_⟩
  · exact ⟨(hview id).trackedStore, fun hst => by grind [(hview id).storedBy hst]⟩
  · exact ⟨fun ht => ((hview id).trackedPool ht).resolve_right (hleaving id),
      fun hp => by grind [(hview id).pooledBy hp]⟩
  · by_contra hs
    rcases h.marked.mark f idx x hx (by simpa using hs) with ⟨b, hf, hitem⟩ | ⟨k, hf, -, hrun⟩
    · rw [hbatches b hf] at hitem
      cases hitem
    · rw [hstops k hf] at hrun
      cases hrun
  · by_contra hs
    have hmarks := Dataplane.World.marks_of_reached (h.drains.reached f)
    obtain ⟨d, hd⟩ := hmarks id r hr (by simpa using hs)
    obtain ⟨k, hf, hdrain⟩ := h.drains.owner f d id (about_of_draining hd)
    have hrun := hstops k hf
    cases hpc : (w.stop k).pc <;> simp_all [StopPC.running, StopPC.drain]

/-- Two instances are started and the first stopped: only the second is left. -/
theorem leaf_view_agreement_one :
    ∃ w : World, w.quiet 1 = true ∧ w.tracks 1 7 ∧ w.stores 1 7 ∧ w.pools 1 7 ∧ ¬ w.tracks 1 8 ∧
      ¬ w.stores 1 8 := by
  obtain ⟨w, hw, hq, hlist, hnone⟩ := machine.exists_while_of_run
    (P := fun s a => s.distinctAnswer a = true)
    (Q := fun w => w.quiet 1 = true ∧ (∃ x ∈ (w.actuator 1).tracked 0, x.id = 7) ∧
      ¬ (w.store.byFunction 1 8).isSome = true)
    (init ⟨1, 2, ⟨false, 0, 0, 0⟩, false, 0, 0, 0, fun _ => (1, 10), 0⟩)
    (startAlone 1 0 1 ⟨8, 0, 1, "a", "", 0, 0, 1⟩ ++ startAlone 1 1 1 ⟨7, 0, 1, "b", "", 0, 0, 2⟩ ++
      [.stop 1 1 false, .launch 0, .drain 0, .pool 1 (.drainLock 0), .pool 1 (.drainReady 0),
        .drained 0, .stopReply 0 .ok, .finishDrain 0, .remove 0, .recordStop 0,
        .storeRemove 0 (some 1), .poolRemove 0]) ⟨_, rfl⟩ (by decide +kernel)
  obtain ⟨hstore, hpool, -, -⟩ := leaf_view_agreement hw 1 hq
  have hseven : w.tracks 1 7 := ⟨0, hlist⟩
  exact ⟨w, hq, hseven, (hstore 7).mp hseven, (hpool 7).mp hseven,
    fun ht => hnone ((hstore 8).mp ht), hnone⟩

end World

end HyperFaaS.Leaf
