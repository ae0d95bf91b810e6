import HyperFaaS.Dataplane.PoolEntries
import HyperFaaS.Leaf.Roster

/-!
The three registries of a function's instances: the actuator's lists, the store
and the pool's map. A start enters store, pool and list in this order, and a
removal leaves list, store and pool in this order, so an instance may be in one
and not in another only while the operation that will settle it is in progress
(`Views`).

`Names` says whose instances the operations in progress speak of: those of
starts that are over. So no stop or removal touches an instance that is still
being started.
-/

namespace HyperFaaS.Leaf

open Function

open Autoscaling

/-- In the store, perhaps in the pool, and on no list yet. -/
def Job.holding (x : Job) : Bool :=
  match x.pc with
  | .stored | .added => true
  | _ => false

namespace World

variable {w w' : World}

/-- The actuator of `f` tracks the instance on some worker. -/
def tracks (w : World) (f id : Nat) : Prop := ∃ idx, ∃ x ∈ (w.actuator f).tracked idx, x.id = id

def stores (w : World) (f id : Nat) : Prop := (w.store.byFunction f id).isSome = true

def pools (w : World) (f id : Nat) : Prop := ((w.pool f).pool.sandboxes id).isSome = true

/-- The start that brought the instance is past its append. -/
def past (w : World) (f idx id : Nat) : Prop :=
  ∃ j, (w.job j).appended = true ∧ (w.job j).function = f ∧ (w.job j).worker = idx ∧
    (w.job j).inst.instanceId = id ∧ id ≠ 0

/-- A removal has yet to take the instance out of the pool. -/
def removes (w : World) (f id : Nat) : Prop :=
  ∃ m, (w.removal m).function = f ∧ id ∈ (w.removal m).items

variable {f idx : Nat} {act : Action}

theorem Roster.past_of_tracked (h : w.Roster) {x : TrackedInstance}
    (hx : x ∈ (w.actuator f).tracked idx) : w.past f idx x.id := by
  obtain ⟨j, happ, hf, hw, hid, -⟩ := h.source f idx x hx
  exact ⟨j, happ, hf, hw, hid, (h.valid f idx x hx).1⟩

theorem Roster.not_past (h : w.Roster) {j : Nat} (hj : (w.job j).appended = false) :
    ¬ w.past f idx (w.job j).inst.instanceId := by
  rintro ⟨i, happ, -, -, hid, hne⟩
  have hij := h.distinct i j hid (hid ▸ hne)
  rw [hij, hj] at happ
  cases happ

theorem Roster.past_unique (h : w.Roster) {g idx' id : Nat} (hp : w.past f idx id)
    (hp' : w.past g idx' id) : f = g ∧ idx = idx' := by
  obtain ⟨i, -, hf, hw, hid, hne⟩ := hp
  obtain ⟨j, -, hf', hw', hid', -⟩ := hp'
  have hij := h.distinct i j (hid.trans hid'.symm) (hid ▸ hne)
  subst hij
  exact ⟨hf.symm.trans hf', hw.symm.trans hw'⟩

theorem Transition.appended (hs : Transition w act w') (h : w.Roster) {i : Nat}
    (hi : (w.job i).appended = true) :
    (w'.job i).appended = true ∧ (w'.job i).function = (w.job i).function ∧
      (w'.job i).worker = (w.job i).worker ∧ (w'.job i).inst = (w.job i).inst := by
  have hset : ∀ (j : Nat) (x : Job), ((w.job j).appended = true → x.appended = true ∧
      x.function = (w.job j).function ∧ x.worker = (w.job j).worker ∧ x.inst = (w.job j).inst) →
      (update w.job j x i).appended = true ∧
        (update w.job j x i).function = (w.job i).function ∧
        (update w.job j x i).worker = (w.job i).worker ∧
        (update w.job j x i).inst = (w.job i).inst := by
    intro j x hx
    by_cases hij : i = j
    · subst hij
      rw [update_self]
      exact hx hi
    · rw [update_of_ne hij]
      exact ⟨hi, rfl, rfl, rfl⟩
  cases hs with
  | placement _ _ | pool _ _ _ | setTarget _ | stop _ | launch _ | drain _ _ | drainHanded _ _
  | drainFailed _ _ | stopReply _ | finishDrain _ _ | removeNothing _ _ | remove _ _ _
  | cancelStop _ | reconcile _ | sandboxRemoved _ | recordStop _ _ _ _ | recordNothing _ _ _
  | recorded _ _ | storeRemove _ _ _ | poolRemove _ _ _ => exact ⟨hi, rfl, rfl, rfl⟩
  | schedule _ _ _ | scheduleAlone _ _ =>
    refine hset w.njobs _ fun hx => ?_
    simp [Job.appended, (h.unborn _ (Nat.le_refl _)).1] at hx
  | planNothing hpc _ | planRefused hpc _ _ | planned hpc _ _ | createFailed hpc | created hpc
  | putFailed hpc _ | put hpc _ | add hpc _ | register hpc | fail hpc =>
    refine hset _ _ fun hx => ?_
    simp [Job.appended, hpc] at hx
  | completeNone _ _ | complete _ _ _ | finish _ _ => exact hset _ _ fun _ => ⟨rfl, rfl, rfl, rfl⟩

theorem Transition.past (hs : Transition w act w') (h : w.Roster) {id : Nat}
    (hp : w.past f idx id) : w'.past f idx id := by
  obtain ⟨j, happ, hf, hw, hid, hne⟩ := hp
  obtain ⟨happ', hf', hw', hinst⟩ := hs.appended h happ
  exact ⟨j, happ', hf'.trans hf, hw'.trans hw, hinst ▸ hid, hne⟩

/-! ## What the operations in progress speak of -/

structure Names (w : World) : Prop where
  noStop : ∀ k, w.nstops ≤ k → (w.stop k).pc = .idle
  noRemoval : ∀ m, w.nremovals ≤ m → (w.removal m).items = []
  stop : ∀ k, (w.stop k).pc ≠ .idle → (w.stop k).item.workerIdx < w.workers ∧
    w.past (w.stop k).function (w.stop k).item.workerIdx (w.stop k).item.instanceID
  batch : ∀ b, ∀ item ∈ (w.batch b).items, item.workerIdx < w.workers ∧
    w.past (w.batch b).function item.workerIdx item.instanceID
  removal : ∀ m, ∀ id ∈ (w.removal m).items,
    w.past (w.removal m).function (w.removal m).worker id

theorem Names.congr (h : w.Names) (hpast : ∀ f idx id, w.past f idx id → w'.past f idx id)
    (hw : w'.workers = w.workers) (hns : w'.nstops = w.nstops) (hs : w'.stop = w.stop)
    (hb : w'.batch = w.batch) (hnr : w'.nremovals = w.nremovals) (hr : w'.removal = w.removal) :
    w'.Names where
  noStop := by rw [hns, hs]; exact h.noStop
  noRemoval := by rw [hnr, hr]; exact h.noRemoval
  stop := by
    rw [hs, hw]
    exact fun k hk => ⟨(h.stop k hk).1, hpast _ _ _ (h.stop k hk).2⟩
  batch := by
    rw [hb, hw]
    exact fun b it hit => ⟨(h.batch b it hit).1, hpast _ _ _ (h.batch b it hit).2⟩
  removal := by
    rw [hr]
    exact fun m id hid => hpast _ _ _ (h.removal m id hid)

theorem Names.setActuator (h : w.Names) (f : Nat) (a : SandboxActuator) :
    (w.setActuator f a).Names :=
  h.congr (fun _ _ _ hp => hp) rfl rfl rfl rfl rfl rfl

theorem Names.setPool (h : w.Names) (f : Nat) (p : Dataplane.World) : (w.setPool f p).Names :=
  h.congr (fun _ _ _ hp => hp) rfl rfl rfl rfl rfl rfl

theorem Names.goStop (h : w.Names) {k : Nat} (pc : StopPC) (hk : (w.stop k).pc ≠ .idle) :
    (w.goStop k pc).Names := by
  have hlt : k < w.nstops := by
    by_contra hge
    exact hk (h.noStop k (by omega))
  constructor
  case noStop =>
    intro i hi
    have hi : w.nstops ≤ i := hi
    have hik : i ≠ k := by omega
    simpa [World.goStop, World.setStop, hik] using h.noStop i hi
  case noRemoval => exact h.noRemoval
  case stop =>
    intro i hi
    by_cases hik : i = k
    · subst hik
      simp only [World.goStop, World.setStop, update_self]
      exact h.stop i hk
    · simp only [World.goStop, World.setStop, update_of_ne hik] at hi ⊢
      exact h.stop i hi
  case batch => exact h.batch
  case removal => exact h.removal

theorem Names.spawnBatch (h : w.Names) {items : List StopItem}
    (hitems : ∀ item ∈ items, item.workerIdx < w.workers ∧
      w.past f item.workerIdx item.instanceID) : (w.spawnBatch f items).Names where
  noStop := h.noStop
  noRemoval := h.noRemoval
  stop := h.stop
  batch := by
    intro b item hitem
    by_cases hb : b = w.nbatches
    · subst hb
      simp only [World.spawnBatch, update_self] at hitem ⊢
      exact hitems item hitem
    · simp only [World.spawnBatch, update_of_ne hb] at hitem ⊢
      exact h.batch b item hitem
  removal := h.removal

theorem Names.spawnStop (h : w.Names) {b : Nat} {item : StopItem} {rest : List StopItem}
    (hb : (w.batch b).items = item :: rest) : (w.spawnStop b item rest).Names := by
  have hall := h.batch b
  rw [hb] at hall
  constructor
  case noStop =>
    intro k hk
    have hk : w.nstops + 1 ≤ k := hk
    have hne : k ≠ w.nstops := by omega
    simpa [World.spawnStop, World.setStop, hne] using h.noStop k (by omega)
  case noRemoval => exact h.noRemoval
  case stop =>
    intro k hk
    by_cases hkn : k = w.nstops
    · subst hkn
      simp only [World.spawnStop, World.setStop, update_self]
      exact hall item List.mem_cons_self
    · simp only [World.spawnStop, World.setStop, update_of_ne hkn] at hk ⊢
      exact h.stop k hk
  case batch =>
    intro b' it hit
    by_cases hbb : b' = b
    · subst hbb
      simp only [World.spawnStop, update_self] at hit ⊢
      exact hall it (List.mem_cons_of_mem _ hit)
    · simp only [World.spawnStop, update_of_ne hbb] at hit ⊢
      exact h.batch b' it hit
  case removal => exact h.removal

theorem Names.spawnRemoval (h : w.Names) {items : List Nat}
    (hitems : ∀ id ∈ items, w.past f idx id) : (w.spawnRemoval f idx items).Names where
  noStop := h.noStop
  noRemoval := by
    intro m hm
    have hm : w.nremovals + 1 ≤ m := hm
    have hne : m ≠ w.nremovals := by omega
    simpa [World.spawnRemoval, World.setRemoval, hne] using h.noRemoval m (by omega)
  stop := h.stop
  batch := h.batch
  removal := by
    intro m id hid
    by_cases hm : m = w.nremovals
    · subst hm
      simp only [World.spawnRemoval, World.setRemoval, update_self] at hid ⊢
      exact hitems id hid
    · simp only [World.spawnRemoval, World.setRemoval, update_of_ne hm] at hid ⊢
      exact h.removal m id hid

theorem Names.setRemoval (h : w.Names) {m : Nat} {x : Removal}
    (hf : x.function = (w.removal m).function) (hw : x.worker = (w.removal m).worker)
    (hx : x.items ⊆ (w.removal m).items) : (w.setRemoval m x).Names where
  noStop := h.noStop
  noRemoval := by
    intro n hn
    by_cases hnm : n = m
    · subst hnm
      have hnil := h.noRemoval n hn
      rw [hnil] at hx
      simpa [World.setRemoval] using List.subset_nil.mp hx
    · simpa [World.setRemoval, hnm] using h.noRemoval n hn
  stop := h.stop
  batch := h.batch
  removal := by
    intro n id hid
    by_cases hnm : n = m
    · subst hnm
      simp only [World.setRemoval, update_self] at hid ⊢
      rw [hf, hw]
      exact h.removal n id (hx hid)
    · simp only [World.setRemoval, update_of_ne hnm] at hid ⊢
      exact h.removal n id hid

theorem Roster.past_of_drops (h : w.Roster) {a : SandboxActuator} {clear : Bool → Int → Int}
    {xs : List TrackedInstance} (hd : SandboxActuator.Drops clear (w.actuator f) a idx xs) :
    ∀ id ∈ xs.map (·.id), w.past f idx id := by
  intro id hid
  obtain ⟨x, hx, rfl⟩ := List.mem_map.mp hid
  exact h.past_of_tracked (hd.perm.mem_iff.mpr (List.mem_append_left _ hx))

theorem Transition.workers (hs : Transition w act w') : w'.workers = w.workers := by
  cases hs <;> rfl

/-- **One step** and the names. -/
theorem Transition.names (hs : Transition w act w') (hr : w.Roster) (hl : w.Ledger) (h : w.Names) :
    w'.Names := by
  have hpast := fun f idx id (hp : w.past f idx id) => hs.past hr hp
  cases hs with
  | placement _ _ | pool _ _ _ | setTarget _ | schedule _ _ _ | scheduleAlone _ _
  | planNothing _ _ | planRefused _ _ _ | planned _ _ _ | createFailed _ | created _
  | putFailed _ _ | put _ _ | add _ _ | register _ | fail _ | completeNone _ _ | complete _ _ _
  | finish _ _ => exact h.congr hpast rfl rfl rfl rfl rfl rfl
  | @stop f count within _ =>
    have hm := chosen_marks (w.actuator f) count within
    refine (h.setActuator f _).spawnBatch ?_
    intro item hitem
    obtain ⟨hlt, x, hx, hid⟩ := hm.items item hitem
    rw [hl.workers] at hlt
    exact ⟨hlt, hid ▸ hr.past_of_tracked hx⟩
  | launch hb => exact h.spawnStop hb
  | @drain k _ hpc _ | @finishDrain k _ _ _ hpc _ =>
    have hk : (w.stop k).pc ≠ .idle := by simp [hpc]
    exact (h.setPool _ _).goStop _ hk
  | drainHanded hpc _ | drainFailed hpc _ | stopReply hpc => exact h.goStop _ (by simp [hpc])
  | @removeNothing k _ hpc _ | @cancelStop k hpc =>
    have hk : (w.stop k).pc ≠ .idle := by simp [hpc]
    exact (h.setActuator _ _).goStop _ hk
  | @remove k a address hpc _ _ =>
    have hk : (w.stop k).pc ≠ .idle := by simp [hpc]
    refine ((h.setActuator _ a).goStop .done hk).spawnRemoval ?_
    intro id hid
    rw [List.mem_singleton.mp hid]
    exact (h.stop k hk).2
  | @reconcile f idx presence _ =>
    obtain ⟨xs, hd, hxs, -⟩ :=
      SandboxActuator.reconcileWorkerStateWith_spec clearStop (w.actuator f) idx presence
    refine (h.setActuator f _).spawnRemoval ?_
    rw [SandboxActuator.reconcileWorkerState, hxs, List.map_map]
    exact hr.past_of_drops hd
  | @sandboxRemoved f idx id revision _ =>
    obtain ⟨xs, hd, hxs, -⟩ :=
      SandboxActuator.handleSandboxRemovedWith_spec clearStop (w.actuator f) idx id revision
    refine (h.setActuator f _).spawnRemoval ?_
    rw [SandboxActuator.handleSandboxRemoved, hxs, List.map_map]
    exact hr.past_of_drops hd
  | @recordStop m p _ _ _ _ =>
    have hp : (w.setPlacement p).Names := h.congr (fun _ _ _ hp => hp) rfl rfl rfl rfl rfl rfl
    exact hp.setRemoval rfl rfl (List.Subset.refl _)
  | recordNothing _ _ _ | recorded _ _ => exact h.setRemoval rfl rfl (List.Subset.refl _)
  | @storeRemove m id rest found s _ _ _ =>
    have hset : (w.setStore s).Names := h.congr (fun _ _ _ hp => hp) rfl rfl rfl rfl rfl rfl
    exact hset.setRemoval rfl rfl (List.Subset.refl _)
  | @poolRemove m id rest p _ hitems _ =>
    refine (h.setPool _ p).setRemoval rfl rfl ?_
    show rest ⊆ (w.removal m).items
    rw [hitems]
    exact List.subset_cons_self _ _

theorem init_names (c : Config) : (init c).Names where
  noStop := fun _ _ => rfl
  noRemoval := fun _ _ => rfl
  stop := fun _ hk => absurd rfl hk
  batch := nofun
  removal := nofun

end World

end HyperFaaS.Leaf
