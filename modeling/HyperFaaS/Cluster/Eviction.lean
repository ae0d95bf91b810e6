import HyperFaaS.Cluster.Linked

/-!
Snapshots and removal events as evidence (`ReconcileWorkerState`,
`HandleSandboxRemoved`).

* `eviction_safety`: as long as no worker restarts, an instance that the leaf evicts
  is no longer in the map of its worker.
* `anti_entropy`: a snapshot that was captured after an instance had left the map
  takes it off the lists and out of the pool, if the worker's counter had reached the
  revision the instance was created with. A restart sets the counter back
  (`restarted_worker_kept`).
-/

namespace HyperFaaS.Cluster

open Autoscaling Leaf.World SandboxActuator
open Leaf (InstanceState StopReply Fault)
open Worker (Sandbox SandboxRemoval)

namespace World

variable {s s' : World}

/-! ## Order of revisions -/

/-- No restart, so far: revisions of entered sandboxes and of snapshots are below
the counter, and a snapshot that is not older than a sandbox shows it, unless it is
gone. -/
structure Ordered (s : World) : Prop where
  below : ∀ j state, (s.create j).state = some state →
    state.workerStateRevision ≤ (s.worker (s.leaf.job j).worker).stateRevision
  taken : ∀ x ∈ s.snapshots, x.presence.revision ≤ (s.worker x.worker).stateRevision
  shown : ∀ x ∈ s.snapshots, ∀ j state, (s.create j).state = some state →
    (s.leaf.job j).worker = x.worker → state.workerStateRevision ≤ x.presence.revision →
    (s.leaf.job j).instanceID ∈ x.presence.instanceIDs ∨
      (s.leaf.job j).instanceID ∉ (s.worker x.worker).ids

theorem Ordered.frame (h : s.Ordered)
    (hstate : ∀ j, (s'.create j).state = (s.create j).state)
    (hjob : ∀ j, (s.create j).state ≠ none → (s'.leaf.job j).worker = (s.leaf.job j).worker ∧
      (s'.leaf.job j).instanceID = (s.leaf.job j).instanceID)
    (hrev : ∀ idx, (s.worker idx).stateRevision ≤ (s'.worker idx).stateRevision)
    (hids : ∀ idx id, id ∈ (s'.worker idx).ids → id ∈ (s.worker idx).ids)
    (hsnap : s'.snapshots = s.snapshots) : s'.Ordered where
  below := by
    intro j state hj
    rw [hstate] at hj
    rw [(hjob j (by simp [hj])).1]
    exact Nat.le_trans (h.below j state hj) (hrev _)
  taken := by
    rw [hsnap]
    exact fun x hx => Nat.le_trans (h.taken x hx) (hrev _)
  shown := by
    rw [hsnap]
    intro x hx j state hj hw hle
    rw [hstate] at hj
    obtain ⟨hw', hid⟩ := hjob j (by simp [hj])
    rw [hid]
    rcases h.shown x hx j state hj (hw' ▸ hw) hle with hin | hout
    · exact .inl hin
    · exact .inr fun hmem => hout (hids _ _ hmem)

variable {idx j f n : Nat} {a : Action}

theorem Ordered.setWorker (h : s.Ordered) {x : Sandbox}
    (hrev : (s.worker idx).stateRevision ≤ x.stateRevision)
    (hids : ∀ id ∈ x.ids, id ∈ (s.worker idx).ids) : (s.setWorker idx x).Ordered := by
  have hself : (s.setWorker idx x).worker idx = x := by simp [World.setWorker]
  have hother : ∀ i, i ≠ idx → (s.setWorker idx x).worker i = s.worker i := by
    intro i hi
    simp [World.setWorker, hi]
  refine h.frame (fun _ => rfl) (fun _ _ => ⟨rfl, rfl⟩) (fun i => ?_) (fun i id hid => ?_) rfl
  all_goals by_cases hi : i = idx
  · rw [hi, hself]
    exact hrev
  · rw [hother i hi]
  · rw [hi, hself] at hid
    rw [hi]
    exact hids id hid
  · rw [hother i hi] at hid
    exact hid

theorem Ordered.remove (h : s.Ordered) (idx id : Nat) (notify : Bool) :
    (s.setWorker idx ((s.worker idx).removeInstanceInternal id notify).1).Ordered :=
  h.setWorker (Sandbox.removeInstanceInternal_spec _ _ _).2.1
    fun _ hi => (Sandbox.ids_remove.mp hi).1

theorem Ordered.goCreate (h : s.Ordered) (j : Nat) (pc : CreatePC) : (s.goCreate j pc).Ordered := by
  refine h.frame (fun i => ?_) (fun _ _ => ⟨rfl, rfl⟩) (fun _ => Nat.le_refl _) (fun _ _ hid => hid)
    rfl
  by_cases hi : i = j
  · subst hi
    simp [World.goCreate, setCreate]
  · simp [World.goCreate, setCreate, hi]

theorem Linked.capture_ids (h : s.Linked) (idx : Nat) :
    (capture idx (s.worker idx)).presence.instanceIDs = (s.worker idx).ids := by
  show ((s.worker idx).instances.map Prod.snd).map (·.instanceId) = (s.worker idx).ids
  rw [List.map_map]
  refine List.map_congr_left fun r hr => ?_
  obtain ⟨j, hj, -, hid⟩ := h.held idx r hr
  exact (h.entered j r.2 hj).1.trans hid

theorem Ordered.snapshot (h : s.Ordered) (hl : s.Linked) (idx : Nat) : (s.snapshot idx).Ordered where
  below := h.below
  taken := by
    intro x hx
    rcases List.mem_append.mp hx with hold | hnew
    · exact h.taken x hold
    · rw [List.mem_singleton.mp hnew]
      exact Nat.le_refl _
  shown := by
    intro x hx j state hj hw hle
    rcases List.mem_append.mp hx with hold | hnew
    · exact h.shown x hold j state hj hw hle
    · rw [List.mem_singleton.mp hnew, hl.capture_ids]
      exact Decidable.em _

/-- The sandbox that is entered is newer than every snapshot. -/
theorem Ordered.start (h : s.Ordered) (hl : s.Linked) {address : String} {ready : Bool}
    (hsent : (s.create j).pc = .sent) (hid : (s.leaf.job j).instanceID ≠ 0) :
    ((s.setWorker (s.leaf.job j).worker (s.started j address).1).setCreate j
      ⟨if ready then .pinging else .waiting, some (s.started j address).2⟩).Ordered := by
  have hnone : (s.create j).state = none := hl.blank j (.inr hsent)
  generalize hs' : (s.setWorker (s.leaf.job j).worker (s.started j address).1).setCreate j
    ⟨if ready then .pinging else .waiting, some (s.started j address).2⟩ = s'
  have hleaf : s'.leaf = s.leaf := by subst hs'; rfl
  have hsnap : s'.snapshots = s.snapshots := by subst hs'; rfl
  have hself : (s'.create j).state = some (s.started j address).2 := by
    subst hs'
    simp [World.setCreate]
  have hother : ∀ i, i ≠ j → s'.create i = s.create i := by
    intro i hi
    subst hs'
    simp [World.setCreate, World.setWorker, hi]
  have hworker : s'.worker (s.leaf.job j).worker = (s.started j address).1 := by
    subst hs'
    simp [World.setCreate, World.setWorker]
  have hworker' : ∀ idx, idx ≠ (s.leaf.job j).worker → s'.worker idx = s.worker idx := by
    intro idx hidx
    subst hs'
    simp [World.setCreate, World.setWorker, hidx]
  have hnew : (s.started j address).2.workerStateRevision =
      (s.worker (s.leaf.job j).worker).stateRevision + 1 := rfl
  have hcount : (s.started j address).1.stateRevision =
      (s.worker (s.leaf.job j).worker).stateRevision + 1 := rfl
  have hrev : ∀ idx, (s.worker idx).stateRevision ≤ (s'.worker idx).stateRevision := by
    intro idx
    by_cases hidx : idx = (s.leaf.job j).worker
    · rw [hidx, hworker, hcount]
      omega
    · rw [hworker' idx hidx]
  constructor
  case below =>
    rw [hleaf]
    intro i state hi
    by_cases hij : i = j
    · rw [hij, hself] at hi
      rw [hij, hworker, ← Option.some.inj hi, hnew, hcount]
    · rw [hother i hij] at hi
      exact Nat.le_trans (h.below i state hi) (hrev _)
  case taken =>
    rw [hsnap]
    exact fun x hx => Nat.le_trans (h.taken x hx) (hrev _)
  case shown =>
    rw [hleaf, hsnap]
    intro x hx i state hi hw hle
    by_cases hij : i = j
    · rw [hij] at hw
      rw [hij, hself] at hi
      rw [← Option.some.inj hi, hnew, hw] at hle
      have := h.taken x hx
      omega
    · rw [hother i hij] at hi
      rcases h.shown x hx i state hi hw hle with hin | hout
      · exact .inl hin
      · refine .inr fun hmem => hout ?_
        by_cases hidx : x.worker = (s.leaf.job j).worker
        · rw [hidx] at hmem ⊢
          rw [hworker] at hmem
          rcases Sandbox.ids_enter.mp hmem with heq | hold
          · exact absurd (hl.fresh i j heq (heq ▸ hid)) hij
          · exact hold
        · exact hworker' _ hidx ▸ hmem

/-- The steps of a cluster whose workers stay up. -/
def stays : Action → Bool
  | .restart _ => false
  | _ => true

theorem Transition.ordered (ht : Transition s a s') (hl : s.Linked) (hstays : stays a = true)
    (h : s.Ordered) : s'.Ordered := by
  cases ht with
  | leaf _ hstep =>
    have hs := Leaf.World.step_transition hstep
    exact h.frame (fun _ => rfl) (fun j hj => (hl.keeps hs hj).2) (fun _ => Nat.le_refl _)
      (fun _ _ hid => hid) rfl
  | @send j _ hi =>
    refine h.frame (fun i => ?_) (fun _ _ => ⟨rfl, rfl⟩) (fun _ => Nat.le_refl _)
      (fun _ _ hid => hid) rfl
    by_cases hij : i = j
    · subst hij
      simp [setCreate, hl.blank i (.inl hi)]
    · simp [setCreate, hij]
  | refuse _ | ready _ | reached _ _ | cancel _ => exact h.goCreate _ _
  | start hpc hid => exact h.start hl hpc hid
  | unreached _ | timeout _ => exact (h.remove _ _ false).goCreate _ _
  | sendStop _ _ | stopRefused _ => exact ⟨h.below, h.taken, h.shown⟩
  | @stopped k _ =>
    have hw := h.remove (s.leaf.stop k).item.workerIdx (s.leaf.stop k).item.instanceID false
    exact ⟨hw.below, hw.taken, hw.shown⟩
  | @exit idx id =>
    have hw := h.remove idx id true
    exact ⟨hw.below, hw.taken, hw.shown⟩
  | snapshot => exact h.snapshot hl _
  | restart => cases hstays

theorem init_ordered (c : Config) : (init c).Ordered where
  below := nofun
  taken := nofun
  shown := nofun

/-- **Run lemma.** -/
theorem ordered_of_run {ok : World → Action → Prop} (hs : machine.ReachesWhile ok s)
    (hok : ∀ t a, ok t a → t.freshIds a = true ∧ stays a = true) : s.Linked ∧ s.Ordered := by
  refine hs.invariant (I := fun s => s.Linked ∧ s.Ordered) ?_ ?_
  · rintro t ⟨c, rfl⟩
    exact ⟨init_linked c, init_ordered c⟩
  · rintro t a t' ⟨hl, ho⟩ ha hstep
    have ht := step_transition hstep
    exact ⟨ht.linked (hok t a ha).1 hl, ht.ordered hl (hok t a ha).2 ho⟩

/-! ## Evictions -/

/-- The actions that may evict. -/
def delivers : Action → Bool
  | .relist _ _ | .event _ => true
  | _ => false

theorem Linked.source (h : s.Linked) {x : TrackedInstance}
    (hx : x ∈ (s.leaf.actuator f).tracked idx) :
    ∃ j state, (s.create j).state = some state ∧ (s.leaf.job j).worker = idx ∧
      (s.leaf.job j).instanceID = x.id ∧ state.workerStateRevision = x.workerStateRevision := by
  obtain ⟨j, -, -, hw, hid, hrev⟩ := h.roster.source f idx x hx
  obtain ⟨state, hstate, hid', hrev'⟩ := h.answer j (hid ▸ (h.roster.valid f idx x hx).1)
  exact ⟨j, state, hstate, hw, (h.entered j state hstate).1.symm.trans (hid'.symm.trans hid),
    hrev'.symm.trans hrev⟩

theorem Linked.past_step (h : s.Linked) (ht : Transition s a s') {id : Nat}
    (hp : s.leaf.past f idx id) : s'.leaf.past f idx id := by
  cases ht with
  | leaf _ hstep => exact (Leaf.World.step_transition hstep).past h.roster hp
  | _ => exact hp

theorem keeps_false {presence : WorkerPresence} {x : TrackedInstance}
    (h : keeps presence x = false) :
    x.id ∉ presence.instanceIDs ∧ x.workerStateRevision ≤ presence.revision := by
  simp only [keeps, Bool.or_eq_false_iff, decide_eq_false_iff_not] at h
  exact ⟨h.1.1, by omega⟩

/-- What a snapshot or an event takes off a list is not in the map. -/
theorem Ordered.leaves_map (ho : s.Ordered) (hl : s.Linked) {act : Leaf.Action}
    (hb : s.Brings a act) {xs : List TrackedInstance}
    (hleaves : Leaves s.leaf f idx xs act) (hact : ∀ k, act ≠ .remove k)
    {x : TrackedInstance} (hx : x ∈ xs) (htr : x ∈ (s.leaf.actuator f).tracked idx) :
    x.id ∉ (s.worker idx).ids := by
  cases hleaves with
  | @stopped k _ _ _ _ => exact absurd rfl (hact k)
  | relisted hkeeps =>
    obtain ⟨hout, hle⟩ := keeps_false (hkeeps x hx)
    obtain ⟨j, state, hstate, hw, hid, hrev⟩ := hl.source htr
    cases hb with
    | own ho' => cases ho'
    | @relist n _ snap hsnap =>
      have hshown := ho.shown snap (List.mem_of_getElem? hsnap) j state hstate hw (hrev ▸ hle)
      rw [hid] at hshown
      exact hshown.resolve_left hout
  | reported hid =>
    rw [hid x hx]
    cases hb with
    | own ho' => cases ho'
    | event he => exact (hl.gone _ (List.mem_of_getElem? he)).1

/-- While no worker restarts and no id is drawn twice, an instance that a snapshot
or a removal event takes off the list of its worker is not in the map of that
worker. -/
theorem eviction_safety
    (hs : machine.ReachesWhile (fun t a => t.freshIds a = true ∧ stays a = true) s)
    {a : Action} (ha : delivers a = true) (hstep : machine.step s a = .ok s')
    {f idx : Nat} {x : TrackedInstance} (hx : x ∈ (s.leaf.actuator f).tracked idx)
    (hgone : ∀ y ∈ (s'.leaf.actuator f).tracked idx, y.id ≠ x.id) :
    x.id ∉ (s.worker idx).ids ∧ x.id ∉ (s'.worker idx).ids := by
  obtain ⟨hl, ho⟩ := ordered_of_run hs fun _ _ h => h
  have hgone : ¬ s'.leaf.tracks f x.id := by
    rintro ⟨i, y, hy, hyx⟩
    have hl' : s'.Linked := (step_transition hstep).linked (by cases a <;> first | rfl | cases ha) hl
    have hpast := hl'.roster.past_of_tracked hy
    have hpast' := hl.past_step (step_transition hstep) (hl.roster.past_of_tracked hx)
    rw [hyx] at hpast
    obtain ⟨-, rfl⟩ := hl'.roster.past_unique hpast hpast'
    exact hgone y hy hyx
  cases step_transition hstep with
  | @leaf _ act w hb hleaf =>
    have ht := Leaf.World.step_transition hleaf
    suffices hout : x.id ∉ (s.worker idx).ids from ⟨hout, hout⟩
    cases ht.trackStep hl.roster with
    | same hiff => exact absurd ((hiff f x.id).mpr ⟨idx, x, hx, rfl⟩) hgone
    | registered _ _ hiff => exact absurd ((hiff f x.id).mpr (.inl ⟨idx, x, hx, rfl⟩)) hgone
    | @dropped g idx' xs hleaves hsub hiff =>
      obtain ⟨rfl, y, hy, hyx⟩ : f = g ∧ ∃ y ∈ xs, y.id = x.id := by
        by_contra hno
        exact hgone ((hiff f x.id).mpr ⟨⟨idx, x, hx, rfl⟩, fun hboth =>
          hno ⟨hboth.1, List.mem_map.mp hboth.2⟩⟩)
      -- `y` is `x`, seen in the list the step has shortened
      have hidx : idx' = idx :=
        (hl.roster.past_unique (hyx ▸ hl.roster.past_of_tracked (hsub y hy))
          (hl.roster.past_of_tracked hx)).2
      subst hidx
      rw [← hyx]
      refine ho.leaves_map hl hb hleaves ?_ hy (hsub y hy)
      rintro k rfl
      cases hb with
      | own _ => cases ha
  | _ => cases ha

/-- A start of function `f` on worker `idx`, from the plan until it is registered. -/
def startOn (f j idx id : Nat) (address : String) : List Action :=
  [.leaf (.schedule f ⟨"http", none⟩ "demand" false .snapshot ""),
    .leaf (.plan j (some ⟨idx + 1, ""⟩) id), .send j, .start j address true, .ping j true,
    .created j, .leaf (.put j), .leaf (.add j), .leaf (.register j), .leaf (.complete j)]

/-- A leaf with two functions, without a placement ledger. -/
def twoWorkers : World := init ⟨2, 2, ⟨false, 0, 0, 0⟩, false, 0, 0, 0, fun _ => (1, 10), 0⟩

/-- A sandbox exits; a snapshot from before it and one from after it arrive, the
old one last. -/
theorem eviction_safety_exit :
    ∃ s s' : World, machine.step s (.relist 1 1) = .ok s' ∧
      ((s.leaf.actuator 1).tracked 0).map (·.id) = [7] ∧
      ((s'.leaf.actuator 1).tracked 0).map (·.id) = [] ∧ 7 ∉ (s'.worker 0).ids := by
  obtain ⟨s, hs, s', hstep, hbefore, hafter⟩ := machine.exists_while_of_run
    (P := fun t a => t.freshIds a = true ∧ stays a = true)
    (Q := fun s => ∃ s', machine.step s (.relist 1 1) = .ok s' ∧
      ((s.leaf.actuator 1).tracked 0).map (·.id) = [7] ∧
      ((s'.leaf.actuator 1).tracked 0).map (·.id) = []) twoWorkers
    ([.snapshot 0] ++ startOn 1 0 0 7 "a" ++ [.exit 0 7, .snapshot 0, .relist 0 1])
    ⟨_, rfl⟩ (by decide +kernel)
  obtain ⟨x, hx, hid⟩ := List.mem_map.mp
    (show 7 ∈ ((s.leaf.actuator 1).tracked 0).map (·.id) by simp [hbefore])
  have hempty := List.map_eq_nil_iff.mp hafter
  have hout := (eviction_safety hs rfl hstep hx (by simp [hempty])).2
  exact ⟨s, s', hstep, hbefore, hafter, hid ▸ hout⟩

/-! ## Anti-entropy -/

theorem Transition.captured (ht : Transition s a s') {x : Snapshot}
    (hx : s.snapshots[n]? = some x) : s'.snapshots[n]? = some x := by
  cases ht with
  | snapshot =>
    obtain ⟨hlt, -⟩ := List.getElem?_eq_some_iff.mp hx
    show (s.snapshots ++ _)[n]? = some x
    rw [List.getElem?_append_left hlt, hx]
  | _ => exact hx

theorem Linked.inst_step (h : s.Linked) (ht : Transition s a s')
    (hj : (s.leaf.job j).appended = true) : (s'.leaf.job j).appended = true ∧
      (s'.leaf.job j).worker = (s.leaf.job j).worker ∧
      (s'.leaf.job j).inst = (s.leaf.job j).inst := by
  cases ht with
  | leaf _ hstep =>
    obtain ⟨happ, -, hw, hinst⟩ := (Leaf.World.step_transition hstep).appended h.roster hj
    exact ⟨happ, hw, hinst⟩
  | _ => exact ⟨hj, rfl, rfl⟩

theorem Linked.untracked (h : s.Linked) (ht : Transition s a s') {id : Nat}
    (hp : s.leaf.past f idx id) (hno : ¬ s.leaf.tracks f id) : ¬ s'.leaf.tracks f id := by
  cases ht with
  | leaf _ hstep => exact (Leaf.World.step_transition hstep).untracked h.roster hp hno
  | _ => exact hno

/-- What a snapshot is to the instance of start `j`: captured after the start and
without the instance, and not older than it by the worker's count. -/
structure Proves (s : World) (n j f idx : Nat) (x : Snapshot) : Prop where
  linked : s.Linked
  captured : s.snapshots[n]? = some x
  worker : x.worker = idx
  finished : (s.leaf.job j).appended = true
  past : s.leaf.past f idx (s.leaf.job j).inst.instanceId
  absent : (s.leaf.job j).inst.instanceId ∉ x.presence.instanceIDs
  newer : (s.leaf.job j).inst.workerStateRevision ≤ x.presence.revision

theorem Proves.step {x : Snapshot} (h : s.Proves n j f idx x) (hfresh : s.freshIds a = true)
    (ht : Transition s a s') : s'.Proves n j f idx x := by
  obtain ⟨hfinished, -, hinst⟩ := h.linked.inst_step ht h.finished
  exact {
    linked := ht.linked hfresh h.linked
    captured := ht.captured h.captured
    worker := h.worker
    finished := hfinished
    past := hinst ▸ h.linked.past_step ht h.past
    absent := hinst ▸ h.absent
    newer := hinst ▸ h.newer }

theorem Proves.not_kept {x : Snapshot} (h : s.Proves n j f idx x) {y : TrackedInstance}
    (hy : y ∈ (s.leaf.actuator f).tracked idx) (hid : y.id = (s.leaf.job j).inst.instanceId) :
    keeps x.presence y = false ∧ idx < (s.leaf.actuator f).workers := by
  have hl := h.linked
  obtain ⟨i, -, -, -, hiid, hirev⟩ := hl.roster.source f idx y hy
  have hne := (hl.roster.valid f idx y hy).1
  have hij : i = j := hl.roster.distinct i j (hiid.trans hid) (hiid ▸ hne)
  obtain ⟨k, state, hstate, hw, -, hrev⟩ := hl.source hy
  have hpos := (hl.entered k state hstate).2.2.2
  have hnewer := h.newer
  rw [← hij, hirev] at hnewer
  refine ⟨?_, ?_⟩
  · simp only [keeps, Bool.or_eq_false_iff, decide_eq_false_iff_not, beq_eq_false_iff_ne]
    exact ⟨⟨hid ▸ h.absent, by omega, by omega⟩, by omega⟩
  · rw [hl.registered.ledger.workers, ← hw]
    exact (hl.begun k (hl.begun_of_state (by simp [hstate]))).2

theorem Proves.evicts {x : Snapshot} (h : s.Proves n j f idx x)
    (hstep : s.step (.relist n f) = .ok s') :
    ¬ s'.leaf.tracks f (s.leaf.job j).inst.instanceId := by
  have ht := step_transition hstep
  have hl' : s'.Linked := ht.linked rfl h.linked
  rintro ⟨i, y, hy, hid⟩
  -- only on the worker of its own start
  have hpast := hl'.roster.past_of_tracked hy
  rw [hid] at hpast
  obtain ⟨-, rfl⟩ := hl'.roster.past_unique hpast (h.linked.past_step ht h.past)
  obtain ⟨x', w, hx', hleaf, rfl⟩ : ∃ x' w, s.snapshots[n]? = some x' ∧
      s.leaf.step (.reconcile f x'.worker x'.presence) = .ok w ∧ s' = { s with leaf := w } := by
    cases ht with
    | leaf hb hleaf =>
      cases hb with
      | relist hx => exact ⟨_, _, hx, hleaf, rfl⟩
  obtain rfl : x = x' := Option.some.inj (h.captured.symm.trans hx')
  obtain ⟨xs, hd, -, -, hkeeps⟩ := SandboxActuator.reconcileWorkerStateWith_spec clearStop
    (s.leaf.actuator f) x.worker x.presence
  have hlist : (w.actuator f).tracked i = ((s.leaf.actuator f).reconcileWorkerStateWith
      clearStop x.worker x.presence).1.tracked i := by
    cases Leaf.World.step_transition hleaf with
    | reconcile _ =>
      simp [Leaf.World.evict, Leaf.World.setActuator, Leaf.World.spawnRemoval,
        Leaf.World.setRemoval, SandboxActuator.reconcileWorkerState]
  have hy : y ∈ (w.actuator f).tracked i := hy
  rw [hlist] at hy
  obtain ⟨hdrop, hbound⟩ := h.not_kept (Leaf.World.drops_subset hd i y hy) hid
  have hkeep := hkeeps (h.worker ▸ hbound) y (h.worker ▸ hy)
  rw [hdrop] at hkeep
  cases hkeep

/-- The instance of start `j` is on no list. -/
structure Gone (s : World) (f idx id : Nat) : Prop where
  linked : s.Linked
  past : s.leaf.past f idx id
  untracked : ¬ s.leaf.tracks f id

theorem Gone.step {id : Nat} (h : s.Gone f idx id) (hfresh : s.freshIds a = true)
    (ht : Transition s a s') : s'.Gone f idx id where
  linked := ht.linked hfresh h.linked
  past := h.linked.past_step ht h.past
  untracked := h.linked.untracked ht h.past h.untracked

/-- Once no removal of it is in progress, the pool does not have it either. -/
theorem Gone.unpooled {id : Nat} (h : s.Gone f idx id) (hr : ¬ s.leaf.removes f id) :
    ¬ s.leaf.pools f id := by
  intro hp
  rcases (h.linked.registered.views.view f id).pooledBy hp with ht | ⟨j, hpc, -, rfl⟩ | hm
  · exact h.untracked ht
  · exact h.linked.roster.not_past (j := j) (by simp [Leaf.Job.appended, hpc]) h.past
  · exact hr hm

/-- A snapshot is captured after the start of an instance was over and after the
instance had left the map of its worker, with the worker's counter not below the
revision of the instance. From the moment the leaf has processed it, however late,
the instance is on no list, and the pool does not have it once the removals in
progress are over. -/
theorem anti_entropy {s₀ s₁ s₂ s₃ s₄ : World} {j : Nat} {l l' : List (World × Action)}
    (hs : machine.ReachesWhile (fun t a => t.freshIds a = true) s₀)
    (hj : (s₀.leaf.job j).appended = true) (hid : (s₀.leaf.job j).inst.instanceId ≠ 0)
    (hout : (s₀.leaf.job j).inst.instanceId ∉ (s₀.worker (s₀.leaf.job j).worker).ids)
    (hrev : (s₀.leaf.job j).inst.workerStateRevision ≤
      (s₀.worker (s₀.leaf.job j).worker).stateRevision)
    (hcapture : machine.step s₀ (.snapshot (s₀.leaf.job j).worker) = .ok s₁)
    (hl : machine.Path (fun t a => t.freshIds a = true) s₁ l s₂)
    (hrelist : machine.step s₂ (.relist s₀.snapshots.length (s₀.leaf.job j).function) = .ok s₃)
    (hl' : machine.Path (fun t a => t.freshIds a = true) s₃ l' s₄) :
    ¬ s₄.leaf.tracks (s₀.leaf.job j).function (s₀.leaf.job j).inst.instanceId ∧
      (¬ s₄.leaf.removes (s₀.leaf.job j).function (s₀.leaf.job j).inst.instanceId →
        ¬ s₄.leaf.pools (s₀.leaf.job j).function (s₀.leaf.job j).inst.instanceId) := by
  generalize hf : (s₀.leaf.job j).function = f at *
  generalize hi : (s₀.leaf.job j).inst.instanceId = id at *
  generalize hw : (s₀.leaf.job j).worker = idx at *
  have hl₀ : s₀.Linked := linked_of_run hs fun _ _ h => h
  have h₁ : s₁.Proves s₀.snapshots.length j f idx (capture idx (s₀.worker idx)) ∧
      (s₁.leaf.job j).inst.instanceId = id := by
    cases hcapture
    refine ⟨⟨hl₀.shrinks rfl rfl (fun _ _ hr => hr) (fun _ he => .inl he), ?_, rfl, hj, ?_, ?_,
      hrev⟩, hi⟩
    · simp [snapshot]
    · exact ⟨j, hj, hf, hw, rfl, hi ▸ hid⟩
    · rw [hl₀.capture_ids]
      exact hi ▸ hout
  have h₂ := hl.invariant (I := fun t => t.Proves s₀.snapshots.length j f idx
    (capture idx (s₀.worker idx)) ∧ (t.leaf.job j).inst.instanceId = id) ?_ h₁
  · obtain ⟨hp, hi₂⟩ := h₂
    have h₃ : s₃.Gone f idx id := by
      have ht : Transition s₂ (.relist s₀.snapshots.length f) s₃ := step_transition hrelist
      refine ⟨ht.linked rfl hp.linked, ?_, ?_⟩
      · exact hi₂ ▸ hp.linked.past_step ht hp.past
      · exact hi₂ ▸ hp.evicts hrelist
    have h₄ := hl'.invariant (I := fun t => t.Gone f idx id)
      (fun t a t' ht hfresh hstep => ht.step hfresh (step_transition hstep)) h₃
    exact ⟨h₄.untracked, h₄.unpooled⟩
  · rintro t a t' ⟨ht, hti⟩ hfresh hstep
    have htr := step_transition hstep
    exact ⟨ht.step hfresh htr, (ht.linked.inst_step htr ht.finished).2.2 ▸ hti⟩

/-- The start of instance 7, on worker 0, is over and the worker does not have it. -/
def exited (s : World) : Bool :=
  s.snapshots.isEmpty && (s.leaf.job 0).appended && decide ((s.leaf.job 0).worker = 0) &&
    decide ((s.leaf.job 0).function = 1) && decide ((s.leaf.job 0).inst.instanceId = 7) &&
    decide (7 ∉ (s.worker 0).ids)

/-- A sandbox exits, a snapshot is captured and processed, and the removal ends. -/
theorem anti_entropy_exit :
    ∃ s : World, (s.leaf.removal 0).function = 1 ∧ s.leaf.nremovals = 1 ∧
      ¬ s.leaf.tracks 1 7 ∧ ¬ s.leaf.pools 1 7 := by
  obtain ⟨s₀, hs, hexit, hrev, s₁, hcapture, s₃, hrelist, ⟨l, s₄⟩, hsteps, hfun, hn, hitems⟩ :=
    machine.exists_while_of_run (P := fun t a => t.freshIds a = true)
    (Q := fun s => s.exited = true ∧
      (s.leaf.job 0).inst.workerStateRevision ≤ (s.worker 0).stateRevision ∧
      ∃ s₁, machine.step s (.snapshot 0) = .ok s₁ ∧
        ∃ s₃, machine.step s₁ (.relist 0 1) = .ok s₃ ∧
          ∃ x ∈ machine.steps freshIds s₃ [.leaf (.recordStop 0),
            .leaf (.storeRemove 0 (some 1)), .leaf (.poolRemove 0)],
            (x.2.leaf.removal 0).function = 1 ∧ x.2.leaf.nremovals = 1 ∧
              (x.2.leaf.removal 0).items = [])
    twoWorkers (startOn 1 0 0 7 "a" ++ [.exit 0 7]) ⟨_, rfl⟩ (by decide +kernel)
  simp only [exited, Bool.and_eq_true, decide_eq_true_eq, List.isEmpty_iff] at hexit
  obtain ⟨⟨⟨⟨⟨hsnap, happ⟩, hw⟩, hf⟩, hid⟩, hout⟩ := hexit
  have hpath := Lib.Machine.path_of_steps machine (P := fun t a => t.freshIds a = true)
    (fun _ _ h => h) _ hsteps
  obtain ⟨htracks, hpools⟩ := anti_entropy (j := 0) hs happ (by rw [hid]; simp)
    (by rw [hid, hw]; exact hout) (by rw [hw]; exact hrev) (by rw [hw]; exact hcapture) (.nil s₁)
    (by rw [hsnap, hf]; exact hrelist) hpath
  rw [hf, hid] at htracks hpools
  have hlinked : s₄.Linked := by
    have h₁ : machine.ReachesWhile (fun t a => t.freshIds a = true) s₁ := .next hs rfl hcapture
    have h₃ : machine.ReachesWhile (fun t a => t.freshIds a = true) s₃ := .next h₁ rfl hrelist
    exact linked_of_run (h₃.path hpath) fun _ _ h => h
  refine ⟨s₄, hfun, hn, htracks, hpools ?_⟩
  rintro ⟨m, -, hm⟩
  by_cases hzero : m = 0
  · rw [hzero, hitems] at hm
    cases hm
  · have hm0 : s₄.leaf.nremovals ≤ m := by
      simp only at hn
      omega
    rw [hlinked.registered.names.noRemoval m hm0] at hm
    cases hm

/-- A worker restarts and has lost the sandbox. The snapshot shows that, but its
revision is below that of the instance: the instance stays. -/
theorem restarted_worker_kept :
    ∃ s₀ s₁ s₂ : World, machine.ReachesWhile (fun t a => t.freshIds a = true) s₀ ∧
      (s₀.leaf.job 0).appended = true ∧ (s₀.leaf.job 0).inst.instanceId = 7 ∧
      7 ∉ (s₀.worker 0).ids ∧ machine.step s₀ (.snapshot 0) = .ok s₁ ∧
      machine.step s₁ (.relist 0 1) = .ok s₂ ∧
      s₂.leaf.tracks 1 7 ∧ s₂.leaf.pools 1 7 ∧ s₂.leaf.quiet 1 = true := by
  obtain ⟨s₀, hs, happ, hid, hout, s₁, hcapture, s₂, hrelist, htracked, hlast⟩ :=
    machine.exists_while_of_run (P := fun t a => t.freshIds a = true)
    (Q := fun s => (s.leaf.job 0).appended = true ∧ (s.leaf.job 0).inst.instanceId = 7 ∧
      7 ∉ (s.worker 0).ids ∧ ∃ s₁, machine.step s (.snapshot 0) = .ok s₁ ∧
        ∃ s₂, machine.step s₁ (.relist 0 1) = .ok s₂ ∧
          (∃ x ∈ (s₂.leaf.actuator 1).tracked 0, x.id = 7) ∧
          ((s₂.leaf.pool 1).pool.sandboxes 7).isSome = true ∧ s₂.leaf.quiet 1 = true)
    twoWorkers (startOn 1 0 0 7 "a" ++ [.restart 0]) ⟨_, rfl⟩ (by decide +kernel)
  exact ⟨s₀, s₁, s₂, hs, happ, hid, hout, hcapture, hrelist, ⟨0, htracked⟩, hlast⟩

end World

end HyperFaaS.Cluster
