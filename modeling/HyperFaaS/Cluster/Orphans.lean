import HyperFaaS.Cluster.Eviction

/-!
Sandboxes and their actuators. A sandbox that a worker has is tracked by the actuator
that asked for it, or its start is still on its way (`no_orphans`), in every run in
which the leaf does not take as failed a `CreateSandbox` that has left a sandbox, and
no `StopSandbox` is answered "not found" while the map has the instance.

A `CreateSandbox` whose context is done leaves its sandbox (`cancelled_start_left`),
and nothing at the leaf will ever stop it.
-/

namespace HyperFaaS.Cluster

open Autoscaling
open Leaf (InstanceState StopReply Fault)
open Worker (Sandbox SandboxRemoval)

/-- The call is on the worker. -/
def CreatePC.running : CreatePC → Bool
  | .sent | .waiting | .pinging => true
  | _ => false

namespace World

variable {s s' : World}

/-- A start fails at the leaf only when its call is not, or no longer, on the worker
and has left no sandbox; "not found" is true of the map; no worker restarts. The last
case is `validateFunction`. -/
def faithful (s : World) : Action → Bool
  | .createFailed j => !(s.create j).pc.running &&
      decide ((s.leaf.job j).instanceID ∉ (s.worker (s.leaf.job j).worker).ids)
  | .stopAnswered k => s.stop k != .answered .notFound ||
      decide ((s.leaf.stop k).item.instanceID ∉ (s.worker (s.leaf.stop k).item.workerIdx).ids)
  | .restart _ => false
  | .leaf (.schedule f _ _ _ _ _) => f != 0
  | _ => true

/-- The worker does not have the instance of a stop. -/
def out (s : World) (k : Nat) : Prop :=
  (s.leaf.stop k).item.instanceID ∉ (s.worker (s.leaf.stop k).item.workerIdx).ids

structure Accounted (s : World) : Prop where
  waits : ∀ j, (s.create j).pc.running = true → (s.leaf.job j).pc = .planned
  valid : ∀ j, (s.leaf.job j).pc ≠ .idle → (s.leaf.job j).function ≠ 0
  called : ∀ k, s.stop k ≠ .idle → (s.leaf.stop k).pc ≠ .idle
  stopped : ∀ k, s.stop k = .answered .ok → s.out k
  confirmed : ∀ k, (s.leaf.stop k).pc.confirmed = true → s.out k
  accounted : ∀ j, (s.leaf.job j).instanceID ∈ (s.worker (s.leaf.job j).worker).ids →
    (s.leaf.job j).pc.coming = true ∨
      s.leaf.tracks (s.leaf.job j).function (s.leaf.job j).instanceID

theorem Accounted.frame (h : s.Accounted) (hl : s'.leaf = s.leaf)
    (hc : ∀ j, (s'.create j).pc.running = true → (s.leaf.job j).pc = .planned)
    (hw : ∀ idx id, id ∈ (s'.worker idx).ids → id ∈ (s.worker idx).ids)
    (hs : ∀ k, s'.stop k = s.stop k ∨
      (s.leaf.stop k).pc ≠ .idle ∧ (s'.stop k = .answered .ok → s'.out k)) : s'.Accounted where
  waits := by rw [hl]; exact hc
  valid := by rw [hl]; exact h.valid
  called := by
    rw [hl]
    intro k hk
    rcases hs k with hsame | ⟨hne, -⟩
    · exact h.called k (hsame ▸ hk)
    · exact hne
  stopped := by
    intro k hk
    rcases hs k with hsame | ⟨-, hout⟩
    · have hold := h.stopped k (hsame ▸ hk)
      unfold out at hold ⊢
      rw [hl]
      exact fun hid => hold (hw _ _ hid)
    · exact hout hk
  confirmed := by
    unfold out
    rw [hl]
    exact fun k hk hid => h.confirmed k hk (hw _ _ hid)
  accounted := by
    rw [hl]
    exact fun j hj => h.accounted j (hw _ _ hj)

theorem Accounted.setWorker (h : s.Accounted) {idx : Nat} {x : Sandbox}
    (hx : ∀ id ∈ x.ids, id ∈ (s.worker idx).ids) : (s.setWorker idx x).Accounted := by
  refine h.frame rfl h.waits (fun i id hid => ?_) (fun _ => .inl rfl)
  by_cases hi : i = idx
  · subst hi
    exact hx id (by simpa [World.setWorker] using hid)
  · simpa [World.setWorker, hi] using hid

theorem Accounted.remove (h : s.Accounted) (idx id : Nat) (notify : Bool) :
    (s.setWorker idx ((s.worker idx).removeInstanceInternal id notify).1).Accounted :=
  h.setWorker fun _ hi => (Sandbox.ids_remove.mp hi).1

variable {j k : Nat} {a : Action} {act : Leaf.Action} {w : Leaf.World}

theorem Accounted.setCreate (h : s.Accounted) {x : CreateCall}
    (hx : x.pc.running = true → (s.leaf.job j).pc = .planned) : (s.setCreate j x).Accounted := by
  refine h.frame rfl (fun i hi => ?_) (fun _ _ hid => hid) (fun _ => .inl rfl)
  by_cases hij : i = j
  · subst hij
    exact hx (by simpa [World.setCreate] using hi)
  · exact h.waits i (by simpa [World.setCreate, hij] using hi)

theorem Accounted.setStop (h : s.Accounted) {x : StopCall} (hk : (s.leaf.stop k).pc ≠ .idle)
    (hx : x = .answered .ok → s.out k) : (s.setStop k x).Accounted := by
  refine h.frame rfl h.waits (fun _ _ hid => hid) fun i => ?_
  by_cases hi : i = k
  · subst hi
    refine .inr ⟨hk, fun he => hx ?_⟩
    simpa [World.setStop] using he
  · exact .inl (by simp [World.setStop, hi])

/-- The sandbox that is entered is that of a planned start, and of no stop. -/
theorem Accounted.start (h : s.Accounted) (hl : s.Linked) {address : String} {ready : Bool}
    (hsent : (s.create j).pc = .sent) (hid : (s.leaf.job j).instanceID ≠ 0) :
    ((s.setWorker (s.leaf.job j).worker (s.started j address).1).setCreate j
      ⟨if ready then .pinging else .waiting, some (s.started j address).2⟩).Accounted := by
  have hplanned : (s.leaf.job j).pc = .planned := h.waits j (by rw [hsent]; rfl)
  have hids : ∀ idx id, id ∈ ((s.setWorker (s.leaf.job j).worker (s.started j address).1).worker
      idx).ids → id = (s.leaf.job j).instanceID ∨ id ∈ (s.worker idx).ids := by
    intro idx id hid
    by_cases hi : idx = (s.leaf.job j).worker
    · subst hi
      exact Sandbox.ids_enter.mp (by simpa [World.setWorker, started] using hid)
    · exact .inr (by simpa [World.setWorker, hi] using hid)
  -- a stop is about an instance whose call has entered it before
  have hstop : ∀ k, (s.leaf.stop k).pc ≠ .idle →
      (s.leaf.stop k).item.instanceID ≠ (s.leaf.job j).instanceID := by
    intro k hk heq
    obtain ⟨-, i, -, -, -, hiid, hne⟩ := hl.registered.names.stop k hk
    obtain ⟨state, hstate, hid, -⟩ := hl.answer i (hiid ▸ hne)
    have hii : (s.leaf.job i).instanceID = (s.leaf.job j).instanceID := by
      rw [← (hl.entered i state hstate).1, ← hid, hiid, heq]
    have hij := hl.fresh i j hii (hl.entered i state hstate).2.2.1
    rw [hij, hl.blank j (.inr hsent)] at hstate
    cases hstate
  have hout : ∀ k, (s.leaf.stop k).pc ≠ .idle → s.out k →
      (s.setWorker (s.leaf.job j).worker (s.started j address).1).out k := by
    intro k hk hold hid
    rcases hids _ _ hid with heq | hin
    · exact hstop k hk heq
    · exact hold hin
  have hset : (s.setWorker (s.leaf.job j).worker (s.started j address).1).Accounted := by
    constructor
    case waits => exact h.waits
    case valid => exact h.valid
    case called => exact h.called
    case stopped =>
      intro k hk
      have hk : s.stop k = .answered .ok := hk
      exact hout k (h.called k (by rw [hk]; simp)) (h.stopped k hk)
    case confirmed =>
      intro k hk
      have hk : (s.leaf.stop k).pc.confirmed = true := hk
      refine hout k (fun hidle => ?_) (h.confirmed k hk)
      rw [hidle] at hk
      cases hk
    case accounted =>
      intro i hi
      rcases hids _ _ hi with heq | hin
      · have hij : i = j := hl.fresh i j heq (by rw [show (s.leaf.job i).instanceID = _ from heq]; exact hid)
        refine .inl ?_
        show (s.leaf.job i).pc.coming = true
        rw [hij, hplanned]
        rfl
      · exact h.accounted i hin
  exact hset.setCreate fun _ => hplanned

/-! ## Steps of the leaf -/

theorem Accounted.stops (h : s.Accounted) (hl : s.Linked) (hb : s.Brings a act)
    (hf : s.faithful a = true) (hs : Leaf.World.Transition s.leaf act w)
    (hk : (w.stop k).pc.confirmed = true) : (s.leaf.stop k).pc ≠ .idle ∧ s.out k := by
  obtain ⟨hne, hold | ⟨reply, hact, hreply⟩⟩ :=
    (hs.stopStep hl.registered.names k).confirmed hk
  · exact ⟨hne, h.confirmed k hold⟩
  · subst hact
    refine ⟨hne, ?_⟩
    cases hb with
    | own ho => cases ho
    | stopFailed => exact absurd rfl hreply
    | stopAnswered hans =>
      cases reply with
      | ok => exact h.stopped k hans
      | failed => exact absurd rfl hreply
      | notFound =>
        simp only [faithful, hans, bne_self_eq_false, Bool.false_or, decide_eq_true_eq] at hf
        exact hf

/-- A sandbox of a start on its way stays accounted for. -/
theorem Accounted.arrives (h : s.Accounted) (hl : s.Linked) (hb : s.Brings a act)
    (hf : s.faithful a = true) (hs : Leaf.World.Transition s.leaf act w)
    (hj : (s.leaf.job j).instanceID ∈ (s.worker (s.leaf.job j).worker).ids)
    (hcoming : (s.leaf.job j).pc.coming = true) : (w.job j).pc.coming = true ∨
      w.tracks (s.leaf.job j).function (s.leaf.job j).instanceID := by
  rcases hs.coming hl.roster hcoming with hstill | harrives
  · exact .inl hstill
  · cases harrives with
    | failed =>
      cases hb with
      | own ho => cases ho
      | createFailed =>
        simp only [faithful, Bool.and_eq_true, decide_eq_true_eq] at hf
        exact absurd hj hf.2
    | refused hpc hput =>
      -- the store refuses nothing but zero ids
      obtain ⟨state, hstate, hid, -⟩ := hl.answer j (hl.filled j hpc)
      have hfunction := h.valid j (by rw [hpc]; simp)
      have hown := hl.registered.views.own j hpc
      unfold Leaf.Store.putInstance at hput
      split at hput
      · rename_i hzero
        rcases hzero with hzero | hzero
        · exact absurd (hown.symm.trans hzero) hfunction
        · exact absurd ((hl.entered j state hstate).1.symm.trans (hid.symm.trans hzero))
            (hl.entered j state hstate).2.2.1
      · cases hput
    | registered hpc =>
      obtain ⟨state, hstate, hid, -⟩ := hl.answer j (hl.roster.filled j (.inr hpc))
      have heq : (s.leaf.job j).inst.instanceId = (s.leaf.job j).instanceID :=
        hid.trans (hl.entered j state hstate).1
      cases hs with
      | register _ =>
        refine .inr ((Leaf.World.registerStart_tracks s.leaf _ _ _ _ _).mpr (.inr ⟨rfl, heq.symm⟩))

theorem Accounted.tracked (h : s.Accounted) (hl : s.Linked) (ho : s.Ordered) (hb : s.Brings a act)
    (hs : Leaf.World.Transition s.leaf act w)
    (hj : (s.leaf.job j).instanceID ∈ (s.worker (s.leaf.job j).worker).ids)
    (ht : s.leaf.tracks (s.leaf.job j).function (s.leaf.job j).instanceID) :
    w.tracks (s.leaf.job j).function (s.leaf.job j).instanceID := by
  cases hs.trackStep hl.roster with
  | same hiff => exact (hiff _ _).mpr ht
  | registered _ _ hiff => exact (hiff _ _).mpr (.inl ht)
  | @dropped g idx xs hleaves hsub hiff =>
    refine (hiff _ _).mpr ⟨ht, ?_⟩
    rintro ⟨-, hmem⟩
    obtain ⟨x, hx, hid⟩ := List.mem_map.mp hmem
    -- the instance is on the worker of its own start
    obtain ⟨i, state, hstate, hw, hiid, -⟩ := hl.source (hsub x hx)
    have hij : i = j := hl.fresh i j (hiid.trans hid) (hl.entered i state hstate).2.2.1
    rw [hij] at hw
    rw [hw, ← hid] at hj
    by_cases hact : ∃ k, act = .remove k
    · obtain ⟨k, rfl⟩ := hact
      cases hleaves with
      | stopped hpc _ hwk hids =>
        have hout := h.confirmed k (by rw [hpc]; rfl)
        unfold out at hout
        rw [hwk, ← hids x hx] at hout
        exact hout hj
    · exact ho.leaves_map hl hb hleaves (fun k hk => hact ⟨k, hk⟩) hx (hsub x hx) hj

theorem Accounted.leafStep (h : s.Accounted) (hl : s.Linked) (ho : s.Ordered) (hb : s.Brings a act)
    (hf : s.faithful a = true) (hstep : s.leaf.step act = .ok w)
    (hl' : ({ s with leaf := w } : World).Linked) : ({ s with leaf := w } : World).Accounted := by
  have hs := Leaf.World.step_transition hstep
  have hitem : ∀ k, (s.leaf.stop k).pc ≠ .idle → s.out k →
      ({ s with leaf := w } : World).out k := by
    intro k hk hout
    obtain ⟨-, hitem, -⟩ := (hs.stopStep hl.registered.names k).kept hk
    show (w.stop k).item.instanceID ∉ (s.worker (w.stop k).item.workerIdx).ids
    rw [hitem]
    exact hout
  constructor
  case waits =>
    intro j hj
    rcases hs.planned_stays hl.roster (h.waits j hj) with hstill | rfl | ⟨inst, rfl⟩
    · exact hstill
    · cases hb with
      | own ho => cases ho
      | createFailed =>
        have hj : (s.create j).pc.running = true := hj
        simp [faithful, hj] at hf
    · cases hb with
      | own ho => cases ho
      | created hc =>
        have hj : (s.create j).pc.running = true := hj
        rw [hc] at hj
        cases hj
  case valid =>
    intro j hj
    cases hs.jobStep j with
    | same hsame =>
      show (w.job j).function ≠ 0
      rw [hsame.function]
      exact h.valid j fun hidle => hj (hsame.born hidle)
    | spawned hact _ hfun _ _ _ =>
      subst hact
      cases hb with
      | own _ =>
        show (w.job j).function ≠ 0
        rw [hfun]
        simpa [faithful] using hf
    | planned _ hpc hfun _ _ _ =>
      show (w.job j).function ≠ 0
      rw [hfun]
      exact h.valid j (by rw [hpc]; simp)
    | created _ hpc hy =>
      show (w.job j).function ≠ 0
      rw [hy]
      exact h.valid j (by rw [hpc]; simp)
  case called =>
    exact fun k hk => ((hs.stopStep hl.registered.names k).kept (h.called k hk)).2.2
  case stopped =>
    intro k hk
    have hk : s.stop k = .answered .ok := hk
    exact hitem k (h.called k (by rw [hk]; simp)) (h.stopped k hk)
  case confirmed =>
    intro k hk
    obtain ⟨hne, hout⟩ := h.stops hl hb hf hs hk
    exact hitem k hne hout
  case accounted =>
    intro j hj
    have hj : (w.job j).instanceID ∈ (s.worker (w.job j).worker).ids := hj
    show (w.job j).pc.coming = true ∨ w.tracks (w.job j).function (w.job j).instanceID
    -- the record is that of the call of some start, and so of this one
    obtain ⟨r, hr, hrid⟩ := Sandbox.mem_ids.mp hj
    obtain ⟨i, hi, -, hiid⟩ := hl'.held _ r hr
    have hij : i = j := hl'.fresh i j (hiid.trans hrid) (hl'.entered i r.2 hi).2.2.1
    subst hij
    have hi : (s.create i).state = some r.2 := hi
    obtain ⟨hfun, hw, hid⟩ := hl.keeps hs (j := i) (by rw [hi]; simp)
    rw [hw, hid] at hj
    rw [hfun, hid]
    rcases h.accounted i hj with hcoming | htracks
    · exact h.arrives hl hb hf hs hj hcoming
    · exact .inr (h.tracked hl ho hb hs hj htracks)

/-- **One step.** -/
theorem Transition.accounted (ht : Transition s a s') (hl : s.Linked) (hl' : s'.Linked)
    (ho : s.Ordered) (hf : s.faithful a = true) (h : s.Accounted) : s'.Accounted := by
  cases ht with
  | leaf hb hstep => exact h.leafStep hl ho hb hf hstep hl'
  | send hp _ => exact h.setCreate fun _ => hp
  | refuse _ | reached _ _ | cancel _ => exact h.setCreate nofun
  | start hpc hid => exact h.start hl hpc hid
  | ready hpc => exact h.setCreate fun _ => h.waits _ (by rw [hpc]; rfl)
  | unreached _ | timeout _ => exact (h.remove _ _ false).setCreate nofun
  | sendStop hpc _ => exact h.setStop (by rw [hpc]; simp) nofun
  | @stopped k hk =>
    refine (h.remove _ _ false).setStop (h.called k (by rw [hk]; simp)) fun _ hid => ?_
    have hself : (s.setWorker (s.leaf.stop k).item.workerIdx
        ((s.worker (s.leaf.stop k).item.workerIdx).removeInstanceInternal
          (s.leaf.stop k).item.instanceID false).1).worker (s.leaf.stop k).item.workerIdx =
        ((s.worker (s.leaf.stop k).item.workerIdx).removeInstanceInternal
          (s.leaf.stop k).item.instanceID false).1 := by simp [World.setWorker]
    have hid : (s.leaf.stop k).item.instanceID ∈ ((s.setWorker (s.leaf.stop k).item.workerIdx
        ((s.worker (s.leaf.stop k).item.workerIdx).removeInstanceInternal
          (s.leaf.stop k).item.instanceID false).1).worker (s.leaf.stop k).item.workerIdx).ids := hid
    rw [hself] at hid
    exact (Sandbox.ids_remove.mp hid).2 rfl
  | @stopRefused k notFound hk =>
    refine h.setStop (h.called k (by rw [hk]; simp)) fun hx => ?_
    cases notFound <;> cases hx
  | @exit idx id =>
    have hw := h.remove idx id true
    exact hw.frame rfl hw.waits (fun _ _ hid => hid) fun _ => .inl rfl
  | snapshot => exact h.frame rfl h.waits (fun _ _ hid => hid) fun _ => .inl rfl
  | restart => cases hf

theorem init_accounted (c : Leaf.World.Config) : (init c).Accounted where
  waits := nofun
  valid := fun _ hj => absurd rfl hj
  called := fun _ hk => absurd rfl hk
  stopped := nofun
  confirmed := nofun
  accounted := nofun

/-- **Run lemma.** -/
theorem accounted_of_run {ok : World → Action → Prop} (hs : machine.ReachesWhile ok s)
    (hok : ∀ t a, ok t a → t.freshIds a = true ∧ t.faithful a = true) :
    s.Linked ∧ s.Ordered ∧ s.Accounted := by
  refine hs.invariant (I := fun s => s.Linked ∧ s.Ordered ∧ s.Accounted) ?_ ?_
  · rintro t ⟨c, rfl⟩
    exact ⟨init_linked c, init_ordered c, init_accounted c⟩
  · rintro t a t' ⟨hl, ho, hc⟩ ha hstep
    obtain ⟨hfresh, hf⟩ := hok t a ha
    have ht := step_transition hstep
    have hstays : stays a = true := by cases a <;> first | rfl | cases hf
    have hl' := ht.linked hfresh hl
    exact ⟨hl', ht.ordered hl hstays ho, ht.accounted hl hl' ho hf hc⟩

/-- Every sandbox that a worker has was asked for by a start whose instance the
actuator tracks on that worker, or which is still between its call and its append. -/
theorem no_orphans
    (hs : machine.ReachesWhile (fun t a => t.freshIds a = true ∧ t.faithful a = true) s)
    {idx id : Nat} (hid : id ∈ (s.worker idx).ids) :
    ∃ j, (s.leaf.job j).worker = idx ∧ (s.leaf.job j).instanceID = id ∧
      ((s.leaf.job j).pc.coming = true ∨
        ∃ x ∈ (s.leaf.actuator (s.leaf.job j).function).tracked idx, x.id = id) := by
  obtain ⟨hl, -, hc⟩ := accounted_of_run hs fun _ _ h => h
  obtain ⟨r, hr, rfl⟩ := Sandbox.mem_ids.mp hid
  obtain ⟨j, hj, rfl, hjid⟩ := hl.held idx r hr
  refine ⟨j, rfl, hjid, ?_⟩
  rcases hc.accounted j (hjid ▸ hid) with hcoming | ⟨i, x, hx, hxid⟩
  · exact .inl hcoming
  · obtain ⟨k, state, hstate, hw, hkid, -⟩ := hl.source hx
    have hkj : k = j := hl.fresh k j (hkid.trans hxid) (hl.entered k state hstate).2.2.1
    rw [hkj] at hw
    exact .inr ⟨x, hw ▸ hx, hxid.trans hjid⟩

/-- Two starts: one instance is tracked, the other on its way. -/
theorem no_orphans_two :
    ∃ s : World, (s.worker 0).ids = [8, 7] ∧ (∃ x ∈ (s.leaf.actuator 1).tracked 0, x.id = 7) ∧
      (s.leaf.job 1).pc = .created := by
  obtain ⟨s, hs, hids, hid, hfun, hdone, hcreated⟩ := machine.exists_while_of_run
    (P := fun t a => t.freshIds a = true ∧ t.faithful a = true)
    (Q := fun s => (s.worker 0).ids = [8, 7] ∧ (s.leaf.job 0).instanceID = 7 ∧
      (s.leaf.job 0).function = 1 ∧ (s.leaf.job 0).pc = .done ∧ (s.leaf.job 1).pc = .created)
    twoWorkers (startOn 1 0 0 7 "a" ++ (startOn 1 1 0 8 "b").take 6) ⟨_, rfl⟩ (by decide +kernel)
  have hseven : 7 ∈ (s.worker 0).ids := by simp [hids]
  obtain ⟨j, -, hj, hstate⟩ := no_orphans hs hseven
  have hlinked : s.Linked := linked_of_run hs fun _ _ h => h.1
  have hj0 : j = 0 := hlinked.fresh j 0 (hj.trans hid.symm) (by simp [hj])
  rw [hj0, hfun, hdone] at hstate
  rcases hstate with hcoming | htracked
  · cases hcoming
  · exact ⟨s, hids, htracked, hcreated⟩

/-- The leaf's call is over, by its deadline or because its context was cancelled. Of
the two cases of the worker's select that are then ready, the one for the call's
context leaves the sandbox in the map. No call and no operation of the leaf is in
progress, and no actuator has the sandbox. -/
theorem cancelled_start_left :
    ∃ s : World, machine.ReachesWhile (fun t a => t.freshIds a = true ∧ stays a = true) s ∧
      7 ∈ (s.worker 0).ids ∧ (s.leaf.job 0).instanceID = 7 ∧ (s.leaf.job 0).function = 1 ∧
      (s.leaf.job 0).worker = 0 ∧ (∀ idx, ∀ x ∈ (s.leaf.actuator 1).tracked idx, x.id ≠ 7) ∧
      s.leaf.quiet 1 = true ∧ (s.create 0).pc = .answered false ∧ s.leaf.nstops = 0 := by
  obtain ⟨s, hs, hinst, hids, hid, hfun, hworker, hlast⟩ := machine.exists_while_of_run
    (P := fun t a => t.freshIds a = true ∧ stays a = true)
    (Q := fun s => (s.leaf.job 0).inst.instanceId = 0 ∧ 7 ∈ (s.worker 0).ids ∧
      (s.leaf.job 0).instanceID = 7 ∧ (s.leaf.job 0).function = 1 ∧ (s.leaf.job 0).worker = 0 ∧
      s.leaf.quiet 1 = true ∧ (s.create 0).pc = .answered false ∧ s.leaf.nstops = 0) twoWorkers
    ((startOn 1 0 0 7 "a").take 3 ++ [.start 0 "a" false, .cancel 0, .createFailed 0,
      .leaf (.fail 0), .leaf (.complete 0)]) ⟨_, rfl⟩ (by decide +kernel)
  have hlinked : s.Linked := linked_of_run hs fun _ _ h => h.1
  refine ⟨s, hs, hids, hid, hfun, hworker, ?_, hlast⟩
  intro idx x hx hx7
  -- it would be the instance of the only start that asked for 7, which has none
  obtain ⟨j, -, -, -, hjid, -⟩ := hlinked.roster.source 1 idx x hx
  obtain ⟨state, hstate, hans, -⟩ := hlinked.answer j (by rw [hjid, hx7]; simp)
  have hj7 : (s.leaf.job j).instanceID = 7 :=
    (hlinked.entered j state hstate).1.symm.trans (hans.symm.trans (hjid.trans hx7))
  have hj0 : j = 0 := hlinked.fresh j 0 (hj7.trans hid.symm) (by simp [hj7])
  rw [hj0, hinst, hx7] at hjid
  cases hjid

end World

end HyperFaaS.Cluster
