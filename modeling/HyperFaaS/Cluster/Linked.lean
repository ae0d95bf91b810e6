import HyperFaaS.Cluster.World
import HyperFaaS.Leaf.Tracking

/-!
What ties the leaf of a cluster to its workers, restarts or not (`Linked`): ids are
used once, an instance of the leaf is the answer of a call that entered it in the map
of its worker, and what is in a map was entered there by a call. So the leaf's own
run is one of distinct answers, and all that is known of those is known here.
-/

namespace HyperFaaS.Cluster

open Autoscaling
open Leaf (InstanceState StopReply Fault)
open Worker (Sandbox SandboxRemoval)

theorem CreateCall.lose_state (x : CreateCall) : x.lose.state = x.state := by
  unfold lose
  split <;> rfl

theorem CreateCall.lose_pc (x : CreateCall) : x.lose = x ∨ x.lose.pc = .lost ∧ x.pc ≠ .idle := by
  unfold lose
  split
  · rename_i hpc
    exact .inr ⟨rfl, by rw [hpc]; simp⟩
  · rename_i hpc
    exact .inr ⟨rfl, by rw [hpc]; simp⟩
  · exact .inl rfl

namespace World

variable {s s' : World}

/-! ## Steps -/

/-- How an action of the leaf comes about. -/
inductive Brings (s : World) : Action → Leaf.Action → Prop
  | own {act : Leaf.Action} : Cluster.own act = true → Brings s (.leaf act) act
  | created {j : Nat} {state : InstanceState} : s.create j = ⟨.answered true, some state⟩ →
      Brings s (.created j) (.created j state)
  | createFailed {j : Nat} : Brings s (.createFailed j) (.createFailed j)
  | stopAnswered {k : Nat} {reply : StopReply} : s.stop k = .answered reply →
      Brings s (.stopAnswered k) (.stopReply k reply)
  | stopFailed {k : Nat} : Brings s (.stopFailed k) (.stopReply k .failed)
  | relist {n f : Nat} {x : Snapshot} : s.snapshots[n]? = some x →
      Brings s (.relist n f) (.reconcile f x.worker x.presence)
  | event {n : Nat} {e : Event} : s.events[n]? = some e →
      Brings s (.event n) (.sandboxRemoved e.removal.functionID e.worker e.removal.instanceID
        e.removal.revision)

/-- The map and the call after `runtime.Start` has returned. -/
def started (s : World) (j : Nat) (address : String) : Sandbox × InstanceState :=
  (s.worker (s.leaf.job j).worker).enter (s.leaf.job j).instanceID
    (runtimeStart (s.leaf.job j) address)

inductive Transition (s : World) : Action → World → Prop
  | leaf {a : Action} {act : Leaf.Action} {w : Leaf.World} : s.Brings a act →
      s.leaf.step act = .ok w → Transition s a { s with leaf := w }
  | send {j : Nat} : (s.leaf.job j).pc = .planned → (s.create j).pc = .idle →
      Transition s (.send j) (s.setCreate j ⟨.sent, none⟩)
  | refuse {j : Nat} : (s.create j).pc = .sent →
      Transition s (.refuse j) (s.goCreate j (.answered false))
  | start {j : Nat} {address : String} {ready : Bool} : (s.create j).pc = .sent →
      (s.leaf.job j).instanceID ≠ 0 →
      Transition s (.start j address ready)
        ((s.setWorker (s.leaf.job j).worker (s.started j address).1).setCreate j
          ⟨if ready then .pinging else .waiting, some (s.started j address).2⟩)
  | ready {j : Nat} : (s.create j).pc = .waiting →
      Transition s (.ready j) (s.goCreate j .pinging)
  | reached {j : Nat} : (s.create j).pc = .pinging →
      (s.create j).state.all (fun state => state.address != "") = true →
      Transition s (.ping j true) (s.goCreate j (.answered true))
  | unreached {j : Nat} : (s.create j).pc = .pinging → Transition s (.ping j false) (s.giveUp j)
  | timeout {j : Nat} : (s.create j).pc = .waiting → Transition s (.timeout j) (s.giveUp j)
  | cancel {j : Nat} : (s.create j).pc = .waiting →
      Transition s (.cancel j) (s.goCreate j (.answered false))
  | sendStop {k d : Nat} : (s.leaf.stop k).pc = .calling d → s.stop k = .idle →
      Transition s (.sendStop k) (s.setStop k .sent)
  | stopped {k : Nat} : s.stop k = .sent →
      Transition s (.stopped k)
        ((s.setWorker (s.leaf.stop k).item.workerIdx
          ((s.worker (s.leaf.stop k).item.workerIdx).removeInstance
            (s.leaf.stop k).item.instanceID)).setStop k (.answered .ok))
  | stopRefused {k : Nat} {notFound : Bool} : s.stop k = .sent →
      Transition s (.stopRefused k notFound)
        (s.setStop k (.answered (if notFound then .notFound else .failed)))
  | exit {idx id : Nat} : Transition s (.exit idx id)
      { s.setWorker idx ((s.worker idx).removeInstanceAndNotify id).1 with
        events := s.events ++
          (((s.worker idx).removeInstanceAndNotify id).2.map (Event.mk idx)).toList }
  | snapshot {idx : Nat} : Transition s (.snapshot idx) (s.snapshot idx)
  | restart {idx : Nat} : Transition s (.restart idx) (s.restart idx)

variable {act : Leaf.Action} {a : Action} {j : Nat} {w : Leaf.World}

theorem leafStep_ok (h : s.leafStep act = .ok s') :
    ∃ w, s.leaf.step act = .ok w ∧ s' = { s with leaf := w } := by
  unfold leafStep at h
  split at h
  · rename_i w hw
    exact ⟨w, hw, (Except.ok.inj h).symm⟩
  · cases h

theorem guard_ok {p : Prop} [Decidable p] {t : World}
    (h : (if p then (.ok t : Except Fault World) else .error .disabled) = .ok s') : p ∧ s' = t := by
  split at h
  · rename_i hp
    exact ⟨hp, (Except.ok.inj h).symm⟩
  · cases h

/-- **Every step is a transition.** -/
theorem step_transition (h : s.step a = .ok s') : Transition s a s' := by
  cases a with
  | leaf act =>
    simp only [step] at h
    split at h
    · rename_i ho
      obtain ⟨w, hw, rfl⟩ := leafStep_ok h
      exact .leaf (.own ho) hw
    · cases h
  | send j =>
    obtain ⟨⟨hp, hi⟩, rfl⟩ := guard_ok h
    exact .send hp hi
  | refuse j =>
    obtain ⟨hp, rfl⟩ := guard_ok h
    exact .refuse hp
  | start j address ready =>
    obtain ⟨⟨hp, hi⟩, rfl⟩ := guard_ok h
    exact .start hp hi
  | ready j =>
    obtain ⟨hp, rfl⟩ := guard_ok h
    exact .ready hp
  | ping j reached =>
    simp only [step, ping] at h
    split at h
    · rename_i hp
      cases reached with
      | true =>
        rw [if_pos rfl] at h
        obtain ⟨ha, rfl⟩ := guard_ok h
        exact .reached hp ha
      | false =>
        rw [if_neg Bool.false_ne_true] at h
        cases h
        exact .unreached hp
    · cases h
  | timeout j =>
    obtain ⟨hp, rfl⟩ := guard_ok h
    exact .timeout hp
  | cancel j =>
    obtain ⟨hp, rfl⟩ := guard_ok h
    exact .cancel hp
  | created j =>
    simp only [step, created] at h
    split at h
    · rename_i state hc
      obtain ⟨w, hw, rfl⟩ := leafStep_ok h
      exact .leaf (.created hc) hw
    · cases h
  | createFailed j =>
    obtain ⟨w, hw, rfl⟩ := leafStep_ok h
    exact .leaf .createFailed hw
  | sendStop k =>
    simp only [step, sendStop] at h
    split at h
    · rename_i d hpc hk
      cases h
      exact .sendStop hpc hk
    · cases h
  | stopped k =>
    obtain ⟨hp, rfl⟩ := guard_ok h
    exact .stopped hp
  | stopRefused k notFound =>
    obtain ⟨hp, rfl⟩ := guard_ok h
    exact .stopRefused hp
  | stopAnswered k =>
    simp only [step, stopAnswered] at h
    split at h
    · rename_i reply hk
      obtain ⟨w, hw, rfl⟩ := leafStep_ok h
      exact .leaf (.stopAnswered hk) hw
    · cases h
  | stopFailed k =>
    obtain ⟨w, hw, rfl⟩ := leafStep_ok h
    exact .leaf .stopFailed hw
  | exit idx id =>
    cases h
    exact .exit
  | snapshot idx =>
    cases h
    exact .snapshot
  | relist n f =>
    simp only [step, relist] at h
    split at h
    · rename_i x hx
      obtain ⟨w, hw, rfl⟩ := leafStep_ok h
      exact .leaf (.relist hx) hw
    · cases h
  | event n =>
    simp only [step, event] at h
    split at h
    · rename_i e he
      obtain ⟨w, hw, rfl⟩ := leafStep_ok h
      exact .leaf (.event he) hw
    · cases h
  | restart idx =>
    cases h
    exact .restart

/-! ## Ids and answers -/

/-- The ids `planStart` draws are never drawn again. The worker refuses zero. -/
def freshIds (s : World) : Action → Bool
  | .leaf (.plan _ _ id) =>
      id == 0 || (List.range s.leaf.njobs).all fun i => (s.leaf.job i).instanceID != id
  | _ => true

structure Linked (s : World) : Prop where
  run : Leaf.machine.ReachesWhile (fun w a => w.distinctAnswer a = true) s.leaf
  unborn : ∀ j, s.leaf.njobs ≤ j → (s.leaf.job j).instanceID = 0
  fresh : ∀ i j, (s.leaf.job i).instanceID = (s.leaf.job j).instanceID →
    (s.leaf.job i).instanceID ≠ 0 → i = j
  uncreated : ∀ j, (s.leaf.job j).pc = .scheduling ∨ (s.leaf.job j).pc = .planned →
    (s.leaf.job j).inst.instanceId = 0
  filled : ∀ j, (s.leaf.job j).pc = .created → (s.leaf.job j).inst.instanceId ≠ 0
  begun : ∀ j, (s.create j).pc ≠ .idle →
    (s.leaf.job j).pc.launched = true ∧ (s.leaf.job j).worker < s.leaf.workers
  blank : ∀ j, (s.create j).pc = .idle ∨ (s.create j).pc = .sent → (s.create j).state = none
  entered : ∀ j state, (s.create j).state = some state →
    state.instanceId = (s.leaf.job j).instanceID ∧ state.functionId = (s.leaf.job j).function ∧
      (s.leaf.job j).instanceID ≠ 0 ∧ 0 < state.workerStateRevision
  addressed : ∀ j state, s.create j = ⟨.answered true, some state⟩ → state.address ≠ ""
  answer : ∀ j, (s.leaf.job j).inst.instanceId ≠ 0 → ∃ state, (s.create j).state = some state ∧
    (s.leaf.job j).inst.instanceId = state.instanceId ∧
    (s.leaf.job j).inst.workerStateRevision = state.workerStateRevision
  held : ∀ idx, ∀ r ∈ (s.worker idx).instances, ∃ j, (s.create j).state = some r.2 ∧
    (s.leaf.job j).worker = idx ∧ (s.leaf.job j).instanceID = r.1
  gone : ∀ e ∈ s.events, e.removal.instanceID ∉ (s.worker e.worker).ids ∧
    ∃ j, (s.create j).state ≠ none ∧ (s.leaf.job j).instanceID = e.removal.instanceID

theorem Linked.registered (h : s.Linked) : s.leaf.Registered :=
  Leaf.World.registered_of_run h.run fun _ _ ha => ha

theorem Linked.roster (h : s.Linked) : s.leaf.Roster := h.registered.roster

theorem Linked.begun_of_state (h : s.Linked) (hj : (s.create j).state ≠ none) :
    (s.create j).pc ≠ .idle :=
  fun hidle => hj (h.blank j (.inl hidle))

/-- A call that has entered its sandbox keeps the job it was made for. -/
theorem Linked.keeps (h : s.Linked) (hs : Leaf.World.Transition s.leaf act w)
    (hj : (s.create j).state ≠ none) :
    (w.job j).function = (s.leaf.job j).function ∧ (w.job j).worker = (s.leaf.job j).worker ∧
      (w.job j).instanceID = (s.leaf.job j).instanceID := by
  obtain ⟨hf, hw, hid, -⟩ := hs.launched h.roster (h.begun j (h.begun_of_state hj)).1
  exact ⟨hf, hw, hid⟩

theorem Linked.distinct (h : s.Linked) (hb : s.Brings a act)
    (hs : Leaf.World.Transition s.leaf act w) : s.leaf.distinctAnswer act = true := by
  cases hb with
  | createFailed | stopAnswered _ | stopFailed | relist _ | event _ => rfl
  | own ho => cases act <;> first | rfl | cases ho
  | @created j state hc =>
    obtain ⟨hid, -, hne, -⟩ := h.entered j state (by rw [hc])
    have hplanned : (s.leaf.job j).pc = .planned := by
      cases hs with
      | created hpc => exact hpc
    simp only [Leaf.World.distinctAnswer, Bool.and_eq_true, Bool.or_eq_true, List.all_eq_true,
      List.mem_range, bne_iff_ne, beq_iff_eq]
    refine ⟨h.addressed j state hc, .inr fun i _ heq => ?_⟩
    -- the other answer would be to a call with the same id, so to this one
    obtain ⟨other, hother, hinst, -⟩ := h.answer i (by rw [heq, hid]; exact hne)
    obtain ⟨hid', -, hne', -⟩ := h.entered i other hother
    have hij : i = j := h.fresh i j (by rw [← hid', ← hinst, heq, hid]) hne'
    rw [hij, h.uncreated j (.inr hplanned), hid] at heq
    exact hne heq.symm

/-- An id is an old one, or it has just been drawn and is no other start's. -/
theorem Linked.drawn (h : s.Linked) (hb : s.Brings a act) (hfresh : s.freshIds a = true)
    (hs : Leaf.World.Transition s.leaf act w) (i : Nat) (hne : (w.job i).instanceID ≠ 0) :
    (w.job i).instanceID = (s.leaf.job i).instanceID ∨
      (∃ picked, act = .plan i picked (w.job i).instanceID) ∧
        ∀ k, (s.leaf.job k).instanceID ≠ (w.job i).instanceID := by
  cases hs.jobStep i with
  | same hsame => exact .inl hsame.instanceID
  | spawned _ _ _ _ hid _ => exact absurd hid hne
  | created _ _ hy => exact .inl (by rw [hy])
  | @planned picked id hact _ _ hid _ _ =>
    subst hact
    cases hb with
    | own _ =>
      refine .inr ⟨⟨picked, by rw [hid]⟩, fun k => ?_⟩
      simp only [freshIds, Bool.or_eq_true, beq_iff_eq, List.all_eq_true, List.mem_range,
        bne_iff_ne] at hfresh
      rw [hid] at hne ⊢
      by_cases hk : k < s.leaf.njobs
      · exact hfresh.resolve_left hne k hk
      · rw [h.unborn k (by omega)]
        exact hne.symm

theorem Linked.leafStep (h : s.Linked) (hb : s.Brings a act) (hfresh : s.freshIds a = true)
    (hstep : s.leaf.step act = .ok w) : ({ s with leaf := w } : World).Linked := by
  have hs := Leaf.World.step_transition hstep
  constructor
  case run => exact .next h.run (h.distinct hb hs) hstep
  case unborn =>
    intro j hj
    have hj : s.leaf.njobs ≤ j := Nat.le_trans hs.njobs hj
    cases hs.jobStep j with
    | same hsame => exact hsame.instanceID.trans (h.unborn j hj)
    | spawned _ _ _ _ hid _ => exact hid
    | planned _ hpc _ _ _ _ =>
      rw [(h.roster.unborn j hj).1] at hpc
      cases hpc
    | created _ hpc _ =>
      rw [(h.roster.unborn j hj).1] at hpc
      cases hpc
  case fresh =>
    intro i j hij hne
    have hold := h.drawn hb hfresh hs
    rcases hold i hne with hi | ⟨hi, hnew⟩
    · rcases hold j (hij ▸ hne) with hj | ⟨-, hnew⟩
      · exact h.fresh i j (by rw [← hi, ← hj]; exact hij) (hi ▸ hne)
      · exact absurd (hi.symm.trans hij) (hnew i)
    · by_contra hne'
      rcases hold j (hij ▸ hne) with hj | ⟨hj, -⟩
      · exact hnew j (hj.symm.trans hij.symm)
      · obtain ⟨_, hi⟩ := hi
        obtain ⟨_, hj⟩ := hj
        rw [hi] at hj
        injection hj with hj
        exact hne' hj
  case uncreated =>
    intro j hj
    cases hs.jobStep j with
    | same hsame =>
      have hpc := hsame.early (hj.imp_right .inl)
      exact hsame.inst ▸ h.uncreated j (hpc ▸ hj)
    | spawned _ _ _ _ _ hid => exact hid
    | planned _ hpc _ _ hinst _ => exact hinst ▸ h.uncreated j (.inl hpc)
    | created _ _ hy =>
      have hj : (w.job j).pc = .scheduling ∨ (w.job j).pc = .planned := hj
      rw [hy] at hj
      rcases hj with hj | hj <;> cases hj
  case filled =>
    intro j hj
    have hj : (w.job j).pc = .created := hj
    show (w.job j).inst.instanceId ≠ 0
    cases hs.jobStep j with
    | same hsame => exact hsame.inst ▸ h.filled j ((hsame.early (.inr (.inr hj))).trans hj)
    | spawned _ _ _ hpc _ _ | planned _ _ _ _ _ hpc =>
      rw [hpc] at hj
      cases hj
    | created hact _ hy =>
      subst hact
      cases hb with
      | own ho => cases ho
      | created hc =>
        obtain ⟨hid, -, hne, -⟩ := h.entered j _ (by rw [hc])
        rw [hy]
        exact fun hzero => hne (hid.symm.trans hzero)
  case begun =>
    intro j hj
    obtain ⟨hlaunched, hbound⟩ := h.begun j hj
    obtain ⟨-, hw, -, hlaunched'⟩ := hs.launched h.roster hlaunched
    exact ⟨hlaunched', by rw [hw, hs.workers]; exact hbound⟩
  case blank => exact h.blank
  case entered =>
    intro j state hj
    obtain ⟨hf, -, hid⟩ := h.keeps hs (j := j) (by rw [hj]; simp)
    show _ = (w.job j).instanceID ∧ _ = (w.job j).function ∧ (w.job j).instanceID ≠ 0 ∧ _
    rw [hf, hid]
    exact h.entered j state hj
  case addressed => exact h.addressed
  case answer =>
    intro j hj
    have hsame : (w.job j).inst = (s.leaf.job j).inst → ∃ state, (s.create j).state = some state ∧
        (w.job j).inst.instanceId = state.instanceId ∧
        (w.job j).inst.workerStateRevision = state.workerStateRevision := by
      intro hinst
      rw [hinst]
      exact h.answer j (hinst ▸ hj)
    cases hs.jobStep j with
    | same hstart => exact hsame hstart.inst
    | spawned _ _ _ _ _ hid => exact absurd hid hj
    | planned _ _ _ _ hinst _ => exact hsame hinst
    | @created inst hact _ hy =>
      subst hact
      cases hb with
      | own ho => cases ho
      | created hc =>
        show ∃ state, (s.create j).state = some state ∧ (w.job j).inst.instanceId = _ ∧
          (w.job j).inst.workerStateRevision = _
        rw [hy, hc]
        exact ⟨inst, rfl, rfl, rfl⟩
  case held =>
    intro idx r hr
    obtain ⟨j, hj, hw, hid⟩ := h.held idx r hr
    obtain ⟨-, hw', hid'⟩ := h.keeps hs (j := j) (by rw [hj]; simp)
    exact ⟨j, hj, hw'.trans hw, hid'.trans hid⟩
  case gone =>
    intro e he
    obtain ⟨hno, j, hj, hid⟩ := h.gone e he
    exact ⟨hno, j, hj, (h.keeps hs hj).2.2.trans hid⟩

/-! ## Steps of the workers -/

theorem Linked.shrinks (h : s.Linked) (hl : s'.leaf = s.leaf) (hc : s'.create = s.create)
    (hw : ∀ idx, ∀ r ∈ (s'.worker idx).instances, r ∈ (s.worker idx).instances)
    (he : ∀ e ∈ s'.events, e ∈ s.events ∨ e.removal.instanceID ∉ (s'.worker e.worker).ids ∧
      e.removal.instanceID ∈ (s.worker e.worker).ids) : s'.Linked where
  run := hl ▸ h.run
  unborn := by rw [hl]; exact h.unborn
  fresh := by rw [hl]; exact h.fresh
  uncreated := by rw [hl]; exact h.uncreated
  filled := by rw [hl]; exact h.filled
  begun := by rw [hl, hc]; exact h.begun
  blank := by rw [hc]; exact h.blank
  entered := by rw [hl, hc]; exact h.entered
  addressed := by rw [hc]; exact h.addressed
  answer := by rw [hl, hc]; exact h.answer
  held := by
    rw [hl, hc]
    exact fun idx r hr => h.held idx r (hw idx r hr)
  gone := by
    rw [hl, hc]
    intro e hmem
    rcases he e hmem with hold | ⟨hno, hid⟩
    · obtain ⟨hno, hj⟩ := h.gone e hold
      refine ⟨fun hid => hno ?_, hj⟩
      obtain ⟨r, hr, hr1⟩ := Sandbox.mem_ids.mp hid
      exact Sandbox.mem_ids.mpr ⟨r, hw _ r hr, hr1⟩
    · obtain ⟨r, hr, hr1⟩ := Sandbox.mem_ids.mp hid
      obtain ⟨j, hj, -, hjid⟩ := h.held _ r hr
      exact ⟨hno, j, by rw [hj]; simp, hjid.trans hr1⟩

theorem Linked.remove (h : s.Linked) (idx id : Nat) :
    (s.setWorker idx ((s.worker idx).removeInstance id)).Linked := by
  refine h.shrinks rfl rfl ?_ fun e he => .inl he
  intro i r hr
  by_cases hi : i = idx
  · subst hi
    have hr : r ∈ ((s.worker i).removeInstance id).instances := by simpa [setWorker] using hr
    exact (((Sandbox.removeInstanceInternal_spec _ _ _).1 r).mp hr).1
  · simpa [setWorker, hi] using hr

theorem Linked.exit (h : s.Linked) (idx id : Nat) :
    ({ s.setWorker idx ((s.worker idx).removeInstanceAndNotify id).1 with
      events := s.events ++
        (((s.worker idx).removeInstanceAndNotify id).2.map (Event.mk idx)).toList } :
      World).Linked := by
  obtain ⟨hmem, -, hevent⟩ := Sandbox.removeInstanceInternal_spec (s.worker idx) id true
  refine h.shrinks rfl rfl ?_ ?_
  · intro i r hr
    by_cases hi : i = idx
    · subst hi
      have hr : r ∈ ((s.worker i).removeInstanceAndNotify id).1.instances := by
        simpa [setWorker] using hr
      exact ((hmem r).mp hr).1
    · simpa [setWorker, hi] using hr
  · intro e he
    rcases List.mem_append.mp he with hold | hnew
    · exact .inl hold
    · obtain ⟨removal, hremoval, rfl⟩ : ∃ removal,
          ((s.worker idx).removeInstanceAndNotify id).2 = some removal ∧ Event.mk idx removal = e := by
        simpa using hnew
      obtain ⟨state, hstate, rfl⟩ := hevent removal hremoval
      refine .inr ⟨?_, Sandbox.mem_ids.mpr ⟨_, hstate, rfl⟩⟩
      have hself : (s.setWorker idx ((s.worker idx).removeInstanceAndNotify id).1).worker idx =
          ((s.worker idx).removeInstanceAndNotify id).1 := by simp [setWorker]
      show id ∉ ((s.setWorker idx _).worker idx).ids
      rw [hself, Sandbox.removeInstanceAndNotify, Sandbox.ids_remove]
      exact fun hid => hid.2 rfl

/-- Calls go on, each with the sandbox it has, or has not, entered. -/
theorem Linked.calls (h : s.Linked) (hl : s'.leaf = s.leaf) (hw : s'.worker = s.worker)
    (he : s'.events = s.events) (hstate : ∀ i, (s'.create i).state = (s.create i).state)
    (hbegun : ∀ i, (s'.create i).pc ≠ .idle →
      (s.leaf.job i).pc.launched = true ∧ (s.leaf.job i).worker < s.leaf.workers)
    (hblank : ∀ i, (s'.create i).pc = .idle ∨ (s'.create i).pc = .sent → (s.create i).state = none)
    (haddr : ∀ i state, s'.create i = ⟨.answered true, some state⟩ → state.address ≠ "") :
    s'.Linked where
  run := hl ▸ h.run
  unborn := by rw [hl]; exact h.unborn
  fresh := by rw [hl]; exact h.fresh
  uncreated := by rw [hl]; exact h.uncreated
  filled := by rw [hl]; exact h.filled
  begun := by rw [hl]; exact hbegun
  blank := fun i hi => (hstate i).trans (hblank i hi)
  entered := by
    rw [hl]
    exact fun i state hi => h.entered i state ((hstate i).symm.trans hi)
  addressed := haddr
  answer := by
    rw [hl]
    intro i hi
    rw [hstate]
    exact h.answer i hi
  held := by
    rw [hl, hw]
    intro idx r hr
    obtain ⟨i, hi, hrest⟩ := h.held idx r hr
    exact ⟨i, (hstate i).trans hi, hrest⟩
  gone := by
    rw [hl, hw, he]
    intro e hmem
    obtain ⟨hno, i, hi, hid⟩ := h.gone e hmem
    exact ⟨hno, i, by rw [hstate]; exact hi, hid⟩

theorem Linked.setCreate (h : s.Linked) {x : CreateCall} (hstate : x.state = (s.create j).state)
    (hj : (s.leaf.job j).pc.launched = true ∧ (s.leaf.job j).worker < s.leaf.workers)
    (hblank : x.pc = .idle ∨ x.pc = .sent → x.state = none)
    (haddr : ∀ state, x = ⟨.answered true, some state⟩ → state.address ≠ "") :
    (s.setCreate j x).Linked := by
  have hcreate : ∀ i, (s.setCreate j x).create i = if i = j then x else s.create i :=
    Function.update_apply _ _ _
  refine h.calls rfl rfl rfl ?_ ?_ ?_ ?_
  · grind
  · exact fun i hi => by have := h.begun i; grind
  · exact fun i hi => by have := h.blank i; grind
  · exact fun i state hi => by have := h.addressed i state; grind

theorem Linked.goCreate (h : s.Linked) {pc : CreatePC} (hj : (s.create j).pc ≠ .idle)
    (hpc : pc ≠ .idle ∧ pc ≠ .sent) (haddr : pc = .answered true →
      (s.create j).state.all (fun state => state.address != "") = true) :
    (s.goCreate j pc).Linked := by
  refine h.setCreate rfl (h.begun j hj) ?_ ?_
  · rintro (hi | hi)
    · exact absurd hi hpc.1
    · exact absurd hi hpc.2
  · intro state hx
    injection hx with hdone hsome
    have hall := haddr hdone
    rw [hsome] at hall
    simpa using hall

theorem Linked.giveUp (h : s.Linked) (hj : (s.create j).pc ≠ .idle) : (s.giveUp j).Linked :=
  (h.remove _ _).goCreate hj (by simp) (by simp)

theorem Linked.restart (h : s.Linked) (idx : Nat) : (s.restart idx).Linked := by
  have hset : (s.setWorker idx .newSandbox).Linked := by
    refine h.shrinks rfl rfl ?_ fun e he => .inl he
    intro i r hr
    by_cases hi : i = idx
    · subst hi
      have hr : r ∈ Sandbox.newSandbox.instances := by simpa [setWorker] using hr
      cases hr
    · simpa [setWorker, hi] using hr
  have hcall : ∀ i, (s.restart idx).create i = s.create i ∨
      ((s.restart idx).create i).pc = .lost ∧ (s.create i).pc ≠ .idle ∧
        ((s.restart idx).create i).state = (s.create i).state := by
    intro i
    show (if _ then _ else _) = _ ∨ _
    simp only [World.restart]
    split
    · rcases CreateCall.lose_pc (s.create i) with hsame | ⟨hlost, hne⟩
      · exact .inl hsame
      · exact .inr ⟨hlost, hne, CreateCall.lose_state _⟩
    · exact .inl rfl
  refine hset.calls rfl rfl rfl (fun i => ?_) (fun i hi => ?_) (fun i hi => ?_) (fun i state hi => ?_)
  all_goals rcases hcall i with hsame | ⟨hlost, hne, hstate⟩
  · rw [hsame]
    rfl
  · exact hstate
  · exact h.begun i (hsame ▸ hi)
  · exact h.begun i hne
  · exact h.blank i (hsame ▸ hi)
  · rcases hi with hi | hi <;> rw [hlost] at hi <;> cases hi
  · exact h.addressed i state (hsame ▸ hi)
  · rw [hi] at hlost
    cases hlost

theorem Linked.start (h : s.Linked) {address : String} {ready : Bool}
    (hsent : (s.create j).pc = .sent) (hid : (s.leaf.job j).instanceID ≠ 0) :
    ((s.setWorker (s.leaf.job j).worker (s.started j address).1).setCreate j
      ⟨if ready then .pinging else .waiting, some (s.started j address).2⟩).Linked := by
  have hnone : (s.create j).state = none := h.blank j (.inr hsent)
  generalize hs' : (s.setWorker (s.leaf.job j).worker (s.started j address).1).setCreate j
    ⟨if ready then .pinging else .waiting, some (s.started j address).2⟩ = s'
  have hleaf : s'.leaf = s.leaf := by subst hs'; rfl
  have hevents : s'.events = s.events := by subst hs'; rfl
  have hcreate : ∀ i, s'.create i = if i = j then
      ⟨if ready then .pinging else .waiting, some (s.started j address).2⟩ else s.create i := by
    subst hs'
    exact Function.update_apply _ _ _
  have hworker : ∀ idx, s'.worker idx =
      if idx = (s.leaf.job j).worker then (s.started j address).1 else s.worker idx := by
    subst hs'
    exact Function.update_apply _ _ _
  have hkept : ∀ i, (s.create i).state ≠ none → s'.create i = s.create i := by grind
  constructor
  case run => exact hleaf ▸ h.run
  case unborn => rw [hleaf]; exact h.unborn
  case fresh => rw [hleaf]; exact h.fresh
  case uncreated => rw [hleaf]; exact h.uncreated
  case filled => rw [hleaf]; exact h.filled
  case begun => rw [hleaf]; exact fun i hi => by have := h.begun i; grind
  case blank => exact fun i hi => by have := h.blank i; grind
  case entered =>
    rw [hleaf]
    intro i state hi
    by_cases hij : i = j
    · subst hij
      rw [hcreate, if_pos rfl] at hi
      rw [← Option.some.inj hi]
      exact ⟨rfl, rfl, hid, Nat.succ_pos _⟩
    · exact h.entered i state (by grind)
  case addressed => exact fun i state hi => by have := h.addressed i state; grind
  case answer =>
    rw [hleaf]
    intro i hi
    obtain ⟨state, hstate, hrest⟩ := h.answer i hi
    exact ⟨state, by grind, hrest⟩
  case held =>
    rw [hleaf]
    intro idx r hr
    have hcase : r = ((s.leaf.job j).instanceID, (s.started j address).2) ∧
        idx = (s.leaf.job j).worker ∨ r ∈ (s.worker idx).instances := by
      rw [hworker] at hr
      split at hr
      · rename_i hidx
        rcases Sandbox.mem_enter.mp hr with rfl | ⟨hr, -⟩
        · exact .inl ⟨rfl, hidx⟩
        · exact .inr (hidx ▸ hr)
      · exact .inr hr
    rcases hcase with ⟨rfl, rfl⟩ | hr
    · exact ⟨j, by grind, rfl, rfl⟩
    · obtain ⟨i, hi, hrest⟩ := h.held idx r hr
      exact ⟨i, by grind, hrest⟩
  case gone =>
    rw [hleaf, hevents]
    intro e he
    obtain ⟨hno, i, hi, heq⟩ := h.gone e he
    refine ⟨fun hmem => ?_, i, by rw [hkept i hi]; exact hi, heq⟩
    rw [hworker] at hmem
    split at hmem
    · rename_i hidx
      rcases Sandbox.ids_enter.mp hmem with hnew | hold
      · -- the event would be about the sandbox that is being entered
        have hij : i = j := h.fresh i j (heq.trans hnew) (heq.trans hnew ▸ hid)
        exact hi (hij ▸ hnone)
      · exact hno (hidx ▸ hold)
    · exact hno hmem

/-- **One step.** -/
theorem Transition.linked (ht : Transition s a s') (hfresh : s.freshIds a = true) (h : s.Linked) :
    s'.Linked := by
  cases ht with
  | leaf hb hstep => exact h.leafStep hb hfresh hstep
  | @send j hp hi =>
    have hbound := h.registered.ledger.bound j (by simp [Leaf.Job.reserved, hp])
    refine h.setCreate (h.blank _ (.inl hi)).symm ⟨by rw [hp]; rfl, hbound⟩ (fun _ => rfl) ?_
    intro state hx
    cases hx
  | refuse hpc => exact h.goCreate (by simp [hpc]) (by simp) (by simp)
  | start hpc hid => exact h.start hpc hid
  | ready hpc => exact h.goCreate (by simp [hpc]) (by simp) (by simp)
  | reached hpc ha => exact h.goCreate (by simp [hpc]) (by simp) (fun _ => ha)
  | unreached hpc => exact h.giveUp (by simp [hpc])
  | timeout hpc => exact h.giveUp (by simp [hpc])
  | cancel hpc => exact h.goCreate (by simp [hpc]) (by simp) (by simp)
  | sendStop _ _ => exact h.shrinks rfl rfl (fun _ _ hr => hr) fun _ he => .inl he
  | stopped _ =>
    exact (h.remove _ _).shrinks rfl rfl (fun _ _ hr => hr) fun _ he => .inl he
  | stopRefused _ => exact h.shrinks rfl rfl (fun _ _ hr => hr) fun _ he => .inl he
  | exit => exact h.exit _ _
  | snapshot => exact h.shrinks rfl rfl (fun _ _ hr => hr) fun _ he => .inl he
  | restart => exact h.restart _

theorem init_linked (c : Leaf.World.Config) : (init c).Linked where
  run := .start ⟨c, rfl⟩
  unborn := fun _ _ => rfl
  fresh := fun _ _ _ hne => absurd rfl hne
  uncreated := fun _ _ => rfl
  filled := nofun
  begun := fun _ hne => absurd rfl hne
  blank := fun _ _ => rfl
  entered := nofun
  addressed := nofun
  answer := fun _ hne => absurd rfl hne
  held := nofun
  gone := nofun

/-- **Run lemma.** -/
theorem linked_of_run {ok : World → Action → Prop} (hs : machine.ReachesWhile ok s)
    (hok : ∀ t a, ok t a → t.freshIds a = true) : s.Linked := by
  refine hs.invariant (I := World.Linked) ?_ ?_
  · rintro t ⟨c, rfl⟩
    exact init_linked c
  · intro t a t' ht ha hstep
    exact (step_transition hstep).linked (hok t a ha) ht

end World

end HyperFaaS.Cluster
