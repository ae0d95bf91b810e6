import HyperFaaS.Leaf.ActuatorLedger

/-!
Where the tracked instances come from. As long as the workers answer with
different ids and with addresses, every tracked instance is that of one finished
start of the same function on the same worker, no list holds an id twice, and
every tracked instance has an id and an address.

Every step but the end of a start can only take instances off the lists or
change their marks (`Shrinks`).
-/

namespace HyperFaaS.Leaf

open Autoscaling SandboxActuator

/-- All of an instance but its mark. -/
def key (x : TrackedInstance) : Nat × String × Nat := (x.id, x.address, x.workerStateRevision)

/-- No list of `a'` has more than the same list of `a`, up to order and marks. -/
def Shrinks (a a' : SandboxActuator) : Prop :=
  ∀ idx, ((a'.tracked idx).map key).Subperm ((a.tracked idx).map key)

namespace Shrinks

variable {a a' : SandboxActuator}

theorem of_tracked (h : ∀ idx, a'.tracked idx = a.tracked idx) : Shrinks a a' := by
  intro idx
  rw [h idx]

variable {idx : Nat}

theorem of_drops {clear : Bool → Int → Int} {xs : List TrackedInstance}
    (h : Drops clear a a' idx xs) : Shrinks a a' := by
  intro j
  by_cases hj : j = idx
  · subst hj
    have hsub : (a'.tracked j).Sublist (xs ++ a'.tracked j) := List.sublist_append_right xs _
    exact ((hsub.map key).subperm).trans (h.perm.symm.map key).subperm
  · rw [h.other hj]

theorem map_key {items : List StopItem} {l l' : List TrackedInstance}
    (h : List.Forall₂ (Marked items idx) l l') : l'.map key = l.map key := by
  induction h with
  | nil => rfl
  | cons hx _ ih =>
    rw [List.map_cons, List.map_cons, ih]
    rcases hx with rfl | ⟨-, rfl, -⟩
    · rfl
    · rfl

theorem of_marks {items : List StopItem} (h : Marks a a' items) : Shrinks a a' := by
  intro idx
  rw [map_key (h.lists idx)]

theorem cancelStop_key (a : SandboxActuator) (idx id j : Nat) :
    ((a.cancelStop idx id).tracked j).map key = (a.tracked j).map key := by
  rcases cancelStopWith_spec clearStop a idx id with
    ⟨he, -⟩ | ⟨pre, x, post, -, hl, -, -, he⟩
  · rw [cancelStop, he]
  · rw [cancelStop, he]
    by_cases hj : j = idx
    · subst hj
      rw [edit_tracked, hl, List.map_append, List.map_append]
      rfl
    · rw [edit_tracked_other a hj]

theorem of_cancelStop (a : SandboxActuator) (idx id : Nat) : Shrinks a (a.cancelStop idx id) := by
  intro j
  rw [cancelStop_key]

theorem restart_same (a : SandboxActuator) (idx : Nat) (total n : Int) (j : Nat) :
    (a.restart idx (a.tracked idx) total n).tracked j = a.tracked j := by
  by_cases hj : j = idx
  · subst hj
    simp
  · rw [tracked, restart_other a hj]
    rfl

theorem of_restart (a : SandboxActuator) (idx : Nat) (total n : Int) :
    Shrinks a (a.restart idx (a.tracked idx) total n) :=
  of_tracked (restart_same a idx total n)

theorem source (h : Shrinks a a') {x : TrackedInstance} (hx : x ∈ a'.tracked idx) :
    ∃ y ∈ a.tracked idx, key y = key x := by
  have hm := (h idx).subset (List.mem_map_of_mem hx)
  exact List.mem_map.mp hm

theorem nodup (h : Shrinks a a') (hn : ((a.tracked idx).map (·.id)).Nodup) :
    ((a'.tracked idx).map (·.id)).Nodup := by
  have hid : ∀ l : List TrackedInstance, l.map (·.id) = (l.map key).map Prod.fst := by
    intro l
    rw [List.map_map]
    rfl
  rw [hid] at hn ⊢
  obtain ⟨l, hperm, hsub⟩ := h idx
  exact (hperm.map Prod.fst).nodup_iff.mp (hn.sublist (hsub.map Prod.fst))

end Shrinks

/-- Past the section that appends its instance. -/
def Job.appended (x : Job) : Bool :=
  match x.pc with
  | .registered | .completing _ | .done => true
  | _ => false

namespace World

variable {w w' : World}

/-- The assumption on the workers' answers: an address, and an id that no other
answer has used. An answer with id zero is refused by the store. -/
def distinctAnswer (w : World) : Action → Bool
  | .created _ inst => inst.address != "" &&
      (inst.instanceId == 0 ||
        (List.range w.njobs).all fun i => (w.job i).inst.instanceId != inst.instanceId)
  | _ => true

structure Roster (w : World) : Prop where
  unborn : ∀ j, w.njobs ≤ j → (w.job j).pc = .idle ∧ (w.job j).inst.instanceId = 0
  functions : ∀ j, j < w.njobs → (w.job j).function < w.functions
  outside : ∀ f, w.functions ≤ f → ∀ idx, (w.actuator f).tracked idx = []
  valid : ∀ f idx, ∀ x ∈ (w.actuator f).tracked idx, x.id ≠ 0 ∧ x.address ≠ ""
  filled : ∀ j, (w.job j).pc = .stored ∨ (w.job j).pc = .added → (w.job j).inst.instanceId ≠ 0
  addressed : ∀ j, (w.job j).pc = .created ∨ (w.job j).pc = .stored ∨ (w.job j).pc = .added →
    (w.job j).inst.address ≠ ""
  distinct : ∀ i j, (w.job i).inst.instanceId = (w.job j).inst.instanceId →
    (w.job i).inst.instanceId ≠ 0 → i = j
  source : ∀ f idx, ∀ x ∈ (w.actuator f).tracked idx, ∃ j, (w.job j).appended = true ∧
    (w.job j).function = f ∧ (w.job j).worker = idx ∧ (w.job j).inst.instanceId = x.id ∧
    (w.job j).inst.workerStateRevision = x.workerStateRevision
  nodup : ∀ f idx, (((w.actuator f).tracked idx).map (·.id)).Nodup

variable {j : Nat}

theorem Roster.lt_njobs (h : w.Roster) {x : JobPC} (hj : (w.job j).pc = x) (hx : x ≠ .idle) :
    j < w.njobs := by
  by_contra hge
  exact hx (hj ▸ (h.unborn j (by omega)).1)

theorem Roster.congr (h : w.Roster) (hf : w'.functions = w.functions)
    (ha : w'.actuator = w.actuator) (hn : w'.njobs = w.njobs) (hj : w'.job = w.job) :
    w'.Roster := by
  obtain ⟨h1, h2, h3, h4, h5, h6, h7, h8, h9⟩ := h
  constructor <;> simp only [hf, ha, hn, hj] <;> assumption

theorem Roster.shrinks (h : w.Roster) {f : Nat} {a : SandboxActuator}
    (hs : Shrinks (w.actuator f) a) : (w.setActuator f a).Roster := by
  have hall : ∀ g, Shrinks (w.actuator g) ((w.setActuator f a).actuator g) := by
    intro g
    by_cases hg : g = f
    · subst hg
      simpa [World.setActuator] using hs
    · exact .of_tracked fun idx => by simp [World.setActuator, hg]
  constructor
  case unborn => exact h.unborn
  case functions => exact h.functions
  case outside =>
    intro g hg idx
    have hsub := hall g idx
    rw [h.outside g hg idx] at hsub
    simpa using hsub
  case valid =>
    intro g idx x hx
    obtain ⟨y, hy, hk⟩ := (hall g).source hx
    have hv := h.valid g idx y hy
    simp only [key, Prod.mk.injEq] at hk
    rw [hk.1, hk.2.1] at hv
    exact hv
  case filled => exact h.filled
  case addressed => exact h.addressed
  case distinct => exact h.distinct
  case source =>
    intro g idx x hx
    obtain ⟨y, hy, hk⟩ := (hall g).source hx
    simp only [key, Prod.mk.injEq] at hk
    obtain ⟨j, happ, hf, hw, hid, hrev⟩ := h.source g idx y hy
    exact ⟨j, happ, hf, hw, hid.trans hk.1, hrev.trans hk.2.2⟩
  case nodup => exact fun g idx => (hall g).nodup (h.nodup g idx)

/-- A job moves on; once its instance is appended, the job no longer changes
but for its place. -/
theorem Roster.setJob (h : w.Roster) {x : Job} (hj : j < w.njobs)
    (hf : x.function = (w.job j).function) (happ : (w.job j).appended = true →
      x.appended = true ∧ x.worker = (w.job j).worker ∧ x.inst = (w.job j).inst)
    (hfilled : x.pc = .stored ∨ x.pc = .added → x.inst.instanceId ≠ 0)
    (haddr : x.pc = .created ∨ x.pc = .stored ∨ x.pc = .added → x.inst.address ≠ "")
    (hdist : x.inst.instanceId ≠ 0 → ∀ i, i ≠ j → (w.job i).inst.instanceId ≠ x.inst.instanceId) :
    (w.setJob j x).Roster := by
  have hjob : ∀ i, (w.setJob j x).job i = if i = j then x else w.job i :=
    Function.update_apply _ _ _
  have hn : (w.setJob j x).njobs = w.njobs ∧ (w.setJob j x).functions = w.functions := ⟨rfl, rfl⟩
  constructor
  case unborn => grind [h.unborn]
  case functions => exact fun i hi => by have := h.functions i; grind
  case outside => exact h.outside
  case valid => exact h.valid
  case filled => grind [h.filled]
  case addressed => grind [h.addressed]
  case distinct => grind [h.distinct]
  case source =>
    intro f idx y hy
    obtain ⟨i, hi⟩ := h.source f idx y hy
    exact ⟨i, by grind⟩
  case nodup => exact h.nodup

theorem Roster.goJob (h : w.Roster) {x : JobPC} (pc : JobPC) (hpc : (w.job j).pc = x)
    (hx : x ≠ .idle)
    (happ : (w.job j).appended = true → ({ w.job j with pc := pc } : Job).appended = true)
    (hfilled : pc = .stored ∨ pc = .added → (w.job j).inst.instanceId ≠ 0)
    (haddr : pc = .created ∨ pc = .stored ∨ pc = .added → (w.job j).inst.address ≠ "") :
    (w.goJob j pc).Roster := by
  refine h.setJob (h.lt_njobs hpc hx) rfl (fun ha => ⟨happ ha, rfl, rfl⟩) hfilled haddr ?_
  intro hne i hij heq
  exact hij (h.distinct i j heq (heq ▸ hne))

theorem Roster.spawnJob (h : w.Roster) {x : Job} (hf : x.function < w.functions)
    (hpc : x.pc = .scheduling) (hid : x.inst.instanceId = 0) : (w.spawnJob x).Roster := by
  have hjob : ∀ i, (w.spawnJob x).job i = if i = w.njobs then x else w.job i :=
    Function.update_apply _ _ _
  have hn : (w.spawnJob x).njobs = w.njobs + 1 ∧ (w.spawnJob x).functions = w.functions :=
    ⟨rfl, rfl⟩
  have hunborn := h.unborn w.njobs (Nat.le_refl _)
  constructor
  case unborn => grind [h.unborn]
  case functions => exact fun i hi => by have := h.functions i; grind
  case outside => exact h.outside
  case valid => exact h.valid
  case filled => grind [h.filled]
  case addressed => grind [h.addressed]
  case distinct => grind [h.distinct]
  case source =>
    intro f idx y hy
    obtain ⟨i, hi⟩ := h.source f idx y hy
    exact ⟨i, by grind [Job.appended]⟩
  case nodup => exact h.nodup

/-- A start ends: its instance is appended. No list has the id yet, since the
job that brought it would have to be this one. -/
theorem Roster.register (h : w.Roster) (hpc : (w.job j).pc = .added) :
    ((w.setActuator (w.job j).function ((w.actuator (w.job j).function).registerStart
      (w.job j).worker (trackedOf (w.job j).inst))).goJob j .registered).Roster := by
  have hlt := h.lt_njobs hpc (by simp)
  have hid := h.filled j (.inr hpc)
  have haddr := h.addressed j (.inr (.inr hpc))
  generalize hw' : (w.setActuator (w.job j).function ((w.actuator (w.job j).function).registerStart
    (w.job j).worker (trackedOf (w.job j).inst))).goJob j .registered = w'
  have hjob : ∀ i, w'.job i = if i = j then { w.job j with pc := .registered } else w.job i := by
    subst hw'
    exact Function.update_apply _ _ _
  have hn : w'.njobs = w.njobs ∧ w'.functions = w.functions := by subst hw'; exact ⟨rfl, rfl⟩
  have hlists : ∀ f idx, (w'.actuator f).tracked idx = (w.actuator f).tracked idx ∨
      f = (w.job j).function ∧ idx = (w.job j).worker ∧
        (w'.actuator f).tracked idx =
          (w.actuator f).tracked idx ++ [trackedOf (w.job j).inst] := by
    intro f idx
    subst hw'
    by_cases hf : f = (w.job j).function
    · subst hf
      have htracked := (w.actuator (w.job j).function).registerStart_tracked (w.job j).worker
        (trackedOf (w.job j).inst) idx
      simp only [World.goJob, World.setJob, World.setActuator, Function.update_self, htracked]
      by_cases hidx : (w.job j).worker = idx
      · exact .inr ⟨trivial, hidx.symm, by rw [if_pos hidx]⟩
      · exact .inl (by rw [if_neg hidx, List.append_nil])
    · left
      simp [World.goJob, World.setJob, World.setActuator, hf]
  have hmem : ∀ f idx x, x ∈ (w'.actuator f).tracked idx → x ∈ (w.actuator f).tracked idx ∨
      f = (w.job j).function ∧ idx = (w.job j).worker ∧ x = trackedOf (w.job j).inst := by grind
  constructor
  case unborn => grind [h.unborn]
  case functions => exact fun i hi => by have := h.functions i; grind
  case outside => exact fun f hf idx => by have := h.functions j; grind [h.outside]
  case valid => grind [h.valid, trackedOf]
  case filled => grind [h.filled]
  case addressed => grind [h.addressed]
  case distinct => grind [h.distinct]
  case source =>
    intro f idx x hx
    rcases hmem f idx x hx with hx | ⟨rfl, rfl, rfl⟩
    · obtain ⟨i, hi⟩ := h.source f idx x hx
      exact ⟨i, by grind [Job.appended]⟩
    · exact ⟨j, by grind [Job.appended, trackedOf]⟩
  case nodup =>
    intro f idx
    rcases hlists f idx with he | ⟨rfl, rfl, he⟩
    · rw [he]
      exact h.nodup f idx
    · rw [he, List.map_append, List.map_singleton, List.nodup_append]
      refine ⟨h.nodup _ _, List.nodup_singleton _, ?_⟩
      intro id hold id' hnew heq
      obtain ⟨x, hx, hxid⟩ := List.mem_map.mp hold
      obtain ⟨i, hi, -, -, hiid, -⟩ := h.source _ _ x hx
      have hnew : id' = (w.job j).inst.instanceId := List.mem_singleton.mp hnew
      have hsame : (w.job i).inst.instanceId = (w.job j).inst.instanceId := by
        rw [hiid, hxid, heq, hnew]
      have hij := h.distinct i j hsame (hsame ▸ hid)
      subst hij
      simp [Job.appended, hpc] at hi

/-- **One step** keeps the roster, if an answer it brings is a new one. -/
theorem Transition.roster {act : Action} (hs : Transition w act w')
    (hok : w.distinctAnswer act = true) (h : w.Roster) : w'.Roster := by
  cases hs with
  | placement _ _ | pool _ _ _ | launch _ | drain _ _ | drainHanded _ _ | drainFailed _ _
  | stopReply _ | finishDrain _ _ | recordStop _ _ _ _ | recordNothing _ _ _ | recorded _ _
  | storeRemove _ _ _ | poolRemove _ _ _ => exact h.congr rfl rfl rfl rfl
  | setTarget _ => exact h.shrinks (.of_tracked fun _ => rfl)
  | @schedule _ _ _ _ _ _ p hf _ _ =>
    have hp : (w.setPlacement p).Roster := h.congr rfl rfl rfl rfl
    exact hp.spawnJob hf rfl rfl
  | scheduleAlone hf _ => exact h.spawnJob hf rfl rfl
  | planNothing hpc _ =>
    exact h.goJob .done hpc (by simp) (fun _ => rfl) (by simp) (by simp)
  | @planRefused j _ _ _ _ _ hpc _ _ =>
    refine h.setJob (h.lt_njobs hpc (by simp)) rfl ?_ (by simp) (by simp) ?_
    · intro ha
      simp [Job.appended, hpc] at ha
    · intro hne i hij heq
      exact hij (h.distinct i j heq (heq ▸ hne))
  | @planned j _ _ _ _ a hpc _ ha =>
    obtain ⟨-, -, rfl⟩ := reserveLocalStart_ok ha
    refine (h.shrinks (.of_restart _ _ _ _)).setJob (h.lt_njobs hpc (by simp)) rfl ?_ (by simp)
      (by simp) ?_
    · intro happ
      have happ : (w.job j).appended = true := happ
      simp [Job.appended, hpc] at happ
    · intro hne i hij heq
      exact hij (h.distinct i j heq (heq ▸ hne))
  | createFailed hpc | putFailed hpc _ =>
    exact h.goJob .failing hpc (by simp) (by simp [Job.appended, hpc]) (by simp) (by simp)
  | @created j inst hpc =>
    simp only [distinctAnswer, Bool.and_eq_true, Bool.or_eq_true, List.all_eq_true, List.mem_range,
      bne_iff_ne, beq_iff_eq] at hok
    refine h.setJob (h.lt_njobs hpc (by simp)) rfl ?_ (by simp) (fun _ => hok.1) ?_
    · intro ha
      simp [Job.appended, hpc] at ha
    · intro hne i _ heq
      rcases hok.2 with hzero | hnew
      · exact hne hzero
      · by_cases hi : i < w.njobs
        · exact hnew i hi heq
        · rw [(h.unborn i (by omega)).2] at heq
          exact hne heq.symm
  | @put j s hpc hput =>
    have hid : (w.job j).inst.instanceId ≠ 0 := by
      intro hzero
      simp [Store.putInstance, hzero] at hput
    refine (h.goJob .stored hpc (by simp) (by simp [Job.appended, hpc]) (fun _ => hid) ?_).congr
      rfl rfl rfl rfl
    exact fun _ => h.addressed j (.inl hpc)
  | @add j p hpc _ =>
    refine (h.goJob .added hpc (by simp) (by simp [Job.appended, hpc]) ?_ ?_).congr rfl rfl rfl rfl
    · exact fun _ => h.filled j (.inl hpc)
    · exact fun _ => h.addressed j (.inr (.inl hpc))
  | register hpc => exact h.register hpc
  | @fail j hpc =>
    refine (h.shrinks (.of_restart _ _ _ _)).goJob (x := .failing) .cancelling hpc (by simp) ?_
      (by simp) (by simp)
    intro ha
    have ha : (w.job j).appended = true := ha
    simp [Job.appended, hpc] at ha
  | completeNone hpc _ =>
    rcases hpc with hpc | hpc
    · exact h.goJob .done hpc (by simp) (fun _ => rfl) (by simp) (by simp)
    · exact h.goJob .done hpc (by simp) (fun _ => rfl) (by simp) (by simp)
  | complete hpc _ _ =>
    rcases hpc with hpc | hpc
    · exact (h.goJob (.completing _) hpc (by simp) (fun _ => rfl) (by simp) (by simp)).congr
        rfl rfl rfl rfl
    · exact (h.goJob (.completing _) hpc (by simp) (fun _ => rfl) (by simp) (by simp)).congr
        rfl rfl rfl rfl
  | finish hpc _ => exact h.goJob .done hpc (by simp) (fun _ => rfl) (by simp) (by simp)
  | stop _ => exact (h.shrinks (.of_marks (chosen_marks _ _ _))).congr rfl rfl rfl rfl
  | removeNothing _ ha | remove _ ha _ =>
    obtain ⟨xs, hd⟩ := removeInstance_drops _ _ _
    rw [ha] at hd
    exact (h.shrinks (.of_drops hd)).congr rfl rfl rfl rfl
  | cancelStop _ => exact (h.shrinks (.of_cancelStop _ _ _)).congr rfl rfl rfl rfl
  | reconcile _ =>
    obtain ⟨xs, hd, -⟩ := reconcileWorkerStateWith_spec clearStop (w.actuator _) _ _
    exact (h.shrinks (.of_drops hd)).congr rfl rfl rfl rfl
  | sandboxRemoved _ =>
    obtain ⟨xs, hd, -⟩ := handleSandboxRemovedWith_spec clearStop (w.actuator _) _ _ _
    exact (h.shrinks (.of_drops hd)).congr rfl rfl rfl rfl

theorem init_roster (c : Config) : (init c).Roster := by
  constructor
  case unborn => exact fun j _ => ⟨rfl, rfl⟩
  case functions => exact fun j hj => absurd hj (Nat.not_lt_zero j)
  case outside => exact fun f _ idx => rfl
  case valid => exact nofun
  case filled => exact fun j hj => by rcases hj with hj | hj <;> cases hj
  case addressed => exact fun j hj => by rcases hj with hj | hj | hj <;> cases hj
  case distinct => exact fun i j _ hne => absurd rfl hne
  case source => exact nofun
  case nodup => exact fun f idx => List.nodup_nil

/-- **Run lemma.** -/
theorem roster_of_run {ok : World → Action → Prop}
    (hw : machine.ReachesWhile ok w) (hok : ∀ s a, ok s a → s.distinctAnswer a = true) :
    w.Roster := by
  refine hw.invariant (I := World.Roster) ?_ ?_
  · rintro s ⟨c, rfl⟩
    exact init_roster c
  · intro s a s' hs ha hstep
    exact (step_transition hstep).roster (hok s a ha) hs

end World

end HyperFaaS.Leaf
