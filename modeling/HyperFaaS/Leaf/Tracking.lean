import HyperFaaS.Leaf.ViewAgreement

/-!
What a step of the leaf does to a start on its way (`Arrives`), to a stop (`StopStep`)
and to the lists (`TrackStep`): only the end of its own start brings an instance there,
and only a stop that is over, a snapshot or an event takes it away.
-/

namespace HyperFaaS.Leaf

open Function

open Autoscaling

/-- From the call to the worker to the section that appends the instance. -/
def JobPC.coming : JobPC → Bool
  | .planned | .created | .stored | .added => true
  | _ => false

/-- The worker no longer has the instance, by its answer. -/
def StopPC.confirmed : StopPC → Bool
  | .finishing _ true | .removing => true
  | _ => false

namespace World

variable {w w' : World}
variable {act : Action} {i idx f : Nat}

theorem Transition.launched (hs : Transition w act w') (h : w.Roster)
    (hi : (w.job i).pc.launched = true) :
    (w'.job i).function = (w.job i).function ∧ (w'.job i).worker = (w.job i).worker ∧
      (w'.job i).instanceID = (w.job i).instanceID ∧ (w'.job i).pc.launched = true := by
  cases hs.jobStep i with
  | same hsame => exact ⟨hsame.function, hsame.worker, hsame.instanceID, hsame.launched hi⟩
  | spawned _ hnew _ _ _ _ =>
    rw [(h.unborn i (by omega)).1] at hi
    cases hi
  | planned _ hpc _ _ _ _ =>
    rw [hpc] at hi
    cases hi
  | created _ _ hy =>
    rw [hy]
    exact ⟨rfl, rfl, rfl, rfl⟩

theorem Transition.planned_stays (hs : Transition w act w') (h : w.Roster)
    (hi : (w.job i).pc = .planned) : (w'.job i).pc = .planned ∨ act = .createFailed i ∨
      ∃ inst, act = .created i inst := by
  have hstep := hs.pcStep i
  generalize (w'.job i).pc = y at hstep ⊢
  cases hstep with
  | same => exact .inl hi
  | scheduled hnew =>
    rw [(h.unborn i (by omega)).1] at hi
    cases hi
  | createFailed _ => exact .inr (.inl rfl)
  | created _ => exact .inr (.inr ⟨_, rfl⟩)
  | completed hpc | completing hpc =>
    rw [hi] at hpc
    rcases hpc with hpc | hpc <;> cases hpc
  | _ => simp_all

/-- How a start that has its worker ceases to be on its way. -/
inductive Arrives (w : World) (i : Nat) : Action → Prop
  | failed : Arrives w i (.createFailed i)
  | refused : (w.job i).pc = .created → w.store.putInstance (w.job i).inst = none →
      Arrives w i (.put i)
  | registered : (w.job i).pc = .added → Arrives w i (.register i)

theorem Transition.coming (hs : Transition w act w') (h : w.Roster)
    (hi : (w.job i).pc.coming = true) : (w'.job i).pc.coming = true ∨ Arrives w i act := by
  have hstep := hs.pcStep i
  generalize (w'.job i).pc = y at hstep ⊢
  cases hstep with
  | same => exact .inl hi
  | scheduled hnew =>
    rw [(h.unborn i (by omega)).1] at hi
    cases hi
  | planned _ | created _ | put _ | added _ => exact .inl rfl
  | createFailed _ => exact .inr .failed
  | putFailed hpc hput => exact .inr (.refused hpc hput)
  | registered hpc => exact .inr (.registered hpc)
  | dropped hpc | refused hpc | failed hpc | finished hpc =>
    rw [hpc] at hi
    cases hi
  | completed hpc | completing hpc =>
    rcases hpc with hpc | hpc <;> rw [hpc] at hi <;> cases hi

/-! ## Stops -/

/-- A stop that has begun keeps its item, and only the worker's answer makes it go on
to the removal. -/
structure StopStep (act : Action) (k : Nat) (x y : Stop) : Prop where
  kept : x.pc ≠ .idle → y.function = x.function ∧ y.item = x.item ∧ y.pc ≠ .idle
  confirmed : y.pc.confirmed = true → x.pc ≠ .idle ∧
    (x.pc.confirmed = true ∨ ∃ reply, act = .stopReply k reply ∧ reply ≠ .failed)

theorem StopStep.refl (act : Action) (k : Nat) (x : Stop) : StopStep act k x x where
  kept := fun hx => ⟨rfl, rfl, hx⟩
  confirmed := by
    intro hx
    refine ⟨?_, .inl hx⟩
    intro hidle
    rw [hidle] at hx
    cases hx

theorem StopStep.go {k : Nat} {pc : StopPC} (hpc : pc ≠ .idle) (hk : (w.stop k).pc ≠ .idle)
    (hc : pc.confirmed = true → (w.stop k).pc.confirmed = true ∨
      ∃ reply, act = .stopReply k reply ∧ reply ≠ .failed) (i : Nat) :
    StopStep act i (w.stop i) (update w.stop k { w.stop k with pc := pc } i) := by
  by_cases hi : i = k
  · subst hi
    rw [update_self]
    exact ⟨fun _ => ⟨rfl, rfl, hpc⟩, fun h => ⟨hk, hc h⟩⟩
  · rw [update_of_ne hi]
    exact .refl act i _

theorem Transition.stopStep (hs : Transition w act w') (hn : w.Names) (i : Nat) :
    StopStep act i (w.stop i) (w'.stop i) := by
  cases hs with
  | placement _ _ | pool _ _ _ | setTarget _ | schedule _ _ _ | scheduleAlone _ _
  | planNothing _ _ | planRefused _ _ _ | planned _ _ _ | createFailed _ | created _
  | putFailed _ _ | put _ _ | add _ _ | register _ | fail _ | completeNone _ _ | complete _ _ _
  | finish _ _ | stop _ | reconcile _ | sandboxRemoved _ | recordStop _ _ _ _ | recordNothing _ _ _
  | recorded _ _ | storeRemove _ _ _ | poolRemove _ _ _ => exact .refl _ _ _
  | @launch b item rest _ =>
    show StopStep _ i (w.stop i) (update w.stop w.nstops _ i)
    by_cases hi : i = w.nstops
    · subst hi
      rw [update_self]
      refine ⟨fun hne => absurd (hn.noStop _ (Nat.le_refl _)) hne, fun hc => by cases hc⟩
    · rw [update_of_ne hi]
      exact .refl _ _ _
  | drain hpc _ | drainHanded hpc _ | drainFailed hpc _ | removeNothing hpc _ | remove hpc _ _
  | cancelStop hpc =>
    exact StopStep.go (by simp) (by simp [hpc]) (fun hc => by cases hc) i
  | @stopReply k d reply hpc =>
    refine StopStep.go (by simp) (by simp [hpc]) (fun hc => .inr ⟨reply, rfl, ?_⟩) i
    rintro rfl
    cases hc
  | @finishDrain k d stopped p hpc _ =>
    refine StopStep.go (by cases stopped <;> simp) (by simp [hpc]) (fun hc => .inl ?_) i
    cases stopped with
    | true => rw [hpc]; rfl
    | false => cases hc

/-! ## Instances -/

/-- Why instances `xs` leave the list of worker `idx` of function `f`. -/
inductive Leaves (w : World) (f idx : Nat) (xs : List TrackedInstance) : Action → Prop
  | stopped {k : Nat} : (w.stop k).pc = .removing → (w.stop k).function = f →
      (w.stop k).item.workerIdx = idx → (∀ x ∈ xs, x.id = (w.stop k).item.instanceID) →
      Leaves w f idx xs (.remove k)
  | relisted {presence : WorkerPresence} : (∀ x ∈ xs, SandboxActuator.keeps presence x = false) →
      Leaves w f idx xs (.reconcile f idx presence)
  | reported {id revision : Nat} : (∀ x ∈ xs, x.id = id) →
      Leaves w f idx xs (.sandboxRemoved f idx id revision)

/-- What a step does to the lists. -/
inductive TrackStep (w : World) (act : Action) (w' : World) : Prop
  | same : (∀ f id, w'.tracks f id ↔ w.tracks f id) → TrackStep w act w'
  | registered {j : Nat} : act = .register j → (w.job j).pc = .added →
      (∀ f id, w'.tracks f id ↔
        w.tracks f id ∨ f = (w.job j).function ∧ id = (w.job j).inst.instanceId) →
      TrackStep w act w'
  | dropped {g idx : Nat} {xs : List TrackedInstance} : Leaves w g idx xs act →
      (∀ x ∈ xs, x ∈ (w.actuator g).tracked idx) →
      (∀ f id, w'.tracks f id ↔ w.tracks f id ∧ ¬ (f = g ∧ id ∈ xs.map (·.id))) →
      TrackStep w act w'

theorem TrackStep.drops {g : Nat} {a : SandboxActuator} {clear : Bool → Int → Int}
    {xs : List TrackedInstance} (hr : w.Roster)
    (hd : SandboxActuator.Drops clear (w.actuator g) a idx xs)
    (ha : w'.actuator = update w.actuator g a) (hl : Leaves w g idx xs act) : TrackStep w act w' :=
  .dropped hl (fun _ hx => hd.perm.mem_iff.mpr (List.mem_append_left _ hx))
    (hr.tracks_drops hd ha)

theorem TrackStep.relist {a : SandboxActuator} (ha : w'.actuator = update w.actuator f a)
    (hk : ∀ idx, ((a.tracked idx).map key).Perm (((w.actuator f).tracked idx).map key)) :
    TrackStep w act w' := by
  refine .same fun g id => ?_
  rw [← tracks_relist hk g id]
  unfold tracks
  rw [ha]
  rfl

theorem registerStart_tracks (w : World) (f idx : Nat) (x : TrackedInstance) (g id : Nat) :
    (w.setActuator f ((w.actuator f).registerStart idx x)).tracks g id ↔
      w.tracks g id ∨ g = f ∧ id = x.id := by
  by_cases hg : g = f
  · subst hg
    have hlist : ∀ i y, y ∈ ((w.setActuator g ((w.actuator g).registerStart idx x)).actuator g).tracked i ↔
        y ∈ (w.actuator g).tracked i ∨ idx = i ∧ y = x := by
      intro i y
      have hself : (w.setActuator g ((w.actuator g).registerStart idx x)).actuator g =
          (w.actuator g).registerStart idx x := by simp [World.setActuator]
      rw [hself, SandboxActuator.registerStart_tracked, List.mem_append]
      split <;> simp_all
    simp only [tracks, hlist, true_and]
    constructor
    · rintro ⟨i, y, hy | ⟨-, rfl⟩, rfl⟩
      · exact .inl ⟨i, y, hy, rfl⟩
      · exact .inr rfl
    · rintro (⟨i, y, hy, rfl⟩ | rfl)
      · exact ⟨i, y, .inl hy, rfl⟩
      · exact ⟨idx, x, .inr ⟨rfl, rfl⟩, rfl⟩
  · simp [tracks, World.setActuator, hg]

theorem Transition.trackStep (hs : Transition w act w') (hr : w.Roster) : TrackStep w act w' := by
  cases hs with
  | placement _ _ | pool _ _ _ | schedule _ _ _ | scheduleAlone _ _ | planNothing _ _
  | planRefused _ _ _ | createFailed _ | created _ | putFailed _ _ | put _ _ | add _ _
  | completeNone _ _ | complete _ _ _ | finish _ _ | launch _ | drain _ _ | drainHanded _ _
  | drainFailed _ _ | stopReply _ | finishDrain _ _ | recordStop _ _ _ _ | recordNothing _ _ _
  | recorded _ _ | storeRemove _ _ _ | poolRemove _ _ _ => exact .same fun _ _ => Iff.rfl
  | setTarget _ => exact .relist rfl fun _ => .refl _
  | planned _ _ ha =>
    obtain ⟨-, -, rfl⟩ := SandboxActuator.reserveLocalStart_ok ha
    exact .relist rfl fun idx => by rw [Shrinks.restart_same]
  | fail _ =>
    refine .relist rfl fun idx => ?_
    rw [SandboxActuator.failStart_eq, Shrinks.restart_same]
  | stop _ =>
    refine .relist rfl fun idx => ?_
    exact .of_eq (Shrinks.map_key ((chosen_marks _ _ _).lists idx))
  | cancelStop _ =>
    refine .relist rfl fun idx => ?_
    rw [Shrinks.cancelStop_key]
  | @register j hpc => exact .registered rfl hpc (registerStart_tracks w _ _ _)
  | @removeNothing k a hpc ha | @remove k a _ hpc ha _ =>
    have hspec := SandboxActuator.removeInstanceWith_spec clearStop
      (w.actuator (w.stop k).function) (w.stop k).item.workerIdx (w.stop k).item.instanceID
    rw [← SandboxActuator.removeInstance, ha] at hspec
    rcases hspec with ⟨hd, -, -⟩ | ⟨x, hd, -, hx⟩
    · exact .drops hr hd rfl (.stopped hpc rfl rfl (by simp))
    · exact .drops hr hd rfl (.stopped hpc rfl rfl (by simpa using hx))
  | @reconcile g idx presence _ =>
    obtain ⟨xs, hd, -, hkeeps, -⟩ :=
      SandboxActuator.reconcileWorkerStateWith_spec clearStop (w.actuator g) idx presence
    exact .drops hr hd rfl (.relisted hkeeps)
  | @sandboxRemoved g idx id revision _ =>
    obtain ⟨xs, hd, -, hid⟩ :=
      SandboxActuator.handleSandboxRemovedWith_spec clearStop (w.actuator g) idx id revision
    exact .drops hr hd rfl (.reported hid)

/-- An instance that has left the lists after its start was over does not return. -/
theorem Transition.untracked (hs : Transition w act w') (hr : w.Roster) {id : Nat}
    (hp : w.past f idx id) (hno : ¬ w.tracks f id) : ¬ w'.tracks f id := by
  intro ht
  cases hs.trackStep hr with
  | same hiff => exact hno ((hiff f id).mp ht)
  | dropped _ _ hiff => exact hno ((hiff f id).mp ht).1
  | @registered j _ hpc hiff =>
    rcases (hiff f id).mp ht with hold | ⟨-, rfl⟩
    · exact hno hold
    · exact hr.not_past (j := j) (by simp [Job.appended, hpc]) hp

end World

end HyperFaaS.Leaf
