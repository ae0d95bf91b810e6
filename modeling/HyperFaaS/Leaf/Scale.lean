import HyperFaaS.Autoscaling.ActuatorScale
import HyperFaaS.Leaf.ActuatorLedger

/-!
The scale of one function over whole runs of a leaf. `Transition.scale` is the
one account of what a step does to `future`: reserved starts and cancelled stops
raise it, reserved stops, failed starts and unmarked instances that leave their
list lower it, and nothing else moves it. From it follow

* `scale_churn`: how many reservations a fixed target can cause;
* `max_instances_cap`: when `max_instances` bounds the scale.
-/

namespace HyperFaaS.Leaf

open Function

open Autoscaling SandboxActuator

namespace World

variable {w w' : World} {f : Nat}

/-! ## What the steps do to the scale of function `f` -/

/-- `planStart` reserves a local start. -/
def startsReserved (f : Nat) (w : World) : Action → Nat
  | .plan j picked _ =>
      if (w.job j).function = f then
        match w.decision (w.job j) picked with
        | some (some (workerID, _)) =>
            match (w.actuator f).reserveLocalStart w.hasPlacement workerID (w.job j).spec
                (w.job j).reason (w.job j).enforceTarget with
            | .ok _ => 1
            | .error _ => 0
        | _ => 0
      else 0
  | _ => 0

/-- Instances are marked to be stopped. -/
def stopsReserved (f : Nat) (w : World) : Action → Nat
  | .stop g count within => if g = f then (chosen (w.actuator f) count within).2.length else 0
  | _ => 0

/-- A start gives its local reservation back. -/
def startsFailed (f : Nat) (w : World) : Action → Nat
  | .fail j => if (w.job j).function = f then 1 else 0
  | _ => 0

/-- How many instances leave the list of worker `idx` without a mark. -/
def lost (a a' : SandboxActuator) (idx : Nat) : Nat :=
  unmarked (a.tracked idx) - unmarked (a'.tracked idx)

/-- Instances that are not marked leave their list. A finished stop is here too:
it removes by id, so it takes an unmarked instance if two have one id. -/
def evictedUnmarked (f : Nat) (w : World) : Action → Nat
  | .reconcile g idx presence =>
      if g = f then lost (w.actuator f) ((w.actuator f).reconcileWorkerState idx presence).1 idx
      else 0
  | .sandboxRemoved g idx id revision =>
      if g = f then lost (w.actuator f) ((w.actuator f).handleSandboxRemoved idx id revision).1 idx
      else 0
  | .remove k =>
      if (w.stop k).function = f then
        lost (w.actuator f) ((w.actuator f).removeInstance (w.stop k).item.workerIdx
          (w.stop k).item.instanceID).1 (w.stop k).item.workerIdx
      else 0
  | _ => 0

/-- `cancelStop` clears a mark. -/
def stopsCancelled (f : Nat) (w : World) : Action → Nat
  | .cancelStop k =>
      if (w.stop k).function = f then
        lost ((w.actuator f).cancelStop (w.stop k).item.workerIdx (w.stop k).item.instanceID)
          (w.actuator f) (w.stop k).item.workerIdx
      else 0
  | _ => 0

/-- The account of one step. -/
structure Moves (f : Nat) (w : World) (a : Action) (w' : World) : Prop where
  future : (w'.actuator f).future + w.stopsReserved f a + w.startsFailed f a +
    w.evictedUnmarked f a = (w.actuator f).future + w.startsReserved f a + w.stopsCancelled f a
  target : (w'.actuator f).targetInstances = (w.actuator f).targetInstances ∨
    ∃ desired reason, a = .setTarget f desired reason ∧ (w'.actuator f).targetInstances = desired

theorem Moves.still {a : Action} (ha : w'.actuator f = w.actuator f)
    (h1 : w.startsReserved f a = 0) (h2 : w.stopsReserved f a = 0) (h3 : w.startsFailed f a = 0)
    (h4 : w.evictedUnmarked f a = 0) (h5 : w.stopsCancelled f a = 0) : Moves f w a w' where
  future := by rw [ha, h1, h2, h3, h4, h5]; omega
  target := .inl (by rw [ha])

variable {g j workerID M : Nat} {b : SandboxActuator}

theorem setActuator_other (a : SandboxActuator) (h : g ≠ f) :
    (w.setActuator g a).actuator f = w.actuator f := by
  simp [World.setActuator, Ne.symm h]

theorem setActuator_same (a : SandboxActuator) : (w.setActuator f a).actuator f = a := by
  simp [World.setActuator]

/-- A section of the actuator of `g` that keeps its target. -/
theorem Moves.section {a : Action} (hw : w'.actuator = update w.actuator g b)
    (htarget : b.targetInstances = (w.actuator g).targetInstances)
    (hsame : g = f → b.future + w.stopsReserved f a + w.startsFailed f a +
      w.evictedUnmarked f a = (w.actuator g).future + w.startsReserved f a + w.stopsCancelled f a)
    (hzero : g ≠ f → w.stopsReserved f a + w.startsFailed f a + w.evictedUnmarked f a +
      w.startsReserved f a + w.stopsCancelled f a = 0) : Moves f w a w' := by
  have hf : w'.actuator f = if f = g then b else w.actuator f := by rw [hw, update_apply]
  by_cases hg : g = f
  · subst hg
    rw [if_pos rfl] at hf
    exact ⟨by rw [hf]; exact hsame rfl, .inl (by rw [hf, htarget])⟩
  · rw [if_neg (Ne.symm hg)] at hf
    have hcount := hzero hg
    exact ⟨by rw [hf]; omega, .inl (by rw [hf])⟩

theorem Moves.drops {a : Action} {idx : Nat} {xs : List TrackedInstance} (hl : w.Ledger)
    (hw : w'.actuator = update w.actuator g b) (hd : Drops clearStop (w.actuator g) b idx xs)
    (h1 : w.startsReserved f a = 0) (h2 : w.stopsReserved f a = 0) (h3 : w.startsFailed f a = 0)
    (h4 : w.evictedUnmarked f a = if g = f then lost (w.actuator f) b idx else 0)
    (h5 : w.stopsCancelled f a = 0) : Moves f w a w' := by
  refine .section hw (by rw [hd.eq]; rfl) ?_ fun hg => by rw [h1, h2, h3, h4, h5, if_neg hg]
  rintro rfl
  have hf := hd.future (hl.balanced g)
  rw [h1, h2, h3, h4, h5, if_pos rfl, lost, hd.unmarked_sub]
  omega

theorem startsReserved_planned {id : Nat} {picked : Option Runtime.PlacementChoice}
    {r : Option Runtime.PlacementReservation}
    (hd : w.decision (w.job j) picked = some (some (workerID, r)))
    (ha : (w.actuator (w.job j).function).reserveLocalStart w.hasPlacement workerID (w.job j).spec
      (w.job j).reason (w.job j).enforceTarget = .ok b) :
    w.startsReserved f (.plan j picked id) = if (w.job j).function = f then 1 else 0 := by
  simp only [startsReserved, hd]
  split
  · rename_i hf
    rw [hf] at ha
    simp [ha]
  · rfl

theorem startsReserved_refused {id : Nat} {picked : Option Runtime.PlacementChoice}
    {r : Option Runtime.PlacementReservation} {e : StartErr}
    (hd : w.decision (w.job j) picked = some (some (workerID, r)))
    (he : (w.actuator (w.job j).function).reserveLocalStart w.hasPlacement workerID (w.job j).spec
      (w.job j).reason (w.job j).enforceTarget = .error e) :
    w.startsReserved f (.plan j picked id) = 0 := by
  simp only [startsReserved, hd]
  split
  · rename_i hf
    rw [hf] at he
    simp [he]
  · rfl

/-- **One step** moves the scale by what it reserves, fails, evicts and cancels. -/
theorem Transition.moves {a : Action} (hs : Transition w a w') (hl : w.Ledger) (f : Nat) :
    Moves f w a w' := by
  cases hs with
  | placement _ _ | pool _ _ _ | launch _ | drain _ _ | drainHanded _ _ | drainFailed _ _
  | stopReply _ | finishDrain _ _ | recordStop _ _ _ _ | recordNothing _ _ _ | recorded _ _
  | storeRemove _ _ _ | poolRemove _ _ _ | schedule _ _ _ | scheduleAlone _ _ | createFailed _
  | created _ | putFailed _ _ | put _ _ | add _ _ | completeNone _ _ | complete _ _ _
  | finish _ _ => exact .still rfl rfl rfl rfl rfl rfl
  | @setTarget g desired reason _ =>
    by_cases hg : g = f
    · subst hg
      refine ⟨?_, .inr ⟨desired, reason, rfl, by rw [setActuator_same]; rfl⟩⟩
      have hfut : ((w.actuator g).setTarget desired reason).future = (w.actuator g).future := rfl
      rw [setActuator_same]
      simp only [startsReserved, stopsReserved, startsFailed, evictedUnmarked, stopsCancelled]
      omega
    · exact .still (setActuator_other _ hg) rfl rfl rfl rfl rfl
  | planNothing _ hd => exact .still rfl (by simp [startsReserved, hd]) rfl rfl rfl rfl
  | planRefused _ hd he => exact .still rfl (startsReserved_refused hd he) rfl rfl rfl rfl
  | @planned j picked id _ _ _ _ hd ha =>
    have hone : w.startsReserved f (.plan j picked id) = _ := startsReserved_planned hd ha
    obtain ⟨-, -, rfl⟩ := reserveLocalStart_ok ha
    refine .section rfl rfl (fun hf => ?_) fun hf => by rw [hone, if_neg hf]; rfl
    rw [hone, if_pos hf, restart_future]
    simp only [stopsReserved, startsFailed, evictedUnmarked, stopsCancelled]
    omega
  | register _ =>
    rw [registerStart_eq]
    refine .section rfl rfl (fun _ => ?_) fun _ => rfl
    rw [restart_future]
    simp only [startsReserved, stopsReserved, startsFailed, evictedUnmarked, stopsCancelled]
    omega
  | fail _ =>
    rw [failStart_eq]
    refine .section rfl rfl (fun hf => ?_) fun hf => by simp only [startsFailed, if_neg hf]; rfl
    rw [restart_future]
    simp only [startsReserved, stopsReserved, startsFailed, evictedUnmarked, stopsCancelled,
      if_pos hf]
    omega
  | @stop g count within _ =>
    have hm := chosen_marks (w.actuator g) count within
    refine .section rfl (by rw [hm.eq]) ?_ fun hg => by simp only [stopsReserved, if_neg hg]; rfl
    rintro rfl
    have hfut := hm.future
    simp only [startsReserved, stopsReserved, startsFailed, evictedUnmarked, stopsCancelled,
      if_true]
    omega
  | @removeNothing k b _ ha | @remove k b _ _ ha _ =>
    obtain ⟨xs, hd⟩ := removeInstance_drops (w.actuator (w.stop k).function)
      (w.stop k).item.workerIdx (w.stop k).item.instanceID
    rw [ha] at hd
    exact .drops hl rfl hd rfl rfl rfl (by grind [evictedUnmarked]) rfl
  | cancelStop _ =>
    refine .section rfl (cancelStop_targetInstances _ _ _) ?_ fun hf => by
      simp only [stopsCancelled, if_neg hf]; rfl
    rintro rfl
    rw [cancelStop_future (hl.balanced _)]
    simp only [startsReserved, stopsReserved, startsFailed, evictedUnmarked, stopsCancelled,
      if_true, lost]
    omega
  | @reconcile g idx presence _ =>
    obtain ⟨xs, hd, -⟩ := reconcileWorkerStateWith_spec clearStop (w.actuator g) idx presence
    exact .drops hl rfl hd rfl rfl rfl (by grind [evictedUnmarked, reconcileWorkerState]) rfl
  | @sandboxRemoved g idx id revision _ =>
    obtain ⟨xs, hd, -⟩ := handleSandboxRemovedWith_spec clearStop (w.actuator g) idx id revision
    exact .drops hl rfl hd rfl rfl rfl (by grind [evictedUnmarked, handleSandboxRemoved]) rfl

/-- An instance is appended to the lists. -/
def registers (f : Nat) (w : World) : Action → Nat
  | .register j => if (w.job j).function = f then 1 else 0
  | _ => 0

theorem starts_still {a : Action} (h : (w'.actuator f).pendingStarts = (w.actuator f).pendingStarts)
    (h1 : w.startsFailed f a = 0) (h2 : w.registers f a = 0) (h3 : w.startsReserved f a = 0) :
    (w'.actuator f).pendingStarts + w.startsFailed f a + w.registers f a =
      (w.actuator f).pendingStarts + w.startsReserved f a := by
  rw [h, h1, h2, h3]
  simp

theorem starts_section {a : Action} (hw : w'.actuator = update w.actuator g b)
    (hsame : g = f → b.pendingStarts + w.startsFailed f a + w.registers f a =
      (w.actuator g).pendingStarts + w.startsReserved f a)
    (hzero : g ≠ f → w.startsFailed f a + w.registers f a + w.startsReserved f a = 0) :
    (w'.actuator f).pendingStarts + w.startsFailed f a + w.registers f a =
      (w.actuator f).pendingStarts + w.startsReserved f a := by
  rw [hw, update_apply]
  split
  · rename_i hf
    subst hf
    exact hsame rfl
  · rename_i hf
    have hcount := hzero (Ne.symm hf)
    omega

theorem setActuator_pendingStarts (hb : b.pendingStarts = (w.actuator g).pendingStarts) :
    ((w.setActuator g b).actuator f).pendingStarts = (w.actuator f).pendingStarts := by
  by_cases hg : g = f
  · subst hg
    rw [setActuator_same, hb]
  · rw [setActuator_other _ hg]

theorem Transition.pendingStarts {a : Action} (hs : Transition w a w') (f : Nat) :
    (w'.actuator f).pendingStarts + w.startsFailed f a + w.registers f a =
      (w.actuator f).pendingStarts + w.startsReserved f a := by
  cases hs with
  | placement _ _ | pool _ _ _ | launch _ | drain _ _ | drainHanded _ _ | drainFailed _ _
  | stopReply _ | finishDrain _ _ | recordStop _ _ _ _ | recordNothing _ _ _ | recorded _ _
  | storeRemove _ _ _ | poolRemove _ _ _ | schedule _ _ _ | scheduleAlone _ _ | createFailed _
  | created _ | putFailed _ _ | put _ _ | add _ _ | completeNone _ _ | complete _ _ _
  | finish _ _ => exact starts_still rfl rfl rfl rfl
  | planNothing _ hd => exact starts_still rfl rfl rfl (by simp [startsReserved, hd])
  | planRefused _ hd he => exact starts_still rfl rfl rfl (startsReserved_refused hd he)
  | @planned j picked id _ _ _ _ hd ha =>
    have hone : w.startsReserved f (.plan j picked id) = _ := startsReserved_planned hd ha
    obtain ⟨-, -, rfl⟩ := reserveLocalStart_ok ha
    refine starts_section rfl (fun hf => ?_) fun hf => by rw [hone, if_neg hf]; rfl
    rw [restart_pendingStarts, hone, if_pos hf]
    simp [startsFailed, registers]
  | register _ =>
    rw [registerStart_eq]
    refine starts_section rfl (fun hf => ?_) fun hf => by simp only [registers, if_neg hf]; rfl
    rw [restart_pendingStarts]
    simp [startsFailed, registers, startsReserved, hf]
  | fail _ =>
    rw [failStart_eq]
    refine starts_section rfl (fun hf => ?_) fun hf => by simp only [startsFailed, if_neg hf]; rfl
    rw [restart_pendingStarts]
    simp [startsFailed, registers, startsReserved, hf]
  | setTarget _ => exact starts_still (setActuator_pendingStarts rfl) rfl rfl rfl
  | @stop g count within _ =>
    refine starts_still (setActuator_pendingStarts ?_) rfl rfl rfl
    rw [(chosen_marks (w.actuator g) count within).eq]
  | @removeNothing k b _ ha | @remove k b _ _ ha _ =>
    obtain ⟨xs, hd⟩ := removeInstance_drops (w.actuator (w.stop k).function)
      (w.stop k).item.workerIdx (w.stop k).item.instanceID
    rw [ha] at hd
    exact starts_still (setActuator_pendingStarts hd.pendingStarts) rfl rfl rfl
  | cancelStop _ =>
    exact starts_still (setActuator_pendingStarts (cancelStop_pendingStarts _ _ _)) rfl rfl rfl
  | @reconcile g idx presence _ =>
    obtain ⟨xs, hd, -⟩ := reconcileWorkerStateWith_spec clearStop (w.actuator g) idx presence
    exact starts_still (setActuator_pendingStarts hd.pendingStarts) rfl rfl rfl
  | @sandboxRemoved g idx id revision _ =>
    obtain ⟨xs, hd, -⟩ := handleSandboxRemovedWith_spec clearStop (w.actuator g) idx id revision
    exact starts_still (setActuator_pendingStarts hd.pendingStarts) rfl rfl rfl

/-- **One step** moves the unmarked instances by what it appends, marks, evicts and
cancels. -/
theorem Transition.unmarkedTotal {a : Action} (hs : Transition w a w') (hl : w.Ledger) (f : Nat) :
    (w'.actuator f).unmarkedTotal + w.stopsReserved f a + w.evictedUnmarked f a =
      (w.actuator f).unmarkedTotal + w.registers f a + w.stopsCancelled f a := by
  have hmoves := (hs.moves hl f).future
  have hstarts := hs.pendingStarts f
  have hbefore := (hl.balanced f).future_eq
  have hafter := ((hs.ledger hl).balanced f).future_eq
  omega

/-! ## The scale pump at a fixed target -/

/-- The steps of the normal mode at target `T`: target updates repeat it, starts
are those of the pump, and so are the choices of instances to stop (`StopAll`
makes them the same way). -/
def calm (f : Nat) (T : Int) (w : World) : Action → Bool
  | .setTarget g desired _ => decide (g ≠ f) || decide (desired = T)
  | .plan j _ _ => decide ((w.job j).function ≠ f) || (w.job j).enforceTarget
  | .stop g _ within => decide (g ≠ f) || within
  | _ => true

variable {T : Int} {a : Action}

theorem startsReserved_guard (hc : w.calm f T a = true) (hpos : 0 < w.startsReserved f a) :
    w.startsReserved f a = 1 ∧ (w.actuator f).future < (w.actuator f).targetInstances := by
  cases a with
  | plan j picked id =>
    simp only [startsReserved] at hpos ⊢
    split at hpos
    · rename_i hf
      have henforce : (w.job j).enforceTarget = true := by simpa [calm, hf] using hc
      split at hpos
      · rename_i workerID r hd
        split at hpos
        · rename_i b hb
          rw [if_pos hf]
          exact ⟨rfl, (reserveLocalStart_guard hb).1 henforce⟩
        · cases hpos
      · cases hpos
    · cases hpos
  | _ => cases hpos

theorem stopsReserved_guard (hc : w.calm f T a = true) (hpos : 0 < w.stopsReserved f a) :
    (w.stopsReserved f a : Int) ≤ (w.actuator f).future - (w.actuator f).targetInstances := by
  cases a with
  | stop g count within =>
    simp only [stopsReserved] at hpos ⊢
    split at hpos
    · rename_i hg
      have hw : within = true := by simpa [calm, hg] using hc
      subst hw
      rw [if_pos hg]
      exact instancesForStopWithinTarget_le _ count (List.ne_nil_of_length_pos hpos)
    · cases hpos
  | _ => cases hpos

theorem Moves.target_calm (h : Moves f w a w') (hc : w.calm f T a = true)
    (ht : (w.actuator f).targetInstances = T) : (w'.actuator f).targetInstances = T := by
  rcases h.target with hsame | ⟨desired, reason, rfl, hd⟩
  · exact hsame.trans ht
  · have : desired = T := by simpa [calm] using hc
    exact hd.trans this

/-- A start is reserved, or instances to stop, but not both. -/
theorem startsReserved_alone (hpos : 0 < w.startsReserved f a) :
    w.stopsReserved f a = 0 ∧ w.startsFailed f a = 0 ∧ w.evictedUnmarked f a = 0 ∧
      w.stopsCancelled f a = 0 := by
  cases a with
  | plan j picked id => exact ⟨rfl, rfl, rfl, rfl⟩
  | _ => cases hpos

theorem stopsReserved_alone (hpos : 0 < w.stopsReserved f a) :
    w.startsReserved f a = 0 ∧ w.startsFailed f a = 0 ∧ w.evictedUnmarked f a = 0 ∧
      w.stopsCancelled f a = 0 := by
  cases a with
  | stop g count within => exact ⟨rfl, rfl, rfl, rfl⟩
  | _ => cases hpos

/-- **The churn of a fixed target.** From a reachable state on, while the target
of function `f` is `T`: starts are reserved for the gap to `T`, for failed starts
and for unmarked instances that were lost, and for nothing else; stops are
reserved for the excess over `T` and for cancelled stops; and no reservation
carries the scale across `T`. -/
theorem scale_churn (hw : machine.Reachable w) {l : List (World × Action)}
    (hp : machine.Path (fun s a => s.calm f T a = true) w l w')
    (hT : (w.actuator f).targetInstances = T) :
    (Lib.Machine.cost (startsReserved f) l : Int) ≤ max 0 (T - (w.actuator f).future) +
        Lib.Machine.cost (startsFailed f) l + Lib.Machine.cost (evictedUnmarked f) l ∧
      (Lib.Machine.cost (stopsReserved f) l : Int) ≤ max 0 ((w.actuator f).future - T) +
        Lib.Machine.cost (stopsCancelled f) l ∧
      ∀ x ∈ l, ∀ t, machine.step x.1 x.2 = .ok t →
        (0 < startsReserved f x.1 x.2 →
          (x.1.actuator f).future < T ∧ (t.actuator f).future ≤ T) ∧
        (0 < stopsReserved f x.1 x.2 →
          T < (x.1.actuator f).future ∧ T ≤ (t.actuator f).future) := by
  -- the invariant of the path: the ledger is right and the target is `T`
  let J : World → Prop := fun s => s.Ledger ∧ (s.actuator f).targetInstances = T
  have hinv : J w := ⟨ledger_of_reachable hw, hT⟩
  have hkeep : ∀ s a t, J s → s.calm f T a = true → machine.step s a = .ok t → J t := by
    rintro s a t ⟨hl, ht⟩ hc hstep
    have htr := step_transition hstep
    exact ⟨htr.ledger hl, (htr.moves hl f).target_calm hc ht⟩
  refine ⟨?_, ?_, ?_⟩
  · have hgap := hp.potential (I := J) (startsReserved f)
      (fun s a => startsFailed f s a + evictedUnmarked f s a)
      (fun s => (T - (s.actuator f).future).toNat) ?_ hinv
    · have hsum : Lib.Machine.cost (fun s a => startsFailed f s a + evictedUnmarked f s a) l =
          Lib.Machine.cost (startsFailed f) l + Lib.Machine.cost (evictedUnmarked f) l := by
        simp only [Lib.Machine.cost, List.sum_map_add]
      omega
    · intro s a t hi hc hstep
      refine ⟨hkeep s a t hi hc hstep, ?_⟩
      have hm := ((step_transition hstep).moves hi.1 f).future
      have hstart := startsReserved_guard hc
      have hstop := stopsReserved_guard hc
      rw [hi.2] at hstart hstop
      omega
  · have hexcess := hp.potential (I := J) (stopsReserved f) (stopsCancelled f)
      (fun s => ((s.actuator f).future - T).toNat) ?_ hinv
    · omega
    · intro s a t hi hc hstep
      refine ⟨hkeep s a t hi hc hstep, ?_⟩
      have hm := ((step_transition hstep).moves hi.1 f).future
      have hstart := startsReserved_guard hc
      have hstop := stopsReserved_guard hc
      rw [hi.2] at hstart hstop
      omega
  · intro x hx t hstep
    obtain ⟨hi, hc, -⟩ := hp.forall_mem (I := J) hkeep hinv hx
    have hm := ((step_transition hstep).moves hi.1 f).future
    have hstart := startsReserved_guard hc
    have hstop := stopsReserved_guard hc
    rw [hi.2] at hstart hstop
    constructor
    · intro hpos
      have halone := startsReserved_alone hpos
      omega
    · intro hpos
      have halone := stopsReserved_alone hpos
      omega

/-- The run of `scale_churn_two`: a target of one, its start, which fails, and
the start that replaces it. -/
def replacedStart : List Action :=
  [.schedule 1 ⟨"http", none⟩ "demand" true .snapshot "", .plan 0 (some ⟨1, ""⟩) 7,
    .createFailed 0, .fail 0, .complete 0,
    .schedule 1 ⟨"http", none⟩ "demand" true .snapshot "", .plan 1 (some ⟨1, ""⟩) 8]

/-- Two starts for a target of one, because one failed. -/
theorem scale_churn_two :
    ∃ (w w' : World) (l : List (World × Action)), machine.Reachable w ∧
      machine.Path (fun s a => s.calm 1 1 a = true) w l w' ∧
      Lib.Machine.cost (startsReserved 1) l = 2 ∧ Lib.Machine.cost (startsFailed 1) l = 1 ∧
      (Lib.Machine.cost (startsReserved 1) l : Int) ≤ max 0 (1 - (w.actuator 1).future) +
        Lib.Machine.cost (startsFailed 1) l + Lib.Machine.cost (evictedUnmarked 1) l := by
  obtain ⟨w, hw, htarget, ⟨l, w'⟩, hsteps, htwo, hone⟩ := machine.exists_of_run
    (Q := fun w => (w.actuator 1).targetInstances = 1 ∧
      ∃ x ∈ machine.steps (fun s a => s.calm 1 1 a) w replacedStart,
        Lib.Machine.cost (startsReserved 1) x.1 = 2 ∧ Lib.Machine.cost (startsFailed 1) x.1 = 1)
    (init ⟨1, 2, ⟨false, 0, 0, 0⟩, false, 0, 0, 0, fun _ => (1, 10), 0⟩) [.setTarget 1 1 "demand"]
    ⟨_, rfl⟩ (by decide +kernel)
  have hp := Lib.Machine.path_of_steps machine (P := fun s a => s.calm 1 1 a = true)
    (fun _ _ h => h) replacedStart hsteps
  exact ⟨w, w', l, hw, hp, htwo, hone, (scale_churn hw hp htarget).1⟩

/-! ## The cap of `max_instances` -/

/-- The specs that starts of `f` are given have `max_instances` at `M`. -/
def keepsSpec (f M : Nat) : Action → Bool
  | .schedule g spec _ _ _ _ => decide (g ≠ f) || spec.scale.any fun s => s.maxInstances == M
  | _ => true

/-- The step does not cancel a stop while the scale is at `M`. -/
def sparesCap (f M : Nat) (w : World) (a : Action) : Bool :=
  decide (w.stopsCancelled f a = 0) || decide ((w.actuator f).future < M)

/-- Every start of `f` that is being scheduled has its spec from such a step. -/
def SpecsAt (f M : Nat) (w : World) : Prop :=
  ∀ j, (w.job j).pc = .scheduling → (w.job j).function = f →
    ((w.job j).spec.scale.any fun s => s.maxInstances == M) = true

theorem Transition.scheduling {a : Action} (hs : Transition w a w') (j : Nat)
    (hj : (w'.job j).pc = .scheduling) : w'.job j = w.job j ∨
      ∃ g spec reason enforce scheduler image, a = .schedule g spec reason enforce scheduler image ∧
        (w'.job j).function = g ∧ (w'.job j).spec = spec := by
  have hmove : ∀ (i : Nat) (x : Job), x.pc ≠ .scheduling →
      (update w.job i x j).pc = .scheduling → update w.job i x j = w.job j := by
    intro i x hx hpc
    by_cases hij : j = i
    · subst hij
      rw [update_self] at hpc
      exact absurd hpc hx
    · exact update_of_ne hij x w.job
  have hnew : ∀ (x : Job), update w.job w.njobs x j = w.job j ∨
      update w.job w.njobs x j = x := by
    intro x
    by_cases hij : j = w.njobs
    · subst hij
      exact .inr (update_self ..)
    · exact .inl (update_of_ne hij x w.job)
  cases hs with
  | placement _ _ | pool _ _ _ | setTarget _ | stop _ | launch _ | drain _ _ | drainHanded _ _
  | drainFailed _ _ | stopReply _ | finishDrain _ _ | removeNothing _ _ | remove _ _ _
  | cancelStop _ | reconcile _ | sandboxRemoved _ | recordStop _ _ _ _ | recordNothing _ _ _
  | recorded _ _ | storeRemove _ _ _ | poolRemove _ _ _ => exact .inl rfl
  | planNothing _ _ | planRefused _ _ _ | planned _ _ _ | createFailed _ | created _
  | putFailed _ _ | put _ _ | add _ _ | register _ | fail _ | completeNone _ _ | complete _ _ _
  | finish _ _ => exact .inl (hmove _ _ (by simp) hj)
  | @schedule g spec reason enforce scheduler image _ _ _ _
  | @scheduleAlone g spec reason enforce scheduler image _ _ =>
    rcases hnew (newJob g spec reason enforce w.placement.nthreads) with he | he
    · exact .inl he
    · exact .inr ⟨g, spec, reason, enforce, scheduler, image, rfl, congrArg Job.function he,
        congrArg Job.spec he⟩

theorem SpecsAt.step (h : w.SpecsAt f M) (hs : Transition w a w') (hk : keepsSpec f M a = true) :
    w'.SpecsAt f M := by
  intro j hj hf
  rcases hs.scheduling j hj with he | ⟨g, spec, reason, enforce, scheduler, image, rfl, hg, hspec⟩
  · rw [he] at hj hf ⊢
    exact h j hj hf
  · rw [hspec]
    rw [hg] at hf
    simpa [keepsSpec, hf] using hk

theorem Moves.cap (h : Moves f w a w') (hcap : (w.actuator f).future ≤ M)
    (hstart : 0 < w.startsReserved f a → w.startsReserved f a = 1 ∧ (w.actuator f).future < M)
    (hone : w.stopsCancelled f a ≤ 1) (hspare : w.sparesCap f M a = true) :
    (w'.actuator f).future ≤ M := by
  have hfut := h.future
  rw [sparesCap, Bool.or_eq_true, decide_eq_true_eq, decide_eq_true_eq] at hspare
  have halone := startsReserved_alone (w := w) (f := f) (a := a)
  omega

end World

end HyperFaaS.Leaf
