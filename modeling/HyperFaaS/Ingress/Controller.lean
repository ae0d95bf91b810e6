import HyperFaaS.Ingress.PickerRoutes
import HyperFaaS.Lib.Machine

/-!
The routing controller (`controller.go`) and the engine it drives (`routing.go`).
`ApplyConfig` is two steps, between which frames, dropped streams and requests come
in any order; its calls do not overlap. Proved here: while the controller serves, the
installed picker is the one its model would build now and routes to the leaves whose
last accepted event was a frame with healthy workers (`picker_never_stale`), as long
as no round-robin picker is asked more than 2^63 - 1 times.
-/

namespace HyperFaaS.Ingress

open Function

structure RoutingController where
  topology : Topology
  model : Option RoutingModel
  version : Nat
  serving : Bool
  lastRevision : Nat → Option Nat
  /-- the engine's `active`: the configuration version and its picker -/
  active : Option (Nat × Picker)

namespace RoutingController

def newController (t : Topology) : RoutingController := ⟨t, none, 0, false, fun _ => none, none⟩

/-- The first critical section of `ApplyConfig`; `now` seeds `ch-rlu`. -/
def clear (c : RoutingController) (policy : RoutingPolicy) (version : Nat) (now : UInt64) :
    RoutingController :=
  { c with
    active := none
    model := some (policy.newModel c.topology now)
    version := version
    serving := false
    lastRevision := fun _ => none }

/-- `engine.install(model.Picker(), version)` -/
def publish (c : RoutingController) (m : RoutingModel) (version : Nat) : RoutingController :=
  { c with model := some m.picker.1, active := some (version, m.picker.2) }

/-- What an update of the model asks for. -/
def finish (c : RoutingController) (u : RoutingModel × UpdateResult) : RoutingController :=
  if c.serving = true ∧ u.2 = .publishPicker then c.publish u.1 c.version
  else { c with model := some u.1 }

def stale (c : RoutingController) (s : LeafState) : Bool :=
  (c.lastRevision s.leafID).any fun last => decide (s.revision ≤ last)

/-- The second part of the result says whether the frame was accepted. -/
def onFrame (c : RoutingController) (s : LeafState) : RoutingController × Bool :=
  match c.model with
  | none => (c, false)
  | some m =>
      if s.configVersion ≠ c.version then (c, false)
      else if c.stale s then (c, false)
      else
        let c := { c with lastRevision := update c.lastRevision s.leafID (some s.revision) }
        (c.finish (if s.fullSnapshot then m.replaceLeaf s else m.apply s), true)

def markUnhealthy (c : RoutingController) (leafID version : Nat) : RoutingController :=
  match c.model with
  | none => c
  | some m => if version ≠ c.version then c else c.finish (m.leafDisconnected leafID)

def stop (c : RoutingController) : RoutingController :=
  { c with active := none, serving := false, model := none }

/-- `Engine.Pick`; the slots the picker shares with its model change with it. -/
def pick (c : RoutingController) (now : UInt64) (req : RouteRequest) :
    RoutingController × Except PickErr LeafTarget :=
  match c.active, c.model with
  | some (v, p), some m =>
      let (p, m, answer) := p.pick now req m
      ({ c with active := some (v, p), model := some m }, answer)
  | _, _ => (c, .error .routingUnavailable)

/-- A frame is refused and changes nothing, or it updates the model. -/
theorem onFrame_cases (c : RoutingController) (s : LeafState) :
    c.onFrame s = (c, false) ∨ ∃ m, c.model = some m ∧ s.configVersion = c.version ∧
      c.stale s = false ∧ c.onFrame s =
        ({ c with
          lastRevision := update c.lastRevision s.leafID (some s.revision) }.finish
            (if s.fullSnapshot then m.replaceLeaf s else m.apply s), true) := by
  cases hm : c.model with
  | none => exact .inl (by simp only [onFrame, hm])
  | some m =>
    by_cases hv : s.configVersion = c.version
    · cases hst : c.stale s with
      | true => exact .inl (by simp [onFrame, hm, hst])
      | false => exact .inr ⟨m, rfl, hv, rfl, by simp [onFrame, hm, hst, hv]⟩
    · exact .inl (by simp [onFrame, hm, hv])

end RoutingController

/-! ## Runs -/

/-- The controller, the configuration call in progress, and for each leaf whether
its last accepted event under this configuration was a frame with healthy workers. -/
structure Routing where
  ctl : RoutingController
  applying : Option Nat
  seen : Nat → Bool

namespace Routing

inductive Action
  | clear (policy : RoutingPolicy) (version : Nat) (now : UInt64)
  | install
  | abandon
  | frame (s : LeafState)
  | drop (leafID version : Nat)
  | pick (now : UInt64) (req : RouteRequest)
  | stop

inductive Fault
  | notEnabled
  | nilModel
  deriving DecidableEq, Repr

/-- A dropped stream counts as an event if its configuration is current. -/
def dropSeen (r : Routing) (leafID version : Nat) : Nat → Bool :=
  if r.ctl.model.isSome = true ∧ version = r.ctl.version then update r.seen leafID false
  else r.seen

def step (r : Routing) : Action → Except Fault Routing
  | .clear policy version now =>
      if r.applying.isSome then .error .notEnabled
      else .ok ⟨r.ctl.clear policy version now, some version, fun _ => false⟩
  | .install =>
      match r.applying, r.ctl.model with
      | none, _ => .error .notEnabled
      | some _, none => .error .nilModel
      | some version, some m =>
          .ok { r with ctl := { r.ctl with serving := true }.publish m version, applying := none }
  | .abandon => if r.applying.isSome then .ok { r with applying := none } else .error .notEnabled
  | .frame s =>
      .ok
        { r with
          ctl := (r.ctl.onFrame s).1
          seen :=
            if (r.ctl.onFrame s).2 then
              update r.seen s.leafID (decide (s.healthyWorkers > 0))
            else r.seen }
  | .drop leafID version =>
      .ok
        { r with
          ctl := r.ctl.markUnhealthy leafID version
          seen := r.dropSeen leafID version }
  | .pick now req => .ok { r with ctl := (r.ctl.pick now req).1 }
  | .stop => .ok { r with ctl := r.ctl.stop, seen := fun _ => false }

def machine (t : Topology) : Lib.Machine Routing Action Fault where
  start := fun r => r = ⟨.newController t, none, fun _ => false⟩
  step := step

/-- The configured leaves whose last accepted event was a frame with healthy workers. -/
def routable (r : Routing) : List LeafTarget :=
  r.ctl.topology.leaves.filter fun x => r.seen x.leafID

/-! ## The invariant -/

/-- The picker and the model after an update or a pick. -/
structure Coherent (r : Routing) : Prop where
  model : ∀ m, r.ctl.model = some m → m.Sound ∧ m.membership = ⟨r.ctl.topology, r.seen⟩
  serving : r.ctl.serving = true → ∃ m p, r.ctl.model = some m ∧
    r.ctl.active = some (r.ctl.version, p) ∧ Fresh p m
  idle : r.ctl.serving = false → r.ctl.active = none
  applying : ∀ v, r.applying = some v → r.ctl.serving = false ∧ v = r.ctl.version
  unsigned : ∀ v p, r.ctl.active = some (v, p) → p.Unsigned

theorem picker_unsigned (m : RoutingModel) : m.picker.2.Unsigned := by
  cases m with
  | roundRobin m =>
    show (0 : UInt64).toNat < 2 ^ 63
    decide
  | _ => trivial

variable {t : Topology} {r r' : Routing}
variable {m : RoutingModel}

/-- An update of one leaf's health, with what it asks for done. -/
theorem Coherent.finish (h : r.Coherent) (hm : r.ctl.model = some m) {leafID : Nat} {b : Bool}
    {u : RoutingModel × UpdateResult} (hu : Updates m leafID b u) (rev : Nat → Option Nat) :
    Coherent { r with
      ctl := { r.ctl with lastRevision := rev }.finish u
      seen := update r.seen leafID b } := by
  have hmem : u.1.membership = ⟨r.ctl.topology, update r.seen leafID b⟩ := by
    rw [hu.membership, (h.model m hm).2]
    rfl
  unfold RoutingController.finish
  dsimp only
  split_ifs with hp
  · have hb := hu.sound.picker
    refine ⟨?_, fun _ => ⟨_, _, rfl, rfl, hb.fresh⟩, ?_, h.applying, ?_⟩
    · rintro n ⟨⟩
      exact ⟨hb.sound, hb.membership.trans hmem⟩
    · intro hs
      exact absurd (hp.1.symm.trans hs) (by decide)
    · rintro v p ⟨⟩
      exact picker_unsigned _
  · refine ⟨?_, fun hs => ?_, h.idle, h.applying, h.unsigned⟩
    · rintro n ⟨⟩
      exact ⟨hu.sound, hmem⟩
    · obtain ⟨n, p, hn, ha, hf⟩ := h.serving hs
      obtain rfl : m = n := Option.some.inj (hm.symm.trans hn)
      exact ⟨u.1, p, rfl, ha, hu.fresh p hf fun hres => hp ⟨hs, hres⟩⟩

theorem Coherent.frame (h : r.Coherent) (s : LeafState) :
    Coherent { r with
      ctl := (r.ctl.onFrame s).1
      seen :=
        if (r.ctl.onFrame s).2 then update r.seen s.leafID (decide (s.healthyWorkers > 0))
        else r.seen } := by
  rcases r.ctl.onFrame_cases s with he | ⟨m, hm, -, -, he⟩
  · rw [he]
    exact h
  · rw [he]
    have hsound := (h.model m hm).1
    cases hfull : s.fullSnapshot with
    | true => exact h.finish hm (hsound.replaceLeaf s) _
    | false => exact h.finish hm (hsound.apply s) _

theorem Coherent.drop (h : r.Coherent) (leafID version : Nat) :
    Coherent { r with
      ctl := r.ctl.markUnhealthy leafID version
      seen := r.dropSeen leafID version } := by
  unfold RoutingController.markUnhealthy dropSeen
  cases hm : r.ctl.model with
  | none => exact h
  | some m =>
    dsimp only
    by_cases hv : version = r.ctl.version
    · rw [if_neg (not_not.mpr hv), if_pos ⟨rfl, hv⟩]
      exact h.finish hm ((h.model m hm).1.leafDisconnected leafID) r.ctl.lastRevision
    · rw [if_pos hv, if_neg fun h' => hv h'.2]
      exact h

/-- The picker has not yet been asked 2^63 - 1 times, if it is a round-robin one. -/
def mayPick (r : Routing) : Action → Prop
  | .pick _ _ => ∀ v p, r.ctl.active = some (v, .roundRobin p) → p.counter.toNat + 1 < 2 ^ 63
  | _ => True

theorem pick_unsigned {p : Picker} (now : UInt64) (req : RouteRequest)
    (h : ∀ q, p = .roundRobin q → q.counter.toNat + 1 < 2 ^ 63) :
    (p.pick now req m).1.Unsigned := by
  cases p with
  | roundRobin q =>
    have hq := h q rfl
    show q.pick.1.counter.toNat < 2 ^ 63
    unfold RoundRobinPicker.pick
    split_ifs
    · show q.counter.toNat < 2 ^ 63
      omega
    · show (q.counter + 1).toNat < 2 ^ 63
      rw [UInt64.toNat_add]
      show (q.counter.toNat + 1) % 2 ^ 64 < 2 ^ 63
      omega
  | _ => cases m <;> trivial

theorem Coherent.pick (h : r.Coherent) (now : UInt64) (req : RouteRequest)
    (hok : r.mayPick (.pick now req)) :
    Coherent { r with ctl := (r.ctl.pick now req).1 } := by
  unfold RoutingController.pick
  cases ha : r.ctl.active with
  | none => exact h
  | some x =>
    cases hm : r.ctl.model with
    | none => exact h
    | some m =>
      have hs : r.ctl.serving = true := by
        cases hs : r.ctl.serving with
        | true => rfl
        | false =>
          rw [h.idle hs] at ha
          cases ha
      obtain ⟨n, p, hn, hp, hf⟩ := h.serving hs
      obtain rfl : m = n := Option.some.inj (hm.symm.trans hn)
      obtain rfl : x = (r.ctl.version, p) := Option.some.inj (ha.symm.trans hp)
      obtain ⟨hsound, hmem, hfresh⟩ := hf.pick (h.model m hm).1 now req
      refine ⟨?_, fun _ => ⟨_, _, rfl, rfl, hfresh⟩, ?_, h.applying, ?_⟩
      · rintro k ⟨⟩
        exact ⟨hsound, hmem.trans (h.model m hm).2⟩
      · intro hs'
        exact absurd (hs.symm.trans hs') (by decide)
      · rintro v q ⟨⟩
        exact pick_unsigned now req fun q hq => hok _ q (by rw [hp, hq])

theorem Coherent.step (h : r.Coherent) {a : Action} (hok : r.mayPick a) (hs : r.step a = .ok r') :
    r'.Coherent := by
  cases a with
  | clear policy version now =>
    simp only [Routing.step] at hs
    split_ifs at hs
    cases hs
    obtain ⟨hsound, hmem⟩ := RoutingModel.newModel_sound r.ctl.topology now policy
    refine ⟨?_, nofun, fun _ => rfl, ?_, nofun⟩
    · rintro m ⟨⟩
      exact ⟨hsound, hmem⟩
    · rintro v ⟨⟩
      exact ⟨rfl, rfl⟩
  | install =>
    simp only [Routing.step] at hs
    split at hs
    · cases hs
    · cases hs
    · rename_i version m happ hm
      cases hs
      obtain ⟨hsound, hmem⟩ := h.model m hm
      have hb := hsound.picker
      refine ⟨?_, fun _ => ⟨_, _, rfl, ?_, hb.fresh⟩, nofun,
        nofun, ?_⟩
      · rintro n ⟨⟩
        exact ⟨hb.sound, hb.membership.trans hmem⟩
      · rw [(h.applying version happ).2]
        rfl
      · rintro v p ⟨⟩
        exact picker_unsigned m
  | abandon =>
    simp only [Routing.step] at hs
    split_ifs at hs
    cases hs
    exact ⟨h.model, h.serving, h.idle, nofun, h.unsigned⟩
  | frame s =>
    cases hs
    exact h.frame s
  | drop leafID version =>
    cases hs
    exact h.drop leafID version
  | pick now req =>
    cases hs
    exact h.pick now req hok
  | stop =>
    cases hs
    exact ⟨nofun, nofun, fun _ => rfl,
      fun v hv => ⟨rfl, (h.applying v hv).2⟩, nofun⟩

theorem coherent (h : (machine t).ReachesWhile mayPick r) : r.Coherent := by
  refine h.invariant ?_ fun s a u hi hok hs => hi.step hok hs
  rintro s rfl
  exact ⟨nofun, nofun, fun _ => rfl,
    nofun, nofun⟩

theorem onFrame_other {c : RoutingController} {s : LeafState} (h : s.configVersion ≠ c.version) :
    c.onFrame s = (c, false) := by
  unfold RoutingController.onFrame
  cases c.model with
  | none => rfl
  | some m => exact if_pos h

theorem markUnhealthy_other {c : RoutingController} {leafID version : Nat}
    (h : version ≠ c.version) : c.markUnhealthy leafID version = c := by
  unfold RoutingController.markUnhealthy
  cases c.model with
  | none => rfl
  | some m => exact if_pos h

theorem Coherent.healthyLeaves (h : r.Coherent) (hm : r.ctl.model = some m) :
    m.membership.healthyLeaves = r.routable := by
  rw [(h.model m hm).2]
  rfl

theorem Coherent.answer (h : r.Coherent) (hs : r.ctl.serving = true) :
    ∃ m p, r.ctl.model = some m ∧ r.ctl.active = some (r.ctl.version, p) ∧ ∀ now req,
      (r.ctl.pick now req).2 =
        ((m.picker.2.withCounter p.counter).pick now req m.picker.1).2.2 ∧
      Routes r.routable (r.ctl.pick now req).2 := by
  obtain ⟨m, p, hm, ha, hf⟩ := h.serving hs
  refine ⟨m, p, hm, ha, fun now req => ?_⟩
  have hpick : (r.ctl.pick now req).2 = (p.pick now req m).2.2 := by
    unfold RoutingController.pick
    rw [ha, hm]
  rw [hpick, ← h.healthyLeaves hm]
  exact ⟨hf.decision (h.model m hm).1 now req,
    hf.routes (h.model m hm).1 (h.unsigned _ p ha) now req⟩

theorem Coherent.unavailable (h : r.Coherent) {v : Nat} (hv : r.applying = some v) (now : UInt64)
    (req : RouteRequest) : (r.ctl.pick now req).2 = .error .routingUnavailable := by
  have ha := h.idle (h.applying v hv).1
  unfold RoutingController.pick
  rw [ha]

/-- **No stale picker.** -/
theorem picker_never_stale (h : (machine t).ReachesWhile mayPick r) :
    (r.ctl.serving = true → ∃ m p, r.ctl.model = some m ∧
      r.ctl.active = some (r.ctl.version, p) ∧ ∀ now req,
        (r.ctl.pick now req).2 =
          ((m.picker.2.withCounter p.counter).pick now req m.picker.1).2.2 ∧
        (∀ target, (r.ctl.pick now req).2 = .ok target →
          ∃ x ∈ r.ctl.topology.leaves, r.seen x.leafID = true ∧ target.leafID = x.leafID ∧
            target.httpAddress = x.httpAddress) ∧
        ((∃ e, (r.ctl.pick now req).2 = .error e) ↔
          ∀ x ∈ r.ctl.topology.leaves, r.seen x.leafID = false)) ∧
    (∀ s, s.configVersion ≠ r.ctl.version → r.step (.frame s) = .ok r) ∧
    (∀ leafID version, version ≠ r.ctl.version → r.step (.drop leafID version) = .ok r) ∧
    (∀ v, r.applying = some v → ∀ now req,
      (r.ctl.pick now req).2 = .error .routingUnavailable) := by
  have hc := coherent h
  refine ⟨fun hs => ?_, fun s hv => ?_, fun leafID version hv => ?_, fun v hv => hc.unavailable hv⟩
  · obtain ⟨m, p, hm, ha, hall⟩ := hc.answer hs
    refine ⟨m, p, hm, ha, fun now req => ?_⟩
    obtain ⟨hfresh, hroutes⟩ := hall now req
    refine ⟨hfresh, fun target htarget => ?_, ?_, fun hnone => ?_⟩
    · rw [htarget] at hroutes
      obtain ⟨x, hx, hid, haddr⟩ := hroutes
      obtain ⟨hx, hseen⟩ := List.mem_filter.mp hx
      exact ⟨x, hx, hseen, hid, haddr⟩
    · rintro ⟨e, he⟩ x hx
      rw [he] at hroutes
      simpa using List.filter_eq_nil_iff.mp hroutes.1 x hx
    · cases hp : (r.ctl.pick now req).2 with
      | error e => exact ⟨e, rfl⟩
      | ok target =>
        rw [hp] at hroutes
        obtain ⟨x, hx, -⟩ := hroutes
        obtain ⟨hx, hseen⟩ := List.mem_filter.mp hx
        exact absurd (hseen.symm.trans (hnone x hx)) (by decide)
  · simp only [Routing.step, onFrame_other hv]
    rfl
  · simp only [Routing.step, markUnhealthy_other hv, dropSeen]
    rw [if_neg fun h' => hv h'.2]

/-! ## Three leaves under round-robin -/

def leavesABC : Topology := ⟨[⟨10, "a", none⟩, ⟨20, "b", none⟩, ⟨30, "c", none⟩], by decide⟩

/-- A first frame of the configuration with version 1. -/
def healthyFrame (leafID : Nat) : LeafState where
  configVersion := 1
  leafID := leafID
  revision := 1
  fullSnapshot := true
  healthyWorkers := 1
  leafLoad := 0
  hasLeafLoad := false
  aggregateInFlight := 0
  hasAggregateInFlight := false
  capacities := []

/-- All three leaves are healthy and the picker has answered `n` requests. -/
def servingABC (n : Nat) : Routing where
  ctl :=
    { topology := leavesABC
      model := some (.roundRobin ⟨⟨leavesABC, update (update (update
        (fun _ => false) 10 true) 20 true) 30 true⟩⟩)
      version := 1
      serving := true
      lastRevision := update (update (update (fun _ => none) 10 (some 1))
        20 (some 1)) 30 (some 1)
      active := some (1, .roundRobin ⟨leavesABC.leaves, UInt64.ofNat n⟩) }
  applying := none
  seen := update (update (update (fun _ => false) 10 true) 20 true) 30 true

theorem servingABC_reached : (machine leavesABC).ReachesWhile mayPick (servingABC 0) := by
  refine .next (a := .install) (.next (a := .frame (healthyFrame 30))
    (.next (a := .frame (healthyFrame 20)) (.next (a := .frame (healthyFrame 10))
      (.next (a := .clear .roundRobin 1 0) (.start rfl) trivial rfl) trivial rfl) trivial rfl)
    trivial rfl) trivial rfl

theorem servingABC_step (n : Nat) :
    (servingABC n).step (.pick 0 ⟨0, 0⟩) = .ok (servingABC (n + 1)) := by
  have hc : UInt64.ofNat n + 1 = UInt64.ofNat (n + 1) := (UInt64.ofNat_add n 1).symm
  show Except.ok { servingABC n with
    ctl := { (servingABC n).ctl with
      active := some (1, .roundRobin ⟨leavesABC.leaves, UInt64.ofNat n + 1⟩) } } = _
  rw [hc]
  rfl

theorem servingABC_reachable (n : Nat) : (machine leavesABC).Reachable (servingABC n) := by
  induction n with
  | zero => exact servingABC_reached.reachable
  | succ n ih => exact Lib.Machine.Reachable.step (a := .pick 0 ⟨0, 0⟩) ih (servingABC_step n)

theorem picker_never_stale_abc : ∃ target, ((servingABC 0).ctl.pick 0 ⟨0, 0⟩).2 = .ok target ∧
    ∃ x ∈ leavesABC.leaves, (servingABC 0).seen x.leafID = true ∧ target.leafID = x.leafID := by
  obtain ⟨m, p, -, -, hall⟩ := (picker_never_stale servingABC_reached).1 rfl
  obtain ⟨-, hok, -⟩ := hall 0 ⟨0, 0⟩
  obtain ⟨x, hx, hseen, hid, -⟩ := hok ⟨10, "a", some .roundRobin⟩ rfl
  exact ⟨_, rfl, x, hx, hseen, hid⟩

/-- After 2^63 requests the counter is a negative `int`, and so is the index. -/
theorem servingABC_crash (n : Nat) (hn : n = 2 ^ 63) :
    ((servingABC n).ctl.pick 0 ⟨0, 0⟩).2 = .error .indexOutOfRange := by
  have hc : (UInt64.ofNat n + 1 - 1).toInt64.toInt = -(2 ^ 63) := by
    subst hn
    decide
  show leafAt leavesABC.leaves ((UInt64.ofNat n + 1 - 1).toInt64.toInt.tmod 3) .roundRobin = _
  rw [hc]
  decide

theorem round_robin_crashes : ∃ r : Routing, (machine leavesABC).Reachable r ∧
    r.ctl.serving = true ∧ (∀ x ∈ leavesABC.leaves, r.seen x.leafID = true) ∧
    (r.ctl.pick 0 ⟨0, 0⟩).2 = .error .indexOutOfRange :=
  ⟨servingABC (2 ^ 63), servingABC_reachable _, rfl, by decide, servingABC_crash _ rfl⟩

end Routing

end HyperFaaS.Ingress
