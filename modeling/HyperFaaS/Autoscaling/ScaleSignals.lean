import HyperFaaS.Autoscaling.Policy
import HyperFaaS.Dataplane.PoolWatch

/-!
The signals that a function controller takes from its pool for one decision
(`scaleSignals` of `pkg/leaf/runtime/function.go`), and what the policy makes of an idle pool. The
controller reads the pool several times; here all reads are of one moment. The clock of the pool
counts nanoseconds since 1970, a time of the policy those since the zero `time.Time`.
-/

namespace HyperFaaS.Autoscaling

open Dataplane Policy DefaultPolicy

/-- The zero `time.Time` is the first of January of the year 1. -/
def unixEpoch : Time := 62135596800 * second

/-- `time.Now()` when the clock shows `clock`. -/
def timeNow (clock : Nat) : Time := unixEpoch + clock

def timeFromUnixNano (value : Nat) : Time := if value = 0 then 0 else unixEpoch + value

/-- The numbers that do not come from the pool are arguments. -/
def scaleSignals (p : SandboxPool) (pendingStarts logicalScale : Nat) (hasLogicalScale : Bool) :
    SandboxPool × Signals :=
  let admission := p.snapshot
  let (p, highWater) := p.takeHighWater
  (p, { readyInstances := admission.readyInstances.toNat
        pendingStarts := pendingStarts
        logicalScale := logicalScale
        hasLogicalScale := hasLogicalScale
        inFlight := (admission.executing + admission.queued).toNat
        highWater := highWater.toNat
        lastActivity := timeFromUnixNano admission.lastActivity })

/-- The decision for a pool at the time `clock`. -/
def decision (policy : DefaultPolicy) (function : Policy.FunctionSpec) (s : DirigentState)
    (p : SandboxPool) (pendingStarts logicalScale : Nat) (hasLogicalScale : Bool) (clock : Nat) :
    ScaleDecision :=
  (policy.desiredScale function s (scaleSignals p pendingStarts logicalScale hasLogicalScale).2
    (timeNow clock)).2

variable {policy : DefaultPolicy} {function : Policy.FunctionSpec} {s : DirigentState}
  {signals : Signals} {now : Time} {p : SandboxPool} {pendingStarts logicalScale : Nat}
  {hasLogicalScale : Bool}

/-- Only the branch for a long idle time names that reason, and nothing raises its zero. -/
theorem desiredScale_toZero (hmin : ∀ scale, function.scale = some scale → scale.minInstances = 0) :
    ((policy.desiredScale function s signals now).2.desiredInstances = 0 ∧
      (policy.desiredScale function s signals now).2.reason = "scale-to-zero") ↔
      policy.branch function signals now = .toZero := by
  constructor
  · rintro ⟨-, hreason⟩
    have hreason : (policy.branch function signals now).reason = "scale-to-zero" := hreason
    cases hb : policy.branch function signals now <;> rw [hb] at hreason <;>
      first | rfl | exact absurd hreason (by decide)
  · intro hb
    refine ⟨?_, by simp [desiredScale, hb, DefaultPolicy.Branch.reason]⟩
    simp only [desiredScale, switch, hb]
    unfold clampDesired
    split
    · rfl
    · rename_i scale hscale
      simp [hmin scale hscale]

/-- Without demand and with a ready instance the switch looks at the idle time. -/
theorem branch_idle (hadm : policy.dirigentAdmission = false)
    (hdemand : observedDemand signals = 0) (hready : signals.readyInstances ≠ 0) :
    policy.branch function signals now = .toZero ↔
      signals.lastActivity ≠ 0 ∧ policy.idleTimeout function ≤ now - signals.lastActivity := by
  have hcurrent : policy.current signals = signals.readyInstances := by
    simp [current, hadm]
  unfold branch
  rw [hdemand, hcurrent, if_neg (by simp), if_neg hready]
  split
  · rename_i h
    exact ⟨fun _ => h, fun _ => rfl⟩
  · rename_i h
    exact ⟨nofun, fun hi => absurd hi h⟩

theorem observedDemand_idle (pendingStarts logicalScale : Nat) (hasLogicalScale : Bool) (hexec : p.executing = 0) (hq : p.pending = [])
    (hmark : p.highWater ≤ 0) : observedDemand
      (scaleSignals p pendingStarts logicalScale hasLogicalScale).2 = 0 := by
  have hnot : ¬ p.highWater > 0 := by omega
  simp [observedDemand, scaleSignals, SandboxPool.takeHighWater,
    SandboxPool.snapshot, hexec, hq, hnot]

/-- A time of the pool and the idle time that the policy sees. -/
theorem timeFromUnixNano_age (clock : Nat) {t : Nat} (ht : 0 < t) :
    timeFromUnixNano t ≠ 0 ∧ timeNow clock - timeFromUnixNano t = (clock : Int) - t := by
  have hne : t ≠ 0 := by omega
  simp only [timeFromUnixNano, if_neg hne, timeNow, unixEpoch, second]
  constructor
  · have hpos : (0 : Int) < t := by exact_mod_cast ht
    intro hzero
    have hsum : (62135596800 * 1000000000 : Int) + t = 0 := hzero
    omega
  · ring

/-- **Scale to zero.** An idle pool without demand since the last decision is scaled to zero
exactly when the idle timeout has passed since it was last busy. -/
theorem scale_to_zero_exact (hmin : ∀ scale, function.scale = some scale → scale.minInstances = 0)
    (hadm : policy.dirigentAdmission = false) {x : World × World.Record}
    (hx : World.watched.ReachesWhile (fun x a => ¬ x.1.abandons a) x) (hidle : x.1.Idle)
    (hpeak : x.2.peak = 0) (hready : 0 < x.1.pool.snapshot.readyInstances) :
    ((decision policy function s x.1.pool pendingStarts logicalScale hasLogicalScale
          x.1.clock).desiredInstances = 0 ∧
        (decision policy function s x.1.pool pendingStarts logicalScale hasLogicalScale
          x.1.clock).reason = "scale-to-zero") ↔
      ∃ t, x.2.lastBusy = some t ∧ policy.idleTimeout function ≤ (x.1.clock : Int) - t := by
  have h := World.rested_of_reached hx
  have hdemand := observedDemand_idle pendingStarts logicalScale hasLogicalScale hidle.1 hidle.2
    (h.mark (by omega))
  have hcurrent : x.1.pool.snapshot.readyInstances.toNat ≠ 0 := by omega
  unfold decision
  rw [desiredScale_toZero hmin, branch_idle hadm hdemand hcurrent]
  show timeFromUnixNano x.1.pool.lastActivity ≠ 0 ∧
    policy.idleTimeout function ≤ timeNow x.1.clock - timeFromUnixNano x.1.pool.lastActivity ↔ _
  rcases h.idle hidle with ⟨hnone, hzero⟩ | ⟨hsome, hpos⟩
  · rw [hzero, hnone]
    simp [timeFromUnixNano]
  · obtain ⟨hne, hage⟩ := timeFromUnixNano_age x.1.clock hpos
    rw [hage, hsome]
    simp [hne]

/-- A policy with an idle timeout of 10 ns, and a function without bounds. -/
def shortIdle : DefaultPolicy := ⟨10, 0, 0, false, false, 0, 0, 0, 0, 0⟩

def unbounded : Policy.FunctionSpec := ⟨1, some ⟨0, 0, 1, 0, none⟩⟩

/-- A call that ended at 7 and a decision at 17. -/
theorem scale_to_zero_exact_after_ten : ∃ x : World × World.Record, x.1.clock = 17 ∧
    x.2.lastBusy = some 7 ∧
    (decision shortIdle unbounded .zero x.1.pool 0 0 false x.1.clock).desiredInstances = 0 ∧
    (decision shortIdle unbounded .zero x.1.pool 0 0 false x.1.clock).reason = "scale-to-zero" := by
  obtain ⟨x, hx, hidle, hpeak, hready, hclock, hbusy⟩ := World.watched.exists_while_of_run
    (P := fun x a => ¬ x.1.abandons a)
    (Q := fun x => x.1.Idle ∧ x.2.peak = 0 ∧ 0 < x.1.pool.snapshot.readyInstances ∧
      x.1.clock = 17 ∧ x.2.lastBusy = some 7) (World.init 1 2 5, ⟨0, fun _ => 0, none⟩)
    [.add ⟨7, 1, "a:1", "http"⟩, .acquire, .check 0, .enter 0, .tick 2, .releaseLease 0,
      .finishRelease 0, .takeHighWater, .tick 10] ⟨⟨1, 2, 5, rfl⟩, by decide, rfl⟩ (by decide)
  refine ⟨x, hclock, hbusy, (scale_to_zero_exact ?_ rfl hx hidle hpeak hready).mpr ⟨7, hbusy, ?_⟩⟩
  · rintro scale ⟨⟩
    rfl
  · rw [hclock]
    decide

/-- A call ends at 5. At 13 the only sandbox drains, a second call is queued, and it gives up at
14; the drain fails. At 15 the pool has been idle for 1 ns and is scaled to zero. -/
theorem scale_to_zero_too_soon : ∃ x : World × World.Record, World.watched.Reachable x ∧
    x.1.Idle ∧ x.2.peak = 0 ∧ 0 < x.1.pool.snapshot.readyInstances ∧ x.1.clock = 15 ∧
    x.2.lastBusy = some 14 ∧
    (decision shortIdle unbounded .zero x.1.pool 0 0 false x.1.clock).desiredInstances = 0 ∧
    (decision shortIdle unbounded .zero x.1.pool 0 0 false x.1.clock).reason = "scale-to-zero" := by
  obtain ⟨x, hx, hidle, hpeak, hready, hclock, hbusy, hact, hmark⟩ := World.watched.exists_of_run
    (Q := fun x => x.1.Idle ∧ x.2.peak = 0 ∧ 0 < x.1.pool.snapshot.readyInstances ∧
      x.1.clock = 15 ∧ x.2.lastBusy = some 14 ∧ x.1.pool.lastActivity = 5 ∧
      x.1.pool.highWater = 0) (World.init 1 2 5, ⟨0, fun _ => 0, none⟩)
    [.add ⟨7, 1, "a:1", "http"⟩, .acquire, .check 0, .enter 0, .releaseLease 0, .finishRelease 0,
      .tick 8, .drain 7, .drainLock 0, .acquire, .check 1, .enter 1, .tick 1, .cancel 1 .canceled,
      .giveUp 1, .withdraw 1, .drainReady 0, .drainFinish 0 false, .takeHighWater, .tick 1]
    ⟨⟨1, 2, 5, rfl⟩, by decide, rfl⟩ (by decide)
  refine ⟨x, hx, hidle, hpeak, hready, hclock, hbusy, ?_⟩
  have hcurrent : x.1.pool.snapshot.readyInstances.toNat ≠ 0 := by omega
  have hmin : ∀ scale, unbounded.scale = some scale → scale.minInstances = 0 := by
    rintro scale ⟨⟩
    rfl
  refine (desiredScale_toZero hmin).mpr ((branch_idle rfl
    (observedDemand_idle 0 0 false hidle.1 hidle.2 (by omega)) hcurrent).mpr ?_)
  show timeFromUnixNano x.1.pool.lastActivity ≠ 0 ∧
    (10 : Int) ≤ timeNow x.1.clock - timeFromUnixNano x.1.pool.lastActivity
  rw [hact, hclock]
  decide

end HyperFaaS.Autoscaling
