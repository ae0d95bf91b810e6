import Mathlib.Data.Rat.Floor

/-!
The scaling policy of a leaf (`DefaultPolicy` of `pkg/leaf/autoscaling/policy.go`). Each call of
`DesiredScale` reads the signals of one function and may record a demand sample in that
function's state; a ring of the last samples gives two averages, and a latch holds the scale up
for a while after a burst.

The floats of the source are rationals, and its conversions between floats and integers are
exact. A time is the number of nanoseconds since the zero `time.Time`, which is `0`; a duration
is a number of nanoseconds.
-/

namespace HyperFaaS.Autoscaling.Policy

abbrev Time := Int

abbrev Duration := Int

def second : Duration := 1000000000

def defaultScalingPeriod : Duration := 2 * second
def defaultStableWindow : Duration := 6 * second
def defaultPanicWindow : Duration := 2 * second
def defaultPanicThresholdRatio : ℚ := 2
def defaultMaxScaleUpRate : ℚ := 1000
def defaultMaxScaleDownRate : ℚ := 2

/-- The fields that the policy reads. -/
structure ScalePolicySpec where
  minInstances : Nat
  maxInstances : Nat
  maxConcurrency : Nat
  targetConcurrency : Nat
  scaleToZeroIdleTimeout : Option Duration
  deriving DecidableEq, Repr

/-- The getters of a nil spec return what those of `⟨0, none⟩` return. -/
structure FunctionSpec where
  functionId : Nat
  scale : Option ScalePolicySpec
  deriving DecidableEq, Repr

/-- The signals that the policy reads. -/
structure Signals where
  readyInstances : Nat
  pendingStarts : Nat
  logicalScale : Nat
  hasLogicalScale : Bool
  inFlight : Nat
  highWater : Nat
  lastActivity : Time
  deriving DecidableEq, Repr

structure ScaleDecision where
  functionId : Nat
  desiredInstances : Nat
  reason : String
  stable : Bool
  deriving DecidableEq, Repr

structure DirigentState where
  buckets : List ℚ
  windowHead : Nat
  lastSample : Time
  inPanic : Bool
  panicStarted : Time
  maxPanicInstances : Nat
  deriving DecidableEq, Repr

structure DefaultPolicy where
  scaleToZeroAfter : Duration
  unlimitedConcurrencyTarget : Nat
  targetUtilization : ℚ
  coldStartPanicScaling : Bool
  dirigentAdmission : Bool
  stableWindow : Duration
  panicWindow : Duration
  panicThresholdRatio : ℚ
  maxScaleUpRate : ℚ
  maxScaleDownRate : ℚ
  deriving DecidableEq, Repr

/-! ## Samples -/

/-- How many samples a window holds. -/
def samples (window : Duration) : Nat := max 1 (window / defaultScalingPeriod).toNat

namespace DirigentState

/-- `&dirigentState{}` -/
def zero : DirigentState := ⟨[], 0, 0, false, 0, 0⟩

/-- The first test of `record`. -/
def due (s : DirigentState) (now : Time) : Bool :=
  s.lastSample == 0 || decide (now - s.lastSample ≥ defaultScalingPeriod) || s.buckets.length == 0

def record (s : DirigentState) (value : ℚ) (now : Time) (stableWindow : Duration) :
    DirigentState :=
  if s.due now then
    if s.buckets.length < samples stableWindow then
      { s with
        buckets := s.buckets ++ [value]
        windowHead := s.buckets.length
        lastSample := now }
    else
      let head := (s.windowHead + 1) % samples stableWindow
      { s with buckets := s.buckets.set head value, windowHead := head, lastSample := now }
  else { s with buckets := s.buckets.set s.windowHead value }

/-- The place before `idx` in a ring of `n`. -/
def back (n idx : Nat) : Nat := if idx = 0 then n - 1 else idx - 1

/-- The loop of `average`: `count` samples, from `idx` backwards. -/
def sumBack (buckets : List ℚ) : Nat → Nat → ℚ
  | 0, _ => 0
  | count + 1, idx => buckets.getD idx 0 + sumBack buckets count (back buckets.length idx)

def average (s : DirigentState) (window : Duration) : ℚ :=
  if s.buckets.length = 0 then 0
  else
    let count := min (samples window) s.buckets.length
    sumBack s.buckets count s.windowHead / count

end DirigentState

/-! ## Targets and bounds -/

def minScaleTarget : ℚ := 1 / 100

def normalizeUtilization (v : ℚ) : ℚ :=
  if v ≤ 0 then 1
  else
    let v := if v > 1 then v / 100 else v
    if v ≤ 0 ∨ v > 1 then 1 else v

def resolveScaleTarget (function : FunctionSpec) (defaultTotal : Nat) (utilization : ℚ) : ℚ :=
  let maxCC := match function.scale with
    | none => 1
    | some scale => scale.maxConcurrency
  let annotated := match function.scale with
    | none => 0
    | some scale => scale.targetConcurrency
  let total : ℚ :=
    if maxCC = 0 then
      if annotated > 0 then annotated else if defaultTotal > 0 then defaultTotal else 1
    else if annotated > 0 then min (annotated : ℚ) maxCC
    else maxCC
  max minScaleTarget (total * normalizeUtilization utilization)

def ceilDivFloat (value divisor : ℚ) : Nat :=
  if value ≤ 0 ∨ divisor ≤ 0 then 0 else ⌈value / divisor⌉₊

def clampBetween (value min max : Nat) : Nat :=
  let value := if value < min then min else value
  if max > 0 ∧ value > max then max else value

def clampDesired (function : FunctionSpec) (desired : Nat) : Nat :=
  match function.scale with
  | none => desired
  | some scale =>
      let desired := if desired < scale.minInstances then scale.minInstances else desired
      if scale.maxInstances > 0 ∧ desired > scale.maxInstances then scale.maxInstances else desired

namespace DefaultPolicy

/-- The methods that replace a setting that is not positive by its default. -/
def stableWindowOf (p : DefaultPolicy) : Duration :=
  if p.stableWindow > 0 then p.stableWindow else defaultStableWindow

def panicWindowOf (p : DefaultPolicy) : Duration :=
  if p.panicWindow > 0 then p.panicWindow else defaultPanicWindow

def panicThresholdRatioOf (p : DefaultPolicy) : ℚ :=
  if p.panicThresholdRatio > 0 then p.panicThresholdRatio else defaultPanicThresholdRatio

def maxScaleUpRateOf (p : DefaultPolicy) : ℚ :=
  if p.maxScaleUpRate > 0 then p.maxScaleUpRate else defaultMaxScaleUpRate

def maxScaleDownRateOf (p : DefaultPolicy) : ℚ :=
  if p.maxScaleDownRate > 0 then p.maxScaleDownRate else defaultMaxScaleDownRate

def target (p : DefaultPolicy) (function : FunctionSpec) : ℚ :=
  resolveScaleTarget function p.unlimitedConcurrencyTarget p.targetUtilization

def ready (current : Nat) : Nat := if current = 0 then 1 else current

def maxScaleUp (p : DefaultPolicy) (current : Nat) : Nat :=
  ⌈p.maxScaleUpRateOf * ready current⌉₊

def maxScaleDown (p : DefaultPolicy) (current : Nat) : Nat :=
  ⌊ready current / p.maxScaleDownRateOf⌋₊

/-! ## `dirigentDesired` -/

/-- What a window of the samples asks for. -/
def desiredOver (p : DefaultPolicy) (function : FunctionSpec) (s : DirigentState) (current : Nat)
    (window : Duration) : Nat :=
  clampBetween (ceilDivFloat (s.average window) (p.target function)) (p.maxScaleDown current)
    (p.maxScaleUp current)

def desiredStable (p : DefaultPolicy) (function : FunctionSpec) (s : DirigentState)
    (current : Nat) : Nat :=
  p.desiredOver function s current p.stableWindowOf

def desiredPanic (p : DefaultPolicy) (function : FunctionSpec) (s : DirigentState)
    (current : Nat) : Nat :=
  p.desiredOver function s current p.panicWindowOf

def desiredInstant (p : DefaultPolicy) (function : FunctionSpec) (current inFlight : Nat) : Nat :=
  clampBetween (ceilDivFloat inFlight (p.target function)) 0 (p.maxScaleUp current)

/-- `float64(desiredPanic)/float64(ready) >= p.panicThresholdRatio()` -/
def high (p : DefaultPolicy) (current panic : Nat) : Bool :=
  decide ((panic : ℚ) / ready current ≥ p.panicThresholdRatioOf)

/-- The latch: a high panic term enters or prolongs panic mode, which ends a stable window after
the last one. -/
def latch (p : DefaultPolicy) (s : DirigentState) (current panic : Nat) (now : Time) :
    DirigentState :=
  if p.high current panic then
    { s with
      inPanic := true
      panicStarted := now
      maxPanicInstances := if panic > s.maxPanicInstances then panic else s.maxPanicInstances }
  else if s.inPanic ∧ s.panicStarted + p.stableWindowOf < now then
    { s with inPanic := false, panicStarted := 0, maxPanicInstances := 0 }
  else s

/-- The end of `dirigentDesired`, after the latch. -/
def combine (s : DirigentState) (stable panic instant : Nat) : Nat :=
  let desired := stable
  let desired :=
    if s.inPanic then
      let desired := if desired < panic then panic else desired
      if desired < s.maxPanicInstances then s.maxPanicInstances else desired
    else desired
  if desired < instant then instant else desired

/-- The state is that of the function. -/
def dirigentDesired (p : DefaultPolicy) (function : FunctionSpec) (s : DirigentState)
    (current inFlight : Nat) (now : Time) : DirigentState × Nat :=
  let s := s.record inFlight now p.stableWindowOf
  let panic := p.desiredPanic function s current
  let s' := p.latch s current panic now
  (s', combine s' (p.desiredStable function s current) panic
    (p.desiredInstant function current inFlight))

/-! ## `DesiredScale` -/

def current (p : DefaultPolicy) (signals : Signals) : Nat :=
  if p.dirigentAdmission && signals.hasLogicalScale then signals.logicalScale
  else if p.dirigentAdmission then signals.readyInstances + signals.pendingStarts
  else signals.readyInstances

def observedDemand (signals : Signals) : Nat :=
  if signals.highWater > signals.inFlight then signals.highWater else signals.inFlight

def maxCC (function : FunctionSpec) : Nat :=
  match function.scale with
  | none => 1
  | some scale => scale.maxConcurrency

/-- The idle timeout of the function if it has a positive one, else that of the policy. -/
def idleTimeout (p : DefaultPolicy) (function : FunctionSpec) : Duration :=
  match function.scale.bind ScalePolicySpec.scaleToZeroIdleTimeout with
  | some d => if d > 0 then d else p.scaleToZeroAfter
  | none => p.scaleToZeroAfter

/-- The ways through the switch of `DesiredScale`. -/
inductive Branch
  | fromZero
  | optimistic
  | coldStart
  | inFlight
  | zero
  | toZero
  | idle
  deriving DecidableEq, Repr

def branch (p : DefaultPolicy) (function : FunctionSpec) (signals : Signals) (now : Time) :
    Branch :=
  if observedDemand signals > 0 then
    if p.dirigentAdmission && p.current signals == 0 then .fromZero
    else if p.dirigentAdmission then .optimistic
    else if p.coldStartPanicScaling && maxCC function == 1 then .coldStart
    else .inFlight
  else if p.current signals = 0 then .zero
  else if signals.lastActivity ≠ 0 ∧ now - signals.lastActivity ≥ p.idleTimeout function then
    .toZero
  else .idle

def Branch.reason : Branch → String
  | .fromZero => "dirigent-scale-from-zero"
  | .optimistic => "dirigent-optimistic"
  | .coldStart => "cold-start-panic"
  | .inFlight => "dirigent-in-flight"
  | .zero => "zero"
  | .toZero => "scale-to-zero"
  | .idle => "dirigent-idle"

/-- The branches that call `dirigentDesired`. -/
def Branch.evaluates : Branch → Bool
  | .optimistic | .inFlight | .idle => true
  | _ => false

/-- The state after the switch, and the desired number before the clamp. -/
def switch (p : DefaultPolicy) (function : FunctionSpec) (s : DirigentState) (signals : Signals)
    (now : Time) : DirigentState × Nat :=
  let current := p.current signals
  let demand := observedDemand signals
  match p.branch function signals now with
  | .fromZero => (s, 1)
  | .optimistic | .inFlight => p.dirigentDesired function s current demand now
  | .coldStart => (s, if demand < current then current else demand)
  | .zero | .toZero => (s, 0)
  | .idle =>
      let r := p.dirigentDesired function s current 0 now
      (r.1, if r.2 = 0 ∧ current > 0 then 1 else r.2)

def desiredScale (p : DefaultPolicy) (function : FunctionSpec) (s : DirigentState)
    (signals : Signals) (now : Time) : DirigentState × ScaleDecision :=
  let r := p.switch function s signals now
  let branch := p.branch function signals now
  (r.1, ⟨function.functionId, clampDesired function r.2, branch.reason, branch == .zero⟩)

/-! ## Histories -/

/-- One call of `DesiredScale`. -/
structure Call where
  function : FunctionSpec
  signals : Signals
  now : Time
  deriving DecidableEq, Repr

/-- A call reads and writes the state of its function. -/
def call (p : DefaultPolicy) (states : Nat → DirigentState) (c : Call) : Nat → DirigentState :=
  Function.update states c.function.functionId
    (p.desiredScale c.function (states c.function.functionId) c.signals c.now).1

/-- The states after a history; an id without an entry in the map has the zero state. -/
def run (p : DefaultPolicy) (calls : List Call) : Nat → DirigentState :=
  calls.foldl p.call fun _ => .zero

end DefaultPolicy

end HyperFaaS.Autoscaling.Policy
