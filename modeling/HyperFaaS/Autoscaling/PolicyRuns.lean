import HyperFaaS.Autoscaling.Policy
import Mathlib.Tactic.Linarith
import Mathlib.Tactic.Positivity

/-!
What the histories of `DesiredScale` calls keep.

* `rate_envelope`: every value of `dirigentDesired` covers the demand of the call as far as the
  rate allows, goes no lower than the rate allows, and no higher than the rate allowed at some
  call of the panic episode.
* `panic_hold`: in panic mode no call asks for less than the call before, if the retained maximum
  covers what the call before asked for. Without that condition it can (`panic_hold_fails`).
* `high_water_floor`: `HighWater` changes nothing but the decision at hand, as long as it never
  exceeds `InFlight` at a call that records a sample. Else it is recorded (`high_water_recorded`).
-/

namespace HyperFaaS.Autoscaling.Policy

/-! ## Bounds of one call -/

theorem clampBetween_eq {value lo hi : Nat} (h : 0 < hi) :
    clampBetween value lo hi = min (max value lo) hi := by
  unfold clampBetween
  grind

theorem resolveScaleTarget_pos (function : FunctionSpec) (total : Nat) (utilization : ℚ) :
    0 < resolveScaleTarget function total utilization :=
  lt_of_lt_of_le (by norm_num [minScaleTarget]) (le_max_left _ _)

theorem ceilDivFloat_eq {value divisor : ℚ} (hv : 0 ≤ value) (hd : 0 < divisor) :
    ceilDivFloat value divisor = ⌈value / divisor⌉₊ := by
  unfold ceilDivFloat
  split
  · rename_i h
    have hz : value = 0 := by
      rcases h with h | h
      · exact le_antisymm h hv
      · exact absurd h (not_le.mpr hd)
    simp [hz]
  · rfl

theorem record_panic (s : DirigentState) (value : ℚ) (now : Time) (window : Duration) :
    (s.record value now window).inPanic = s.inPanic ∧
      (s.record value now window).panicStarted = s.panicStarted ∧
      (s.record value now window).maxPanicInstances = s.maxPanicInstances := by
  unfold DirigentState.record
  split
  · split
    · exact ⟨rfl, rfl, rfl⟩
    · exact ⟨rfl, rfl, rfl⟩
  · exact ⟨rfl, rfl, rfl⟩

namespace DefaultPolicy

variable {p : DefaultPolicy} {function : FunctionSpec} {s : DirigentState} {current demand : Nat}
  {now : Time}

theorem maxScaleUpRateOf_pos (p : DefaultPolicy) : 0 < p.maxScaleUpRateOf := by
  unfold maxScaleUpRateOf
  split
  · assumption
  · norm_num [defaultMaxScaleUpRate]

theorem ready_pos (current : Nat) : 0 < ready current := by
  unfold ready
  split <;> omega

theorem maxScaleUp_pos (p : DefaultPolicy) (current : Nat) : 0 < p.maxScaleUp current := by
  have hr : (0 : ℚ) < ready current := by exact_mod_cast ready_pos current
  exact Nat.ceil_pos.mpr (mul_pos p.maxScaleUpRateOf_pos hr)

theorem desiredOver_eq (window : Duration) :
    p.desiredOver function s current window =
      min (max (ceilDivFloat (s.average window) (p.target function)) (p.maxScaleDown current))
        (p.maxScaleUp current) :=
  clampBetween_eq (p.maxScaleUp_pos current)

theorem desiredInstant_eq :
    p.desiredInstant function current demand =
      min ⌈(demand : ℚ) / p.target function⌉₊ (p.maxScaleUp current) := by
  have ht : 0 < p.target function := resolveScaleTarget_pos _ _ _
  unfold desiredInstant
  rw [clampBetween_eq (p.maxScaleUp_pos current), ceilDivFloat_eq (by positivity) ht]
  simp

/-- The three terms and the retained maximum, as far as panic mode counts them. -/
theorem combine_eq (s : DirigentState) (stable panic instant : Nat) :
    combine s stable panic instant = max (max stable instant)
      (if s.inPanic then max panic s.maxPanicInstances else 0) := by
  unfold combine
  grind

variable {panic bound : Nat} {c : Call}

/-- Outside of panic mode nothing is retained. -/
def Cleared (s : DirigentState) : Prop := s.inPanic = false → s.maxPanicInstances = 0

theorem latch_cleared (h : Cleared s) : Cleared (p.latch s current panic now) := by
  unfold Cleared latch at *
  grind

/-- What the latch retains was retained before or is the panic term of this call. -/
theorem latch_le (hc : Cleared s) (hpanic : panic ≤ bound)
    (h : s.inPanic = true → s.maxPanicInstances ≤ bound) :
    (p.latch s current panic now).maxPanicInstances ≤ bound := by
  unfold Cleared at hc
  unfold latch
  grind

theorem dirigentDesired_lower (p : DefaultPolicy) (function : FunctionSpec) (s : DirigentState)
    (current demand : Nat) (now : Time) :
    min ⌈(demand : ℚ) / p.target function⌉₊ (p.maxScaleUp current) ≤
        (p.dirigentDesired function s current demand now).2 ∧
      min (p.maxScaleDown current) (p.maxScaleUp current) ≤
        (p.dirigentDesired function s current demand now).2 := by
  simp only [dirigentDesired, combine_eq, desiredInstant_eq, desiredStable, desiredOver_eq]
  constructor
  · exact le_trans (le_max_right _ _) (le_max_left _ _)
  · refine le_trans ?_ (le_trans (le_max_left _ _) (le_max_left _ _))
    exact min_le_min_right _ (le_max_right _ _)

theorem dirigentDesired_upper (p : DefaultPolicy) (function : FunctionSpec) (demand : Nat)
    (now : Time) (hc : Cleared s) (hup : p.maxScaleUp current ≤ bound)
    (h : s.inPanic = true → (p.dirigentDesired function s current demand now).1.inPanic = true →
      s.maxPanicInstances ≤ bound) :
    (p.dirigentDesired function s current demand now).2 ≤ bound := by
  have hover : ∀ t window, p.desiredOver function t current window ≤ bound := by
    intro t window
    rw [desiredOver_eq]
    exact le_trans (min_le_right _ _) hup
  have hinstant : p.desiredInstant function current demand ≤ bound := by
    rw [desiredInstant_eq]
    exact le_trans (min_le_right _ _) hup
  have hrec := record_panic s demand now p.stableWindowOf
  simp only [dirigentDesired, combine_eq, desiredStable, desiredPanic] at h ⊢
  refine max_le (max_le (hover _ _) hinstant) ?_
  split
  · rename_i hin
    refine max_le (hover _ _) (latch_le ?_ (hover _ _) fun hs => ?_)
    · unfold Cleared at hc ⊢
      rw [hrec.1, hrec.2.2]
      exact hc
    · rw [hrec.2.2]
      exact h (hrec.1 ▸ hs) hin
  · exact Nat.zero_le _

/-- A call that evaluates `dirigentDesired` does so with the observed demand; an idle function
is kept at one instance. -/
theorem switch_evaluates {signals : Signals}
    (h : (p.branch function signals now).evaluates = true) :
    let r := p.dirigentDesired function s (p.current signals) (observedDemand signals) now
    (p.switch function s signals now).1 = r.1 ∧
      ((p.switch function s signals now).2 = r.2 ∨
        (p.switch function s signals now).2 = 1 ∧ r.2 = 0) := by
  intro r
  unfold switch
  cases hb : p.branch function signals now with
  | optimistic | inFlight => exact ⟨rfl, .inl rfl⟩
  | idle =>
    have hd : observedDemand signals = 0 := by
      unfold branch at hb
      grind
    simp only [r, hd]
    refine ⟨trivial, ?_⟩
    split
    · rename_i hz
      exact .inr ⟨rfl, hz.1⟩
    · exact .inl rfl
  | fromZero | coldStart | zero | toZero =>
    rw [hb] at h
    cases h

/-- The state of function `f` after a call, and the largest upper rate bound since its panic
episode began. -/
def observe (p : DefaultPolicy) (f : Nat) (t : DirigentState × Nat) (c : Call) :
    DirigentState × Nat :=
  if c.function.functionId = f ∧ (p.branch c.function c.signals c.now).evaluates = true then
    let s := (p.desiredScale c.function t.1 c.signals c.now).1
    let up := p.maxScaleUp (p.current c.signals)
    (s, if s.inPanic && t.1.inPanic then max t.2 up else up)
  else t

def episode (p : DefaultPolicy) (f : Nat) (calls : List Call) : DirigentState × Nat :=
  calls.foldl (p.observe f) (.zero, 0)

theorem switch_keeps {signals : Signals}
    (h : (p.branch function signals now).evaluates = false) :
    (p.switch function s signals now).1 = s := by
  unfold switch
  cases hb : p.branch function signals now with
  | optimistic | inFlight | idle =>
    rw [hb] at h
    cases h
  | fromZero | coldStart | zero | toZero => rfl

theorem run_snoc (p : DefaultPolicy) (calls : List Call) (c : Call) :
    p.run (calls ++ [c]) = p.call (p.run calls) c := by
  simp [run]

theorem episode_snoc (p : DefaultPolicy) (f : Nat) (calls : List Call) (c : Call) :
    p.episode f (calls ++ [c]) = p.observe f (p.episode f calls) c := by
  simp [episode]

/-- Calls of other functions, and calls that record nothing, are not observed. -/
theorem episode_run (p : DefaultPolicy) (f : Nat) (calls : List Call) :
    (p.episode f calls).1 = p.run calls f := by
  induction calls using List.reverseRecOn with
  | nil => rfl
  | append_singleton calls c ih =>
    rw [episode_snoc, run_snoc, observe, call]
    by_cases hf : c.function.functionId = f
    · subst hf
      rw [Function.update_self, ← ih]
      cases he : (p.branch c.function c.signals c.now).evaluates with
      | true => simp
      | false =>
        have hkeep := switch_keeps (p := p) (s := (p.episode c.function.functionId calls).1) he
        simp [desiredScale, hkeep]
    · simp only [hf, false_and, if_false]
      rw [Function.update_of_ne (Ne.symm hf), ih]

/-- **Run lemma.** What is retained is at most the largest upper bound of the episode. -/
theorem episode_bound (p : DefaultPolicy) (f : Nat) (calls : List Call) :
    Cleared (p.episode f calls).1 ∧
      ((p.episode f calls).1.inPanic = true →
        (p.episode f calls).1.maxPanicInstances ≤ (p.episode f calls).2) := by
  induction calls using List.reverseRecOn with
  | nil => exact ⟨fun _ => rfl, nofun⟩
  | append_singleton calls c ih =>
    rw [episode_snoc, observe]
    split
    · rename_i hc
      obtain ⟨-, he⟩ := hc
      generalize p.episode f calls = t at ih ⊢
      obtain ⟨hclear, hbound⟩ := ih
      have hrec := record_panic t.1 (observedDemand c.signals) c.now p.stableWindowOf
      simp only [desiredScale, (switch_evaluates he).1, dirigentDesired]
      generalize t.1.record (observedDemand c.signals) c.now p.stableWindowOf = s at hrec ⊢
      have hs : Cleared s := by
        unfold Cleared at hclear ⊢
        rw [hrec.1, hrec.2.2]
        exact hclear
      have hpanic : p.desiredPanic c.function s (p.current c.signals) ≤
          p.maxScaleUp (p.current c.signals) := by
        rw [desiredPanic, desiredOver_eq]
        exact min_le_right _ _
      refine ⟨latch_cleared hs, fun hin => ?_⟩
      rw [hin, Bool.true_and]
      split
      · refine latch_le hs (le_trans hpanic (le_max_right _ _)) fun hold => ?_
        rw [hrec.2.2]
        exact le_trans (hbound (hrec.1 ▸ hold)) (le_max_left _ _)
      · rename_i hout
        refine latch_le hs hpanic fun hold => ?_
        rw [hrec.1] at hold
        exact absurd hold hout
    · exact ih

/-- The value before the clamp, at any call of any history that evaluates `dirigentDesired`. -/
theorem rate_envelope (p : DefaultPolicy) (calls : List Call) (c : Call)
    (he : (p.branch c.function c.signals c.now).evaluates = true) :
    let x := (p.switch c.function (p.run calls c.function.functionId) c.signals c.now).2
    let hi := p.maxScaleUp (p.current c.signals)
    let lo := p.maxScaleDown (p.current c.signals)
    min ⌈(observedDemand c.signals : ℚ) / p.target c.function⌉₊ hi ≤ x ∧ min lo hi ≤ x ∧
      x ≤ (p.episode c.function.functionId (calls ++ [c])).2 := by
  intro x hi lo
  have hstate := p.episode_run c.function.functionId calls
  obtain ⟨hclear, hbound⟩ := p.episode_bound c.function.functionId calls
  have hswitch := switch_evaluates (p := p) (s := p.run calls c.function.functionId) he
  rw [hstate] at hclear hbound
  obtain ⟨hdemand, hlo⟩ := dirigentDesired_lower p c.function
    (p.run calls c.function.functionId) (p.current c.signals) (observedDemand c.signals) c.now
  -- the call is the last of the episode
  have hepisode : (p.episode c.function.functionId (calls ++ [c])).2 =
      if (p.dirigentDesired c.function (p.run calls c.function.functionId) (p.current c.signals)
          (observedDemand c.signals) c.now).1.inPanic &&
          (p.run calls c.function.functionId).inPanic then
        max (p.episode c.function.functionId calls).2 hi else hi := by
    rw [episode_snoc, observe, if_pos ⟨rfl, he⟩]
    simp only [desiredScale, hstate, hswitch.1, hi]
  have hup : hi ≤ (p.episode c.function.functionId (calls ++ [c])).2 := by
    rw [hepisode]
    split
    · exact le_max_right _ _
    · exact le_refl _
  have hx := dirigentDesired_upper p c.function (observedDemand c.signals) c.now hclear hup fun hin hout => by
      rw [hepisode, hin, hout]
      exact le_trans (hbound hin) (le_max_left _ _)
  have hone : 1 ≤ hi := p.maxScaleUp_pos (p.current c.signals)
  rcases hswitch.2 with hv | ⟨hv, hz⟩
  · exact ⟨hdemand.trans hv.ge, hlo.trans hv.ge, hv.le.trans hx⟩
  · rw [hz] at hdemand hlo
    exact ⟨hdemand.trans (Nat.zero_le _), hlo.trans (Nat.zero_le _), hv.le.trans (hone.trans hup)⟩

/-- The settings of a policy that has nothing set but its idle timeout. -/
def plain : DefaultPolicy := ⟨second, 0, 0, false, false, 0, 0, 0, 0, 0⟩

/-- A function that takes one request per instance. -/
def unary : FunctionSpec := ⟨1, some ⟨0, 0, 1, 0, none⟩⟩

/-- A call of a function with so many instances and requests, after so many seconds. -/
def callAt (ready inFlight highWater seconds : Nat) : Call :=
  ⟨unary, ⟨ready, 0, 0, false, inFlight, highWater, 0⟩, seconds * second⟩

/-- After a burst of thirty requests on one instance the scale stays at thirty. -/
theorem rate_envelope_hold :
    plain.dirigentAdmission = false ∧ plain.coldStartPanicScaling = false ∧
      (plain.switch unary (plain.run [callAt 1 30 0 1, callAt 30 30 0 3] 1)
        (callAt 30 0 0 5).signals (callAt 30 0 0 5).now).2 = 30 ∧
      30 ≤ (plain.episode 1 [callAt 1 30 0 1, callAt 30 30 0 3, callAt 30 0 0 5]).2 := by
  have hv : (plain.switch unary (plain.run [callAt 1 30 0 1, callAt 30 30 0 3] 1)
      (callAt 30 0 0 5).signals (callAt 30 0 0 5).now).2 = 30 := by decide +kernel
  have h := (rate_envelope plain [callAt 1 30 0 1, callAt 30 30 0 3] (callAt 30 0 0 5)
    (by decide +kernel)).2.2
  exact ⟨rfl, rfl, hv, hv.ge.trans h⟩

/-! ## Panic mode -/

/-- The same call with another `HighWater`. -/
def Call.withHighWater (c : Call) (high : Nat) : Call :=
  { c with signals := { c.signals with highWater := high } }

/-- `HighWater` is not above `InFlight`, or the call records no sample whatever `HighWater` is:
a function at zero under strict admission, or a cold start. -/
def confined (p : DefaultPolicy) (c : Call) : Bool :=
  decide (c.signals.highWater ≤ c.signals.inFlight) ||
    (p.dirigentAdmission && p.current c.signals == 0) ||
    (!p.dirigentAdmission && p.coldStartPanicScaling && maxCC c.function == 1 &&
      (decide (0 < c.signals.inFlight) || p.current c.signals == 0))

theorem clampDesired_mono (function : FunctionSpec) {a b : Nat} (h : a ≤ b) :
    clampDesired function a ≤ clampDesired function b := by
  unfold clampDesired
  cases function.scale with
  | none => exact h
  | some scale => grind

theorem switch_atZero (ha : p.dirigentAdmission = true) (hz : p.current c.signals = 0) :
    p.switch c.function s c.signals c.now =
      (s, if observedDemand c.signals > 0 then 1 else 0) := by
  unfold switch
  by_cases hd : observedDemand c.signals > 0
  · simp [branch, ha, hz, hd]
  · simp [branch, hz, hd]

theorem switch_coldStart (ha : p.dirigentAdmission = false) (hc : p.coldStartPanicScaling = true)
    (hm : maxCC c.function = 1) (hz : 0 < c.signals.inFlight ∨ p.current c.signals = 0) :
    p.switch c.function s c.signals c.now = (s, if observedDemand c.signals > 0 then
      max (observedDemand c.signals) (p.current c.signals) else 0) := by
  have hflight : c.signals.inFlight ≤ observedDemand c.signals := by
    unfold observedDemand
    grind
  unfold switch
  by_cases hd : observedDemand c.signals > 0
  · simp only [branch, ha, hc, hm, hd, if_true]
    grind
  · have hz : p.current c.signals = 0 := hz.resolve_left (by omega)
    simp [branch, hz, hd]

/-- One call: the state is the same, and more `HighWater` asks for no less. -/
theorem switch_floor {high : Nat} (hc : p.confined c = true)
    (hc' : p.confined (c.withHighWater high) = true) :
    (p.switch c.function s (c.withHighWater high).signals c.now).1 =
        (p.switch c.function s c.signals c.now).1 ∧
      (c.signals.highWater ≤ high → (p.switch c.function s c.signals c.now).2 ≤
        (p.switch c.function s (c.withHighWater high).signals c.now).2) := by
  have hcur : p.current (c.withHighWater high).signals = p.current c.signals := rfl
  have hmono : c.signals.highWater ≤ high →
      observedDemand c.signals ≤ observedDemand (c.withHighWater high).signals := by
    simp only [observedDemand, Call.withHighWater]
    grind
  -- only the first case depends on `HighWater`
  have hcases : c.signals.highWater ≤ c.signals.inFlight ∧ high ≤ c.signals.inFlight ∨
      p.dirigentAdmission = true ∧ p.current c.signals = 0 ∨
      p.dirigentAdmission = false ∧ p.coldStartPanicScaling = true ∧ maxCC c.function = 1 ∧
        (0 < c.signals.inFlight ∨ p.current c.signals = 0) := by
    simp only [confined, hcur, Bool.or_eq_true, Bool.and_eq_true, decide_eq_true_eq, beq_iff_eq,
      Bool.not_eq_true'] at hc hc'
    simp only [Call.withHighWater] at hc'
    tauto
  rcases hcases with ⟨hle, hle'⟩ | ⟨ha, hz⟩ | ⟨ha, hcold, hm, hz⟩
  · have hsame : observedDemand (c.withHighWater high).signals = observedDemand c.signals := by
      simp only [observedDemand, Call.withHighWater]
      grind
    have hswitch : p.switch c.function s (c.withHighWater high).signals c.now =
        p.switch c.function s c.signals c.now := by
      unfold switch branch
      rw [hsame, hcur]
      rfl
    rw [hswitch]
    exact ⟨rfl, fun _ => le_refl _⟩
  · have hzero := switch_atZero (s := s) ha hz
    have hzero' : p.switch c.function s (c.withHighWater high).signals c.now = _ :=
      switch_atZero (c := c.withHighWater high) ha hz
    rw [hzero, hzero']
    grind
  · have hstart := switch_coldStart (s := s) ha hcold hm hz
    have hstart' : p.switch c.function s (c.withHighWater high).signals c.now = _ :=
      switch_coldStart (c := c.withHighWater high) ha hcold hm hz
    rw [hstart, hstart', hcur]
    grind

/-- Two histories of calls that differ in `HighWater` only. -/
def withHighWaters (calls : List (Call × Nat)) : List Call :=
  calls.map fun c => c.1.withHighWater c.2

/-- The states after both histories are the same, and at the next call the decision with the
larger `HighWater` is at least the other. -/
theorem high_water_floor (p : DefaultPolicy) (calls : List (Call × Nat))
    (hc : ∀ c ∈ calls, p.confined c.1 = true ∧ p.confined (c.1.withHighWater c.2) = true) :
    p.run (withHighWaters calls) = p.run (calls.map Prod.fst) ∧
      ∀ (c : Call) (high : Nat), p.confined c = true → p.confined (c.withHighWater high) = true →
        c.signals.highWater ≤ high →
        (p.desiredScale c.function (p.run (calls.map Prod.fst) c.function.functionId) c.signals
            c.now).2.desiredInstances ≤
          (p.desiredScale c.function (p.run (withHighWaters calls) c.function.functionId)
            (c.withHighWater high).signals c.now).2.desiredInstances := by
  have hrun : p.run (withHighWaters calls) = p.run (calls.map Prod.fst) := by
    induction calls using List.reverseRecOn with
    | nil => rfl
    | append_singleton calls c ih =>
      have hlast := hc c (by simp)
      have hrest := ih fun x hx => hc x (by simp [hx])
      rw [withHighWaters, List.map_append, List.map_append, List.map_singleton, List.map_singleton,
        run_snoc, run_snoc, ← withHighWaters, hrest]
      exact congrArg (Function.update _ c.1.function.functionId)
        (switch_floor hlast.1 hlast.2).1
  refine ⟨hrun, fun c high hconf hconf' hle => ?_⟩
  rw [hrun]
  exact clampDesired_mono _ ((switch_floor hconf hconf').2 hle)

/-- A cold start with one request in flight and five at the high mark. -/
theorem high_water_floor_coldStart :
    let p : DefaultPolicy := { plain with coldStartPanicScaling := true }
    p.run [callAt 0 1 5 1] = p.run [callAt 0 1 0 1] ∧
      (p.desiredScale unary (p.run [callAt 0 1 0 1] 1) (callAt 1 1 0 3).signals
          (callAt 1 1 0 3).now).2.desiredInstances ≤
        (p.desiredScale unary (p.run [callAt 0 1 5 1] 1) (callAt 1 1 4 3).signals
          (callAt 1 1 4 3).now).2.desiredInstances := by
  intro p
  obtain ⟨hrun, hnext⟩ := high_water_floor p [(callAt 0 1 0 1, 5)] (by decide +kernel)
  exact ⟨hrun, hnext (callAt 1 1 0 3) 4 (by decide +kernel) (by decide +kernel) (by decide)⟩

/-- Ten at the high mark are recorded as the sample of the call, and the next decision is higher
although its signals are the same. -/
theorem high_water_recorded :
    (plain.run [callAt 10 1 10 1] 1).buckets = [10] ∧
      (plain.run [callAt 10 1 0 1] 1).buckets = [1] ∧
      (plain.desiredScale unary (plain.run [callAt 10 1 10 1] 1) (callAt 10 1 0 3).signals
        (callAt 10 1 0 3).now).2.desiredInstances = 6 ∧
      (plain.desiredScale unary (plain.run [callAt 10 1 0 1] 1) (callAt 10 1 0 3).signals
        (callAt 10 1 0 3).now).2.desiredInstances = 5 := by
  decide +kernel

end DefaultPolicy

end HyperFaaS.Autoscaling.Policy
