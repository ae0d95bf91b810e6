import HyperFaaS.Autoscaling.PolicyRuns
import Mathlib.Data.List.Chain

/-!
The samples of the averages. The ring of a function's state is, read backwards from its head, the
list of its last samples (`recent`): a new sample is put before them, or replaces the first one
if that is younger than the scaling period (`record_recent`), and an average is that of the first
of them (`average_eq`).

Proved here (`window_fresh`): a decision depends on no sample older than the stable window, if the
calls that record one come often enough. A ring has no time in it: after a gap it still holds the
samples from before (`window_stale`).
-/

namespace HyperFaaS.Autoscaling.Policy

namespace DirigentState

variable {s : DirigentState} {window : Duration}

/-- The place of the `i`th youngest sample in a ring of `n`. -/
def place (n head i : Nat) : Nat := if i ≤ head then head - i else head + n - i

/-- The samples, the youngest first. -/
def recent (s : DirigentState) : List ℚ :=
  (List.range s.buckets.length).map fun i =>
    s.buckets.getD (place s.buckets.length s.windowHead i) 0

/-- A ring of at most `k` samples. Until it is full its head is its end. -/
structure Ring (s : DirigentState) (k : Nat) : Prop where
  bound : s.buckets.length ≤ k
  head : s.buckets.length ≠ 0 → s.windowHead < s.buckets.length
  growing : s.buckets.length < k → s.buckets.length ≠ 0 → s.windowHead + 1 = s.buckets.length

@[simp] theorem recent_length (s : DirigentState) : s.recent.length = s.buckets.length := by
  simp [recent]

theorem getElem_recent {i : Nat} (hi : i < s.recent.length) :
    s.recent[i] = s.buckets.getD (place s.buckets.length s.windowHead i) 0 := by
  simp [recent]

theorem back_place {n head i : Nat} (hi : i < n) :
    back n (place n head i) = place n head (i + 1) := by
  unfold back place
  grind

theorem sumBack_eq (s : DirigentState) (count i : Nat) (h : i + count ≤ s.buckets.length) :
    sumBack s.buckets count (place s.buckets.length s.windowHead i) =
      ((s.recent.drop i).take count).sum := by
  induction count generalizing i with
  | zero => simp [sumBack]
  | succ count ih =>
    have hi : i < s.recent.length := by
      rw [recent_length]
      omega
    rw [sumBack, back_place (by omega), ih (i + 1) (by omega), List.drop_eq_getElem_cons hi,
      List.take_succ_cons, List.sum_cons, getElem_recent hi]

theorem average_eq (s : DirigentState) (window : Duration) :
    s.average window = (s.recent.take (samples window)).sum /
      (s.recent.take (samples window)).length := by
  unfold average
  split
  · rename_i hz
    have hnil : s.recent = [] := by
      rw [← List.length_eq_zero_iff, recent_length, hz]
    simp [hnil]
  · have hsum := sumBack_eq s (min (samples window) s.buckets.length) 0 (by omega)
    have htake : s.recent.take (min (samples window) s.buckets.length) =
        s.recent.take (samples window) := by
      rw [← recent_length, ← List.take_take, List.take_length]
    rw [List.drop_zero, htake] at hsum
    have hzero : place s.buckets.length s.windowHead 0 = s.windowHead := rfl
    rw [hzero] at hsum
    simp only [hsum, List.length_take, recent_length]

/-- A sample starts a new place, or replaces the one at the head. -/
theorem record_recent (h : s.Ring (samples window)) (value : ℚ) (now : Time) :
    (s.record value now window).Ring (samples window) ∧
      (s.record value now window).recent = value ::
        (if s.due now then s.recent.take (samples window - 1) else s.recent.tail) := by
  obtain ⟨hbound, hhead, hgrow⟩ := h
  have hone : 1 ≤ samples window := le_max_left _ _
  unfold record
  cases hdue : s.due now with
  | true =>
    rw [if_pos rfl, if_pos rfl]
    split
    · rename_i hlt
      refine ⟨⟨by simp; omega, by simp, by simp⟩, ?_⟩
      refine List.ext_getElem (by simp; omega) fun i hi hi' => ?_
      rw [getElem_recent]
      cases i with
      | zero => simp [place]
      | succ i =>
        simp only [recent_length, List.length_append, List.length_singleton] at hi
        simp only [List.getElem_cons_succ, List.getElem_take, getElem_recent,
          List.getD_eq_getElem?_getD]
        grind [place]
    · rename_i hfull
      refine ⟨⟨by simp; omega, ?_, ?_⟩, ?_⟩
      · intro _
        simp only [List.length_set]
        exact lt_of_lt_of_le (Nat.mod_lt _ hone) (by omega)
      · simp only [List.length_set]
        omega
      · refine List.ext_getElem (by simp; omega) fun i hi hi' => ?_
        rw [getElem_recent]
        have hmod : (s.windowHead + 1) % samples window =
            if s.windowHead + 1 < samples window then s.windowHead + 1 else 0 := by
          split
          · exact Nat.mod_eq_of_lt ‹_›
          · have he : s.windowHead + 1 = samples window := by omega
            rw [he, Nat.mod_self]
        cases i with
        | zero => grind [place]
        | succ i =>
          simp only [recent_length, List.length_set] at hi
          simp only [List.getElem_cons_succ, List.getElem_take, getElem_recent,
            List.getD_eq_getElem?_getD, List.length_set, List.getElem?_set]
          grind [place]
  | false =>
    have hpos : s.buckets.length ≠ 0 := by
      unfold due at hdue
      grind
    simp only [Bool.false_eq_true, if_false]
    refine ⟨⟨by simpa using hbound, by simpa using hhead, by simpa using hgrow⟩, ?_⟩
    refine List.ext_getElem (by simp; omega) fun i hi hi' => ?_
    rw [getElem_recent]
    cases i with
    | zero => grind [place]
    | succ i =>
      simp only [recent_length, List.length_set] at hi
      simp only [List.getElem_cons_succ, List.getElem_tail, getElem_recent,
        List.getD_eq_getElem?_getD, List.length_set, List.getElem?_set]
      grind [place]

/-! ## Buckets -/

/-- One more sample, for the buckets opened so far (the newest first) and the time the newest
was opened: it opens a bucket if that was a scaling period ago, and else overwrites it. -/
def sample (b : List ℚ × Time) (r : ℚ × Time) : List ℚ × Time :=
  match b.1 with
  | [] => ([r.1], r.2)
  | _ :: older =>
      if r.2 - b.2 ≥ defaultScalingPeriod then (r.1 :: b.1, r.2) else (r.1 :: older, b.2)

def opened (records : List (ℚ × Time)) : List ℚ := (records.foldl sample ([], 0)).1

def recordAll (window : Duration) (records : List (ℚ × Time)) : DirigentState :=
  records.foldl (fun s r => s.record r.1 r.2 window) zero

theorem record_lastSample (s : DirigentState) (value : ℚ) (now : Time) (window : Duration) :
    (s.record value now window).lastSample = if s.due now then now else s.lastSample := by
  unfold record
  repeat' split
  all_goals rfl

/-- The ring holds the newest buckets, and its time is that of the newest. -/
structure Holds (window : Duration) (s : DirigentState) (b : List ℚ × Time) : Prop where
  ring : s.Ring (samples window)
  recent : s.recent = b.1.take (samples window)
  last : b.1 ≠ [] → s.lastSample = b.2 ∧ b.2 ≠ 0

theorem Holds.record {b : List ℚ × Time} (h : Holds window s b) (value : ℚ) {now : Time}
    (hnow : now ≠ 0) : Holds window (s.record value now window) (sample b (value, now)) := by
  obtain ⟨values, time⟩ := b
  obtain ⟨hring, hrecent⟩ := record_recent h.ring value now
  have hlast := record_lastSample s value now window
  obtain ⟨k, hk⟩ : ∃ k, samples window = k + 1 :=
    Nat.exists_eq_succ_of_ne_zero (Nat.one_le_iff_ne_zero.1 (le_max_left _ _))
  have hlength := congrArg List.length h.recent
  rw [h.recent, hk] at hrecent
  rw [recent_length, hk] at hlength
  cases values with
  | nil =>
    have hdue : s.due now = true := by simp [due, hlength]
    rw [if_pos hdue] at hrecent hlast
    exact ⟨hring, by simpa [sample, hk] using hrecent, fun _ => ⟨hlast, hnow⟩⟩
  | cons newest older =>
    obtain ⟨hsame, hzero⟩ : s.lastSample = time ∧ time ≠ 0 := h.last (List.cons_ne_nil _ _)
    have hdue : s.due now = decide (now - time ≥ defaultScalingPeriod) := by
      simp [due, hsame, hzero, hlength]
    by_cases hpast : now - time ≥ defaultScalingPeriod
    · rw [hdue, decide_eq_true hpast, if_pos rfl] at hrecent hlast
      refine ⟨hring, ?_, fun _ => ?_⟩
      · rw [hrecent, List.take_take, hk, Nat.add_sub_cancel, min_eq_left (Nat.le_succ k)]
        simp [sample, hpast]
      · simpa [sample, hpast, hnow] using hlast
    · rw [hdue, decide_eq_false hpast, if_neg Bool.false_ne_true] at hrecent hlast
      refine ⟨hring, ?_, fun _ => ?_⟩
      · simp [sample, hpast, hrecent, hk]
      · simpa [sample, hpast, hzero] using hlast.trans hsame

theorem holds_all (window : Duration) (records : List (ℚ × Time))
    (hnow : ∀ r ∈ records, r.2 ≠ 0) :
    Holds window (recordAll window records) (records.foldl sample ([], 0)) := by
  induction records using List.reverseRecOn with
  | nil => exact ⟨⟨Nat.zero_le _, nofun, nofun⟩, List.take_nil.symm, nofun⟩
  | append_singleton front r ih =>
    have hfront := ih fun x hx => hnow x (List.mem_append_left _ hx)
    rw [recordAll, List.foldl_append, List.foldl_append]
    exact hfront.record r.1 (hnow r (List.mem_append_right _ List.mem_cons_self))

/-- **The ring of samples.** An average is the mean of the last buckets that the ring can
hold, where no sample is taken at the zero time. -/
theorem average_of_buckets (window w : Duration) (records : List (ℚ × Time))
    (hnow : ∀ r ∈ records, r.2 ≠ 0) :
    (recordAll window records).average w =
      ((opened records).take (min (samples w) (min (opened records).length (samples window)))).sum /
        (min (samples w) (min (opened records).length (samples window)) : Nat) := by
  rw [average_eq, (holds_all window records hnow).recent, List.take_take, List.length_take,
    min_assoc, min_comm (samples window)]
  have htake : (opened records).take (min (samples w) (samples window)) =
      (opened records).take (min (samples w) (min (opened records).length (samples window))) := by
    rw [List.take_eq_take_iff]
    omega
  rw [← htake]
  rfl

/-- Six samples in a window of three: one is overwritten, two have left the ring. -/
theorem average_of_buckets_wrapped : (∀ r ∈ [((1 : ℚ), (1 : Time)), (2, 2 * second + 1),
      (3, 3 * second), (4, 5 * second), (5, 7 * second), (6, 9 * second)], r.2 ≠ 0) ∧
    (recordAll (6 * second) [(1, 1), (2, 2 * second + 1), (3, 3 * second), (4, 5 * second),
      (5, 7 * second), (6, 9 * second)]).average (4 * second) = 11 / 2 := by
  refine ⟨by decide, ?_⟩
  rw [average_of_buckets _ _ _ (by decide)]
  decide +kernel

/-- The time of the newest bucket is compared with the zero time to see if there is one: after
a sample at the zero time the next one opens a bucket at once. -/
theorem average_after_zero_time :
    (recordAll (4 * second) [(1, 0), (3, 0)]).average (4 * second) = 2 ∧
      opened [(1, 0), (3, 0)] = [3] := by
  decide +kernel

end DirigentState

/-! ## Times of samples -/

/-- No time is before `bound`, and each further place may be `gap` older. -/
def Fresh (gap : Duration) : Time → List Time → Prop
  | _, [] => True
  | bound, t :: ts => bound ≤ t ∧ Fresh gap (bound - gap) ts

variable {gap : Duration} {b cutoff : Time} {ts : List Time}

theorem Fresh.mono {b' : Time} (h : Fresh gap b ts) (hb : b' ≤ b) : Fresh gap b' ts := by
  induction ts generalizing b b' with
  | nil => trivial
  | cons t ts ih => exact ⟨hb.trans h.1, ih h.2 (by linarith)⟩

theorem Fresh.take (h : Fresh gap b ts) (n : Nat) : Fresh gap b (ts.take n) := by
  induction ts generalizing b n with
  | nil => simpa using h
  | cons t ts ih =>
    cases n with
    | zero => trivial
    | succ n => exact ⟨h.1, ih h.2 n⟩

/-- Two lists of samples, taken at the same times, that agree from `cutoff` on. -/
inductive Agree (cutoff : Time) : List Time → List ℚ → List ℚ → Prop
  | nil : Agree cutoff [] [] []
  | cons {t : Time} {x y : ℚ} {ts : List Time} {xs ys : List ℚ} : (cutoff ≤ t → x = y) →
      Agree cutoff ts xs ys → Agree cutoff (t :: ts) (x :: xs) (y :: ys)

theorem Agree.take {xs ys : List ℚ} (h : Agree cutoff ts xs ys) (n : Nat) :
    Agree cutoff (ts.take n) (xs.take n) (ys.take n) := by
  induction h generalizing n with
  | nil => simpa using .nil
  | cons hx _ ih =>
    cases n with
    | zero => exact .nil
    | succ n => exact .cons hx (ih n)

theorem Agree.tail {xs ys : List ℚ} (h : Agree cutoff ts xs ys) :
    Agree cutoff ts.tail xs.tail ys.tail := by
  cases h with
  | nil => exact .nil
  | cons _ hrest => exact hrest

theorem Agree.length {xs ys : List ℚ} (h : Agree cutoff ts xs ys) :
    xs.length = ts.length ∧ ys.length = ts.length := by
  induction h with
  | nil => exact ⟨rfl, rfl⟩
  | cons _ _ ih => simpa using ih

/-- Samples that are all fresh are the same. -/
theorem Agree.eq {xs ys : List ℚ} (h : Agree cutoff ts xs ys) (hf : Fresh gap b ts)
    (hb : cutoff + ts.length * gap ≤ b + gap) (hgap : 0 ≤ gap) : xs = ys := by
  induction h generalizing b with
  | nil => rfl
  | @cons t x y ts xs ys hx _ ih =>
    have hmul : ((t :: ts).length : Int) * gap = ts.length * gap + gap := by
      rw [List.length_cons, Nat.cast_succ, add_mul, one_mul]
    have hpos : 0 ≤ (ts.length : Int) * gap := by positivity
    rw [hmul] at hb
    rw [hx (by linarith [hf.1]), ih hf.2 (by linarith)]

namespace DefaultPolicy

variable {p : DefaultPolicy} {function : FunctionSpec} {s s' : DirigentState}

/-! ## The state and the samples -/

theorem latch_samples (p : DefaultPolicy) (s : DirigentState) (current panic : Nat) (now : Time) :
    (p.latch s current panic now).buckets = s.buckets ∧
      (p.latch s current panic now).windowHead = s.windowHead ∧
      (p.latch s current panic now).lastSample = s.lastSample := by
  unfold latch
  split
  · exact ⟨rfl, rfl, rfl⟩
  · split
    · exact ⟨rfl, rfl, rfl⟩
    · exact ⟨rfl, rfl, rfl⟩

/-- The same panic state. -/
def SamePanic (s s' : DirigentState) : Prop :=
  s'.inPanic = s.inPanic ∧ s'.panicStarted = s.panicStarted ∧
    s'.maxPanicInstances = s.maxPanicInstances

variable {now cutoff : Time} {c : Call} {f : Nat} {r : Pace} {ts : List Time}

theorem dirigentDesired_congr {current demand : Nat} (hp : SamePanic s s')
    (hr : (s'.record demand now p.stableWindowOf).recent =
      (s.record demand now p.stableWindowOf).recent) :
    (p.dirigentDesired function s' current demand now).2 =
      (p.dirigentDesired function s current demand now).2 := by
  obtain ⟨h1, h2, h3⟩ := record_panic s demand now p.stableWindowOf
  obtain ⟨h1', h2', h3'⟩ := record_panic s' demand now p.stableWindowOf
  have hover : ∀ window,
      p.desiredOver function (s'.record demand now p.stableWindowOf) current window =
        p.desiredOver function (s.record demand now p.stableWindowOf) current window := by
    intro window
    rw [desiredOver, desiredOver, DirigentState.average_eq, DirigentState.average_eq, hr]
  simp only [dirigentDesired, desiredStable, desiredPanic, hover, combine_eq]
  unfold latch
  obtain ⟨hp1, hp2, hp3⟩ := hp
  grind

/-- A call either records the demand in the state of its function, or changes nothing. -/
def records (p : DefaultPolicy) (f : Nat) (c : Call) : Bool :=
  c.function.functionId == f && (p.branch c.function c.signals c.now).evaluates

theorem run_records {calls : List Call} (h : p.records f c = true) :
    p.run (calls ++ [c]) f = (p.dirigentDesired c.function (p.run calls f) (p.current c.signals)
      (observedDemand c.signals) c.now).1 := by
  simp only [records, Bool.and_eq_true, beq_iff_eq] at h
  obtain ⟨rfl, he⟩ := h
  rw [run_snoc, call, Function.update_self]
  exact (switch_evaluates he).1

theorem run_skips {calls : List Call} (h : p.records f c = false) :
    p.run (calls ++ [c]) f = p.run calls f := by
  rw [run_snoc, call]
  by_cases hf : c.function.functionId = f
  · subst hf
    rw [Function.update_self]
    exact switch_keeps (by simpa [records] using h)
  · rw [Function.update_of_ne (Ne.symm hf)]

/-- When the function's samples were recorded. -/
def recordTimes (p : DefaultPolicy) (f : Nat) (calls : List Call) : List Time :=
  (calls.filter (p.records f)).map Call.now

/-- How often samples have to come: `gap` after the last one at most, and `turn` after the last new
place if this one starts a new place. -/
structure Pace where
  gap : Duration
  turn : Duration
  deriving DecidableEq, Repr

/-- Does the next call keep the pace, if it records? -/
def paced (p : DefaultPolicy) (f : Nat) (r : Pace) (front : List Call) (c : Call) : Bool :=
  !p.records f c || match (p.recordTimes f front).getLast? with
    | none => true
    | some last => decide (c.now ≤ last + r.gap) &&
        (!(p.run front f).due c.now || decide (c.now ≤ (p.run front f).lastSample + r.turn))

/-- Does every call of the history keep the pace? -/
def steady (p : DefaultPolicy) (f : Nat) (r : Pace) (calls : List Call) : Bool :=
  (List.range calls.length).all fun i => calls[i]?.all (p.paced f r (calls.take i))

theorem steady_snoc {calls : List Call} (h : p.steady f r (calls ++ [c]) = true) :
    p.steady f r calls = true ∧ p.paced f r calls c = true := by
  simp only [steady, List.length_append, List.length_singleton, List.range_succ, List.all_append,
    List.all_cons, List.all_nil, Bool.and_true, Bool.and_eq_true, List.all_eq_true,
    List.mem_range] at h ⊢
  refine ⟨fun i hi => ?_, by simpa using h.2⟩
  have hi' := h.1 i hi
  rwa [List.getElem?_append_left hi, List.take_append_of_le_length (by omega)] at hi'

/-- The same call but for a demand recorded before `cutoff`. -/
structure Later (p : DefaultPolicy) (cutoff : Time) (f : Nat) (c c' : Call) : Prop where
  now : c'.now = c.now
  records : p.records f c' = p.records f c
  demand : cutoff ≤ c.now → observedDemand c'.signals = observedDemand c.signals

/-- Two states whose samples were recorded at the times `ts`, the last first. -/
structure Paired (p : DefaultPolicy) (r : Pace) (cutoff : Time) (s s' : DirigentState)
    (ts : List Time) : Prop where
  ring : s.Ring (samples p.stableWindowOf)
  ring' : s'.Ring (samples p.stableWindowOf)
  sample : s'.lastSample = s.lastSample
  agree : Agree cutoff ts s.recent s'.recent
  fresh : ∀ t rest, ts = t :: rest → t ≤ s.lastSample + defaultScalingPeriod ∧
    Fresh r.turn (s.lastSample - r.gap) rest

theorem Paired.due (h : Paired p r cutoff s s' ts) (now : Time) : s'.due now = s.due now := by
  have hlen := h.agree.length
  rw [DirigentState.recent_length, DirigentState.recent_length] at hlen
  unfold DirigentState.due
  rw [h.sample, hlen.1, hlen.2]

theorem Paired.record (h : Paired p r cutoff s s' ts) (now : Time) {x y : ℚ}
    (hxy : cutoff ≤ now → x = y) (hts : ∀ t, ts.head? = some t → now ≤ t + r.gap ∧
      (s.due now = true → now ≤ s.lastSample + r.turn)) :
    ∃ rest, Paired p r cutoff (s.record x now p.stableWindowOf)
      (s'.record y now p.stableWindowOf) (now :: rest) := by
  obtain ⟨hring, hrec⟩ := DirigentState.record_recent h.ring x now
  obtain ⟨hring', hrec'⟩ := DirigentState.record_recent h.ring' y now
  have hdue := h.due now
  rw [hdue] at hrec'
  cases hd : s.due now with
  | true =>
    rw [hd, if_pos rfl] at hrec hrec'
    have hlast : (s.record x now p.stableWindowOf).lastSample = now ∧
        (s'.record y now p.stableWindowOf).lastSample = now := by
      unfold DirigentState.record
      rw [hdue, hd]
      grind
    refine ⟨ts.take (samples p.stableWindowOf - 1), hring, hring', ?_, ?_, ?_⟩
    · rw [hlast.1, hlast.2]
    · rw [hrec, hrec']
      exact .cons hxy (h.agree.take _)
    · rintro t rest ⟨⟩
      rw [hlast.1]
      refine ⟨by simp [defaultScalingPeriod, second], Fresh.take ?_ _⟩
      cases ts with
      | nil => trivial
      | cons t rest =>
        obtain ⟨hgap, hturn⟩ := hts t rfl
        have hlate := hturn hd
        exact ⟨by linarith, (h.fresh t rest rfl).2.mono (by linarith)⟩
  | false =>
    rw [hd] at hrec hrec'
    have hlast : (s.record x now p.stableWindowOf).lastSample = s.lastSample ∧
        (s'.record y now p.stableWindowOf).lastSample = s.lastSample := by
      unfold DirigentState.record
      rw [hdue, hd]
      exact ⟨rfl, h.sample⟩
    have hnow : now - s.lastSample < defaultScalingPeriod := by
      unfold DirigentState.due at hd
      grind
    refine ⟨ts.tail, hring, hring', ?_, ?_, ?_⟩
    · rw [hlast.1, hlast.2]
    · rw [hrec, hrec']
      exact .cons hxy h.agree.tail
    · rintro t rest ⟨⟩
      rw [hlast.1]
      refine ⟨by linarith, ?_⟩
      cases ts with
      | nil => trivial
      | cons t rest => exact (h.fresh t rest rfl).2

theorem Paired.latch (h : Paired p r cutoff s s' ts) {current current' panic panic' : Nat}
    {now' : Time} :
    Paired p r cutoff (p.latch s current panic now) (p.latch s' current' panic' now') ts := by
  obtain ⟨hb, hh, hl⟩ := latch_samples p s current panic now
  obtain ⟨hb', hh', hl'⟩ := latch_samples p s' current' panic' now'
  obtain ⟨⟨h1, h2, h3⟩, ⟨h1', h2', h3'⟩, h4, h5, h6⟩ := h
  refine ⟨⟨?_, ?_, ?_⟩, ⟨?_, ?_, ?_⟩, ?_, ?_, ?_⟩
  · rwa [hb]
  · rwa [hb, hh]
  · rwa [hb, hh]
  · rwa [hb']
  · rwa [hb', hh']
  · rwa [hb', hh']
  · rwa [hl, hl']
  · rwa [DirigentState.recent, DirigentState.recent, hb, hb', hh, hh']
  · rwa [hl]

theorem paced_last {front : List Call} {last : Time} (h : p.paced f r front c = true)
    (hc : p.records f c = true) (hl : (p.recordTimes f front).getLast? = some last) :
    c.now ≤ last + r.gap ∧
      ((p.run front f).due c.now = true → c.now ≤ (p.run front f).lastSample + r.turn) := by
  simp only [paced, hc, hl, Bool.not_true, Bool.false_or, Bool.and_eq_true, decide_eq_true_eq,
    Bool.or_eq_true, Bool.not_eq_true'] at h
  grind

/-- **Run lemma.** -/
theorem paired_run {calls : List (Call × Call)} (hs : ∀ x ∈ calls, p.Later cutoff f x.1 x.2)
    (ho : p.steady f r (calls.map Prod.fst) = true) :
    ∃ ts, Paired p r cutoff (p.run (calls.map Prod.fst) f) (p.run (calls.map Prod.snd) f) ts ∧
      ts.head? = (p.recordTimes f (calls.map Prod.fst)).getLast? := by
  induction calls using List.reverseRecOn with
  | nil =>
    refine ⟨[], ⟨⟨by simp [run, DirigentState.zero], ?_, ?_⟩, ⟨?_, ?_, ?_⟩, rfl, .nil, ?_⟩, rfl⟩
    all_goals simp [run, DirigentState.zero]
  | append_singleton calls x ih =>
    have hx := hs x (by simp)
    have hmap : ∀ g : Call × Call → Call, (calls ++ [x]).map g = calls.map g ++ [g x] := by simp
    rw [hmap] at ho
    obtain ⟨ho, hpace⟩ := steady_snoc ho
    obtain ⟨ts, hpair, hhead⟩ := ih (fun y hy => hs y (by simp [hy])) ho
    rw [hmap, hmap]
    have hr' := hx.records
    cases hr : p.records f x.1 with
    | false =>
      rw [hr] at hr'
      rw [run_skips hr, run_skips hr']
      exact ⟨ts, hpair, by simpa [recordTimes, hr] using hhead⟩
    | true =>
      rw [hr] at hr'
      rw [run_records hr, run_records hr', hx.now]
      obtain ⟨rest, hnext⟩ := hpair.record x.1.now (x := observedDemand x.1.signals)
        (y := observedDemand x.2.signals) (fun hc => by rw [hx.demand hc])
        (fun t ht => paced_last hpace hr (hhead ▸ ht))
      exact ⟨x.1.now :: rest, hnext.latch, by simp [recordTimes, hr]⟩

/-- The stable window holds no sample older than itself. -/
def Pace.fits (r : Pace) (window : Duration) : Bool :=
  samples window == 1 || decide (0 ≤ r.turn) &&
    decide (defaultScalingPeriod + (samples window - 2 : Int) * r.turn + r.gap ≤ window)

theorem Paired.recent {rest : List Time}
    (h : Paired p r (now - p.stableWindowOf) s s' (now :: rest))
    (hr : r.fits p.stableWindowOf = true) : s'.recent = s.recent := by
  have hw : 0 < p.stableWindowOf := by
    unfold stableWindowOf
    split
    · assumption
    · decide
  obtain ⟨hlate, hfresh⟩ := h.fresh now rest rfl
  have hlen : rest.length + 1 ≤ samples p.stableWindowOf := by
    have hlength := h.agree.length.1
    rw [DirigentState.recent_length, List.length_cons] at hlength
    exact hlength ▸ h.ring.bound
  have hagree := h.agree
  generalize s.recent = xs at hagree ⊢
  generalize s'.recent = ys at hagree ⊢
  cases hagree with
  | @cons _ x y _ xs ys hx hrest =>
    rw [hx (by linarith)]
    congr 1
    simp only [Pace.fits, Bool.or_eq_true, Bool.and_eq_true, decide_eq_true_eq, beq_iff_eq] at hr
    rcases hr with hone | ⟨hturn, hfit⟩
    · have hnil : rest = [] := List.length_eq_zero_iff.mp (by omega)
      subst hnil
      cases hrest
      rfl
    · refine (hrest.eq hfresh ?_ hturn).symm
      have hmul : (rest.length : Int) * r.turn ≤ (samples p.stableWindowOf - 1 : Int) * r.turn :=
        Int.mul_le_mul_of_nonneg_right (by omega) hturn
      have hone : (samples p.stableWindowOf - 1 : Int) * r.turn =
          (samples p.stableWindowOf - 2 : Int) * r.turn + r.turn := by ring
      linarith

theorem switch_congr {signals : Signals} (h : (p.branch function signals now).evaluates = true →
      (p.dirigentDesired function s' (p.current signals) (observedDemand signals) now).2 =
        (p.dirigentDesired function s (p.current signals) (observedDemand signals) now).2) :
    (p.switch function s' signals now).2 = (p.switch function s signals now).2 := by
  unfold switch
  cases hb : p.branch function signals now with
  | optimistic | inFlight => exact h (by rw [hb]; rfl)
  | idle =>
    have hd : observedDemand signals = 0 := by
      unfold branch at hb
      grind
    have h := h (by rw [hb]; rfl)
    rw [hd] at h
    simp only [h]
  | fromZero | coldStart | zero | toZero => rfl

/-- Two histories that differ in demands recorded before the stable window, and agree on the panic
state: the decision is the same. -/
theorem window_fresh (p : DefaultPolicy) (r : Pace) (hr : r.fits p.stableWindowOf = true)
    (calls : List (Call × Call)) (c : Call)
    (hs : ∀ x ∈ calls, p.Later (c.now - p.stableWindowOf) c.function.functionId x.1 x.2)
    (ho : p.steady c.function.functionId r (calls.map Prod.fst ++ [c]) = true)
    (hp : SamePanic (p.run (calls.map Prod.fst) c.function.functionId)
      (p.run (calls.map Prod.snd) c.function.functionId)) :
    (p.desiredScale c.function (p.run (calls.map Prod.snd) c.function.functionId) c.signals
        c.now).2 =
      (p.desiredScale c.function (p.run (calls.map Prod.fst) c.function.functionId) c.signals
        c.now).2 := by
  obtain ⟨ho, hpace⟩ := steady_snoc ho
  obtain ⟨ts, hpair, hhead⟩ := paired_run hs ho
  simp only [desiredScale]
  rw [switch_congr fun he => dirigentDesired_congr hp ?_]
  have hc : p.records c.function.functionId c = true := by simp [records, he]
  obtain ⟨rest, hnext⟩ := hpair.record c.now (x := observedDemand c.signals)
    (fun _ => rfl) (fun t ht => paced_last hpace hc (hhead ▸ ht))
  exact hnext.recent hr

/-- A call every two seconds keeps the pace. The demand of the first call is not in the average of
the fifth. -/
theorem window_fresh_regular :
    let calls := [(callAt 100 150 0 1, callAt 100 100 0 1), (callAt 100 90 0 3, callAt 100 90 0 3),
      (callAt 100 90 0 5, callAt 100 90 0 5), (callAt 100 90 0 7, callAt 100 90 0 7)]
    (plain.desiredScale unary (plain.run (calls.map Prod.snd) 1) (callAt 100 90 0 9).signals
        (callAt 100 90 0 9).now).2 =
      (plain.desiredScale unary (plain.run (calls.map Prod.fst) 1) (callAt 100 90 0 9).signals
        (callAt 100 90 0 9).now).2 := by
  intro calls
  refine window_fresh plain ⟨2 * second, 2 * second⟩ (by decide +kernel) calls (callAt 100 90 0 9)
    (fun x hx => ?_) (by decide +kernel) (by unfold SamePanic; decide +kernel)
  simp only [calls, List.mem_cons, List.not_mem_nil, or_false] at hx
  rcases hx with rfl | rfl | rfl | rfl
  · exact ⟨rfl, by decide +kernel, fun h => absurd h (by decide +kernel)⟩
  · exact ⟨rfl, rfl, fun _ => rfl⟩
  · exact ⟨rfl, rfl, fun _ => rfl⟩
  · exact ⟨rfl, rfl, fun _ => rfl⟩

/-- A function is idle for a quarter of an hour after its first sample: that sample is half of the
average of the next decision. -/
theorem window_stale :
    (plain.desiredScale unary (plain.run [callAt 100 150 0 1] 1) (callAt 100 100 0 900).signals
        (callAt 100 100 0 900).now).2.desiredInstances = 125 ∧
      (plain.desiredScale unary (plain.run [callAt 100 100 0 1] 1) (callAt 100 100 0 900).signals
        (callAt 100 100 0 900).now).2.desiredInstances = 100 ∧
      plain.stableWindowOf = 6 * second ∧
      SamePanic (plain.run [callAt 100 150 0 1] 1) (plain.run [callAt 100 100 0 1] 1) := by
  refine ⟨by decide +kernel, by decide +kernel, by decide +kernel, ?_⟩
  unfold SamePanic
  decide +kernel

end DefaultPolicy

end HyperFaaS.Autoscaling.Policy
