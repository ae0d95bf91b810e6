import HyperFaaS.Runtime.PlacementTokens

/-!
The per-worker instance cap. `reserveWorker` compares two separate counters with
the cap, and `CommitReservation` takes a unit off the one before it adds it to
the other; between those two steps the unit is on neither. A call that does its
compare-and-swap and its second reading of `instances` both inside one such
window misses the unit, and the cap can be passed. In runs where no call does
that, and no telemetry is so large that the compared sum wraps, the cap holds.

The argument ranks the calls by their compare-and-swap on the worker. The calls
up to the highest granted rank fit under the cap together with the instances and
the windows. A call of higher rank that is still checking has a bound of its
own, which its second reading turns into the cap.
-/

namespace HyperFaaS.Runtime

namespace PC

/-- The worker that `reserveWorker` granted to this thread's reservation, as long
as its unit has not left `pendingStarts`. -/
def granted (s : PlacementState) : PC → Option Nat
  | .claim _ idx | .slotLoad _ idx _ _ | .slotCas _ idx _ _ _ | .unwind _ idx _ => some idx
  | .image _ r => some r.workerIndex
  | .returned o => (o.reservation.filter s.live).map PlacementReservation.workerIndex
  | .decPending _ r _ => some r.workerIndex
  | _ => none

/-- Past the compare-and-swap, before the second reading of `instances`. -/
def tentative : PC → Option (Nat × Nat)
  | .recheck _ idx pending | .reloadLocal _ idx pending => some (idx, pending)
  | _ => none

/-- Past that reading. -/
def reread : PC → Option (Nat × Nat × Nat)
  | .reloadTelemetry _ idx pending loc => some (idx, pending, loc)
  | _ => none

/-- The rank of a thread's reservation; `n` is the thread's own last one. -/
def rank (n : Nat) : PC → Nat
  | .image _ r | .decPending _ r _ => r.rank
  | .returned o => (o.reservation.map PlacementReservation.rank).getD n
  | _ => n

/-- A completion that has taken its unit off `pendingStarts`. -/
def committed : PC → Bool
  | .addInstance _ | .finishImage _ _ | .decGlobal _ _ | .notify | .completed => true
  | _ => false

end PC

/-- The numbers a thread carries are within the cap. -/
def CapPlace (cap : Nat) : PC → Prop
  | .loadLocal _ _ pending => pending ≤ cap
  | .loadTelemetry _ _ pending loc => pending ≤ cap ∧ loc ≤ cap
  | .casPending _ _ pending | .recheck _ _ pending | .reloadLocal _ _ pending => pending < cap
  | .reloadTelemetry _ _ pending loc => pending < cap ∧ loc ≤ cap
  | _ => True

namespace World

def rankOf (w : World) (t : Nat) : Nat := (w.pc t).rank (w.seq t)

/-- How many threads hold a unit of worker `idx` with rank at most `n`. -/
def upTo (w : World) (idx n : Nat) : Nat :=
  Nat.count (fun t => (decide ((w.pc t).worker w.state = some idx) && decide (w.rankOf t ≤ n)) = true)
    w.nthreads

/-- How many commits are between their two counter updates on worker `idx`. -/
def window (w : World) (idx : Nat) : Nat :=
  Nat.count (fun u => adding idx (w.pc u) = true) w.nthreads

/-- How many of those began after call `t`'s compare-and-swap. -/
def late (w : World) (t idx : Nat) : Nat :=
  Nat.count (fun u => (adding idx (w.pc u) && !(w.seen t).contains u) = true) w.nthreads

/-- How many reservations of worker `idx` are granted and not completed. -/
def outstanding (w : World) (idx : Nat) : Nat :=
  Nat.count (fun t => decide ((w.pc t).granted w.state = some idx) = true) w.nthreads

structure Cap (w : World) : Prop where
  small : w.state.maxInstancesPerWorker < 2 ^ 32
  telemetry : ∀ idx x, (w.state.worker idx).telemetry = some x →
    x.instances.toNat + w.state.maxInstancesPerWorker < 2 ^ 64
  values : ∀ t, CapPlace w.state.maxInstancesPerWorker (w.pc t)
  pending : ∀ idx, (w.state.worker idx).pendingStarts ≤ w.state.maxInstancesPerWorker
  top_le : ∀ idx, w.top idx ≤ w.clock
  rank_le : ∀ t idx, (w.pc t).worker w.state = some idx → w.rankOf t ≤ w.clock
  granted_le : ∀ t idx, (w.pc t).granted w.state = some idx → w.rankOf t ≤ w.top idx
  seen : ∀ t u, u ∈ w.seen t → (w.pc u).committed = true
  bound : ∀ idx, (w.state.worker idx).instances + w.window idx + w.upTo idx (w.top idx) ≤
    w.state.maxInstancesPerWorker
  first : ∀ t idx p, (w.pc t).tentative = some (idx, p) → w.top idx < w.seq t →
    w.upTo idx (w.seq t) + w.late t idx ≤ p + 1
  second : ∀ t idx p loc, (w.pc t).reread = some (idx, p, loc) → w.top idx < w.seq t →
    (w.state.worker idx).instances + w.window idx + w.upTo idx (w.seq t) ≤ loc + p + 1

variable {s : PlacementState}

theorem tentative_worker {x : PC} {idx p : Nat} (h : x.tentative = some (idx, p)) :
    x.worker s = some idx ∧ ∀ n, x.rank n = n := by
  cases x with
  | recheck | reloadLocal =>
    cases h
    exact ⟨rfl, fun _ => rfl⟩
  | _ => cases h

theorem reread_worker {x : PC} {idx p loc : Nat} (h : x.reread = some (idx, p, loc)) :
    x.worker s = some idx ∧ ∀ n, x.rank n = n := by
  cases x with
  | reloadTelemetry =>
    cases h
    exact ⟨rfl, fun _ => rfl⟩
  | _ => cases h

theorem granted_congr {s' : PlacementState} {x : PC}
    (h : ∀ r, x.token = some r → s'.live r = s.live r) : x.granted s' = x.granted s := by
  cases x with
  | returned o => exact PC.worker_congr (x := .returned o) h
  | _ => rfl

variable {w w' : World} {t : Nat} {x y : PC}

/-- What the step leaves of the other threads' units and ranks. -/
structure CapFrame (w w' : World) (t : Nat) : Prop where
  cap : w'.state.maxInstancesPerWorker = w.state.maxInstancesPerWorker
  holds : ∀ u, u ≠ t → ∀ idx, (w.pc u).worker w'.state = some idx →
    (w.pc u).worker w.state = some idx
  grants : ∀ u, u ≠ t → ∀ idx, (w.pc u).granted w'.state = some idx →
    (w.pc u).granted w.state = some idx
  seq : ∀ u, u ≠ t → w'.seq u = w.seq u
  seen : ∀ u, u ≠ t → w'.seen u = w.seen u
  clock : w.clock ≤ w'.clock
  top : ∀ idx, w.top idx ≤ w'.top idx

/-- What a step of thread `t` has to respect. For other threads the sums of the
bounds do not grow, at ranks from the highest granted one to the newest. -/
structure Fits (w w' : World) (t : Nat) (x y : PC) : Prop extends CapFrame w w' t where
  values : CapPlace w.state.maxInstancesPerWorker y
  telemetry : ∀ idx x, (w'.state.worker idx).telemetry = some x →
    x.instances.toNat + w.state.maxInstancesPerWorker < 2 ^ 64
  top_le : ∀ idx, w'.top idx ≤ w'.clock
  pending : ∀ idx, (w'.state.worker idx).pendingStarts ≤ w.state.maxInstancesPerWorker
  rank_le : ∀ idx, y.worker w'.state = some idx → y.rank (w'.seq t) ≤ w'.clock
  granted_le : ∀ idx, y.granted w'.state = some idx → y.rank (w'.seq t) ≤ w'.top idx
  saw : ∀ u ∈ w'.seen t, (w.pc u).committed = true
  committed : x.committed = true → y.committed = true
  total : ∀ idx n, w.top idx ≤ n → n ≤ w.clock →
    (w'.state.worker idx).instances + w'.window idx + w'.upTo idx n ≤
      (w.state.worker idx).instances + w.window idx + w.upTo idx n
  lates : ∀ u, u ≠ t → ∀ idx n, w.top idx ≤ n → n ≤ w.clock →
    w'.upTo idx n + w'.late u idx ≤ w.upTo idx n + w.late u idx
  bound : ∀ idx, w'.top idx = w.top idx ∨
    (w'.state.worker idx).instances + w'.window idx + w'.upTo idx (w'.top idx) ≤
      w.state.maxInstancesPerWorker
  first : ∀ idx p, y.tentative = some (idx, p) → w'.top idx < w'.seq t →
    w'.upTo idx (w'.seq t) + w'.late t idx ≤ p + 1
  second : ∀ idx p loc, y.reread = some (idx, p, loc) → w'.top idx < w'.seq t →
    (w'.state.worker idx).instances + w'.window idx + w'.upTo idx (w'.seq t) ≤ loc + p + 1

theorem capFrame_set (hcap : s.maxInstancesPerWorker = w.state.maxInstancesPerWorker)
    (hres : s.reservations = w.state.reservations) : CapFrame w ((w.setState s).setPC t y) t := by
  have hlive : s.live = w.state.live := by
    funext r
    simp only [PlacementState.live, hres]
  exact {
    cap := hcap
    holds := fun u _ idx hu => (PC.worker_congr (fun r _ => congrFun hlive r)).symm.trans hu
    grants := fun u _ idx hu => (granted_congr (fun r _ => congrFun hlive r)).symm.trans hu
    seq := fun _ _ => rfl
    seen := fun _ _ => rfl
    clock := le_rfl
    top := fun _ => le_rfl }

/-- **Step lemma for the cap.** -/
theorem Turns.cap (m : Turns w w' t x y) (h : w.Cap) (f : Fits w w' t x y) : w'.Cap where
  small := f.cap ▸ h.small
  telemetry := f.cap ▸ f.telemetry
  values u := by
    rw [f.cap]
    by_cases hu : u = t
    · rw [hu, m.here]
      exact f.values
    · rw [m.others hu]
      exact h.values u
  pending := f.cap ▸ f.pending
  top_le := f.top_le
  rank_le u idx hw := by
    by_cases hu : u = t
    · rw [hu, m.here] at hw
      rw [hu, rankOf, m.here]
      exact f.rank_le idx hw
    · rw [m.others hu] at hw
      rw [rankOf, m.others hu, f.seq u hu]
      exact (h.rank_le u idx (f.holds u hu idx hw)).trans f.clock
  granted_le u idx hg := by
    by_cases hu : u = t
    · rw [hu, m.here] at hg
      rw [hu, rankOf, m.here]
      exact f.granted_le idx hg
    · rw [m.others hu] at hg
      rw [rankOf, m.others hu, f.seq u hu]
      exact (h.granted_le u idx (f.grants u hu idx hg)).trans (f.top idx)
  seen u v hv := by
    have hold : (w.pc v).committed = true := by
      by_cases hu : u = t
      · subst hu
        exact f.saw v hv
      · exact h.seen u v (f.seen u hu ▸ hv)
    by_cases hvt : v = t
    · rw [hvt, m.before] at hold
      rw [hvt, m.here]
      exact f.committed hold
    · rw [m.others hvt]
      exact hold
  bound idx := by
    rw [f.cap]
    rcases f.bound idx with htop | hb
    · rw [htop]
      exact (f.total idx _ le_rfl (h.top_le idx)).trans (h.bound idx)
    · exact hb
  first u idx p hp hlt := by
    by_cases hu : u = t
    · subst hu
      exact f.first idx p (m.here ▸ hp) hlt
    · rw [m.others hu] at hp
      rw [f.seq u hu] at hlt ⊢
      have htop := (f.top idx).trans_lt hlt
      obtain ⟨hw, hr⟩ := tentative_worker hp
      have hclock : w.seq u ≤ w.clock := (hr _).symm.trans_le (h.rank_le u idx hw)
      exact (f.lates u hu idx _ htop.le hclock).trans (h.first u idx p hp htop)
  second u idx p loc hp hlt := by
    by_cases hu : u = t
    · subst hu
      exact f.second idx p loc (m.here ▸ hp) hlt
    · rw [m.others hu] at hp
      rw [f.seq u hu] at hlt ⊢
      have htop := (f.top idx).trans_lt hlt
      obtain ⟨hw, hr⟩ := reread_worker hp
      have hclock : w.seq u ≤ w.clock := (hr _).symm.trans_le (h.rank_le u idx hw)
      exact (f.total idx _ htop.le hclock).trans (h.second u idx p loc hp htop)

/-- Whether the place counts for worker `idx` at ranks up to `n`. -/
def ranked (s : PlacementState) (idx n own : Nat) (z : PC) : Bool :=
  decide (z.worker s = some idx) && decide (z.rank own ≤ n)

section Counts

variable (m : Turns w w' t x y) (hi : w.Inv)

include m hi

theorem upTo_move (hseq : ∀ u, u ≠ t → w'.seq u = w.seq u)
    (hlive : ∀ u, u ≠ t → ∀ r, (w.pc u).token = some r → w'.state.live r = w.state.live r)
    (idx n : Nat) :
    w'.upTo idx n + (ranked w.state idx n (w.seq t) x).toNat =
      w.upTo idx n + (ranked w'.state idx n (w'.seq t) y).toNat :=
  m.count hi (f := fun u z => ranked w.state idx n (w.seq u) z)
    (g := fun u z => ranked w'.state idx n (w'.seq u) z) (fun _ => rfl) (fun _ => rfl)
    (fun u hu => by rw [ranked, ranked, hseq u hu, PC.worker_congr (hlive u hu)])

theorem window_move (idx : Nat) :
    w'.window idx + (adding idx x).toNat = w.window idx + (adding idx y).toNat :=
  m.count hi (f := fun _ z => adding idx z) (g := fun _ z => adding idx z) (fun _ => rfl)
    (fun _ => rfl) (fun _ _ => rfl)

theorem late_move {u : Nat} (hseen : w'.seen u = w.seen u) (idx : Nat) :
    w'.late u idx + (adding idx x && !(w.seen u).contains t).toNat =
      w.late u idx + (adding idx y && !(w.seen u).contains t).toNat := by
  have hc := m.count hi (f := fun v z => adding idx z && !(w.seen u).contains v)
    (g := fun v z => adding idx z && !(w'.seen u).contains v) (fun _ => rfl) (fun _ => rfl)
    (fun _ _ => by rw [hseen])
  unfold late
  rwa [hseen] at hc ⊢

theorem windows_still (hx : ∀ idx, adding idx x = false) (hy : ∀ idx, adding idx y = false) :
    (∀ idx, w'.window idx = w.window idx) ∧
      ∀ u, w'.seen u = w.seen u → ∀ idx, w'.late u idx = w.late u idx := by
  constructor
  · intro idx
    have hc := window_move m hi idx
    rw [hx, hy] at hc
    omega
  · intro u hu idx
    have hc := late_move m hi hu idx
    rw [hx, hy] at hc
    omega

end Counts

/-- A step that moves no unit, begins no check and does not end one in a grant. -/
structure Still (w w' : World) (t : Nat) (x y : PC) : Prop where
  values : CapPlace w.state.maxInstancesPerWorker y := by trivial
  telemetry : ∀ idx x, (w'.state.worker idx).telemetry = some x →
    x.instances.toNat + w.state.maxInstancesPerWorker < 2 ^ 64
  cap : w'.state.maxInstancesPerWorker = w.state.maxInstancesPerWorker := by rfl
  live : ∀ u r, (w.pc u).token = some r → w'.state.live r = w.state.live r := by
    exact fun _ _ _ => rfl
  clock : w'.clock = w.clock := by rfl
  seq : w'.seq = w.seq := by rfl
  seen : w'.seen = w.seen := by rfl
  top : w'.top = w.top := by rfl
  pending : ∀ idx, (w'.state.worker idx).pendingStarts = (w.state.worker idx).pendingStarts := by
    exact fun _ => rfl
  instances : ∀ idx, (w'.state.worker idx).instances ≤ (w.state.worker idx).instances := by
    exact fun _ => le_rfl
  worker : y.worker w'.state = x.worker w.state := by rfl
  granted : ∀ idx, y.granted w'.state = some idx → x.granted w.state = some idx := by
    first | exact fun _ h => h | exact nofun
  rank : y.rank (w.seq t) = x.rank (w.seq t) := by rfl
  adding_before : ∀ idx, adding idx x = false := by exact fun _ => rfl
  adding_after : ∀ idx, adding idx y = false := by exact fun _ => rfl
  committed : x.committed = true → y.committed = true := by
    first | exact fun h => h | exact nofun
  tentative : ∀ e, y.tentative = some e → x.tentative = some e := by
    first | exact fun _ h => h | exact nofun
  reread : y.reread = none := by rfl

theorem Turns.still (m : Turns w w' t x y) (h : w.Cap) (hi : w.Inv) (q : Still w w' t x y) :
    w'.Cap := by
  have hup : ∀ idx n, w'.upTo idx n = w.upTo idx n := by
    intro idx n
    have hc := upTo_move m hi (fun u _ => by rw [q.seq]) (fun u _ => q.live u) idx n
    simp only [ranked, q.worker, q.seq, q.rank] at hc
    omega
  obtain ⟨hwin, hlate⟩ := windows_still m hi q.adding_before q.adding_after
  have hlate := fun u => hlate u (by rw [q.seen])
  have hb := m.before
  refine m.cap h ?_
  constructor
  case toCapFrame =>
    constructor
    case cap => exact q.cap
    case holds => exact fun u _ idx hu => by rwa [PC.worker_congr (q.live u)] at hu
    case grants => exact fun u _ idx hu => by rwa [granted_congr (q.live u)] at hu
    case seq => exact fun u _ => by rw [q.seq]
    case seen => exact fun u _ => by rw [q.seen]
    case clock => exact q.clock.ge
    case top => exact fun idx => by rw [q.top]
  case values => exact q.values
  case telemetry => exact q.telemetry
  case top_le => exact fun idx => by rw [q.top, q.clock]; exact h.top_le idx
  case pending => exact fun idx => by rw [q.pending]; exact h.pending idx
  case rank_le =>
    intro idx hu
    rw [q.seq, q.rank, q.clock, ← hb]
    exact h.rank_le t idx (by rw [hb, ← q.worker]; exact hu)
  case granted_le =>
    intro idx hu
    rw [q.seq, q.rank, q.top, ← hb]
    exact h.granted_le t idx (by rw [hb]; exact q.granted idx hu)
  case saw => exact fun u hu => h.seen t u (q.seen ▸ hu)
  case committed => exact q.committed
  case total =>
    intro idx n _ _
    have := q.instances idx
    rw [hup, hwin]
    omega
  case lates => exact fun u _ idx n _ _ => by rw [hup, hlate]
  case bound => exact fun idx => .inl (by rw [q.top])
  case first =>
    intro idx p hp hlt
    rw [q.top, q.seq] at hlt
    rw [hup, hlate, q.seq]
    exact h.first t idx p (by rw [hb]; exact q.tentative _ hp) hlt
  case second =>
    intro idx p loc hp
    rw [q.reread] at hp
    cases hp

theorem Cap.telemetry_of (h : w.Cap)
    (hsame : ∀ j, (s.worker j).telemetry = (w.state.worker j).telemetry) (j : Nat) (z : Telemetry)
    (hz : (s.worker j).telemetry = some z) :
    z.instances.toNat + w.state.maxInstancesPerWorker < 2 ^ 64 :=
  h.telemetry j z (hsame j ▸ hz)

theorem setPendingStarts_telemetry (s : PlacementState) (idx n j : Nat) :
    ((s.setPendingStarts idx n).worker j).telemetry = (s.worker j).telemetry :=
  setWorker_field WorkerPlacement.telemetry s idx (by rfl) j

theorem setInstances_telemetry (s : PlacementState) (idx n j : Nat) :
    ((s.setInstances idx n).worker j).telemetry = (s.worker j).telemetry :=
  setWorker_field WorkerPlacement.telemetry s idx (by rfl) j

theorem Cap.pending_pred (h : w.Cap) (idx j : Nat) :
    ((w.state.setPendingStarts idx ((w.state.worker idx).pendingStarts - 1)).worker
      j).pendingStarts ≤ w.state.maxInstancesPerWorker := by
  have hp := h.pending j
  rw [setPendingStarts_pending]
  split
  · subst j
    omega
  · exact hp

end World

end HyperFaaS.Runtime
