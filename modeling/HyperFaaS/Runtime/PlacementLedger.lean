import HyperFaaS.Lib.Count
import HyperFaaS.Runtime.PlacementMoves

/-!
The start-token ledger of the placement state, over every interleaving of the
atomic steps. Each thread's place in its code says which units it holds: one of
a worker's `pendingStarts`, one of the global `pendingStarts`, a reservation
slot. The counters are the numbers of holders; a token holds its units through
the call that returned it for as long as its slot is at its generation, and a
completion that passes its compare-and-swap takes them over.
-/

namespace HyperFaaS.Runtime

/-- The slot is at the token's own generation. -/
def PlacementState.live (s : PlacementState) (r : PlacementReservation) : Bool :=
  decide (s.reservations r.slot = r.generation)

namespace PC

/-- The token a `Schedule` call made. -/
def token : PC → Option PlacementReservation
  | .image _ r => some r
  | .returned o => o.reservation
  | _ => none

def owns (s : PlacementState) (x : PC) : Bool := x.token.any s.live

/-- The worker on whose `pendingStarts` this thread has a unit. -/
def worker (s : PlacementState) : PC → Option Nat
  | .recheck _ idx _ | .reloadLocal _ idx _ | .reloadTelemetry _ idx _ _ | .undo _ idx _
  | .claim _ idx | .slotLoad _ idx _ _ | .slotCas _ idx _ _ _ | .unwind _ idx _ => some idx
  | .image _ r => some r.workerIndex
  | .returned o => (o.reservation.filter s.live).map PlacementReservation.workerIndex
  | .decPending _ r _ => some r.workerIndex
  | _ => none

/-- Whether this thread has a unit on the global `pendingStarts`. -/
def starts (s : PlacementState) : PC → Bool
  | .idle | .globalLoad _ _ | .globalCas _ _ _ | .complete _ _ | .notify | .completed
  | .recordStop _ _ | .recorded => false
  | .returned o => o.reservation.any s.live
  | _ => true

def entry : PC → Bool
  | .complete _ _ => true
  | _ => false

/-- The call is over. -/
def ended : PC → Bool
  | .idle | .returned _ | .completed | .recorded => true
  | _ => false

end PC

structure TokenOK (s : PlacementState) (r : PlacementReservation) : Prop where
  valid : r.valid = true
  slot : r.slot < s.slots
  worker : r.workerIndex < s.workers
  odd : r.generation % 2 = 1
  past : r.generation ≤ s.reservations r.slot

/-- What the values a thread carries have to do with the state. -/
def PlaceOK (s : PlacementState) : PC → Prop
  | .globalLoad b _ | .picking b _ => b = true → 0 < s.workers
  | .globalCas b _ current =>
      (b = true → 0 < s.workers) ∧ (0 < s.startTokensTotal → current < s.startTokensTotal)
  | .eligible _ idx | .loadPending _ idx | .recheck _ idx _ | .reloadLocal _ idx _
  | .reloadTelemetry _ idx _ _ | .claim _ idx | .slotLoad _ idx _ _ => idx < s.workers
  | .loadLocal _ idx pending | .loadTelemetry _ idx pending _ | .casPending _ idx pending =>
      idx < s.workers ∧ (0 < s.startTokensPerWorker → pending < s.startTokensPerWorker)
  | .undo _ idx d | .unwind _ idx d => idx < s.workers ∧ d.Armed
  | .slotCas _ idx _ _ state => idx < s.workers ∧ state % 2 = 0
  | .image _ r => TokenOK s r ∧ s.live r = true
  | .releaseGlobal o d => o.reservation = none ∧ d.Armed
  | .returned o => ∀ r, o.reservation = some r → TokenOK s r
  | .decPending _ r d => r.workerIndex < s.workers ∧ d.Armed
  | .decGlobal _ d => d.Armed
  | _ => True

namespace World

/-- How many threads hold a unit of worker `idx`. -/
def holders (w : World) (idx : Nat) : Nat :=
  Nat.count (fun t => decide ((w.pc t).worker w.state = some idx) = true) w.nthreads

def starters (w : World) : Nat :=
  Nat.count (fun t => (w.pc t).starts w.state = true) w.nthreads

def owners (w : World) : Nat :=
  Nat.count (fun t => (w.pc t).owns w.state = true) w.nthreads

/-- The number of odd slots. -/
def reserved (w : World) : Nat :=
  Nat.count (fun i => decide (w.state.reservations i % 2 = 1) = true) w.state.slots

/-- Threads and limits. -/
structure Shape (w : World) : Prop where
  fresh : ∀ t, w.nthreads ≤ t → w.pc t = .idle
  slots : 0 < w.state.slots
  place : ∀ t, PlaceOK w.state (w.pc t)
  issued : ∀ t b r, w.pc t = .complete b r → r.valid = true → w.Issued r
  total : 0 < w.state.startTokensTotal → w.state.pendingStarts ≤ w.state.startTokensTotal
  perWorker : 0 < w.state.startTokensPerWorker →
    ∀ idx, (w.state.worker idx).pendingStarts ≤ w.state.startTokensPerWorker

/-- No two calls make the same token, and a token is past its slot exactly when
a completion of it went through. -/
structure Tokens (w : World) : Prop where
  unique : ∀ t u r r', (w.pc t).token = some r → (w.pc u).token = some r' →
    r.slot = r'.slot → r.generation = r'.generation → t = u
  nodup : w.effects.Nodup
  spent : ∀ e ∈ w.effects, e.2 < w.state.reservations e.1
  used : ∀ t r, (w.pc t).token = some r → r.generation < w.state.reservations r.slot →
    (r.slot, r.generation) ∈ w.effects

structure Ledger (w : World) : Prop where
  worker : ∀ idx, (w.state.worker idx).pendingStarts = w.holders idx
  global : w.state.pendingStarts = w.starters
  odd : w.reserved = w.owners

structure Inv (w : World) : Prop extends Shape w, Tokens w, Ledger w

theorem Inv.running {w : World} (h : w.Inv) {t : Nat} {x : PC} (hx : w.pc t = x)
    (hn : x ≠ .idle) : t < w.nthreads := by
  by_contra ht
  exact hn (hx ▸ h.fresh t (by omega))

theorem Inv.placeAt {w : World} (h : w.Inv) {t : Nat} {x : PC} (hx : w.pc t = x) :
    PlaceOK w.state x :=
  hx ▸ h.place t

end World

/-- The sizes and limits have not moved. -/
structure Frame (s s' : PlacementState) : Prop where
  workers : s'.workers = s.workers
  slots : s'.slots = s.slots
  perWorker : s'.startTokensPerWorker = s.startTokensPerWorker
  total : s'.startTokensTotal = s.startTokensTotal

section Frame

variable {s s' : PlacementState} {x : PC} {r : PlacementReservation}

theorem PlaceOK.token (h : PlaceOK s x) (hx : x.token = some r) : TokenOK s r := by
  cases x with
  | image c r' =>
    cases hx
    exact h.1
  | returned o => exact h r hx
  | _ => cases hx

theorem TokenOK.carry (h : TokenOK s r) (f : Frame s s')
    (hres : s.reservations r.slot ≤ s'.reservations r.slot) : TokenOK s' r :=
  ⟨h.valid, f.slots ▸ h.slot, f.workers ▸ h.worker, h.odd, h.past.trans hres⟩

theorem PlaceOK.carry (h : PlaceOK s x) (f : Frame s s')
    (hres : ∀ i, s.reservations i ≤ s'.reservations i)
    (hlive : ∀ c r, x = .image c r → s'.live r = s.live r) : PlaceOK s' x := by
  cases x with
  | image c r => exact ⟨h.1.carry f (hres _), by rw [hlive c r rfl]; exact h.2⟩
  | returned o => exact fun r hr => (h r hr).carry f (hres _)
  | _ =>
    revert h
    simp [PlaceOK, f.workers, f.perWorker, f.total]

theorem PC.owns_congr (h : ∀ r, x.token = some r → s'.live r = s.live r) :
    x.owns s' = x.owns s := by
  unfold PC.owns
  cases hx : x.token with
  | none => rfl
  | some r => simpa using h r hx

theorem PC.starts_congr (h : ∀ r, x.token = some r → s'.live r = s.live r) :
    x.starts s' = x.starts s := by
  cases x with
  | returned o => exact PC.owns_congr (x := .returned o) h
  | _ => rfl

theorem PC.worker_congr (h : ∀ r, x.token = some r → s'.live r = s.live r) :
    x.worker s' = x.worker s := by
  cases x with
  | returned o =>
    simp only [PC.worker]
    cases ho : o.reservation with
    | none => rfl
    | some r => simp [Option.filter, h r ho]
  | _ => rfl

end Frame

namespace World

variable {w w' : World} {t : Nat} {x y : PC}

/-- Thread `t` goes from `x` to `y`; it may be a new one. -/
structure Turns (w w' : World) (t : Nat) (x y : PC) : Prop where
  before : w.pc t = x
  after : w'.pc = Function.update w.pc t y
  threads : w.nthreads ≤ w'.nthreads
  within : y ≠ .idle → t < w'.nthreads

namespace Turns

theorem here (m : Turns w w' t x y) : w'.pc t = y := by rw [m.after, Function.update_self]

theorem others (m : Turns w w' t x y) {u : Nat} (hu : u ≠ t) : w'.pc u = w.pc u := by
  rw [m.after, Function.update_of_ne hu]

theorem fresh (m : Turns w w' t x y) (h : ∀ u, w.nthreads ≤ u → w.pc u = .idle) (u : Nat)
    (hu : w'.nthreads ≤ u) : w'.pc u = .idle := by
  by_cases hut : u = t
  · rw [hut, m.here]
    by_contra hy
    have := m.within hy
    omega
  · rw [m.others hut]
    exact h u (m.threads.trans hu)

theorem count (m : Turns w w' t x y) (h : w.Inv) {f g : Nat → PC → Bool}
    (hf : ∀ u, f u .idle = false) (hg : ∀ u, g u .idle = false)
    (hfg : ∀ u, u ≠ t → g u (w.pc u) = f u (w.pc u)) :
    Nat.count (fun u => g u (w'.pc u) = true) w'.nthreads + (f t x).toNat =
      Nat.count (fun u => f u (w.pc u) = true) w.nthreads + (g t y).toNat := by
  have hc := Lib.count_move (p := fun u => f u (w.pc u)) (q := fun u => g u (w'.pc u)) (i := t)
    (fun u hu => by rw [h.fresh u hu, hf]) (fun u hu => by rw [m.fresh h.fresh u hu, hg])
    (fun u hu => by rw [m.others hu, hfg u hu])
  rwa [m.before, m.here] at hc

/-- What another thread `v` counts for may change with it. -/
theorem count_with (m : Turns w w' t x y) (h : w.Inv) {v : Nat} (hv : v ≠ t)
    {f g : Nat → PC → Bool} (hf : ∀ u, f u .idle = false) (hg : ∀ u, g u .idle = false)
    (hfg : ∀ u, u ≠ v → u ≠ t → g u (w.pc u) = f u (w.pc u)) :
    Nat.count (fun u => g u (w'.pc u) = true) w'.nthreads + (f v (w.pc v)).toNat + (f t x).toNat =
      Nat.count (fun u => f u (w.pc u) = true) w.nthreads + (g v (w.pc v)).toNat +
        (g t y).toNat := by
  have hc := Lib.count_move_two (p := fun u => f u (w.pc u)) (q := fun u => g u (w'.pc u))
    (fun u hu => by rw [h.fresh u hu, hf]) (fun u hu => by rw [m.fresh h.fresh u hu, hg]) hv
    (fun u huv hut => by rw [m.others hut, hfg u huv hut])
  rwa [m.before, m.here, m.others hv] at hc

theorem shape (m : Turns w w' t x y) (h : w.Inv) (f : Frame w.state w'.state)
    (hrun : tokenOf x = none)
    (hentry : ∀ b r, y = .complete b r → r.valid = true → w.Issued r)
    (hy : PlaceOK w'.state y) (hothers : ∀ u, u ≠ t → PlaceOK w'.state (w.pc u))
    (htotal : 0 < w.state.startTokensTotal → w'.state.pendingStarts ≤ w.state.startTokensTotal)
    (hper : 0 < w.state.startTokensPerWorker → ∀ idx,
      (w'.state.worker idx).pendingStarts ≤ w.state.startTokensPerWorker) : Shape w' where
  fresh := m.fresh h.fresh
  slots := f.slots ▸ h.slots
  place u := by
    by_cases hu : u = t
    · rw [hu, m.here]
      exact hy
    · rw [m.others hu]
      exact hothers u hu
  issued u b r hu hr := by
    have hissued : w.Issued r := by
      by_cases hut : u = t
      · rw [hut, m.here] at hu
        exact hentry b r hu hr
      · rw [m.others hut] at hu
        exact h.issued u b r hu hr
    obtain ⟨v, hv, hvr⟩ := hissued
    have hvt : v ≠ t := by
      rintro rfl
      rw [m.before, hrun] at hvr
      cases hvr
    exact ⟨v, hv.trans_le m.threads, by rw [m.others hvt]; exact hvr⟩
  total := f.total ▸ htotal
  perWorker := f.perWorker ▸ hper

theorem ledger (m : Turns w w' t x y) (h : w.Inv)
    (hlive : ∀ u, u ≠ t → ∀ r, (w.pc u).token = some r → w'.state.live r = w.state.live r)
    (hworker : ∀ idx,
      (w'.state.worker idx).pendingStarts + (decide (x.worker w.state = some idx)).toNat =
        (w.state.worker idx).pendingStarts + (decide (y.worker w'.state = some idx)).toNat)
    (hglobal : w'.state.pendingStarts + (x.starts w.state).toNat =
      w.state.pendingStarts + (y.starts w'.state).toNat)
    (hodd : w'.reserved + (x.owns w.state).toNat = w.reserved + (y.owns w'.state).toNat) :
    Ledger w' where
  worker idx := by
    have hc := m.count h (f := fun _ z => decide (z.worker w.state = some idx))
      (g := fun _ z => decide (z.worker w'.state = some idx)) (fun _ => rfl) (fun _ => rfl)
      (fun u hu => by rw [PC.worker_congr (hlive u hu)])
    have hm := hworker idx
    have hold := h.worker idx
    unfold holders at hold ⊢
    omega
  global := by
    have hc := m.count h (f := fun _ z => z.starts w.state) (g := fun _ z => z.starts w'.state)
      (fun _ => rfl) (fun _ => rfl) (fun u hu => by rw [PC.starts_congr (hlive u hu)])
    have hold := h.global
    unfold starters at hold ⊢
    omega
  odd := by
    have hc := m.count h (f := fun _ z => z.owns w.state) (g := fun _ z => z.owns w'.state)
      (fun _ => rfl) (fun _ => rfl) (fun u hu => by rw [PC.owns_congr (hlive u hu)])
    have hold := h.odd
    unfold owners at hold ⊢
    omega

end Turns

/-- What a step that leaves the slots alone may do: the counters follow the units
that the place before it and the place after it hold. -/
structure Moves (w w' : World) (x y : PC) : Prop where
  place : PlaceOK w.state y
  frame : Frame w.state w'.state := by exact ⟨rfl, rfl, rfl, rfl⟩
  slots : w'.state.reservations = w.state.reservations := by rfl
  effects : w'.effects = w.effects := by rfl
  token : y.token = x.token := by rfl
  worker : ∀ idx,
    (w'.state.worker idx).pendingStarts + (decide (x.worker w.state = some idx)).toNat =
      (w.state.worker idx).pendingStarts + (decide (y.worker w.state = some idx)).toNat := by
    exact fun _ => rfl
  global : w'.state.pendingStarts + (x.starts w.state).toNat =
    w.state.pendingStarts + (y.starts w.state).toNat := by rfl
  total : 0 < w.state.startTokensTotal → w.state.pendingStarts ≤ w.state.startTokensTotal →
    w'.state.pendingStarts ≤ w.state.startTokensTotal := by exact fun _ h => h
  perWorker : 0 < w.state.startTokensPerWorker → ∀ idx,
    (w.state.worker idx).pendingStarts ≤ w.state.startTokensPerWorker →
      (w'.state.worker idx).pendingStarts ≤ w.state.startTokensPerWorker := by
    exact fun _ _ h => h

/-- **Step lemma for the counters.** -/
theorem Turns.inv (m : Turns w w' t x y) (h : w.Inv) (hrun : tokenOf x = none)
    (hentry : ∀ b r, y = .complete b r → r.valid = true → w.Issued r) (c : Moves w w' x y) :
    w'.Inv := by
  have hlive : w'.state.live = w.state.live := by
    funext r
    simp [PlacementState.live, c.slots]
  have htok : ∀ u, (w'.pc u).token = (w.pc u).token := by
    intro u
    by_cases hu : u = t
    · rw [hu, m.here, m.before, c.token]
    · rw [m.others hu]
  have hcarry : ∀ z, PlaceOK w.state z → PlaceOK w'.state z := fun z hz =>
    hz.carry c.frame (fun i => by rw [c.slots]) (fun _ r _ => by rw [hlive])
  refine ⟨?_, ?_, ?_⟩
  · exact m.shape h c.frame hrun hentry (hcarry y c.place) (fun u _ => hcarry _ (h.place u))
      (fun hp => c.total hp (h.total hp)) (fun hp idx => c.perWorker hp idx (h.perWorker hp idx))
  · constructor
    · intro u v r r'
      rw [htok u, htok v]
      exact h.unique u v r r'
    · exact c.effects ▸ h.nodup
    · rw [c.effects, c.slots]
      exact h.spent
    · intro u r
      rw [htok u, c.effects, c.slots]
      exact h.used u r
  · apply m.ledger h (fun u _ r _ => by rw [hlive])
    · intro idx
      rw [PC.worker_congr (x := y) (s := w.state) (fun r _ => by rw [hlive])]
      exact c.worker idx
    · rw [PC.starts_congr (x := y) (s := w.state) (fun r _ => by rw [hlive])]
      exact c.global
    · rw [PC.owns_congr (fun r _ => by rw [hlive]), PC.owns, PC.owns, c.token]
      simp only [reserved, c.slots, c.frame.slots]

theorem setPendingStarts_pending (s : PlacementState) (idx n j : Nat) :
    ((s.setPendingStarts idx n).worker j).pendingStarts =
      if j = idx then n else (s.worker j).pendingStarts := by
  by_cases hj : j = idx
  · subst hj
    simp [PlacementState.setPendingStarts, PlacementState.setWorker]
  · simp [PlacementState.setPendingStarts, PlacementState.setWorker, hj]

theorem Inv.pending_pos (h : w.Inv) {idx : Nat} (hx : w.pc t = x)
    (hxw : x.worker w.state = some idx) : 0 < (w.state.worker idx).pendingStarts := by
  have hn : x ≠ .idle := by rintro rfl; cases hxw
  rw [h.worker idx]
  apply Lib.count_pos (h.running hx hn)
  simp [hx, hxw]

theorem Inv.global_pos (h : w.Inv) (hx : w.pc t = x) (hxs : x.starts w.state = true) :
    0 < w.state.pendingStarts := by
  have hn : x ≠ .idle := by rintro rfl; cases hxs
  rw [h.global]
  exact Lib.count_pos (h.running hx hn) (by rw [hx]; exact hxs)

end World

end HyperFaaS.Runtime
