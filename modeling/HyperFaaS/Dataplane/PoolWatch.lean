import HyperFaaS.Dataplane.PoolProperties

/-!
A pool and an observer that looks at it between critical sections and writes down the greatest
demand since the last `TakeHighWater`, when each call joined the queue, and when the pool was last
busy. No critical section reads the record, so the runs are those of the pool.

* `takeHighWater_peak`: `TakeHighWater` returns the greatest demand, as long as no waiter is moved
  from the queue to a slot while the demand is at the mark;
* `oldestQueued_since`: `OldestQueued` is the time at which the head of the queue joined it, as
  long as the head changes only to calls that joined at the same time;
* `rested_of_reached`: the time of the last activity is the last time at which the pool was busy,
  as long as no queue is given up while nothing executes.
-/

namespace HyperFaaS.Dataplane

namespace Gauge

variable {ctxErr : Nat → Option CtxErr} {now : Nat} {g g' : Gauge}

/-- The calls at the front of the queue whose contexts have ended. -/
def expired (ctxErr : Nat → Option CtxErr) (g : Gauge) : List Nat :=
  g.pending.takeWhile fun c => (ctxErr c).isSome

theorem Dispatches.executing_le (h : Dispatches ctxErr now g g') : g.executing ≤ g'.executing := by
  induction h with
  | done g => exact le_refl _
  | reject _ _ _ ih => exact ih
  | @serve g _ _ _ _ _ _ _ _ _ _ ih =>
    have hone : g.executing ≤ g.executing + 1 := by omega
    exact hone.trans ih

theorem Dispatches.closed (h : Dispatches ctxErr now g g') : g'.closed = g.closed := by
  induction h with
  | done g => rfl
  | reject _ _ _ ih => exact ih
  | serve _ _ _ ih => exact ih

theorem Dispatches.nothing (h : Dispatches ctxErr now g g') (hq : g.pending = []) : g' = g := by
  cases h with
  | done => rfl
  | reject hc _ _ =>
    rw [hq] at hc
    cases hc
  | serve hc _ _ =>
    rw [hq] at hc
    cases hc

/-- Each serving raises the mark to one above the demand, which it leaves as it is. The mark stays
if the demand is below it when the first waiter is served. -/
theorem Dispatches.highWater (h : Dispatches ctxErr now g g')
    (hlow : g.executing < g'.executing → g.total - (g.expired ctxErr).length < g.highWater) :
    g'.highWater = g.highWater ∧ g'.total ≤ g.total := by
  induction h with
  | done g => exact ⟨rfl, le_refl _⟩
  | @reject g g' c rest e hq hc h ih =>
    have htotal : g.total = (g.reject rest (.reject c (.ctx e))).total + 1 := by
      simp only [total, Gauge.reject, hq, List.length_cons]
      omega
    have hexp : g.expired ctxErr = c :: (g.reject rest (.reject c (.ctx e))).expired ctxErr := by
      simp [expired, hq, hc, Gauge.reject]
    obtain ⟨hmark, hle⟩ := ih fun hlt => by
      have hl := hlow hlt
      rw [htotal, hexp, List.length_cons] at hl
      show _ < g.highWater
      omega
    exact ⟨hmark, by omega⟩
  | @serve g g' c r rest i l b hq hc h ih =>
    have hserved : g.executing + 1 ≤ g'.executing := h.executing_le
    have hexp : g.expired ctxErr = [] := by simp [expired, hq, hc]
    have hl := hlow (by omega)
    rw [hexp] at hl
    have htotal : (g.serve now rest (.grant c r i l b)).total = g.total := by
      simp only [total, Gauge.serve, acquire, hq, List.length_cons]
      omega
    have hmark : (g.serve now rest (.grant c r i l b)).highWater = g.highWater := by
      show max g.highWater (g.total + 1) = g.highWater
      simp only [List.length_nil] at hl
      omega
    obtain ⟨hmark', hle⟩ := ih fun _ => by
      rw [htotal, hmark]
      simp only [List.length_nil] at hl
      omega
    exact ⟨hmark'.trans hmark, by omega⟩

/-- The cached time is cleared only when the last call of the queue is served. -/
theorem Dispatches.queueHead (h : Dispatches ctxErr now g g') :
    (g'.pending ≠ [] → g'.queueHead = g.queueHead) ∧
      (g'.pending = [] → (∃ c, g.pending.getLast? = some c ∧ ctxErr c = none) →
        g'.queueHead = none) ∧ g'.pending ⊆ g.pending := by
  induction h with
  | done g =>
    refine ⟨fun _ => rfl, ?_, List.Subset.refl _⟩
    rintro hq ⟨c, hc, -⟩
    rw [hq] at hc
    cases hc
  | @reject g g' c rest e hq hc h ih =>
    obtain ⟨hsame, hnone, hsub⟩ := ih
    refine ⟨hsame, ?_, ?_⟩
    · rintro hq' ⟨d, hd, hlive⟩
      refine hnone hq' ⟨d, ?_, hlive⟩
      show rest.getLast? = some d
      rw [hq] at hd
      cases rest with
      | nil =>
        simp only [List.getLast?_singleton, Option.some.injEq] at hd
        rw [← hd, hc] at hlive
        cases hlive
      | cons x rest => simpa using hd
    · rw [hq]
      exact fun x hx => List.mem_cons_of_mem c (hsub hx)
  | @serve g g' c r rest i l b hq hc h ih =>
    obtain ⟨hsame, hnone, hsub⟩ := ih
    refine ⟨fun hne => ?_, ?_, ?_⟩
    · have hrest : rest ≠ [] := by
        intro hrest
        refine hne ?_
        rw [h.nothing hrest]
        exact hrest
      refine (hsame hne).trans ?_
      show (if rest = [] then none else g.queueHead) = g.queueHead
      rw [if_neg hrest]
    · rintro hq' ⟨d, hd, hlive⟩
      rw [hq] at hd
      cases rest with
      | nil =>
        rw [h.nothing rfl]
        rfl
      | cons x rest =>
        refine hnone hq' ⟨d, ?_, hlive⟩
        show (x :: rest).getLast? = some d
        simpa using hd
    · rw [hq]
      exact fun x hx => List.mem_cons_of_mem c (hsub hx)

end Gauge

namespace World

variable {w w' : World} {a : Action}

def demand (w : World) : Int := w.pool.executing + w.pool.pending.length

/-- Nothing executes and nothing is queued. -/
def Idle (w : World) : Prop := w.pool.executing = 0 ∧ w.pool.pending = []

instance (w : World) : Decidable w.Idle := inferInstanceAs (Decidable (_ ∧ _))

/-- What the observer writes down: the greatest demand since the last `TakeHighWater`, the time at
which a call joined the queue, and the last time at which the pool was busy. -/
structure Record where
  peak : Int
  since : Nat → Nat
  lastBusy : Option Nat

def note (g : Record) (w : World) (a : Action) (w' : World) : Record where
  peak := if a = .takeHighWater then w'.demand else max g.peak w'.demand
  since := fun c =>
    if c ∈ w'.pool.pending ∧ c ∉ w.pool.pending then w'.clock else g.since c
  lastBusy := if w.Idle ∧ w'.Idle then g.lastBusy else some w'.clock

/-- The observer starts with the pool, at a time after the zero of the clock. -/
def watched : Lib.Machine (World × Record) Action Fault :=
  machine.watch (fun w g => 0 < w.clock ∧ g = ⟨0, fun _ => 0, none⟩) note

/-! ## The high-water mark -/

/-- The step gives slots to waiters. -/
def serves (w : World) (a : Action) : Bool :=
  match w.step a with
  | .ok w' => a.dispatches && decide (w.pool.executing < w'.pool.executing)
  | .error _ => false

/-- When the step serves a waiter, the demand is below the mark: a served waiter is counted twice
for a moment. Calls that have given up leave the front of the queue first. -/
def belowMark (w : World) (a : Action) : Prop :=
  w.serves a = true → w.demand - (w.gauge.expired w.ctxErr).length < w.pool.highWater

instance (w : World) (a : Action) : Decidable (w.belowMark a) :=
  inferInstanceAs (Decidable (_ → _))

variable {t : Nat}

theorem Turn.highWater {g : Gauge} (h : Turn w a g t)
    (hlow : a.dispatches = true → w.pool.executing < g.executing →
      w.demand - (w.gauge.expired w.ctxErr).length < w.pool.highWater)
    (hle : w.demand ≤ w.pool.highWater) : g.highWater = max w.pool.highWater g.total := by
  cases h with
  | quiet _ => exact (max_eq_left hle).symm
  | ret c o => exact (max_eq_left hle).symm
  | grant _ hq =>
    show max w.pool.highWater (w.gauge.total + 1) = max w.pool.highWater _
    congr 1
    simp only [Gauge.record, Gauge.acquire, Gauge.total, SandboxPool.gauge]
    omega
  | enqueue _ =>
    show max w.pool.highWater (w.gauge.total + 1) = max w.pool.highWater _
    congr 1
    simp only [Gauge.enqueue, Gauge.total, List.length_append, List.length_singleton]
    omega
  | @withdraw c e _ =>
    have hlen : (w.pool.pending.erase c).length ≤ w.pool.pending.length :=
      List.length_erase_le
    refine (max_eq_left (le_trans ?_ hle)).symm
    show w.pool.executing + ((w.pool.pending.erase c).length : Int) ≤ w.demand
    unfold demand
    omega
  | dispatch ha hd =>
    obtain ⟨hmark, htotal⟩ := hd.highWater (hlow ha)
    rw [hmark]
    exact (max_eq_left (htotal.trans hle)).symm
  | @release _ e r _ _ _ _ hd =>
    have hdrop : ((w.gauge.record e).drop w.clock).total = w.demand - 1 := by
      simp only [Gauge.total, Gauge.drop, Gauge.record, SandboxPool.gauge, demand]
      omega
    obtain ⟨hmark, htotal⟩ := hd.highWater fun _ => by
      rw [hdrop]
      show _ < w.pool.highWater
      omega
    rw [hmark]
    refine (max_eq_left (le_trans ?_ hle)).symm
    omega
  | close _ =>
    refine (max_eq_left (le_trans ?_ hle)).symm
    show w.pool.executing + (([] : List Nat).length : Int) ≤ w.demand
    simp [demand]

/-- The mark is the greatest demand. -/
def Peaked (w : World) (g : Record) : Prop := w.pool.highWater = g.peak ∧ w.demand ≤ g.peak

theorem Peaked.step {g : Record} (h : Peaked w g) (hok : w.belowMark a) (hs : w.step a = .ok w') :
    Peaked w' (note g w a w') := by
  by_cases ha : a = .takeHighWater
  · subst ha
    cases hs
    exact ⟨rfl, le_refl _⟩
  · have hmark := (step_turn hs ha).highWater ?_ (h.1 ▸ h.2)
    · simp only [Peaked, note, if_neg ha]
      exact ⟨by rw [← h.1]; exact hmark, le_max_right _ _⟩
    · intro hd hlt
      refine hok ?_
      simp only [serves, hs, hd, Bool.true_and, decide_eq_true_eq]
      exact hlt

/-- **`TakeHighWater`** returns the greatest demand between critical sections since the last one. -/
theorem takeHighWater_peak {x : World × Record}
    (hx : watched.ReachesWhile (fun x a => x.1.belowMark a) x) :
    x.1.pool.takeHighWater.2 = x.2.peak := by
  have hpeak : Peaked x.1 x.2 := by
    refine hx.watch_invariant (J := fun _ => True) (fun _ _ => trivial) ?_ ?_
    · rintro _ g ⟨limit, depth, clock, rfl⟩ ⟨-, rfl⟩
      exact ⟨rfl, le_refl _⟩
    · exact fun w g a w' _ h hok hs => h.step hok hs
  show (if x.1.pool.highWater > x.1.demand then x.1.pool.highWater else x.1.demand) = x.2.peak
  rw [hpeak.1]
  split
  · rfl
  · exact le_antisymm hpeak.2 (by omega)

/-- One call executes and another waits: the release serves the second. -/
theorem takeHighWater_peak_two : ∃ x : World × Record, x.1.pool.executing = 1 ∧
    x.1.pool.takeHighWater.2 = 2 ∧ x.2.peak = 2 := by
  obtain ⟨x, hx, hone, hpeak⟩ := watched.exists_while_of_run (P := fun x a => x.1.belowMark a)
    (Q := fun x => x.1.pool.executing = 1 ∧ x.2.peak = 2) (init 1 2 5, ⟨0, fun _ => 0, none⟩)
    [.add ⟨7, 1, "a:1", "http"⟩, .acquire, .check 0, .enter 0, .acquire, .check 1, .enter 1,
      .releaseLease 0, .finishRelease 0] ⟨⟨1, 2, 5, rfl⟩, by decide, rfl⟩ (by decide)
  exact ⟨x, hone, (takeHighWater_peak hx).trans hpeak, hpeak⟩

/-- A call waits in an empty pool and gets the first sandbox: the demand is one all the time, and
`TakeHighWater` returns two. -/
theorem takeHighWater_counts_twice : ∃ x : World × Record, watched.Reachable x ∧
    x.2.peak = 1 ∧ x.1.pool.takeHighWater.2 = 2 := by
  exact watched.exists_of_run (init 1 2 5, ⟨0, fun _ => 0, none⟩)
    [.acquire, .check 0, .enter 0, .add ⟨7, 1, "a:1", "http"⟩]
    ⟨⟨1, 2, 5, rfl⟩, by decide, rfl⟩ (by decide)

/-! ## The age of the queue -/

/-- The queue after a step. -/
def queueAfter (w : World) (a : Action) : List Nat :=
  match w.step a with
  | .ok w' => w'.pool.pending
  | .error _ => w.pool.pending

/-- The head of the queue stays, or its successor joined at the same time; and the queue is
emptied by a slot for its last call or by the withdrawal of it. -/
def sameAge (x : World × Record) (a : Action) : Bool :=
  match x.1.pool.pending, x.1.queueAfter a with
  | c :: _, d :: _ => decide (x.2.since c = x.2.since d)
  | c :: rest, [] =>
      decide (a = .withdraw c) || decide (a = .close) ||
        ((c :: rest).getLast?.bind x.1.ctxErr).isNone
  | [], _ => true

/-- The cached time is that of the head of the queue. -/
def Aged (w : World) (g : Record) : Prop :=
  w.pool.closed = false → w.pool.queueHead = w.pool.pending.head?.map g.since

theorem note_since {g : Record} {c : Nat} (hc : c ∈ w.pool.pending) :
    (note g w a w').since c = g.since c := by
  simp [note, hc]

theorem map_since {g : Record} (l : List Nat) (hl : l ⊆ w.pool.pending) :
    l.head?.map (note g w a w').since = l.head?.map g.since := by
  cases l with
  | nil => rfl
  | cons c l => simp [note_since (hl List.mem_cons_self)]

/-- A dispatch, of the pool itself or after a release. -/
theorem Aged.dispatch {g : Record} {q : Gauge} (hq : q.pending = w.pool.pending)
    (hh : q.queueHead = w.pool.pending.head?.map g.since)
    (hd : Gauge.Dispatches w.ctxErr w.clock q w'.gauge)
    (ha : ∀ c, a ≠ .withdraw c) (hclose : a ≠ .close) (hafter : w.queueAfter a = w'.pool.pending)
    (hok : sameAge (w, g) a = true) :
    w'.pool.queueHead = w'.pool.pending.head?.map (note g w a w').since := by
  obtain ⟨hsame, hnone, hsub⟩ := hd.queueHead
  have hsub : w'.pool.pending ⊆ w.pool.pending := hq ▸ hsub
  rw [hq] at hnone
  rw [map_since _ hsub]
  simp only [sameAge, hafter] at hok
  cases hp : w.pool.pending with
  | nil =>
    have hgauge := hd.nothing (hq.trans hp)
    have hnil : w'.pool.pending = [] := List.subset_nil.mp (hp ▸ hsub)
    have hhead : w'.pool.queueHead = q.queueHead := congrArg Gauge.queueHead hgauge
    rw [hnil, hhead, hh, hp]
  | cons c rest =>
    rw [hp] at hok
    cases hp' : w'.pool.pending with
    | nil =>
      rw [hp'] at hok
      simp only [ha c, hclose, decide_false, Bool.false_or, Option.isNone_iff_eq_none] at hok
      refine hnone hp' ?_
      rw [hp]
      obtain ⟨d, hlast⟩ : ∃ d, (c :: rest).getLast? = some d :=
        ⟨_, List.getLast?_eq_some_getLast (by simp)⟩
      rw [hlast] at hok
      exact ⟨d, hlast, hok⟩
    | cons d rest' =>
      rw [hp'] at hok
      have hne : w'.gauge.pending ≠ [] := by
        show w'.pool.pending ≠ []
        simp [hp']
      have hhead : w'.pool.queueHead = q.queueHead := hsame hne
      rw [hhead, hh, hp]
      simpa using hok

theorem Turn.aged {g : Record} {q : Gauge} (hinv : w.Inv False) (h : Aged w g)
    (hok : sameAge (w, g) a = true) (hafter : w.queueAfter a = w'.pool.pending) (hq : w'.gauge = q)
    (ht : w'.clock = t) (hturn : Turn w a q t) : Aged w' (note g w a w') := by
  have hpend : w'.pool.pending = q.pending := congrArg Gauge.pending hq
  have hhead : w'.pool.queueHead = q.queueHead := congrArg Gauge.queueHead hq
  have hcl : w'.pool.closed = q.closed := congrArg Gauge.closed hq
  intro hopen
  rw [hcl] at hopen
  cases hturn with
  | quiet _ | ret c o =>
    rw [hpend, hhead]
    exact (h hopen).trans (map_since (w := w) w.pool.pending (List.Subset.refl _)).symm
  | grant _ _ =>
    rw [hpend, hhead]
    exact (h hopen).trans (map_since (w := w) w.pool.pending (List.Subset.refl _)).symm
  | @enqueue c n d hpc =>
    have hnot := (hinv.queue.not_queued hpc).2.2
    rw [hhead]
    show w.pool.queueHead.or (some w.clock) = _
    rw [h hopen, hpend]
    cases hp : w.pool.pending with
    | nil =>
      have hc : (note g w (.enter c) w').since c = w.clock := by
        have hin : c ∈ w'.pool.pending := by
          rw [hpend]
          simp [Gauge.enqueue]
        simp [note, hin, hnot, ht]
      simp [Gauge.enqueue, SandboxPool.gauge, hp, hc]
    | cons x rest =>
      have hx : (note g w (.enter c) w').since x = g.since x := note_since (by simp [hp])
      simp [Gauge.enqueue, SandboxPool.gauge, hp, hx]
  | @withdraw c e hc =>
    rw [hpend, hhead]
    show (if w.pool.pending.erase c = [] then none else w.pool.queueHead) =
      (w.pool.pending.erase c).head?.map _
    rw [map_since _ List.erase_subset]
    cases hp' : w.pool.pending.erase c with
    | nil => rfl
    | cons d rest' =>
      have hafter : w.queueAfter (.withdraw c) = d :: rest' := (hafter.trans hpend).trans hp'
      rw [if_neg (by simp), h hopen]
      cases hp : w.pool.pending with
      | nil => simp [hp] at hp'
      | cons x rest =>
        simp only [sameAge, hafter, hp, decide_eq_true_eq] at hok
        simp [hok]
  | dispatch ha hd =>
    have hopen : w.pool.closed = false := hd.closed.symm.trans hopen
    refine Aged.dispatch (q := w.gauge) rfl (h hopen) (hq ▸ hd) ?_ ?_ hafter hok
    · rintro c rfl
      cases ha
    · rintro rfl
      cases ha
  | release ha _ _ hd =>
    have hopen : w.pool.closed = false := hd.closed.symm.trans hopen
    refine Aged.dispatch rfl (h hopen) (hq ▸ hd) ?_ ?_ hafter hok
    · rintro c rfl
      cases ha
    · rintro rfl
      cases ha
  | close _ => cases hopen

/-- **`OldestQueued`** is the time at which the head of the queue joined it. -/
theorem oldestQueued_since {x : World × Record}
    (hx : watched.ReachesWhile (fun x a => sameAge x a = true) x) (hopen : x.1.pool.closed = false) :
    x.1.pool.snapshot.oldestQueued = x.1.pool.pending.head?.map x.2.since := by
  have haged : Aged x.1 x.2 := by
    refine hx.watch_invariant (fun _ => inv_of_reachable) ?_ ?_
    · rintro _ g ⟨limit, depth, clock, rfl⟩ _
      exact fun _ => rfl
    · intro w g a w' hinv h hok hs
      have hs : w.step a = .ok w' := hs
      have hafter : w.queueAfter a = w'.pool.pending := by simp [queueAfter, hs]
      by_cases ha : a = .takeHighWater
      · subst ha
        cases hs
        exact fun hc => (h hc).trans (map_since (w := w) w.pool.pending (List.Subset.refl _)).symm
      · exact Turn.aged hinv h hok hafter rfl rfl (step_turn hs ha)
  exact haged hopen

/-- Two calls that joined the queue at time 5. -/
theorem oldestQueued_since_five : ∃ x : World × Record, x.1.pool.pending = [1] ∧
    x.1.pool.snapshot.oldestQueued = some 5 := by
  obtain ⟨x, hx, hopen, hq, hs⟩ := watched.exists_while_of_run (P := fun x a => sameAge x a = true)
    (Q := fun x => x.1.pool.closed = false ∧ x.1.pool.pending = [1] ∧ x.2.since 1 = 5)
    (init 1 2 5, ⟨0, fun _ => 0, none⟩)
    [.acquire, .check 0, .enter 0, .acquire, .check 1, .enter 1, .tick 3,
      .add ⟨7, 1, "a:1", "http"⟩] ⟨⟨1, 2, 5, rfl⟩, by decide, rfl⟩ (by decide)
  refine ⟨x, hq, (oldestQueued_since hx hopen).trans ?_⟩
  rw [hq]
  simp [hs]

/-- Call 0 joined at 5 and call 1 at 8. Call 0 withdraws, and the head of the queue keeps the age
of call 0; so it does when the queue is emptied by the end of its contexts. -/
theorem oldestQueued_stale :
    (∃ x : World × Record, watched.Reachable x ∧ x.1.pool.closed = false ∧
      x.1.pool.pending = [1] ∧ x.2.since 1 = 8 ∧ x.1.pool.snapshot.oldestQueued = some 5) ∧
    ∃ x : World × Record, watched.Reachable x ∧ x.1.pool.closed = false ∧
      x.1.pool.pending = [] ∧ x.1.pool.snapshot.oldestQueued = some 5 := by
  constructor
  · exact watched.exists_of_run (init 1 2 5, ⟨0, fun _ => 0, none⟩)
      [.acquire, .check 0, .enter 0, .tick 3, .acquire, .check 1, .enter 1, .cancel 0 .canceled,
        .giveUp 0, .withdraw 0] ⟨⟨1, 2, 5, rfl⟩, by decide, rfl⟩ (by decide)
  · exact watched.exists_of_run (init 1 2 5, ⟨0, fun _ => 0, none⟩)
      [.acquire, .check 0, .enter 0, .cancel 0 .canceled, .add ⟨7, 1, "a:1", "http"⟩]
      ⟨⟨1, 2, 5, rfl⟩, by decide, rfl⟩ (by decide)

/-! ## The time without activity -/

theorem Ledger.inFlight_le (h : w.Ledger) (r : Nat) :
    (w.pool.heap r).inFlight ≤ w.pool.executing := by
  rw [h.inFlight, h.executing]
  exact_mod_cast Nat.count_mono_left fun c _ hc => by simp [hc]

theorem Ledger.executing_nonneg (h : w.Ledger) : 0 ≤ w.pool.executing := by
  rw [h.executing]
  exact Int.natCast_nonneg _

/-- The step takes the last calls out of the queue while nothing executes. -/
def abandons (w : World) (a : Action) : Prop :=
  w.pool.pending ≠ [] ∧ match w.step a with
    | .ok w' => w'.Idle
    | .error _ => False

instance (w : World) (a : Action) : Decidable (w.abandons a) := by
  unfold abandons
  cases w.step a with
  | ok w' => exact inferInstanceAs (Decidable (_ ∧ w'.Idle))
  | error e => exact inferInstanceAs (Decidable (_ ∧ False))

/-- With nothing queued, the pool comes to rest by the release of the last slot. -/
theorem Turn.rests {g : Gauge} (h : Turn w a g t) (hinv : w.Inv False) (hq : w.pool.pending = [])
    (hrest : g.executing = 0 ∧ g.pending = []) : (w.Idle → g.lastActivity = w.pool.lastActivity) ∧
      (¬ w.Idle → g.lastActivity = w.clock ∧ t = w.clock) := by
  have hpos := hinv.ledger.executing_nonneg
  cases h with
  | quiet _ | ret _ _ => exact ⟨fun _ => rfl, fun hb => absurd ⟨hrest.1, hq⟩ hb⟩
  | grant _ _ =>
    have hone : w.pool.executing + 1 = 0 := hrest.1
    omega
  | @enqueue c _ _ _ =>
    have hnil : w.pool.pending ++ [c] = [] := hrest.2
    simp at hnil
  | withdraw _ | close _ => exact ⟨fun _ => rfl, fun hb => absurd ⟨hrest.1, hq⟩ hb⟩
  | dispatch _ hd =>
    rw [hd.nothing hq] at hrest ⊢
    exact ⟨fun _ => rfl, fun hb => absurd hrest hb⟩
  | release _ _ _ hd =>
    rw [hd.nothing hq] at hrest ⊢
    have hone : w.pool.executing - 1 = 0 := hrest.1
    refine ⟨fun hi => ?_, fun _ => ⟨if_pos ⟨hone, hq⟩, rfl⟩⟩
    have hzero := hi.1
    omega

theorem Turn.unmarked {g : Gauge} (h : Turn w a g t) (hinv : w.Inv False) (hidle : w.Idle)
    (hrest : g.total ≤ 0) : g.highWater = w.pool.highWater := by
  cases h with
  | quiet _ | ret _ _ | withdraw _ | close _ => rfl
  | grant _ _ =>
    have hone : w.pool.executing + 1 + (w.pool.pending.length : Int) ≤ 0 := hrest
    have hzero := hidle.1
    omega
  | @enqueue c _ _ _ =>
    have hone : w.pool.executing + ((w.pool.pending ++ [c]).length : Int) ≤ 0 := hrest
    have hzero := hidle.1
    simp only [List.length_append, List.length_singleton] at hone
    omega
  | dispatch _ hd =>
    rw [hd.nothing hidle.2]
    rfl
  | @release _ _ r _ _ _ hr _ =>
    have hle := hinv.ledger.inFlight_le r
    have hzero := hidle.1
    omega

/-- What the record says about the pool: the last activity ended the last busy time, and the mark
shows no demand that was not there. -/
structure Rested (w : World) (g : Record) : Prop where
  clock : 0 < w.clock
  idle : w.Idle → (g.lastBusy = none ∧ w.pool.lastActivity = 0) ∨
    (g.lastBusy = some w.pool.lastActivity ∧ 0 < w.pool.lastActivity)
  demand : w.demand ≤ g.peak
  mark : g.peak ≤ 0 → w.pool.highWater ≤ 0

theorem Rested.step {g : Record} (h : Rested w g) (hinv : w.Inv False) (hok : ¬ w.abandons a)
    (hs : w.step a = .ok w') : Rested w' (note g w a w') := by
  by_cases ha : a = .takeHighWater
  · subst ha
    cases hs
    refine ⟨h.clock, fun hi => ?_, le_refl _, fun hp => hp⟩
    have hboth : w.Idle ∧ (w.setPool w.pool.takeHighWater.1).Idle := ⟨hi, hi⟩
    simp only [note, if_pos hboth]
    exact h.idle hi
  have hturn := step_turn hs ha
  have hle : w.clock ≤ w'.clock := by
    generalize hg : w'.gauge = q, ht : w'.clock = t at hturn
    cases hturn with
    | quiet hle => exact hle
    | _ => exact Nat.le_refl _
  have hpos := h.clock
  refine ⟨by omega, fun hi => ?_, ?_, ?_⟩
  · have hq : w.pool.pending = [] := by
      by_contra hne
      exact hok ⟨hne, by rw [hs]; exact hi⟩
    obtain ⟨hsame, hend⟩ := hturn.rests hinv hq hi
    by_cases hw : w.Idle
    · have hact : w'.pool.lastActivity = w.pool.lastActivity := hsame hw
      simp only [note, if_pos (And.intro hw hi), hact]
      exact h.idle hw
    · obtain ⟨hact, hclock⟩ := hend hw
      have hact : w'.pool.lastActivity = w.clock := hact
      have hnot : ¬ (w.Idle ∧ w'.Idle) := fun hboth => hw hboth.1
      simp only [note, if_neg hnot, hact, hclock]
      exact .inr ⟨trivial, hpos⟩
  · simp only [note, if_neg ha]
    exact le_max_right _ _
  · simp only [note, if_neg ha]
    intro hp
    obtain ⟨hpeak, hdemand⟩ := max_le_iff.mp hp
    have hidle : w.Idle := by
      have hlow := h.demand.trans hpeak
      have hnonneg := hinv.ledger.executing_nonneg
      simp only [World.demand] at hlow
      refine ⟨by omega, List.eq_nil_of_length_eq_zero (by omega)⟩
    have hmark : w'.pool.highWater = w.pool.highWater := hturn.unmarked hinv hidle hdemand
    rw [hmark]
    exact h.mark hpeak

/-- **Run lemma.** -/
theorem rested_of_reached {x : World × Record}
    (hx : watched.ReachesWhile (fun x a => ¬ x.1.abandons a) x) : Rested x.1 x.2 := by
  refine hx.watch_invariant (fun _ => inv_of_reachable) ?_ ?_
  · rintro _ g ⟨limit, depth, clock, rfl⟩ ⟨hclock, rfl⟩
    exact ⟨hclock, fun _ => .inl ⟨rfl, rfl⟩, le_refl _, fun _ => le_refl _⟩
  · exact fun w g a w' hinv h hok hs => h.step hinv hok hs

end World

end HyperFaaS.Dataplane
