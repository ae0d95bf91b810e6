import HyperFaaS.Dataplane.PoolDrain
import HyperFaaS.Dataplane.PoolTurns

/-!
The pool over whole runs. `step_fine` puts the action lemmas together: from a
state in order every action either is not enabled or runs without a fault into a
state in order. What follows holds for every configuration and every
interleaving of critical sections:

* `pool_ledger`: the counters, the ready list and the slots agree;
* `pool_admission`: waiters are bounded, served in order and answered once, and
  slots nobody uses come back;
* `drain_calm`: the drain protocol, in runs in which no last lease of a draining
  sandbox is released after `Close`; `drain_missed` is a run with such a release.
-/

namespace HyperFaaS.Dataplane

open SandboxPool Event

namespace World

variable {calm : Prop}

/-! ## The start and the environment -/

theorem init_inv (limit depth : Int) (clock : Nat) : (init limit depth clock).Inv calm where
  map := ⟨normalizeLimit_pos limit, by simp [init, newSandboxPool, blank],
    rfl⟩
  ledger := ⟨fun _ => rfl, rfl, rfl, rfl, by simp [slot, init]⟩
  queue := ⟨fun _ _ => rfl,
    by simp [WaiterOK, init, newSandboxPool, blank],
    by simp [init, newSandboxPool, blank], List.nodup_nil,
    by simp [gaveUp, init], fun _ _ => rfl, by simp [init], fun _ => rfl,
    by simp [told, init, newSandboxPool, blank]⟩
  drain := by
    refine ⟨fun _ _ => rfl, ?_, ?_, ?_, ?_, ?_, fun _ _ => rfl, ?_, ?_, ?_⟩ <;>
      simp [init, newSandboxPool, blank, draining]
  log := by
    refine ⟨rfl, ?_, ?_, ?_, ?_, ?_, ?_, ?_, ?_⟩ <;>
      simp [init, newSandboxPool, blank, hasReturned, kept, slot]
  ready := fun _ => by
    refine ⟨List.nodup_nil, ?_, ?_⟩ <;>
      simp [init, newSandboxPool, blank, free,
        live, inMap]
  busy := fun _ hq => absurd rfl hq

variable {w w' : World} {r c : Nat}

theorem tick_inv (h : w.Inv calm) (d : Nat) :
    ({ w with clock := w.clock + d } : World).Inv calm where
  map := h.map
  ledger := h.ledger.congr (slot_congr rfl rfl rfl) rfl (fun _ => rfl) rfl rfl rfl rfl
  queue := h.queue.congr rfl rfl rfl rfl rfl rfl rfl
  drain := h.drain.congr rfl rfl rfl rfl rfl rfl (fun _ => rfl) (fun _ => rfl) (fun _ => rfl)
    (fun _ _ => rfl)
  log := h.log.congr rfl rfl (slot_congr rfl rfl rfl) rfl rfl
  ready := h.ready
  busy := h.busy

theorem cancel_inv (h : w.Inv calm) (c : Nat) (e : CtxErr) :
    ({ w with ctxErr := Function.update w.ctxErr c (some ((w.ctxErr c).getD e)) } : World).Inv
      calm where
  map := h.map
  ledger := h.ledger.congr (slot_congr rfl rfl rfl) rfl (fun _ => rfl) rfl rfl rfl rfl
  queue := {
    h.queue with
    ctx := by
      intro j hj
      by_cases hjc : j = c
      · subst hjc; simp
      · simpa [hjc] using h.queue.ctx j hj
    own := by
      intro j e' hj
      have hown := h.queue.own j e' hj
      by_cases hjc : j = c
      · subst hjc; simp [hown]
      · simpa [hjc] using hown }
  drain := h.drain.congr rfl rfl rfl rfl rfl rfl (fun _ => rfl) (fun _ => rfl) (fun _ => rfl)
    (fun _ _ => rfl)
  log := h.log.congr rfl rfl (slot_congr rfl rfl rfl) rfl rfl
  ready := h.ready
  busy := h.busy

theorem cancelDrain_inv (h : w.Inv calm) (d : Nat) (e : CtxErr) :
    ({ w with drainCtx := Function.update w.drainCtx d (some ((w.drainCtx d).getD e)) } :
      World).Inv calm where
  map := h.map
  ledger := h.ledger.congr (slot_congr rfl rfl rfl) rfl (fun _ => rfl) rfl rfl rfl rfl
  queue := h.queue.congr rfl rfl rfl rfl rfl rfl rfl
  drain := {
    h.drain with
    expired := by
      intro d' id r hd
      by_cases hdd : d' = d
      · subst hdd; simp
      · simpa [hdd] using h.drain.expired d' id r hd }
  log := h.log.congr rfl rfl (slot_congr rfl rfl rfl) rfl rfl
  ready := h.ready
  busy := h.busy

theorem takeHighWater_inv (h : w.Inv calm) : (w.setPool w.pool.takeHighWater.1).Inv calm where
  map := h.map.congr rfl rfl rfl rfl (fun _ => rfl) (fun _ => rfl)
  ledger := h.ledger.congr (slot_congr rfl rfl rfl) rfl (fun _ => rfl) rfl rfl rfl rfl
  queue := h.queue.congr rfl rfl rfl rfl rfl rfl rfl
  drain := h.drain.congr rfl rfl rfl rfl rfl rfl (fun _ => rfl) (fun _ => rfl) (fun _ => rfl)
    (fun _ _ => rfl)
  log := h.log.congr rfl rfl (slot_congr rfl rfl rfl) rfl rfl
  ready := fun hc => (h.ready hc).congr rfl (fun _ => rfl) (fun x _ => (h.ready hc).exact x id)
  busy := h.busy

theorem acquire_inv (h : w.Inv calm) :
    ({ w.setPC w.ncalls .checking with ncalls := w.ncalls + 1 } : World).Inv calm := by
  have hidle : w.pc w.ncalls = .idle := h.queue.idle _ (Nat.le_refl _)
  have hpc : ∀ j, j ≠ w.ncalls → (w.setPC w.ncalls .checking).pc j = w.pc j := by
    intro j hj
    simp [hj]
  have hs : ({ w.setPC w.ncalls .checking with ncalls := w.ncalls + 1 } : World).slot = w.slot := by
    funext j
    by_cases hj : j = w.ncalls
    · subst hj; simp [slot, hidle]
    · exact slot_other (hpc j hj) rfl rfl
  have hnone : w.slot w.ncalls = none := by simp [slot, hidle]
  have hwait := h.queue.waiter w.ncalls
  simp only [WaiterOK, hidle] at hwait
  refine { map := h.map, ledger := ?_, queue := ?_, drain := ?_, log := ?_, ready := h.ready,
           busy := h.busy }
  · refine ⟨?_, ?_, h.ledger.total, h.ledger.counted, ?_⟩
    · intro r
      rw [hs, Nat.count_succ]
      simpa [hnone] using h.ledger.inFlight r
    · rw [hs, Nat.count_succ]
      simpa [hnone] using h.ledger.executing
    · rw [hs]
      exact h.ledger.slot_lt
  · refine ⟨?_, ?_, h.queue.queued, h.queue.nodup, ?_, ?_, h.queue.flags, h.queue.closed, ?_⟩
    · intro j hj
      have hle : w.ncalls + 1 ≤ j := hj
      exact (hpc j (by omega)).trans (h.queue.idle j (by omega))
    · intro j
      by_cases hj : j = w.ncalls
      · subst hj; simpa [WaiterOK] using hwait
      · have := h.queue.waiter j
        simpa [hj] using this
    · intro j hj
      by_cases hjn : j = w.ncalls
      · subst hjn; simp [gaveUp] at hj
      · exact h.queue.ctx j (by simpa [hjn] using hj)
    · intro j hj
      by_cases hjn : j = w.ncalls
      · subst hjn; exact h.queue.lease _ (by simp [hidle])
      · exact h.queue.lease j (by simpa [hjn] using hj)
    · intro j e hj
      by_cases hjn : j = w.ncalls
      · subst hjn; simp [told, hwait] at hj
      · exact h.queue.own j e (by simpa [told, hjn] using hj)
  · exact h.drain.congr rfl rfl rfl rfl rfl rfl (fun _ => rfl) (fun _ => rfl) (fun _ => rfl)
      (fun _ _ => rfl)
  · refine h.log.still rfl rfl ?_ ?_ ?_ (fun _ => rfl) (congrFun hs) ?_
    · intro j
      by_cases hj : j = w.ncalls
      · subst hj; simp [hidle, hasReturned]
      · simp [hj]
    · intro j
      by_cases hj : j = w.ncalls
      · subst hj
        rw [kept_of_not_returned (by simp [hasReturned]), hs,
          kept_of_not_returned (by simp [hidle, hasReturned])]
      · simp only [kept, hs]
        rw [show ({ w.setPC w.ncalls .checking with ncalls := w.ncalls + 1 } : World).pc j =
          w.pc j from hpc j hj]
    · intro j hj
      by_cases hjn : j = w.ncalls
      · subst hjn; simp [hidle, afterGiveBack] at hj
      · simpa [hjn] using hj
    · intro j o
      by_cases hj : j = w.ncalls
      · subst hj; simp [hidle]
      · simp [hj]

theorem drain_inv (h : w.Inv calm) (id : Nat) :
    ({ w.setDrain w.ndrains (.locking id) with ndrains := w.ndrains + 1 } : World).Inv calm := by
  have hidle : w.drain w.ndrains = .idle := h.drain.idle _ (Nat.le_refl _)
  have hopen : w.pool.drainedClosed w.ndrains = false :=
    h.drain.unmadeOpen _ (by rw [hidle]; exact Or.inl rfl)
  refine { map := h.map, ledger := ?_, queue := ?_, drain := ?_, log := ?_, ready := h.ready,
           busy := h.busy }
  · exact h.ledger.congr (slot_congr rfl rfl rfl) rfl (fun _ => rfl) rfl rfl rfl rfl
  · exact h.queue.congr rfl rfl rfl rfl rfl rfl rfl
  · refine ⟨?_, ?_, h.drain.both, ?_, h.drain.uniq, h.drain.closedZero, ?_, ?_, ?_, h.drain.quiet⟩
    · intro d hd
      have hle : w.ndrains + 1 ≤ d := hd
      have hne : d ≠ w.ndrains := by omega
      simpa [hne] using h.drain.idle d (by omega)
    · intro d i r hd
      by_cases hdn : d = w.ndrains
      · subst hdn; simp [draining] at hd
      · exact h.drain.mark d i r (by simpa [hdn] using hd)
    · intro r d hr
      refine ⟨(h.drain.made r d hr).1, ?_⟩
      have hdn : d ≠ w.ndrains := by
        rintro rfl
        exact (h.drain.made r _ hr).2 (by rw [hidle]; exact Or.inl rfl)
      simpa [hdn] using (h.drain.made r d hr).2
    · intro d hd
      by_cases hdn : d = w.ndrains
      · subst hdn; exact hopen
      · exact h.drain.unmadeOpen d (by simpa [hdn] using hd)
    · intro d i r hd
      by_cases hdn : d = w.ndrains
      · subst hdn; simp at hd
      · exact h.drain.handed d i r (by simpa [hdn] using hd)
    · intro d i r hd
      by_cases hdn : d = w.ndrains
      · subst hdn; simp at hd
      · exact h.drain.expired d i r (by simpa [hdn] using hd)
  · exact h.log.congr rfl rfl (slot_congr rfl rfl rfl) rfl rfl

/-! ## Every step -/

/-- The sandbox on which an action gives a slot up. -/
def givesUp (w : World) : Action → Option Nat
  | .giveBack c =>
      match w.pc c with
      | .givingBack r => some r
      | _ => none
  | .finishRelease c =>
      match w.pc c with
      | .returned (.lease r) => if (w.lease c).releasing then some r else none
      | _ => none
  | _ => none

/-- The action gives up the last slot of a draining sandbox of a closed pool. -/
def LateLast (w : World) (a : Action) : Prop :=
  w.pool.closed = true ∧ ∃ r ∈ w.givesUp a, (w.pool.heap r).draining = true ∧
    (w.pool.heap r).inFlight = 1

instance (w : World) (a : Action) : Decidable (w.LateLast a) :=
  inferInstanceAs (Decidable (_ ∧ ∃ r ∈ w.givesUp a, _))

/-- **Step lemma.** -/
theorem step_fine (h : w.Inv calm) (a : Action) (hcalm : calm → ¬ w.LateLast a) :
    Fine calm (w.step a) := by
  have hmap : ∀ {x : Except Fault SandboxPool},
      (∃ p, x = .ok p ∧ (w.setPool p).Inv calm) → Fine calm (x.map w.setPool) := by
    rintro x ⟨p, rfl, hp⟩
    exact Or.inr ⟨_, rfl, hp⟩
  cases a with
  | tick d => exact Or.inr ⟨_, rfl, tick_inv h d⟩
  | configure limit depth order =>
    simp only [step]
    split
    · rename_i hord
      exact hmap (configure_fine h limit depth order hord)
    · exact Or.inl rfl
  | add target => exact hmap (add_fine h target)
  | sync targets order wanted =>
    simp only [step]
    split
    · exact hmap (sync_fine h order wanted)
    · exact Or.inl rfl
  | remove id => exact Or.inr ⟨_, rfl, remove_fine h id⟩
  | close => exact hmap (close_fine h)
  | takeHighWater => exact Or.inr ⟨_, rfl, takeHighWater_inv h⟩
  | acquire => exact Or.inr ⟨_, rfl, acquire_inv h⟩
  | cancel c e => exact Or.inr ⟨_, rfl, cancel_inv h c e⟩
  | check c => exact check_fine h c
  | enter c => exact enter_fine h c
  | receive c => exact receive_fine h c
  | confirm c => exact confirm_fine h c
  | giveUp c => exact giveUp_fine h c
  | withdraw c => exact withdraw_fine h c
  | collect c => exact collect_fine h c
  | giveBack c =>
    refine giveBack_fine h c (fun hc r hp hlate => hcalm hc ⟨hlate.1, r, ?_, hlate.2⟩)
    simp [givesUp, hp]
  | leave c => exact leave_fine h c
  | releaseLease c => exact releaseLease_fine h c
  | finishRelease c =>
    refine finishRelease_fine h c (fun hc r hp hrel hlate => hcalm hc ⟨hlate.1, r, ?_, hlate.2⟩)
    simp [givesUp, hp, hrel]
  | drain id => exact Or.inr ⟨_, rfl, drain_inv h id⟩
  | cancelDrain d e => exact Or.inr ⟨_, rfl, cancelDrain_inv h d e⟩
  | drainLock d => exact drainLock_fine h d
  | drainReady d => exact drainReady_fine h d
  | drainExpire d => exact drainExpire_fine h d
  | drainRestore d => exact drainRestore_fine h d
  | drainFinish d stopped => exact drainFinish_fine h d stopped

theorem step_inv {a : Action} (h : w.Inv calm) (hcalm : calm → ¬ w.LateLast a)
    (hs : w.step a = .ok w') : w'.Inv calm := by
  rcases step_fine h a hcalm with hd | ⟨w₁, hw₁, hinv⟩
  · simp [hd] at hs
  · rw [hw₁, Except.ok.injEq] at hs
    exact hs ▸ hinv

/-- From a state in order the only way an action fails is by not being enabled. -/
theorem step_fault (h : w.Inv False) (a : Action) (f : Fault) (hf : w.step a = .error f) :
    f = .disabled := by
  rcases step_fine h a (fun hc => hc.elim) with hd | ⟨w₁, hw₁, -⟩
  · rw [hd, Except.error.injEq] at hf
    exact hf.symm
  · simp [hw₁] at hf

theorem inv_of_reachable (hw : machine.Reachable w) : w.Inv False := by
  refine hw.invariant (I := fun w => w.Inv False) ?_ ?_
  · rintro _ ⟨limit, depth, clock, rfl⟩
    exact init_inv limit depth clock
  · intro w a w' h hs
    exact step_inv h (fun hc => hc.elim) hs

theorem inv_of_calm (hw : machine.ReachesWhile (fun w a => ¬ w.LateLast a) w) : w.Inv True := by
  refine hw.invariant (I := fun w => w.Inv True) ?_ ?_
  · rintro _ ⟨limit, depth, clock, rfl⟩
    exact init_inv limit depth clock
  · intro w a w' h hok hs
    exact step_inv h (fun _ => hok) hs

/-! ## The ledger -/

/-- By the history, call `c` was granted a slot that was not given up again. -/
def outstanding (log : List Event) (c : Nat) : Bool :=
  decide (log.countP (isGiveBack c) + log.countP (isRelease c) <
    log.countP (isGrant c))

theorem Inv.outstanding_eq (h : w.Inv calm) (c : Nat) :
    outstanding w.pool.log c = (w.slot c).isSome := by
  have hgrants := h.log.grants c
  have hrel := h.log.releases c
  unfold outstanding
  rw [hgrants, hrel]
  cases hp : w.pc c with
  | returned o =>
    cases o with
    | lease r =>
      cases hl : (w.lease c).released <;> cases hl' : (w.lease c).releasing <;>
        simp [kept, slot, hp, hl, hl']
    | err e =>
      have hlease := h.queue.lease c (by simp [hp])
      simp [kept, slot, hp, hlease]
  | _ =>
    have hlease := h.queue.lease c (by simp [hp])
    rw [kept_of_not_returned (by simp [hp, hasReturned]), hlease]
    cases w.slot c <;> simp

/-- **Ledger of the pool.** In every reachable open pool the counters, the map,
the ready list and the slots handed out agree; in every reachable pool grants
stay within the limit of their instant, a second `Release` does nothing, and no
release finds its sandbox without a lease. -/
theorem pool_ledger {w : World} (hw : machine.Reachable w) :
    (w.pool.closed = false →
      (∀ id r, w.pool.sandboxes id = some r →
        r < w.pool.next ∧ (w.pool.heap r).target.instanceID = id) ∧
      w.pool.active = Nat.count
        (fun r => w.pool.inMap r = true ∧ (w.pool.heap r).draining = false) w.pool.next ∧
      w.pool.ready.Nodup ∧
      (∀ r, r ∈ w.pool.ready ↔ w.pool.inMap r = true ∧ (w.pool.heap r).draining = false ∧
        (w.pool.heap r).inFlight < w.pool.limit) ∧
      w.pool.executing = w.pool.accepted - w.pool.completed ∧
      w.pool.executing = ∑ r ∈ Finset.range w.pool.next, (w.pool.heap r).inFlight ∧
      w.pool.executing = Nat.count (fun c => outstanding w.pool.log c = true) w.ncalls) ∧
    (∀ c r i l b, grant c r i l b ∈ w.pool.log → i ≤ l) ∧
    (∀ c, (w.lease c).released = true → w.step (.releaseLease c) = .ok w) ∧
    ∀ a, w.step a ≠ .error .releaseWithoutLease := by
  have h := inv_of_reachable hw
  refine ⟨fun hopen => ⟨h.map.entry, ?_, (h.ready hopen).nodup, ?_, h.ledger.counted,
    h.ledger.total, ?_⟩, ?_, ?_, ?_⟩
  · rw [h.map.active]
    congr 1
    apply Lib.count_congr
    intro r _
    simp [live]
  · intro r
    rw [(h.ready hopen).exact r id]
    simp [free, live, and_assoc]
  · rw [h.ledger.executing]
    congr 1
    apply Lib.count_congr
    intro c _
    rw [h.outstanding_eq c]
  · intro c r i l b hm
    exact (h.log.within _ hm).1
  · intro c hrel
    -- only a caller that returned with a lease has released one
    have hp : ∃ r, w.pc c = .returned (.lease r) := by
      by_contra hno
      have := h.queue.lease c (fun r hr => hno ⟨r, hr⟩)
      simp [this] at hrel
    obtain ⟨r, hp⟩ := hp
    simp [step, releaseLease, hp, hrel]
  · intro a ha
    have := step_fault h a _ ha
    simp at this

/-- A pool with one sandbox and one lease in use. -/
theorem pool_ledger_one_lease :
    ∃ w : World, w.pool.closed = false ∧ w.pool.executing = 1 ∧
      w.pool.executing = w.pool.accepted - w.pool.completed ∧
      w.pool.executing = Nat.count (fun c => outstanding w.pool.log c = true) w.ncalls := by
  obtain ⟨w, hw, hopen, hone⟩ := machine.exists_of_run
    (Q := fun w => w.pool.closed = false ∧ w.pool.executing = 1) (init 1 1 0)
    [.add ⟨7, 1, "a:1", "http"⟩, .acquire, .check 0, .enter 0] ⟨1, 1, 0, rfl⟩ (by decide)
  obtain ⟨-, -, -, -, hcount, -, hout⟩ := (pool_ledger hw).1 hopen
  exact ⟨w, hopen, hone, hcount, hout⟩

/-! ## Admission -/

/-- The event takes call `c` out of the queue. -/
def departs (c : Nat) : Event → Bool
  | .grant c' _ _ _ _ | .reject c' _ | .withdraw c' => decide (c' = c)
  | _ => false

/-- The history of the queue serves in order. -/
theorem LogOK.in_order (h : w.LogOK) {l₁ l₂ l₃ : List Event} {b : Nat} {queued depth i l : Int}
    {dr : Bool} (hlog : w.pool.log = l₁ ++ .enqueue b queued depth :: l₂ ++ .grant c r i l dr :: l₃)
    (hcb : c ≠ b) (hlater : ∀ q d, .enqueue c q d ∉ l₁) : ∃ e ∈ l₂, departs b e = true := by
  have hrun := h.fifo
  rw [hlog] at hrun
  simp only [List.filterMap_append, List.filterMap_cons, queueEvent] at hrun
  have hdep := Lib.Fifo.no_overtake _ _ _ c b _ hcb (by
    intro hm
    obtain ⟨e, he, heq⟩ := List.mem_filterMap.mp hm
    cases e <;> simp [queueEvent] at heq
    subst heq
    exact hlater _ _ he) hrun
  rcases hdep with hm | hm
  · obtain ⟨e, he, heq⟩ := List.mem_filterMap.mp hm
    refine ⟨e, he, ?_⟩
    cases e <;> simp_all [queueEvent, departs]
  · obtain ⟨e, he, heq⟩ := List.mem_filterMap.mp hm
    refine ⟨e, he, ?_⟩
    cases e <;> simp_all [queueEvent, departs]

theorem eq_of_countP_le_one {α : Type} {q : α → Bool} {l : List α} (h : l.countP q ≤ 1) {x y : α}
    (hx : x ∈ l) (hy : y ∈ l) (hqx : q x = true) (hqy : q y = true) : x = y := by
  rw [List.countP_eq_length_filter] at h
  have hx' : x ∈ l.filter q := List.mem_filter.mpr ⟨hx, hqx⟩
  have hy' : y ∈ l.filter q := List.mem_filter.mpr ⟨hy, hqy⟩
  match hf : l.filter q, h with
  | [], _ => simp [hf] at hx'
  | [z], _ =>
    rw [hf, List.mem_singleton] at hx' hy'
    rw [hx', hy']

theorem Inv.error_gives_back (h : w.Inv calm) {e : AcquireErr} (hp : w.pc c = .returned (.err e)) :
    w.pool.log.countP (isGrant c) = w.pool.log.countP (isGiveBack c) ∧
      w.pool.log.countP (isGiveBack c) ≤ 1 ∧
      ∀ r i l b, .grant c r i l b ∈ w.pool.log → .giveBack c r ∈ w.pool.log := by
  have hgrants := h.log.grants c
  have hkept : w.kept c = false := by simp [kept, slot, hp]
  have hgives := h.log.gives c
  rw [hkept] at hgrants
  simp only [hp, afterGiveBack, Bool.toNat_true, Bool.toNat_false, Nat.add_zero] at hgives hgrants
  refine ⟨hgrants, hgives, ?_⟩
  intro r i l b hm
  have hpos : 0 < w.pool.log.countP (isGiveBack c) := by
    rw [← hgrants]
    exact List.countP_pos_iff.mpr ⟨_, hm, by simp [isGrant]⟩
  obtain ⟨e', he', hk⟩ := List.countP_pos_iff.mp hpos
  cases e' with
  | giveBack c' r' =>
    simp only [isGiveBack, decide_eq_true_eq] at hk
    subst hk
    obtain ⟨i', l', b', hm'⟩ := h.log.given c' r' he'
    have heq := eq_of_countP_le_one (hgrants ▸ hgives) hm hm' (by simp [isGrant])
      (by simp [isGrant])
    simp only [grant.injEq, true_and] at heq
    rw [heq.1]
    exact he'
  | _ => simp [isGiveBack] at hk

/-- **Admission.** (a) Nobody waits while a slot is free. (b) A step gives slots
only to queued callers whose context has not ended; and nobody gets a slot while
somebody who was enqueued before them still waits. (c) The queue never grows
beyond its depth. (d) Every call returns at most once, with its own context's
error if with one; no send blocks; a call that returns an error gave back what
it was granted, exactly once; a call that returns a lease was granted that one
slot and gave nothing back. -/
theorem pool_admission {w : World} (hw : machine.Reachable w) :
    (w.pool.closed = false → w.pool.pending ≠ [] → w.pool.ready = []) ∧
    (∀ a w', w.step a = .ok w' → ∃ ext, w'.pool.log = w.pool.log ++ ext ∧
      ∀ c r i l b, .grant c r i l b ∈ ext → c ∈ w.pool.pending → w.ctxErr c = none) ∧
    (∀ l₁ l₂ l₃ b queued depth c r i l dr,
      w.pool.log = l₁ ++ .enqueue b queued depth :: l₂ ++ .grant c r i l dr :: l₃ → c ≠ b →
      (∀ q d, .enqueue c q d ∉ l₁) → ∃ e ∈ l₂, departs b e = true) ∧
    (∀ c queued depth, .enqueue c queued depth ∈ w.pool.log → queued < depth) ∧
    (∀ c, w.pool.log.countP (isRet c) ≤ 1) ∧
    (∀ c e, .ret c (.err (.ctx e)) ∈ w.pool.log → w.ctxErr c = some e) ∧
    (∀ a, w.step a ≠ .error .sendBlocked) ∧
    (∀ c e, .ret c (.err e) ∈ w.pool.log →
      w.pool.log.countP (isGrant c) = w.pool.log.countP (isGiveBack c) ∧
      w.pool.log.countP (isGiveBack c) ≤ 1 ∧
      ∀ r i l b, .grant c r i l b ∈ w.pool.log → .giveBack c r ∈ w.pool.log) ∧
    ∀ c r, .ret c (.lease r) ∈ w.pool.log →
      w.pool.log.countP (isGrant c) = 1 ∧ w.pool.log.countP (isGiveBack c) = 0 ∧
      ∃ i l b, .grant c r i l b ∈ w.pool.log := by
  have h := inv_of_reachable hw
  refine ⟨h.busy, ?_, ?_, ?_, ?_, ?_, ?_, ?_, ?_⟩
  · intro a w' hs
    obtain ⟨ext, hl, hg⟩ := step_grants hs
    refine ⟨ext, hl, ?_⟩
    intro c r i l b hm hq
    rcases hg c r i l b hm with hctx | hlock
    · exact hctx
    · -- a queued caller is past its first critical section
      rcases (h.queue.waiting hq).2 with hp | hp <;> simp [hp] at hlock
  · intro l₁ l₂ l₃ b queued depth c r i l dr hlog hcb hlater
    exact h.log.in_order hlog hcb hlater
  · intro c queued depth hm
    exact h.log.within _ hm
  · intro c
    rw [h.log.returns c]
    exact Bool.toNat_le _
  · intro c e hm
    exact h.queue.own c e (Or.inr (Or.inr (h.log.returned c _ hm)))
  · intro a ha
    have := step_fault h a _ ha
    simp at this
  · intro c e hm
    exact h.error_gives_back (h.log.returned c _ hm)
  · intro c r hm
    have hp := h.log.returned c _ hm
    have hgrants := h.log.grants c
    have hgives := h.log.gives c
    have hkept : w.kept c = true := by simp [kept, hp]
    rw [hkept] at hgrants
    simp only [hp, afterGiveBack, Bool.toNat_false, Bool.toNat_true] at hgives hgrants
    exact ⟨by omega, by omega, h.log.granted c r (Or.inr hp)⟩

/-- Two callers wait, the first is granted the slot that comes back, and its
context ends before it sees it. -/
theorem pool_admission_cancelled_grant :
    ∃ w : World, w.pool.pending ≠ [] ∧ w.pool.ready = [] ∧ w.pc 1 = .returned (.err (.ctx .canceled)) ∧
      w.pool.log.countP (isGrant 1) = w.pool.log.countP (isGiveBack 1) := by
  obtain ⟨w, hw, hopen, hne, hp, hret⟩ := machine.exists_of_run
    (Q := fun w => w.pool.closed = false ∧ w.pool.pending ≠ [] ∧
      w.pc 1 = .returned (.err (.ctx .canceled)) ∧ .ret 1 (.err (.ctx .canceled)) ∈ w.pool.log)
    (init 1 3 0)
    [.add ⟨7, 1, "a:1", "http"⟩, .acquire, .check 0, .enter 0, .acquire, .check 1, .enter 1,
      .acquire, .check 2, .enter 2, .acquire, .check 3, .enter 3, .releaseLease 0,
      .finishRelease 0, .cancel 1 .canceled, .giveUp 1, .withdraw 1, .collect 1, .giveBack 1,
      .leave 1] ⟨1, 3, 0, rfl⟩ (by decide)
  obtain ⟨hbusy, -, -, -, -, -, -, hback, -⟩ := pool_admission hw
  exact ⟨w, hne, hbusy hopen hne, hp, (hback 1 _ hret).1⟩

/-! ## Draining -/

theorem release_closed {p q : SandboxPool} {now : Nat} {ctxErr : Nat → Option CtxErr}
    (hc : p.closed = true) (h : p.release r ctxErr now = .ok q) : ∃ la, q = dropped p r la := by
  obtain ⟨la, hla⟩ := noteActivity_dropSlot p r now
  unfold SandboxPool.release at h
  simp only [hla] at h
  split at h
  · simp at h
  · rw [if_pos (show (dropped p r la).closed = true from hc), Except.ok.injEq] at h
    exact ⟨la, h.symm⟩

/-- What an action that gives up a slot on `r` does to a closed pool. -/
theorem step_givesUp {a : Action} (hc : w.pool.closed = true) (hr : w.givesUp a = some r)
    (hs : w.step a = .ok w') : ∃ e la, w'.pool = dropped (w.pool.record e) r la := by
  cases a with
  | giveBack c =>
    simp only [givesUp] at hr
    split at hr
    · rename_i r' hp
      cases hr
      simp only [step, giveBack, hp] at hs
      obtain ⟨p, hp', hw⟩ := bind_ok hs
      cases hw
      obtain ⟨la, hq⟩ := release_closed (p := w.pool.record (.giveBack c r)) hc hp'
      exact ⟨_, la, hq⟩
    · simp at hr
  | finishRelease c =>
    simp only [givesUp] at hr
    split at hr
    · rename_i r' hp
      split at hr
      · rename_i hrel
        cases hr
        simp only [step, finishRelease, hp, hrel, if_true] at hs
        obtain ⟨p, hp', hw⟩ := bind_ok hs
        cases hw
        obtain ⟨la, hq⟩ := release_closed (p := w.pool.record (.release c r)) hc hp'
        exact ⟨_, la, hq⟩
      · simp at hr
    · simp at hr
  | _ => simp [givesUp] at hr

/-- **Draining.** In a run in which no last lease of a draining sandbox was
released after `Close`: no slot is granted on a draining sandbox; a finish
function is out only while its sandbox has no leases; no channel is closed
twice; and a draining sandbox without leases has its channel closed. One such
release is enough to lose the last part. -/
theorem drain_calm {w : World} (hw : machine.ReachesWhile (fun w a => ¬ w.LateLast a) w) :
    (∀ c r i l draining, .grant c r i l draining ∈ w.pool.log → draining = false) ∧
    (∀ d id r, w.drain d = .handed id r → (w.pool.heap r).inFlight = 0) ∧
    (∀ a, w.step a ≠ .error .closeOfClosed) ∧
    (∀ r, (w.pool.heap r).draining = true → (w.pool.heap r).inFlight = 0 →
      ∃ d, (w.pool.heap r).drained = some d ∧ w.pool.drainedClosed d = true) ∧
    ∀ a w', w.LateLast a → w.step a = .ok w' →
      ∃ r d, (w'.pool.heap r).draining = true ∧ (w'.pool.heap r).inFlight = 0 ∧
        (w'.pool.heap r).drained = some d ∧ w'.pool.drainedClosed d = false := by
  have h := inv_of_calm hw
  refine ⟨?_, ?_, ?_, ?_, ?_⟩
  · intro c r i l b hm
    exact (h.log.within _ hm).2
  · intro d id r hd
    have hmark := (h.drain.mark d id r (Or.inr (Or.inr hd))).1
    exact h.drain.closedZero r d hmark (h.drain.handed d id r hd)
  · intro a ha
    have := step_fault (inv_of_reachable hw.reachable) a _ ha
    simp at this
  · intro r hdr hz
    obtain ⟨d, hd⟩ := (h.drain.both r).mp hdr
    exact ⟨d, hd, h.drain.quiet (Or.inr trivial) r d hd hz⟩
  · rintro a w' ⟨hc, r, hr, hdr, hone⟩ hs
    obtain ⟨e, la, hq⟩ := step_givesUp hc hr hs
    obtain ⟨d, hd⟩ := (h.drain.both r).mp hdr
    have hopen : w.pool.drainedClosed d = false := by
      cases hcd : w.pool.drainedClosed d with
      | false => rfl
      | true =>
        have := h.drain.closedZero r d hd hcd
        omega
    refine ⟨r, d, ?_, ?_, ?_, ?_⟩ <;> rw [hq]
    · simpa [dropped, record] using hdr
    · simp [dropped, record, hone]
    · simpa [dropped, record] using hd
    · exact hopen

/-- The last lease of a draining sandbox is released before `Close`. -/
theorem drain_calm_closes :
    ∃ w : World, w.pool.closed = true ∧ (w.pool.heap 0).draining = true ∧
      (w.pool.heap 0).inFlight = 0 ∧
      ∃ d, (w.pool.heap 0).drained = some d ∧ w.pool.drainedClosed d = true := by
  obtain ⟨w, hw, hc, hdr, hz⟩ := machine.exists_while_of_run (P := fun w a => ¬ w.LateLast a)
    (Q := fun w => w.pool.closed = true ∧ (w.pool.heap 0).draining = true ∧
      (w.pool.heap 0).inFlight = 0) (init 1 1 0)
    [.add ⟨7, 1, "a:1", "http"⟩, .acquire, .check 0, .enter 0, .drain 7, .drainLock 0,
      .releaseLease 0, .finishRelease 0, .close] ⟨1, 1, 0, rfl⟩ (by decide)
  obtain ⟨-, -, -, hquiet, -⟩ := drain_calm hw
  exact ⟨w, hc, hdr, hz, hquiet 0 hdr hz⟩

/-- `Close` runs between `Drain` and the release of the last lease: the sandbox
has no leases any more, its channel stays open and the `Drain` call waits on. -/
theorem drain_missed :
    ∃ w : World, machine.Reachable w ∧ w.drain 0 = .waiting 7 0 ∧
      (w.pool.heap 0).draining = true ∧ (w.pool.heap 0).inFlight = 0 ∧
      (w.pool.heap 0).drained = some 0 ∧ w.pool.drainedClosed 0 = false := by
  exact machine.exists_of_run (init 1 1 0)
    [.add ⟨7, 1, "a:1", "http"⟩, .acquire, .check 0, .enter 0, .drain 7, .drainLock 0, .close,
      .releaseLease 0, .finishRelease 0] ⟨1, 1, 0, rfl⟩ (by decide)

end World

end HyperFaaS.Dataplane
