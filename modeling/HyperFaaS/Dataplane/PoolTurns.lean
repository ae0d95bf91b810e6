import HyperFaaS.Dataplane.PoolInvariant

/-!
What one step does to the gauges of a pool: the slots in use, the queue, the marks
that `Snapshot` reports, and the history (`step_turn`). The map and the ready list
decide how far a dispatch gets and do not show otherwise, so no invariant is needed.
Who is given slots follows (`step_grants`).
-/

namespace HyperFaaS.Dataplane

/-- The part of a pool that its callers move. -/
structure Gauge where
  executing : Int
  pending : List Nat
  closed : Bool
  queueHead : Option Nat
  highWater : Int
  lastActivity : Nat
  log : List Event

namespace Gauge

def record (g : Gauge) (e : Event) : Gauge := { g with log := g.log ++ [e] }

/-- The demand that `noteDemandLocked` looks at. -/
def total (g : Gauge) : Int := g.executing + g.pending.length

/-- `acquireLocked` -/
def acquire (g : Gauge) (now : Nat) : Gauge :=
  { g with
    executing := g.executing + 1
    lastActivity := if g.executing + 1 = 1 ∧ g.pending = [] then now else g.lastActivity
    highWater := max g.highWater (g.total + 1) }

/-- The waiter at the head of the queue gets a slot. The demand is noted while it is still
queued. -/
def serve (g : Gauge) (now : Nat) (rest : List Nat) (e : Event) : Gauge :=
  { g.acquire now with
    pending := rest
    queueHead := if rest = [] then none else g.queueHead
    log := g.log ++ [e] }

/-- The waiter at the head of the queue is answered with an error. -/
def reject (g : Gauge) (rest : List Nat) (e : Event) : Gauge :=
  { g with pending := rest, log := g.log ++ [e] }

def enqueue (g : Gauge) (c now : Nat) (e : Event) : Gauge :=
  { g with
    pending := g.pending ++ [c]
    queueHead := g.queueHead.or (some now)
    highWater := max g.highWater (g.total + 1)
    log := g.log ++ [e] }

def withdraw (g : Gauge) (c : Nat) : Gauge :=
  { g with
    pending := g.pending.erase c
    queueHead := if g.pending.erase c = [] then none else g.queueHead
    log := g.log ++ [.withdraw c] }

/-- `release` up to its dispatch. -/
def drop (g : Gauge) (now : Nat) : Gauge :=
  { g with
    executing := g.executing - 1
    lastActivity := if g.executing - 1 = 0 ∧ g.pending = [] then now else g.lastActivity }

/-- A dispatch, which may end before the queue does. -/
inductive Dispatches (ctxErr : Nat → Option CtxErr) (now : Nat) : Gauge → Gauge → Prop
  | done (g : Gauge) : Dispatches ctxErr now g g
  | reject {g g' : Gauge} {c : Nat} {rest : List Nat} {e : CtxErr} (hq : g.pending = c :: rest)
      (hc : ctxErr c = some e) (h : Dispatches ctxErr now (g.reject rest (.reject c (.ctx e))) g') :
      Dispatches ctxErr now g g'
  | serve {g g' : Gauge} {c r : Nat} {rest : List Nat} {i l : Int} {b : Bool}
      (hq : g.pending = c :: rest) (hc : ctxErr c = none)
      (h : Dispatches ctxErr now (g.serve now rest (.grant c r i l b)) g') :
      Dispatches ctxErr now g g'

end Gauge

namespace SandboxPool

variable {ctxErr : Nat → Option CtxErr} {now : Nat} {p q : SandboxPool}

def gauge (p : SandboxPool) : Gauge :=
  ⟨p.executing, p.pending, p.closed, p.queueHead, p.highWater, p.lastActivity, p.log⟩

/-! ## The helpers -/

@[simp] theorem gauge_removeReadyLocked (p : SandboxPool) (r : Nat) :
    (p.removeReadyLocked r).gauge = p.gauge := by
  obtain ⟨b, l, he⟩ := p.removeReady_eq r
  rw [he]
  rfl

@[simp] theorem gauge_refreshReadyLocked (p : SandboxPool) (r : Nat) :
    (p.refreshReadyLocked r).gauge = p.gauge := by
  obtain ⟨b, l, he⟩ := p.refreshReady_eq r
  rw [he]
  rfl

theorem gauge_noteActivity (p : SandboxPool) (now : Nat) (n : Int) :
    (p.noteActivity now n).gauge = { p.gauge with
      lastActivity := if p.executing = n ∧ p.pending = [] then now else p.lastActivity } := by
  unfold noteActivity
  split <;> rfl

theorem gauge_noteDemandLocked (p : SandboxPool) :
    p.noteDemandLocked.gauge = { p.gauge with highWater := max p.highWater p.gauge.total } := by
  unfold noteDemandLocked
  dsimp only
  split
  · rename_i h
    simp only [gauge, Gauge.total, max_eq_left h]
  · rename_i h
    simp only [gauge, Gauge.total, max_eq_right (le_of_not_ge h)]

theorem gauge_updateQueueHeadLocked (p : SandboxPool) : p.updateQueueHeadLocked.gauge =
    { p.gauge with queueHead := if p.pending = [] then none else p.queueHead } := by
  unfold updateQueueHeadLocked
  split <;> rfl

variable {r : Nat}

theorem gauge_acquireLocked (h : p.acquireLocked now = some (r, q)) :
    q.gauge = p.gauge.acquire now := by
  unfold acquireLocked at h
  split at h
  · cases h
  · rename_i r' rest _
    have hgauge : ∀ s : SandboxPool, s.gauge = ((p.takeSlot r').noteActivity now 1).gauge →
        s.noteDemandLocked.gauge = p.gauge.acquire now := by
      intro s hs
      have hhigh : s.highWater = s.gauge.highWater := rfl
      rw [gauge_noteDemandLocked, hhigh, hs, gauge_noteActivity]
      simp only [gauge, takeSlot, setSandbox, Gauge.acquire, Gauge.total, Gauge.mk.injEq, true_and,
        and_true]
      exact ⟨by congr 1; omega, rfl⟩
    simp only [Option.some.injEq, Prod.mk.injEq] at h
    obtain ⟨-, rfl⟩ := h
    apply hgauge
    split
    · rw [gauge_removeReadyLocked]
    · rfl

theorem gauge_send {c : Nat} {x : AcquireResult} (h : p.send c x = .ok q) : q.gauge = p.gauge := by
  unfold send at h
  split at h
  · cases h
    rfl
  · cases h

theorem gauge_enqueue (p : SandboxPool) (c now : Nat) : (p.enqueue c now).gauge =
    p.gauge.enqueue c now (.enqueue c p.pending.length p.queueDepth) := by
  unfold enqueue
  dsimp only
  rw [gauge_noteDemandLocked]
  cases hq : p.queueHead with
  | none =>
    simp only [gauge, record, setWaiter, Gauge.enqueue, Gauge.total, hq, if_true]
    simp [add_assoc]
  | some t =>
    simp only [gauge, record, setWaiter, Gauge.enqueue, Gauge.total, hq]
    simp [add_assoc]

theorem gauge_foldl {α : Type} (f : SandboxPool → α → SandboxPool)
    (hf : ∀ p a, (f p a).gauge = p.gauge) (l : List α) (p : SandboxPool) :
    (l.foldl f p).gauge = p.gauge := by
  induction l generalizing p with
  | nil => rfl
  | cons a as ih => rw [List.foldl_cons, ih, hf]

theorem gauge_refreshEntry (p : SandboxPool) (id : Nat) : (p.refreshEntry id).gauge = p.gauge := by
  unfold refreshEntry
  split
  · rfl
  · exact p.gauge_refreshReadyLocked _

theorem gauge_syncDrop (wanted : List Sandbox) (p : SandboxPool) (id : Nat) :
    (p.syncDrop wanted id).gauge = p.gauge := by
  unfold syncDrop
  split
  · rfl
  · split
    · rfl
    · exact p.gauge_removeReadyLocked _

theorem gauge_insertNew (p : SandboxPool) (target : Sandbox) :
    (p.insertNew target).gauge = p.gauge :=
  gauge_refreshReadyLocked _ _

theorem gauge_retarget (p : SandboxPool) (r : Nat) (target : Sandbox) :
    (p.retarget r target).gauge = p.gauge :=
  gauge_refreshReadyLocked _ _

theorem gauge_syncPut (p : SandboxPool) (target : Sandbox) : (p.syncPut target).gauge = p.gauge := by
  unfold syncPut
  split
  · exact p.gauge_retarget _ target
  · exact p.gauge_insertNew target

theorem gauge_remove (p : SandboxPool) (id : Nat) : (p.remove id).gauge = p.gauge := by
  unfold remove
  split
  · rfl
  · rename_i r _
    refine Eq.trans ?_ (p.gauge_removeReadyLocked r)
    dsimp only
    split <;> rfl

theorem gauge_closeDrained (h : p.closeDrained r = .ok q) : q.gauge = p.gauge := by
  unfold closeDrained at h
  split at h
  · cases h
    rfl
  · split at h <;> cases h
    rfl

theorem gauge_drainStart (p : SandboxPool) (d id : Nat) : (p.drainStart d id).1.gauge = p.gauge := by
  unfold drainStart
  split
  · rfl
  · split
    · rfl
    · rename_i r _
      split
      · rfl
      · have hready := gauge_removeReadyLocked
          { p.setSandbox r { p.heap r with draining := true } with active := p.active - 1 } r
        dsimp only
        split <;> exact hready

theorem acquireEnter_cases (p : SandboxPool) (c now : Nat) :
    (∃ e, p.acquireEnter c now = (p, .failed e)) ∨
      (∃ r q i l b, p.acquireEnter c now = (q, .leased r) ∧ p.pending = [] ∧
        q.gauge = (p.gauge.acquire now).record (.grant c r i l b)) ∨
      p.acquireEnter c now = (p.enqueue c now, .queued) := by
  unfold acquireEnter
  split
  · exact .inl ⟨_, rfl⟩
  · split
    · rename_i r q hacq
      split at hacq
      · rename_i hq
        refine .inr (.inl ⟨r, _, (q.heap r).inFlight, q.limit, (q.heap r).draining, rfl, hq, ?_⟩)
        rw [← gauge_acquireLocked hacq]
        rfl
      · cases hacq
    · split
      · exact .inl ⟨_, rfl⟩
      · exact .inr (.inr rfl)

/-! ## The loops -/

theorem dispatchLoop_dispatches (l : List Nat) (p : SandboxPool) (hl : p.pending = l)
    (h : dispatchLoop ctxErr now l p = .ok q) :
    Gauge.Dispatches ctxErr now p.gauge q.gauge := by
  induction l generalizing p with
  | nil =>
    cases h
    exact .done _
  | cons c rest ih =>
    unfold dispatchLoop at h
    cases hc : ctxErr c with
    | some e =>
      simp only [hc, bind, Except.bind] at h
      split at h
      · cases h
      · rename_i p₁ hs
        have hg := gauge_send hs
        refine .reject hl hc ?_
        have hnext := ih p₁ (congrArg Gauge.pending hg) h
        rwa [hg] at hnext
    | none =>
      simp only [hc] at h
      split at h
      · cases h
        exact .done _
      · rename_i r p₁ hacq
        simp only [bind, Except.bind] at h
        split at h
        · cases h
        · rename_i p₂ hs
          have hg := gauge_send hs
          have hacq := gauge_acquireLocked hacq
          have hserve : p₂.gauge = p.gauge.serve now rest (.grant c r (p₁.heap r).inFlight p₁.limit
              (p₁.heap r).draining) := by
            rw [hg]
            have hhead : p₁.queueHead = p.queueHead := congrArg Gauge.queueHead hacq
            have hlog : p₁.log = p.log := congrArg Gauge.log hacq
            have hup := gauge_updateQueueHeadLocked ({ p₁ with pending := rest }.clearElem c)
            unfold updateQueueHeadLocked recordGrant at *
            split at hup <;>
              simp_all [gauge, record, clearElem, setWaiter, Gauge.serve, Gauge.acquire]
          refine .serve hl hc (r := r) (i := (p₁.heap r).inFlight) (l := p₁.limit)
            (b := (p₁.heap r).draining) ?_
          have hnext := ih p₂ (congrArg Gauge.pending hserve) h
          rwa [hserve] at hnext

theorem closeLoop_gauge (l : List Nat) (p : SandboxPool) (hl : p.pending = l)
    (h : closeLoop l p = .ok q) : ∃ ext, q.gauge = { p.gauge with
      pending := [], log := p.log ++ ext } ∧ ∀ e ∈ ext, ∃ c, e = .reject c .poolClosed := by
  induction l generalizing p with
  | nil =>
    cases h
    exact ⟨[], by simp [gauge, hl], by simp⟩
  | cons c rest ih =>
    unfold closeLoop at h
    simp only [bind, Except.bind] at h
    split at h
    · cases h
    · rename_i p₁ hs
      have hg := gauge_send hs
      obtain ⟨ext, hq, hext⟩ := ih p₁ (congrArg Gauge.pending hg) h
      refine ⟨.reject c .poolClosed :: ext, ?_, ?_⟩
      · have hlog : p₁.log = p.log ++ [.reject c .poolClosed] := congrArg Gauge.log hg
        rw [hq, hg, hlog]
        simp [gauge, record, clearElem, setWaiter]
      · rintro e (_ | ⟨_, he⟩)
        · exact ⟨c, rfl⟩
        · exact hext e he

/-- A dispatch after something that does not show. -/
theorem dispatchLocked_dispatches {p' : SandboxPool} (hp : p'.gauge = p.gauge)
    (h : p'.dispatchLocked ctxErr now = .ok q) :
    Gauge.Dispatches ctxErr now p.gauge q.gauge :=
  hp ▸ dispatchLoop_dispatches p'.pending p' rfl h

theorem reactivate_dispatches (h : p.reactivate r ctxErr now = .ok q) :
    Gauge.Dispatches ctxErr now p.gauge q.gauge := by
  unfold reactivate at h
  refine dispatchLocked_dispatches ?_ h
  exact gauge_refreshReadyLocked _ r

theorem release_dispatches (h : p.release r ctxErr now = .ok q) :
    0 < (p.heap r).inFlight ∧ Gauge.Dispatches ctxErr now (p.gauge.drop now) q.gauge := by
  have hdrop : ((p.dropSlot r).noteActivity now 0).gauge = p.gauge.drop now :=
    gauge_noteActivity _ now 0
  unfold release at h
  split at h
  · cases h
  rename_i hpos
  refine ⟨by omega, ?_⟩
  rw [← hdrop]
  dsimp only at h
  split at h
  · cases h
    exact .done _
  · split at h
    · split at h
      · rw [gauge_closeDrained h]
        exact .done _
      · cases h
        exact .done _
    · split at h
      · exact dispatchLocked_dispatches (gauge_refreshReadyLocked _ r) h
      · cases h
        exact .done _

end SandboxPool

namespace Action

/-- The actions that end with a dispatch and give no slot up. -/
def dispatches : Action → Bool
  | .configure _ _ _ | .add _ | .sync _ _ _ | .drainRestore _ | .drainFinish _ _ => true
  | _ => false

def releases : Action → Bool
  | .giveBack _ | .finishRelease _ => true
  | _ => false

end Action

namespace World

variable {w w' : World} {a : Action}

abbrev gauge (w : World) : Gauge := w.pool.gauge

/-- The steps but `TakeHighWater`: the gauges and the clock afterwards. -/
inductive Turn (w : World) : Action → Gauge → Nat → Prop
  | quiet {a : Action} {t : Nat} (ht : w.clock ≤ t) : Turn w a w.gauge t
  | ret {a : Action} (c : Nat) (o : Outcome) : Turn w a (w.gauge.record (.ret c o)) w.clock
  | grant {c r : Nat} {i l : Int} {b : Bool} (hpc : w.pc c = .locking) (hq : w.pool.pending = []) :
      Turn w (.enter c) (((w.gauge.acquire w.clock).record (.grant c r i l b)).record
        (.ret c (.lease r))) w.clock
  | enqueue {c : Nat} {n d : Int} (hpc : w.pc c = .locking) :
      Turn w (.enter c) (w.gauge.enqueue c w.clock (.enqueue c n d)) w.clock
  | withdraw {c : Nat} {e : CtxErr} (hc : (w.pool.waiters c).elem = true) :
      Turn w (.withdraw c) ((w.gauge.withdraw c).record (.ret c (.err (.ctx e)))) w.clock
  | dispatch {a : Action} {g : Gauge} (ha : a.dispatches = true)
      (hd : Gauge.Dispatches w.ctxErr w.clock w.gauge g) : Turn w a g w.clock
  | release {a : Action} {e : Event} {r : Nat} {g : Gauge} (ha : a.releases = true)
      (he : ∀ c r i l b, e ≠ .grant c r i l b) (hr : 0 < (w.pool.heap r).inFlight)
      (hd : Gauge.Dispatches w.ctxErr w.clock ((w.gauge.record e).drop w.clock) g) :
      Turn w a g w.clock
  | close {ext : List Event} (hext : ∀ e ∈ ext, ∃ c, e = .reject c .poolClosed) :
      Turn w .close { w.gauge with closed := true, pending := [], log := w.pool.log ++ ext } w.clock

theorem map_ok {α β ε : Type} {x : Except ε α} {f : α → β} {y : β} (h : x.map f = .ok y) :
    ∃ a, x = .ok a ∧ y = f a := by
  cases x with
  | error e => simp [Except.map] at h
  | ok a =>
    simp only [Except.map, Except.ok.injEq] at h
    exact ⟨a, rfl, h.symm⟩

theorem bind_ok {α β ε : Type} {x : Except ε α} {f : α → Except ε β} {y : β}
    (h : x.bind f = .ok y) : ∃ a, x = .ok a ∧ f a = .ok y := by
  cases x with
  | error e => simp [Except.bind] at h
  | ok a => exact ⟨a, rfl, h⟩

theorem Turn.of_gauge {g : Gauge} (hg : g = w.gauge) : Turn w a g w.clock :=
  hg ▸ .quiet (Nat.le_refl _)

variable {p : SandboxPool}

theorem add_turn {target : Sandbox} (h : w.pool.add target w.ctxErr w.clock = .ok p) :
    Turn w (.add target) p.gauge w.clock := by
  unfold SandboxPool.add at h
  split at h
  · cases h
    exact .of_gauge rfl
  · split at h
    · cases h
      exact .of_gauge rfl
    · split at h
      · cases h
        exact .of_gauge (SandboxPool.gauge_retarget _ _ _)
      · exact .dispatch rfl
          (SandboxPool.dispatchLocked_dispatches (SandboxPool.gauge_insertNew _ _) h)

theorem sync_turn {targets wanted : List Sandbox} {order : List Nat}
    (h : w.pool.sync order wanted w.ctxErr w.clock = .ok p) :
    Turn w (.sync targets order wanted) p.gauge w.clock := by
  unfold SandboxPool.sync at h
  split at h
  · cases h
    exact .of_gauge rfl
  · refine .dispatch rfl (SandboxPool.dispatchLocked_dispatches ?_ h)
    rw [SandboxPool.gauge_foldl _ SandboxPool.gauge_syncPut,
      SandboxPool.gauge_foldl _ (SandboxPool.gauge_syncDrop wanted)]

theorem close_turn (h : w.pool.close = .ok p) : Turn w .close p.gauge w.clock := by
  unfold SandboxPool.close at h
  split at h
  · cases h
    exact .of_gauge rfl
  · obtain ⟨ext, hp, hext⟩ := SandboxPool.closeLoop_gauge _
      { w.pool with closed := true, ready := [] } rfl h
    rw [hp]
    exact .close hext

theorem enter_turn {c : Nat} (h : w.enter c = .ok w') :
    Turn w (.enter c) w'.gauge w'.clock := by
  unfold enter at h
  split at h
  · rename_i hpc
    rcases w.pool.acquireEnter_cases c w.clock with ⟨e, he⟩ | ⟨r, q, i, l, b, he, hq, hg⟩ | he
    · rw [he] at h
      cases h
      exact .ret c (.err e)
    · rw [he] at h
      cases h
      have hw : ((w.setPool q).ret c (.lease r)).gauge = q.gauge.record (.ret c (.lease r)) := rfl
      rw [hw, hg]
      exact .grant hpc hq
    · rw [he] at h
      cases h
      have hw : ((w.setPool (w.pool.enqueue c w.clock)).setPC c .selecting).gauge =
          (w.pool.enqueue c w.clock).gauge := rfl
      rw [hw, SandboxPool.gauge_enqueue]
      exact .enqueue hpc
  · cases h

theorem withdraw_turn {c : Nat} (h : w.withdraw c = .ok w') :
    Turn w (.withdraw c) w'.gauge w'.clock := by
  unfold withdraw at h
  split at h
  · rename_i e _ _
    unfold SandboxPool.acquireCancel at h
    by_cases hel : (w.pool.waiters c).elem = true
    · simp only [hel, if_true] at h
      cases h
      have hg := SandboxPool.gauge_updateQueueHeadLocked
        ({ w.pool with pending := w.pool.pending.erase c }.clearElem c)
      have hw : ((w.setPool (({ w.pool with pending := w.pool.pending.erase c }.clearElem
          c).updateQueueHeadLocked.record (.withdraw c))).ret c (.err (.ctx e))).gauge =
          (w.gauge.withdraw c).record (.ret c (.err (.ctx e))) := by
        have hmore : ∀ q : SandboxPool, ((w.setPool (q.record (.withdraw c))).ret c
            (.err (.ctx e))).gauge = (q.gauge.record (.withdraw c)).record (.ret c (.err (.ctx e))) :=
          fun _ => rfl
        rw [hmore, hg]
        rfl
      rw [hw]
      exact .withdraw hel
    · simp only [hel, Bool.false_eq_true, if_false] at h
      cases h
      exact .of_gauge rfl
  · cases h

/-- **Every step** but `TakeHighWater`. -/
theorem step_turn (h : w.step a = .ok w') (ha : a ≠ .takeHighWater) :
    Turn w a w'.gauge w'.clock := by
  cases a with
  | tick d =>
    cases h
    exact .quiet (Nat.le_add_right _ _)
  | configure limit depth order =>
    simp only [step] at h
    split at h
    · obtain ⟨p, hp, rfl⟩ := map_ok h
      refine .dispatch rfl (SandboxPool.dispatchLocked_dispatches ?_ hp)
      exact SandboxPool.gauge_foldl _ SandboxPool.gauge_refreshEntry order _
    · cases h
  | add target =>
    obtain ⟨p, hp, rfl⟩ := map_ok h
    exact add_turn hp
  | sync targets order wanted =>
    simp only [step] at h
    split at h
    · obtain ⟨p, hp, rfl⟩ := map_ok h
      exact sync_turn hp
    · cases h
  | remove id =>
    cases h
    exact .of_gauge (SandboxPool.gauge_remove _ _)
  | close =>
    obtain ⟨p, hp, rfl⟩ := map_ok h
    exact close_turn hp
  | takeHighWater => exact absurd rfl ha
  | acquire | cancel c e | drain id | cancelDrain d e =>
    cases h
    exact .of_gauge rfl
  | check c | receive c | confirm c | giveUp c | collect c | leave c | releaseLease c | drainReady d
  | drainExpire d =>
    simp only [step, check, receive, confirm, giveUp, collect, leave, releaseLease, drainReady,
      drainExpire] at h
    repeat' split at h
    all_goals cases h
    all_goals first | exact .of_gauge rfl | exact .ret _ _
  | enter c => exact enter_turn h
  | withdraw c => exact withdraw_turn h
  | giveBack c =>
    simp only [step, giveBack] at h
    split at h
    · obtain ⟨p, hp, hw⟩ := bind_ok h
      cases hw
      obtain ⟨hpos, hd⟩ := SandboxPool.release_dispatches hp
      exact .release rfl (by simp) hpos hd
    · cases h
  | finishRelease c =>
    simp only [step, finishRelease] at h
    split at h
    · split at h
      · obtain ⟨p, hp, hw⟩ := bind_ok h
        cases hw
        obtain ⟨hpos, hd⟩ := SandboxPool.release_dispatches hp
        exact .release rfl (by simp) hpos hd
      · cases h
    · cases h
  | drainLock d =>
    simp only [step, drainLock] at h
    split at h
    · rename_i id hd
      have hg := w.pool.gauge_drainStart d id
      split at h <;> rename_i hst <;> cases h <;> rw [hst] at hg <;> exact .of_gauge hg
    · cases h
  | drainRestore d =>
    simp only [step, drainRestore] at h
    split at h
    · obtain ⟨p, hp, hw⟩ := bind_ok h
      cases hw
      unfold SandboxPool.restore at hp
      split at hp
      · cases hp
        exact .of_gauge rfl
      · exact .dispatch rfl (SandboxPool.reactivate_dispatches hp)
    · cases h
  | drainFinish d stopped =>
    simp only [step, drainFinish] at h
    split at h
    · obtain ⟨p, hp, hw⟩ := bind_ok h
      cases hw
      unfold SandboxPool.finish at hp
      split at hp
      · cases hp
        exact .of_gauge rfl
      · split at hp
        · cases hp
          exact .of_gauge rfl
        · exact .dispatch rfl (SandboxPool.reactivate_dispatches hp)
    · cases h
      exact .of_gauge rfl
    · cases h

/-! ## Who is given slots -/

/-- The step extends the history; a grant in the new part goes to a caller whose
context has not ended or that was about to enter its first critical section. -/
def Serves (w w' : World) : Prop :=
  ∃ ext, w'.pool.log = w.pool.log ++ ext ∧
    ∀ c r i l b, Event.grant c r i l b ∈ ext → w.ctxErr c = none ∨ w.pc c = .locking

theorem dispatches_log {ctxErr : Nat → Option CtxErr} {now : Nat} {g g' : Gauge}
    (h : Gauge.Dispatches ctxErr now g g') : ∃ ext, g'.log = g.log ++ ext ∧
      ∀ c r i l b, Event.grant c r i l b ∈ ext → ctxErr c = none := by
  induction h with
  | done g => exact ⟨[], by simp, by simp⟩
  | @reject g _ c _ e _ _ _ ih =>
    obtain ⟨ext, hl, hg⟩ := ih
    refine ⟨.reject c (.ctx e) :: ext, by rw [hl]; simp [Gauge.reject], ?_⟩
    simpa using hg
  | @serve g _ c r _ i l b _ hc _ ih =>
    obtain ⟨ext, hl, hg⟩ := ih
    refine ⟨.grant c r i l b :: ext, by rw [hl]; simp [Gauge.serve], ?_⟩
    rintro c' r' i' l' b' (_ | ⟨_, hm⟩)
    · exact hc
    · exact hg c' r' i' l' b' hm

/-- **Who gets slots.** -/
theorem step_grants (h : w.step a = .ok w') : w.Serves w' := by
  by_cases ha : a = .takeHighWater
  · subst ha
    cases h
    exact ⟨[], by simp [SandboxPool.takeHighWater], by simp⟩
  have hturn := step_turn h ha
  show ∃ ext, w'.gauge.log = w.pool.log ++ ext ∧ _
  generalize w'.gauge = g, w'.clock = n at hturn ⊢
  cases hturn with
  | quiet _ => exact ⟨[], by simp [SandboxPool.gauge], by simp⟩
  | ret c o => exact ⟨[.ret c o], rfl, by simp⟩
  | @grant c r i l b hpc _ =>
    refine ⟨[.grant c r i l b, .ret c (.lease r)], ?_, ?_⟩
    · simp [Gauge.record, Gauge.acquire, SandboxPool.gauge]
    · intro c' r' i' l' b' hm
      simp only [List.mem_cons, Event.grant.injEq, reduceCtorEq, List.not_mem_nil, or_false] at hm
      exact .inr (hm.1 ▸ hpc)
  | @enqueue c n d _ => exact ⟨[.enqueue c n d], rfl, by simp⟩
  | @withdraw c e _ =>
    refine ⟨[.withdraw c, .ret c (.err (.ctx e))], ?_, by simp⟩
    simp [Gauge.record, Gauge.withdraw, SandboxPool.gauge]
  | dispatch _ hd =>
    obtain ⟨ext, hl, hg⟩ := dispatches_log hd
    exact ⟨ext, hl, fun c r i l b hm => .inl (hg c r i l b hm)⟩
  | @release _ e _ _ _ he _ hd =>
    obtain ⟨ext, hl, hg⟩ := dispatches_log hd
    refine ⟨e :: ext, ?_, ?_⟩
    · rw [hl]
      simp [Gauge.record, Gauge.drop, SandboxPool.gauge]
    · intro c r i l b hm
      rcases List.mem_cons.mp hm with hm | hm
      · exact absurd hm.symm (he c r i l b)
      · exact .inl (hg c r i l b hm)
  | @close ext hext =>
    refine ⟨ext, rfl, fun c r i l b hm => ?_⟩
    obtain ⟨c', he⟩ := hext _ hm
    cases he

end World

end HyperFaaS.Dataplane
