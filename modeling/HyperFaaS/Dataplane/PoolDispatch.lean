import HyperFaaS.Dataplane.PoolInvariant

/-!
What answering one waiter does to the invariant, and from it what a whole run
of `dispatchLocked` or of the loop of `Close` does. `dispatch_ok` is the lemma
every operation that frees capacity ends with: the dispatch finishes, keeps the
invariant, and leaves an empty queue or an empty ready list.
-/

namespace HyperFaaS.Dataplane

open Function Event

namespace SandboxPool

/-! ## The helpers in closed form -/

theorem noteActivity_eq (p : SandboxPool) (now : Nat) (n : Int) :
    ∃ la, p.noteActivity now n = { p with lastActivity := la } := by
  unfold noteActivity
  split
  · exact ⟨now, rfl⟩
  · exact ⟨p.lastActivity, rfl⟩

theorem noteDemand_eq (p : SandboxPool) :
    ∃ hw, p.noteDemandLocked = { p with highWater := hw } := by
  unfold noteDemandLocked
  simp only
  split
  · exact ⟨p.highWater, rfl⟩
  · exact ⟨_, rfl⟩

theorem updateQueueHead_eq (p : SandboxPool) :
    ∃ qh, p.updateQueueHeadLocked = { p with queueHead := qh } := by
  unfold updateQueueHeadLocked
  split
  · exact ⟨none, rfl⟩
  · exact ⟨p.queueHead, rfl⟩

/-- The pool after a grant on the sandbox at the front of the ready list. -/
def taken (p : SandboxPool) (r : Nat) (rest : List Nat) (la : Nat) (hw : Int) : SandboxPool :=
  { p with
    heap := update p.heap r
      { p.heap r with
        inFlight := (p.heap r).inFlight + 1
        ready := decide ((p.heap r).inFlight + 1 < p.limit) }
    ready := if (p.heap r).inFlight + 1 < p.limit then rest ++ [r] else rest
    executing := p.executing + 1
    accepted := p.accepted + 1
    lastActivity := la
    highWater := hw }

/-- `q` is `p` with a slot taken, up to the queue, the waiters and the history. -/
structure Took (p : SandboxPool) (r : Nat) (rs : List Nat) (q : SandboxPool) : Prop where
  limit : q.limit = p.limit
  sandboxes : q.sandboxes = p.sandboxes
  next : q.next = p.next
  active : q.active = p.active
  closed : q.closed = p.closed
  drainedClosed : q.drainedClosed = p.drainedClosed
  heap : q.heap = update p.heap r
    { p.heap r with
      inFlight := (p.heap r).inFlight + 1
      ready := decide ((p.heap r).inFlight + 1 < p.limit) }
  ready : q.ready = if (p.heap r).inFlight + 1 < p.limit then rs ++ [r] else rs
  executing : q.executing = p.executing + 1
  accepted : q.accepted = p.accepted + 1
  completed : q.completed = p.completed

theorem Took.field {p q : SandboxPool} {r : Nat} {rs : List Nat} (h : p.Took r rs q) {β : Type}
    (f : PooledSandbox → β)
    (hf : f { p.heap r with
      inFlight := (p.heap r).inFlight + 1
      ready := decide ((p.heap r).inFlight + 1 < p.limit) } = f (p.heap r)) (x : Nat) :
    f (q.heap x) = f (p.heap x) := by
  rw [h.heap]
  exact update_field f p.heap r _ hf x

theorem acquireLocked_nil (p : SandboxPool) (now : Nat) (h : p.ready = []) :
    p.acquireLocked now = none := by
  simp [acquireLocked, h]

theorem acquireLocked_cons (p : SandboxPool) (now r : Nat) (rest : List Nat)
    (hr : p.ready = r :: rest) (hf : (p.heap r).ready = true) :
    ∃ la hw, p.acquireLocked now = some (r, p.taken r rest la hw) := by
  obtain ⟨la, hla⟩ := (p.takeSlot r).noteActivity_eq now 1
  unfold acquireLocked
  simp only [hr, hla]
  by_cases hlt : (p.heap r).inFlight + 1 < p.limit
  · obtain ⟨hw, hhw⟩ := noteDemand_eq
      { { p.takeSlot r with lastActivity := la } with ready := rest ++ [r] }
    refine ⟨la, hw, ?_⟩
    have hge : ¬ ((p.takeSlot r).heap r).inFlight ≥ (p.takeSlot r).limit := by
      simp only [takeSlot, setSandbox, update_self]
      omega
    simp only [hge, if_false, hhw]
    simp [taken, takeSlot, setSandbox, hlt, hf]
  · obtain ⟨hw, hhw⟩ := noteDemand_eq
      ({ p.takeSlot r with lastActivity := la }.touch r false rest)
    refine ⟨la, hw, ?_⟩
    have hge : ((p.takeSlot r).heap r).inFlight ≥ (p.takeSlot r).limit := by
      simp only [takeSlot, setSandbox, update_self]
      omega
    have hrem : { p.takeSlot r with lastActivity := la }.removeReadyLocked r =
        { p.takeSlot r with lastActivity := la }.touch r false rest := by
      simp [removeReadyLocked, takeSlot, setSandbox, hf, hr, touch]
    simp only [hge, if_true, hrem, hhw]
    simp [taken, touch, takeSlot, setSandbox, hlt]

/-- The pool after the waiter at the front of the queue was sent `x`. -/
def answer (p : SandboxPool) (c : Nat) (rest : List Nat) (x : AcquireResult) (e : Event) :
    SandboxPool :=
  { p with
    pending := rest
    waiters := update p.waiters c ⟨false, [x]⟩
    log := p.log ++ [e] }

theorem send_answer (p : SandboxPool) (c : Nat) (rest : List Nat) (x : AcquireResult) (e : Event)
    (hw : p.waiters c = ⟨true, []⟩) :
    (({ p with pending := rest }.clearElem c).record e).send c x = .ok (p.answer c rest x e) := by
  simp [send, record, clearElem, setWaiter, answer, hw]

/-- The send of a grant, whose queue head was brought up to date before. -/
theorem send_grant (p : SandboxPool) (c r : Nat) (rest : List Nat)
    (hw : p.waiters c = ⟨true, []⟩) :
    ∃ qh, (({ p with pending := rest }.clearElem c).updateQueueHeadLocked.recordGrant c r).send c
        (.sandbox r) =
      .ok { p.answer c rest (.sandbox r) (.grant c r (p.heap r).inFlight p.limit
        (p.heap r).draining) with queueHead := qh } := by
  obtain ⟨qh, hqh⟩ := ({ p with pending := rest }.clearElem c).updateQueueHead_eq
  refine ⟨qh, ?_⟩
  rw [hqh]
  simp [send, recordGrant, record, clearElem, setWaiter, answer, hw]

theorem enqueue_eq (p : SandboxPool) (c now : Nat) :
    ∃ qh hw, p.enqueue c now = { p with
      pending := p.pending ++ [c]
      waiters := update p.waiters c ⟨true, []⟩
      log := p.log ++ [.enqueue c p.pending.length p.queueDepth]
      queueHead := qh
      highWater := hw } := by
  unfold enqueue noteDemandLocked record setWaiter
  simp only
  split <;> split <;> exact ⟨_, _, rfl⟩

theorem acquireCancel_queued (p : SandboxPool) (c : Nat) (hv : p.waiters c = ⟨true, []⟩) :
    ∃ qh, p.acquireCancel c = ({ p with
      pending := p.pending.erase c
      waiters := update p.waiters c ⟨false, []⟩
      queueHead := qh
      log := p.log ++ [.withdraw c] }, true) := by
  unfold acquireCancel updateQueueHeadLocked clearElem setWaiter record
  simp only [hv, if_true]
  split <;> exact ⟨_, rfl⟩

end SandboxPool

namespace World

variable {calm : Prop}

/-! ## Changes that leave a part of the invariant alone -/

variable {w w' : World} {c j r : Nat} {rs : List Nat}

theorem slot_congr (hp : w'.pc = w.pc) (hl : w'.lease = w.lease)
    (hw : w'.pool.waiters = w.pool.waiters) : w'.slot = w.slot := by
  funext c
  simp only [slot, hp, hl, hw]

theorem Ledger.congr (h : w.Ledger) (hs : w'.slot = w.slot) (hn : w'.ncalls = w.ncalls)
    (hi : ∀ r, (w'.pool.heap r).inFlight = (w.pool.heap r).inFlight)
    (he : w'.pool.executing = w.pool.executing) (ha : w'.pool.accepted = w.pool.accepted)
    (hc : w'.pool.completed = w.pool.completed) (hx : w'.pool.next = w.pool.next) : w'.Ledger where
  inFlight := by simpa only [hi, hs, hn] using h.inFlight
  executing := by simpa only [he, hs, hn] using h.executing
  total := by simpa only [he, hx, hi] using h.total
  counted := by simpa only [he, ha, hc] using h.counted
  slot_lt := by simpa only [hs, hx] using h.slot_lt

theorem QueueOK.congr (h : w.QueueOK) (hn : w'.ncalls = w.ncalls) (hp : w'.pc = w.pc)
    (hl : w'.lease = w.lease) (hc : w'.ctxErr = w.ctxErr) (hw : w'.pool.waiters = w.pool.waiters)
    (hq : w'.pool.pending = w.pool.pending) (hx : w'.pool.closed = w.pool.closed) : w'.QueueOK where
  idle := by simpa only [hn, hp] using h.idle
  waiter := by simpa only [hp, hw] using h.waiter
  queued := by simpa only [hq, hw] using h.queued
  nodup := by simpa only [hq] using h.nodup
  ctx := by simpa only [hp, hc] using h.ctx
  lease := by simpa only [hp, hl] using h.lease
  flags := by simpa only [hl] using h.flags
  closed := by simpa only [hx, hq] using h.closed
  own := by simpa only [told, hp, hw, hc] using h.own

/-- Slots may change on sandboxes that are not draining. -/
theorem DrainOK.congr (h : w.DrainOK calm) (hn : w'.ndrains = w.ndrains) (hd : w'.drain = w.drain)
    (hx : w'.drainCtx = w.drainCtx) (hnx : w'.pool.next = w.pool.next)
    (hc : w'.pool.drainedClosed = w.pool.drainedClosed) (hcl : w'.pool.closed = w.pool.closed)
    (hm : ∀ r, (w'.pool.heap r).drained = (w.pool.heap r).drained)
    (hg : ∀ r, (w'.pool.heap r).draining = (w.pool.heap r).draining)
    (ht : ∀ r, (w'.pool.heap r).target.instanceID = (w.pool.heap r).target.instanceID)
    (hz : ∀ r, (w.pool.heap r).draining = true →
      (w'.pool.heap r).inFlight = (w.pool.heap r).inFlight) : w'.DrainOK calm where
  idle := by simpa only [hn, hd] using h.idle
  mark := by simpa only [hd, hm, ht] using h.mark
  both := by simpa only [hg, hm] using h.both
  made := by simpa only [hm, hd, hnx] using h.made
  uniq := by simpa only [hm] using h.uniq
  closedZero := by
    intro r d hr hch
    rw [hm] at hr
    rw [hc] at hch
    rw [hz r ((h.both r).mpr ⟨d, hr⟩)]
    exact h.closedZero r d hr hch
  unmadeOpen := by simpa only [hd, hc] using h.unmadeOpen
  handed := by simpa only [hd, hc] using h.handed
  expired := by simpa only [hd, hx] using h.expired
  quiet := by
    intro hq r d hr hi
    rw [hcl] at hq
    rw [hm] at hr
    rw [hz r ((h.both r).mpr ⟨d, hr⟩)] at hi
    rw [hc]
    exact h.quiet hq r d hr hi

theorem kept_congr (hp : w'.pc = w.pc) (hs : w'.slot = w.slot) : w'.kept = w.kept := by
  funext c
  simp only [kept, hp, hs]

theorem LogOK.congr (h : w.LogOK) (hp : w'.pc = w.pc) (hl : w'.lease = w.lease)
    (hs : w'.slot = w.slot) (hq : w'.pool.pending = w.pool.pending)
    (hg : w'.pool.log = w.pool.log) : w'.LogOK where
  fifo := by simpa only [hg, hq] using h.fifo
  within := by simpa only [hg] using h.within
  returns := by simpa only [hg, hp] using h.returns
  grants := by simpa only [hg, kept_congr hp hs] using h.grants
  gives := by simpa only [hg, hp] using h.gives
  releases := by simpa only [hg, hl] using h.releases
  granted := by simpa only [hg, hs, hp] using h.granted
  given := by simpa only [hg] using h.given
  returned := by simpa only [hg, hp] using h.returned

/-- `Base` looks at four fields of a sandbox, and not at the ready list. -/
theorem Base.edit (h : w.Base calm) (heap : Nat → PooledSandbox) (l : List Nat)
    (hid : ∀ x, (heap x).target.instanceID = (w.pool.heap x).target.instanceID)
    (hi : ∀ x, (heap x).inFlight = (w.pool.heap x).inFlight)
    (hg : ∀ x, (heap x).draining = (w.pool.heap x).draining)
    (hm : ∀ x, (heap x).drained = (w.pool.heap x).drained) :
    (w.setPool { w.pool with heap := heap, ready := l }).Base calm := by
  have hs : (w.setPool { w.pool with heap := heap, ready := l }).slot = w.slot :=
    slot_congr rfl rfl rfl
  exact {
    map := h.map.congr rfl rfl rfl rfl hid hg
    ledger := h.ledger.congr hs rfl hi rfl rfl rfl rfl
    queue := h.queue.congr rfl rfl rfl rfl rfl rfl rfl
    drain := h.drain.congr rfl rfl rfl rfl rfl rfl hm hg hid (fun x _ => hi x)
    log := h.log.congr rfl rfl hs rfl rfl }

/-- The ready list and the element pointers are no part of `Base`. -/
theorem Base.touch (h : w.Base calm) (r : Nat) (b : Bool) (l : List Nat) :
    (w.setPool (w.pool.touch r b l)).Base calm :=
  h.edit _ l
    (SandboxPool.update_field (fun s => s.target.instanceID) w.pool.heap r _ rfl)
    (SandboxPool.update_field (fun s => s.inFlight) w.pool.heap r _ rfl)
    (SandboxPool.update_field (fun s => s.draining) w.pool.heap r _ rfl)
    (SandboxPool.update_field (fun s => s.drained) w.pool.heap r _ rfl)

theorem Base.refresh (h : w.Base calm) (r : Nat) :
    (w.setPool (w.pool.refreshReadyLocked r)).Base calm := by
  obtain ⟨b, l, he⟩ := w.pool.refreshReady_eq r
  rw [he]
  exact h.touch r b l

/-! ## Answering the waiter at the front -/

theorem QueueOK.lt_of_pc (h : w.QueueOK) (hc : w.pc c ≠ .idle) : c < w.ncalls := by
  by_contra hge
  exact hc (h.idle c (by omega))

theorem QueueOK.waiting (h : w.QueueOK) (hc : c ∈ w.pool.pending) :
    w.pool.waiters c = ⟨true, []⟩ ∧ (w.pc c = .selecting ∨ w.pc c = .canceling) := by
  have he := (h.queued c).mp hc
  have hw := h.waiter c
  cases hv : w.pool.waiters c with
  | mk elem result =>
    rw [hv] at he hw
    simp only at he
    subst he
    cases hp : w.pc c <;> simp [WaiterOK, hp] at hw <;> simp [hw]

theorem QueueOK.slot_none (h : w.QueueOK) (hc : c ∈ w.pool.pending) : w.slot c = none := by
  obtain ⟨hw, hp | hp⟩ := h.waiting hc <;> simp [slot, hw, hp]

theorem QueueOK.answer (h : w.QueueOK) {rest : List Nat} (hq : w.pool.pending = c :: rest)
    (x : AcquireResult) (e : Event) (hx : ∀ e', x = .err (.ctx e') → w.ctxErr c = some e') :
    (w.setPool (w.pool.answer c rest x e)).QueueOK where
  idle := h.idle
  waiter := by
    intro j
    by_cases hj : j = c
    · subst hj
      obtain ⟨-, hp | hp⟩ := h.waiting (c := j) (by simp [hq]) <;>
        simp [setPool, SandboxPool.answer, WaiterOK, hp]
    · simpa [setPool, SandboxPool.answer, hj] using h.waiter j
  queued := by
    intro j
    have hnd := h.nodup
    rw [hq, List.nodup_cons] at hnd
    by_cases hj : j = c
    · subst hj; simpa [setPool, SandboxPool.answer] using hnd.1
    · have := h.queued j
      rw [hq, List.mem_cons] at this
      simpa [setPool, SandboxPool.answer, hj] using this
  nodup := by
    have hnd := h.nodup
    rw [hq, List.nodup_cons] at hnd
    exact hnd.2
  ctx := h.ctx
  lease := h.lease
  flags := h.flags
  closed := by
    intro hc
    have := h.closed hc
    rw [hq] at this
    simp at this
  own := by
    intro j e' hj
    by_cases hjc : j = c
    · subst hjc
      rcases hj with hj | hj | hj
      · exact hx e' (by simpa [SandboxPool.answer, eq_comm] using hj)
      · exact h.own j e' (Or.inr (Or.inl hj))
      · exact h.own j e' (Or.inr (Or.inr hj))
    · exact h.own j e' (by simpa [told, SandboxPool.answer, hjc] using hj)

theorem slot_answer_other (w : World) (rest : List Nat) (x : AcquireResult) (e : Event)
    (hj : j ≠ c) : (w.setPool (w.pool.answer c rest x e)).slot j = w.slot j := by
  simp [slot, setPool, SandboxPool.answer, hj]

theorem slot_reject (h : w.QueueOK) {rest : List Nat} (hq : w.pool.pending = c :: rest)
    (e : AcquireErr) (ev : Event) :
    (w.setPool (w.pool.answer c rest (.err e) ev)).slot = w.slot := by
  funext j
  by_cases hj : j = c
  · subst hj
    rw [h.slot_none (by simp [hq])]
    obtain ⟨-, hp | hp⟩ := h.waiting (c := j) (by simp [hq]) <;>
      simp [slot, setPool, SandboxPool.answer, hp]
  · exact w.slot_answer_other rest (.err e) ev hj

theorem countP_snoc (q : Event → Bool) (l : List Event) (e : Event) :
    (l ++ [e]).countP q = l.countP q + (q e).toNat := by
  cases h : q e <;> simp [List.countP_append, h]

theorem isX_other (e : Event) (hj : j ≠ e.caller) :
    e.isRet j = false ∧ e.isGrant j = false ∧ e.isGiveBack j = false ∧ e.isRelease j = false := by
  cases e <;>
    simp_all [caller, isRet, isGrant, isGiveBack, isRelease, eq_comm]

/-- One event more in the history, about a caller `c`, while the other callers
stay where they are. -/
theorem LogOK.snoc (h : w.LogOK) (e : Event) (hcaller : e.caller = c)
    (hlog : w'.pool.log = w.pool.log ++ [e])
    (hfifo : Lib.Fifo.run w.pool.pending e.queueEvent.toList = some w'.pool.pending)
    (hwithin : e.Within) (hpc : ∀ j, j ≠ c → w'.pc j = w.pc j)
    (hlease : ∀ j, j ≠ c → w'.lease j = w.lease j) (hslot : ∀ j, j ≠ c → w'.slot j = w.slot j)
    (hret : (hasReturned (w'.pc c)).toNat = (hasReturned (w.pc c)).toNat + (e.isRet c).toNat)
    (hgrant : (w.kept c).toNat + (e.isGrant c).toNat =
      (w'.kept c).toNat + (e.isGiveBack c).toNat)
    (hgive : (afterGiveBack (w.pc c)).toNat + (e.isGiveBack c).toNat ≤
      (afterGiveBack (w'.pc c)).toNat)
    (hrel : ((w'.lease c).released && !(w'.lease c).releasing).toNat =
      ((w.lease c).released && !(w.lease c).releasing).toNat + (e.isRelease c).toNat)
    (hgranted : ∀ r, w'.slot c = some r ∨ w'.pc c = .returned (.lease r) →
      (w.slot c = some r ∨ w.pc c = .returned (.lease r)) ∨ ∃ i l b, e = .grant c r i l b)
    (hgiven : ∀ r, e = .giveBack c r → w.slot c = some r)
    (hnew : ∀ o, e = .ret c o → w'.pc c = .returned o)
    (hold : ∀ o, w.pc c = .returned o → w'.pc c = .returned o) : w'.LogOK := by
  subst hcaller
  refine ⟨?_, ?_, ?_, ?_, ?_, ?_, ?_, ?_, ?_⟩
  · rw [hlog, List.filterMap_append, Lib.Fifo.run_append, h.fifo, Option.bind_some, ← hfifo]
    cases he : e.queueEvent <;> simp [he]
  · intro x hx
    rw [hlog, List.mem_append, List.mem_singleton] at hx
    rcases hx with hx | rfl
    · exact h.within x hx
    · exact hwithin
  · intro j
    rw [hlog, countP_snoc, h.returns]
    by_cases hj : j = e.caller
    · subst hj; exact hret.symm
    · simp [hpc j hj, isX_other e hj]
  · intro j
    have hj₁ := h.grants j
    rw [hlog, countP_snoc, countP_snoc]
    by_cases hj : j = e.caller
    · subst hj
      omega
    · simp only [isX_other e hj, kept, hslot j hj, hpc j hj, Bool.toNat_false, Nat.add_zero]
      exact hj₁
  · intro j
    have hj₁ := h.gives j
    rw [hlog, countP_snoc]
    by_cases hj : j = e.caller
    · subst hj
      omega
    · simpa only [isX_other e hj, hpc j hj, Bool.toNat_false, Nat.add_zero] using hj₁
  · intro j
    rw [hlog, countP_snoc, h.releases]
    by_cases hj : j = e.caller
    · subst hj; exact hrel.symm
    · simp [hlease j hj, isX_other e hj]
  · intro j r hc
    have hor : (w.slot j = some r ∨ w.pc j = .returned (.lease r)) ∨
        ∃ i l b, e = .grant j r i l b := by
      by_cases hj : j = e.caller
      · subst hj; exact hgranted r hc
      · rw [hslot j hj, hpc j hj] at hc
        exact Or.inl hc
    rw [hlog]
    rcases hor with hc | ⟨i, l, b, rfl⟩
    · obtain ⟨i, l, b, hm⟩ := h.granted j r hc
      exact ⟨i, l, b, List.mem_append_left _ hm⟩
    · exact ⟨i, l, b, by simp⟩
  · intro j r hc
    rw [hlog, List.mem_append, List.mem_singleton] at hc
    rw [hlog]
    have hg : ∃ i l b, grant j r i l b ∈ w.pool.log := by
      rcases hc with hc | hc
      · exact h.given j r hc
      · have hj : j = e.caller := by rw [← hc]; rfl
        subst hj
        exact h.granted _ r (Or.inl (hgiven r hc.symm))
    obtain ⟨i, l, b, hm⟩ := hg
    exact ⟨i, l, b, List.mem_append_left _ hm⟩
  · intro j o hc
    rw [hlog, List.mem_append, List.mem_singleton] at hc
    rcases hc with hc | hc
    · have hj := h.returned j o hc
      by_cases hjc : j = e.caller
      · subst hjc; exact hold o hj
      · rw [hpc j hjc]; exact hj
    · have hj : j = e.caller := by rw [← hc]; rfl
      subst hj
      exact hnew o hc.symm

theorem LogOK.reject (h : w.LogOK) (hqok : w.QueueOK) {rest : List Nat}
    (hq : w.pool.pending = c :: rest) (e : AcquireErr) :
    (w.setPool (w.pool.answer c rest (.err e) (.reject c e))).LogOK := by
  have hs := slot_reject hqok hq e (.reject c e)
  have hk : (w.setPool (w.pool.answer c rest (.err e) (.reject c e))).kept = w.kept :=
    kept_congr rfl hs
  refine h.snoc (c := c) (.reject c e) rfl rfl ?_ trivial (fun _ _ => rfl) (fun _ _ => rfl)
    (fun j _ => congrFun hs j) ?_ ?_ ?_ ?_ ?_ ?_ ?_ ?_
  · simp [hq, Event.queueEvent, Lib.Fifo.run, Lib.Fifo.step, SandboxPool.answer]
  · simp [isRet]
  · simp [isGrant, isGiveBack, hk]
  · simp [isGiveBack]
  · simp [isRelease]
  · intro r hj
    rw [hs] at hj
    exact Or.inl hj
  · simp
  · simp
  · exact fun o hj => hj

theorem Ledger.take (h : w.Ledger) (hc : c < w.ncalls) (hr : r < w.pool.next)
    (hnone : w.slot c = none) (hsome : w'.slot c = some r) (hs : ∀ j, j ≠ c → w'.slot j = w.slot j)
    (hn : w'.ncalls = w.ncalls) (hi : (w'.pool.heap r).inFlight = (w.pool.heap r).inFlight + 1)
    (hj : ∀ x, x ≠ r → (w'.pool.heap x).inFlight = (w.pool.heap x).inFlight)
    (he : w'.pool.executing = w.pool.executing + 1) (ha : w'.pool.accepted = w.pool.accepted + 1)
    (hd : w'.pool.completed = w.pool.completed) (hx : w'.pool.next = w.pool.next) : w'.Ledger where
  inFlight := by
    intro x
    rw [hn]
    by_cases hxr : x = r
    · subst hxr
      have hcount := Lib.count_join (p := fun j => w.slot j = some x)
        (q := fun j => w'.slot j = some x) hc (by simp [hnone]) hsome (fun j hj => by rw [hs j hj])
      rw [hi, hcount, h.inFlight x]
      omega
    · rw [hj x hxr, h.inFlight x]
      congr 1
      apply Lib.count_congr
      intro j _
      by_cases hjc : j = c
      · subst hjc; simp [hnone, hsome, Ne.symm hxr]
      · rw [hs j hjc]
  executing := by
    have hcount := Lib.count_join (p := fun j => (w.slot j).isSome = true)
      (q := fun j => (w'.slot j).isSome = true) hc (by simp [hnone]) (by simp [hsome])
      (fun j hj => by rw [hs j hj])
    rw [hn, he, hcount, h.executing]
    omega
  total := by
    have hsum := Lib.sum_change (f := fun x => (w.pool.heap x).inFlight)
      (g := fun x => (w'.pool.heap x).inFlight) hr hj
    rw [hx, hsum, he, h.total, hi]
    omega
  counted := by
    have := h.counted
    omega
  slot_lt := by
    intro j x hjx
    rw [hx]
    by_cases hjc : j = c
    · subst hjc
      rw [hsome, Option.some.injEq] at hjx
      omega
    · exact h.slot_lt j x (by rw [← hs j hjc]; exact hjx)

theorem Ledger.drop (h : w.Ledger) (hc : c < w.ncalls) (hsome : w.slot c = some r)
    (hnone : w'.slot c = none) (hs : ∀ j, j ≠ c → w'.slot j = w.slot j) (hn : w'.ncalls = w.ncalls)
    (hi : (w'.pool.heap r).inFlight = (w.pool.heap r).inFlight - 1)
    (hj : ∀ x, x ≠ r → (w'.pool.heap x).inFlight = (w.pool.heap x).inFlight)
    (he : w'.pool.executing = w.pool.executing - 1) (ha : w'.pool.accepted = w.pool.accepted)
    (hd : w'.pool.completed = w.pool.completed + 1) (hx : w'.pool.next = w.pool.next) :
    w'.Ledger where
  inFlight := by
    intro x
    rw [hn]
    by_cases hxr : x = r
    · subst hxr
      have hcount := Lib.count_leave (p := fun j => w.slot j = some x)
        (q := fun j => w'.slot j = some x) hc hsome (by simp [hnone]) (fun j hj => by rw [hs j hj])
      rw [hi, h.inFlight x, hcount]
      omega
    · rw [hj x hxr, h.inFlight x]
      congr 1
      apply Lib.count_congr
      intro j _
      by_cases hjc : j = c
      · subst hjc; simp [hnone, hsome, Ne.symm hxr]
      · rw [hs j hjc]
  executing := by
    have hcount := Lib.count_leave (p := fun j => (w.slot j).isSome = true)
      (q := fun j => (w'.slot j).isSome = true) hc (by simp [hsome]) (by simp [hnone])
      (fun j hj => by rw [hs j hj])
    rw [hn, he, h.executing, hcount]
    omega
  total := by
    have hsum := Lib.sum_change (f := fun x => (w.pool.heap x).inFlight)
      (g := fun x => (w'.pool.heap x).inFlight) (h.slot_lt c r hsome) hj
    rw [hx, hsum, he, h.total, hi]
    omega
  counted := by
    have := h.counted
    omega
  slot_lt := by
    intro j x hjx
    rw [hx]
    by_cases hjc : j = c
    · subst hjc; simp [hnone] at hjx
    · exact h.slot_lt j x (by rw [← hs j hjc]; exact hjx)

theorem Ledger.inFlight_pos (h : w.Ledger) (hc : c < w.ncalls) (hs : w.slot c = some r) :
    0 < (w.pool.heap r).inFlight := by
  rw [h.inFlight r]
  have := Lib.count_pos (p := fun j => w.slot j = some r) hc hs
  omega

theorem Core.reject (h : w.Core calm) {rest : List Nat} (hq : w.pool.pending = c :: rest)
    (e : AcquireErr) (he : ∀ e', e = .ctx e' → w.ctxErr c = some e') :
    (w.setPool (w.pool.answer c rest (.err e) (.reject c e))).Core calm where
  map := h.map.congr rfl rfl rfl rfl (fun _ => rfl) (fun _ => rfl)
  ledger := h.ledger.congr (slot_reject h.queue hq e _) rfl (fun _ => rfl) rfl rfl rfl rfl
  queue := h.queue.answer hq _ _ (by simpa using he)
  drain := h.drain.congr rfl rfl rfl rfl rfl rfl (fun _ => rfl) (fun _ => rfl) (fun _ => rfl)
    (fun _ _ => rfl)
  log := h.log.reject h.queue hq e
  ready := fun hc => (h.ready hc).congr rfl (fun _ => rfl) (fun x _ => (h.ready hc).exact x id)

/-! ## Granting a slot -/

/-- What a grant needs to know of the sandbox at the front of the ready list. -/
theorem Core.front (h : w.Core calm) (hc : w.pool.closed = false) (hr : w.pool.ready = r :: rs) :
    (w.pool.heap r).ready = true ∧ r < w.pool.next ∧ w.pool.inMap r = true ∧
      (w.pool.heap r).draining = false ∧ (w.pool.heap r).inFlight < w.pool.limit := by
  have hmem : r ∈ w.pool.ready := by simp [hr]
  have hfree := ((h.ready hc).exact r id).mp hmem
  simp only [SandboxPool.free, SandboxPool.live, Bool.and_eq_true, Bool.not_eq_true',
    decide_eq_true_eq] at hfree
  exact ⟨((h.ready hc).flag r).mpr hmem, h.map.inMap_lt hfree.1.1, hfree.1.1, hfree.1.2, hfree.2⟩

theorem Core.took_map (h : w.Core calm) {q : SandboxPool} (ht : w.pool.Took r rs q) : q.MapOK :=
  h.map.congr ht.limit ht.sandboxes ht.next ht.active (ht.field (fun s => s.target.instanceID) rfl)
    (ht.field (fun s => s.draining) rfl)

theorem Core.took_drain (h : w.Core calm) (hc : w.pool.closed = false) (hr : w.pool.ready = r :: rs)
    {q : SandboxPool} (ht : w.pool.Took r rs q) : (w.setPool q).DrainOK calm := by
  refine h.drain.congr rfl rfl rfl ht.next ht.drainedClosed ht.closed (ht.field (fun s => s.drained) rfl)
    (ht.field (fun s => s.draining) rfl) (ht.field (fun s => s.target.instanceID) rfl) ?_
  intro x hd
  have hne : x ≠ r := by
    rintro rfl
    rw [(h.front hc hr).2.2.2.1] at hd
    simp at hd
  simp [setPool, ht.heap, hne]

/-- The numbers of the ledger after a grant, for whoever got the slot. -/
theorem Core.took_ledger (h : w.Core calm) (hc : w.pool.closed = false)
    (hr : w.pool.ready = r :: rs) (ht : w.pool.Took r rs w'.pool) (hlt : c < w.ncalls)
    (hnone : w.slot c = none) (hsome : w'.slot c = some r) (hs : ∀ j, j ≠ c → w'.slot j = w.slot j)
    (hn : w'.ncalls = w.ncalls) : w'.Ledger := by
  refine h.ledger.take hlt (h.front hc hr).2.1 hnone hsome hs hn ?_ ?_ ht.executing ht.accepted
    ht.completed ht.next
  · simp [ht.heap]
  · intro x hx
    simp [ht.heap, hx]

theorem Core.grant (h : w.Core calm) (hc : w.pool.closed = false) {rest : List Nat}
    (hq : w.pool.pending = c :: rest) (hr : w.pool.ready = r :: rs) (la : Nat) (hw : Int)
    (qh : Option Nat) : (w.setPool { (w.pool.taken r rs la hw).answer c rest (.sandbox r)
      (.grant c r ((w.pool.taken r rs la hw).heap r).inFlight w.pool.limit
        ((w.pool.taken r rs la hw).heap r).draining) with queueHead := qh }).Core calm := by
  have hmem : c ∈ w.pool.pending := by simp [hq]
  obtain ⟨-, hpc⟩ := h.queue.waiting hmem
  have hlt : c < w.ncalls := h.queue.lt_of_pc (by rcases hpc with hp | hp <;> simp [hp])
  have hin : ((w.pool.taken r rs la hw).heap r).inFlight = (w.pool.heap r).inFlight + 1 := by
    simp [SandboxPool.taken]
  have hdr : ((w.pool.taken r rs la hw).heap r).draining = false := by
    simpa [SandboxPool.taken] using (h.front hc hr).2.2.2.1
  rw [hin, hdr]
  generalize hQ : ({ (w.pool.taken r rs la hw).answer c rest (.sandbox r)
    (.grant c r ((w.pool.heap r).inFlight + 1) w.pool.limit false) with queueHead := qh } :
      SandboxPool) = q
  have ht : w.pool.Took r rs q := by
    subst hQ; exact ⟨rfl, rfl, rfl, rfl, rfl, rfl, rfl, rfl, rfl, rfl, rfl⟩
  have hother : ∀ j, j ≠ c → (w.setPool q).slot j = w.slot j := by
    intro j hj
    subst hQ
    simp [slot, setPool, SandboxPool.answer, SandboxPool.taken, hj]
  have hsome : (w.setPool q).slot c = some r := by
    subst hQ
    rcases hpc with hp | hp <;> simp [slot, setPool, SandboxPool.answer, hp]
  have hnone := h.queue.slot_none hmem
  refine ⟨⟨h.took_map ht, h.took_ledger hc hr ht hlt hnone hsome hother rfl, ?_,
    h.took_drain hc hr ht, ?_⟩, ?_⟩
  · subst hQ
    exact (h.queue.answer hq (.sandbox r) (.grant c r 0 0 false) (by simp)).congr rfl rfl rfl rfl rfl rfl rfl
  · refine h.log.snoc (c := c) (.grant c r ((w.pool.heap r).inFlight + 1) w.pool.limit false)
      rfl ?_ ?_
      ⟨(h.front hc hr).2.2.2.2, rfl⟩ (fun _ _ => rfl) (fun _ _ => rfl) hother ?_ ?_ ?_ ?_ ?_ ?_ ?_ ?_
    · subst hQ; rfl
    · subst hQ
      simp [hq, Event.queueEvent, Lib.Fifo.run, Lib.Fifo.step, SandboxPool.answer]
    · simp [Event.isRet]
    · rcases hpc with hp | hp <;>
        simp [kept, hsome, hnone, hp, Event.isGrant, Event.isGiveBack]
    · simp [Event.isGiveBack]
    · simp [Event.isRelease]
    · intro x hx
      have hxr : x = r := by
        rcases hx with hx | hx
        · rw [hsome, Option.some.injEq] at hx
          exact hx.symm
        · rcases hpc with hp | hp <;> simp [hp] at hx
      subst hxr
      exact Or.inr ⟨_, _, _, rfl⟩
    · simp
    · simp
    · exact fun o hj => hj
  · intro _
    exact (h.ready hc).take hr ht.limit ht.sandboxes ht.heap ht.ready

/-! ## Whole runs of the two loops -/

theorem dispatchLoop_ok (now : Nat) (l : List Nat) (w : World) (h : w.Core calm)
    (hc : w.pool.closed = false) (hl : w.pool.pending = l) :
    ∃ p, SandboxPool.dispatchLoop w.ctxErr now l w.pool = .ok p ∧ (w.setPool p).Core calm ∧
      p.closed = false ∧ (p.pending ≠ [] → p.ready = []) := by
  induction l generalizing w with
  | nil =>
    refine ⟨w.pool, rfl, h, hc, ?_⟩
    intro hne
    exact absurd hl hne
  | cons c rest ih =>
    have hwait := (h.queue.waiting (c := c) (by simp [hl])).1
    unfold SandboxPool.dispatchLoop
    cases hx : w.ctxErr c with
    | some e =>
      -- the caller gave up: its waiter is answered with the context's error
      simp only [SandboxPool.send_answer _ _ _ _ _ hwait, bind, Except.bind]
      exact ih _ (h.reject hl (.ctx e) (by simp [hx])) hc rfl
    | none =>
      cases hr : w.pool.ready with
      | nil =>
        rw [w.pool.acquireLocked_nil now hr]
        exact ⟨w.pool, rfl, h, hc, fun _ => hr⟩
      | cons r rs =>
        obtain ⟨la, hw, hacq⟩ := w.pool.acquireLocked_cons now r rs hr (h.front hc hr).1
        obtain ⟨qh, hsend⟩ := (w.pool.taken r rs la hw).send_grant c r rest hwait
        simp only [hacq, hsend, bind, Except.bind]
        exact ih _ (h.grant hc hl hr la hw qh) hc rfl

/-- **Dispatch.** From any state in which the lists agree, `dispatchLocked` ends
without a fault in a state in which nobody waits while a slot is free. -/
theorem dispatch_ok (now : Nat) (w : World) (h : w.Core calm) (hc : w.pool.closed = false) :
    ∃ p, w.pool.dispatchLocked w.ctxErr now = .ok p ∧ (w.setPool p).Inv calm ∧
      p.closed = false := by
  obtain ⟨p, hp, hcore, hopen, hbusy⟩ := dispatchLoop_ok now w.pool.pending w h hc rfl
  exact ⟨p, hp, { hcore with busy := fun _ => hbusy }, hopen⟩

theorem dispatch_closed (now : Nat) (w : World) (h : w.QueueOK) (hc : w.pool.closed = true) :
    w.pool.dispatchLocked w.ctxErr now = .ok w.pool := by
  rw [SandboxPool.dispatchLocked, h.closed hc]
  rfl

/-- The loop of `Close`, which reads neither of the two fields set before it. -/
theorem closeLoop_ok (l : List Nat) (w : World) (h : w.Core calm) (hl : w.pool.pending = l) :
    ∃ p : SandboxPool, SandboxPool.closeLoop l { w.pool with closed := true, ready := [] } =
        .ok { p with closed := true, ready := [] } ∧
      (w.setPool p).Core calm ∧ p.pending = [] := by
  induction l generalizing w with
  | nil => exact ⟨w.pool, rfl, h, hl⟩
  | cons c rest ih =>
    have hwait := (h.queue.waiting (c := c) (by simp [hl])).1
    unfold SandboxPool.closeLoop
    simp only [SandboxPool.send_answer { w.pool with closed := true, ready := [] } c rest _ _ hwait,
      bind, Except.bind]
    exact ih _ (h.reject hl .poolClosed (by simp)) rfl

end World

end HyperFaaS.Dataplane
