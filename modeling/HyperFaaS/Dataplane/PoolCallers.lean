import HyperFaaS.Dataplane.PoolDispatch

/-!
What a caller of `Acquire` can do to the pool, and that each of it keeps the
invariant:

* `Inv.goTo`: the caller moves on, perhaps taking the value out of its channel;
* `Inv.returns`: the caller returns;
* `Inv.grantDirect`: the first critical section finds a slot;
* `Inv.enqueued`, `Inv.withdrawn`: the waiter enters the queue, or leaves it
  because the context ended.
-/

namespace HyperFaaS.Dataplane

open Function SandboxPool Event

namespace World

variable {calm : Prop}
variable {w w' : World} {c : Nat}

theorem QueueOK.no_lease (h : w.QueueOK) (hc : hasReturned (w.pc c) = false) :
    w.lease c = ⟨false, false⟩ := by
  apply h.lease
  intro r hr
  simp [hr, hasReturned] at hc

/-- The slot of a caller whose own place and waiter did not change. -/
theorem slot_other {j : Nat} (hp : w'.pc j = w.pc j) (hl : w'.lease j = w.lease j)
    (hw : w'.pool.waiters j = w.pool.waiters j) : w'.slot j = w.slot j := by
  simp only [slot, hp, hl, hw]

/-- A caller moves from inside `Acquire` to `x`; its waiter and the queue may
change along. -/
theorem QueueOK.move (h : w.QueueOK) {x : AcquirePC} (hidle : w.pc c ≠ .idle)
    (hfrom : hasReturned (w.pc c) = false) (hn : w'.ncalls = w.ncalls)
    (hpc : w'.pc = update w.pc c x) (hl : w'.lease = w.lease) (hx : w'.ctxErr = w.ctxErr)
    (hctx : gaveUp x = true → (w.ctxErr c).isSome = true) (hv : WaiterOK x (w'.pool.waiters c))
    (hw : ∀ j, j ≠ c → w'.pool.waiters j = w.pool.waiters j)
    (hq : c ∈ w'.pool.pending ↔ (w'.pool.waiters c).elem = true)
    (hq' : ∀ j, j ≠ c → (j ∈ w'.pool.pending ↔ j ∈ w.pool.pending)) (hnd : w'.pool.pending.Nodup)
    (hcl : w'.pool.closed = true → w'.pool.pending = [])
    (hown : ∀ e, w'.told c e → w.ctxErr c = some e) : w'.QueueOK := by
  have hlt := h.lt_of_pc hidle
  have hnone := h.no_lease hfrom
  have hpc : ∀ j, w'.pc j = if j = c then x else w.pc j := by
    rw [hpc]
    exact update_apply _ _ _
  refine ⟨?_, ?_, ?_, hnd, ?_, ?_, by rw [hl]; exact h.flags, hcl, ?_⟩
  · grind [h.idle]
  · exact fun j => by have := h.waiter j; grind
  · exact fun j => by have := h.queued j; grind
  · exact fun j hj => by have := h.ctx j; grind
  · intro j hj
    rw [hl]
    by_cases hjc : j = c
    · rw [hjc]
      exact hnone
    · exact h.lease j (by grind)
  · intro j e hj
    by_cases hjc : j = c
    · subst hjc
      rw [hx]
      exact hown e hj
    · rw [hx]
      exact h.own j e (by simpa [told, hpc, hjc, hw j hjc] using hj)

theorem kept_of_not_returned (hc : hasReturned (w.pc c) = false) :
    w.kept c = (w.slot c).isSome := by
  cases hp : w.pc c with
  | returned o => simp [hp, hasReturned] at hc
  | _ => simp [kept, hp]

theorem LogOK.still (h : w.LogOK) (hlog : w'.pool.log = w.pool.log)
    (hq : w'.pool.pending = w.pool.pending)
    (hret : ∀ c, hasReturned (w'.pc c) = hasReturned (w.pc c)) (hkept : ∀ c, w'.kept c = w.kept c)
    (hgive : ∀ c, afterGiveBack (w.pc c) = true → afterGiveBack (w'.pc c) = true)
    (hrel : ∀ c, ((w'.lease c).released && !(w'.lease c).releasing) =
      ((w.lease c).released && !(w.lease c).releasing)) (hslot : ∀ c, w'.slot c = w.slot c)
    (hpc : ∀ c o, w'.pc c = .returned o ↔ w.pc c = .returned o) : w'.LogOK where
  fifo := by rw [hlog, hq]; exact h.fifo
  within := by rw [hlog]; exact h.within
  returns := by
    intro c
    rw [hlog, hret]
    exact h.returns c
  grants := by
    intro c
    rw [hlog, hkept]
    exact h.grants c
  gives := by
    intro c
    rw [hlog]
    refine (h.gives c).trans ?_
    cases hb : afterGiveBack (w.pc c) with
    | false => simp
    | true => rw [hgive c hb]
  releases := by
    intro c
    rw [hlog, hrel]
    exact h.releases c
  granted := by
    intro c r hc
    rw [hslot, hpc] at hc
    rw [hlog]
    exact h.granted c r hc
  given := by rw [hlog]; exact h.given
  returned := by
    intro c o hc
    rw [hlog] at hc
    exact (hpc c o).mpr (h.returned c o hc)

/-! ## A caller moves on -/

/-- A caller moves from one place inside `Acquire` to another; `v` is its waiter
afterwards. -/
theorem Inv.goTo (h : w.Inv calm) {x : AcquirePC} {v : Waiter} (hidle : w.pc c ≠ .idle)
    (hfrom : hasReturned (w.pc c) = false) (hto : hasReturned x = false) (hv : WaiterOK x v)
    (hel : v.elem = (w.pool.waiters c).elem) (hctx : gaveUp x = true → (w.ctxErr c).isSome = true)
    (hgive : afterGiveBack (w.pc c) = true → afterGiveBack x = true)
    (hown : ∀ e, .err (.ctx e) ∈ v.result ∨ x = .received (.err (.ctx e)) → w.told c e)
    (hslot : ((w.setPool (w.pool.setWaiter c v)).setPC c x).slot c = w.slot c) :
    ((w.setPool (w.pool.setWaiter c v)).setPC c x).Inv calm := by
  have hother : ∀ j, j ≠ c → ((w.setPool (w.pool.setWaiter c v)).setPC c x).slot j = w.slot j := by
    intro j hj
    apply slot_other <;> simp [setWaiter, hj]
  have hs : ((w.setPool (w.pool.setWaiter c v)).setPC c x).slot = w.slot := by
    funext j
    by_cases hj : j = c
    · subst hj; exact hslot
    · exact hother j hj
  have hnot : ∀ y : AcquirePC, hasReturned y = false → ∀ o, y ≠ .returned o := by
    rintro y hy o rfl
    simp [hasReturned] at hy
  refine { map := ?_, ledger := ?_, queue := ?_, drain := ?_, log := ?_, ready := ?_, busy := ?_ }
  · exact h.map.congr rfl rfl rfl rfl (fun _ => rfl) (fun _ => rfl)
  · exact h.ledger.congr hs rfl (fun _ => rfl) rfl rfl rfl rfl
  · refine h.queue.move hidle hfrom rfl rfl rfl rfl hctx ?_ ?_ ?_ (fun _ _ => Iff.rfl)
      h.queue.nodup h.queue.closed ?_
    · simpa [setWaiter] using hv
    · intro j hj
      simp [setWaiter, hj]
    · simpa [setWaiter, hel] using h.queue.queued c
    · intro e he
      refine h.queue.own c e (hown e ?_)
      have hx := hnot x hto (.err (.ctx e))
      simpa [told, setWaiter, hx] using he
  · exact h.drain.congr rfl rfl rfl rfl rfl rfl (fun _ => rfl) (fun _ => rfl) (fun _ => rfl)
      (fun _ _ => rfl)
  · refine h.log.still rfl rfl ?_ ?_ ?_ (fun _ => rfl) (congrFun hs) ?_
    · intro j
      by_cases hj : j = c
      · subst hj; simp [hto, hfrom]
      · simp [hj]
    · intro j
      by_cases hj : j = c
      · subst hj
        rw [kept_of_not_returned hfrom, kept_of_not_returned (by simpa using hto), hs]
      · simp [kept, congrFun hs j, hj]
    · intro j hj
      by_cases hjc : j = c
      · subst hjc; simpa using hgive hj
      · simpa [hjc] using hj
    · intro j o
      by_cases hj : j = c
      · subst hj
        simp [hnot _ hfrom o, hnot _ hto o]
      · simp [hj]
  · intro hc
    exact (h.ready hc).congr rfl (fun _ => rfl) (fun y _ => (h.ready hc).exact y id)
  · exact h.busy

/-! ## A caller returns -/

/-- The slot a caller returns with. -/
def carried : Outcome → Option Nat
  | .lease r => some r
  | .err _ => none

/-- A caller that holds exactly what it returns, with its channel empty. -/
theorem Inv.returns (h : w.Inv calm) {o : Outcome} (hidle : w.pc c ≠ .idle)
    (hfrom : hasReturned (w.pc c) = false) (hv : w.pool.waiters c = ⟨false, []⟩)
    (hslot : w.slot c = carried o) (hgive : afterGiveBack (w.pc c) = true → ∃ e, o = .err e)
    (hown : ∀ e, o = .err (.ctx e) → w.ctxErr c = some e) : (w.ret c o).Inv calm := by
  have hlease := h.queue.no_lease hfrom
  have hs : (w.ret c o).slot = w.slot := by
    funext j
    by_cases hj : j = c
    · subst hj
      rw [hslot]
      cases o <;> simp [slot, ret, carried, hlease]
    · apply slot_other <;> simp [ret, hj, record]
  have hpc : ∀ j, j ≠ c → (w.ret c o).pc j = w.pc j := by
    intro j hj
    simp [ret, hj]
  have hself : (w.ret c o).pc c = .returned o := by simp [ret]
  refine { map := ?_, ledger := ?_, queue := ?_, drain := ?_, log := ?_, ready := ?_, busy := ?_ }
  · exact h.map.congr rfl rfl rfl rfl (fun _ => rfl) (fun _ => rfl)
  · exact h.ledger.congr hs rfl (fun _ => rfl) rfl rfl rfl rfl
  · refine h.queue.move hidle hfrom rfl rfl rfl rfl (by simp [gaveUp]) ?_ (fun _ _ => rfl)
      (h.queue.queued c) (fun _ _ => Iff.rfl) h.queue.nodup h.queue.closed ?_
    · simp [WaiterOK, ret, record, hv]
    · intro e he
      exact hown e (by simpa [told, ret, record, hv] using he)
  · exact h.drain.congr rfl rfl rfl rfl rfl rfl (fun _ => rfl) (fun _ => rfl) (fun _ => rfl)
      (fun _ _ => rfl)
  · refine h.log.snoc (c := c) (.ret c o) rfl rfl rfl trivial hpc (fun _ _ => rfl)
      (fun j _ => congrFun hs j) ?_ ?_ ?_ rfl ?_ (by simp) ?_ ?_
    · rw [hself, hfrom]
      simp [hasReturned, isRet]
    · rw [kept_of_not_returned hfrom]
      cases o <;> simp [kept, hs, hself, hslot, carried, isGrant, isGiveBack]
    · cases hg : afterGiveBack (w.pc c) with
      | false => simp [isGiveBack]
      | true =>
        obtain ⟨e, rfl⟩ := hgive hg
        simp [isGiveBack, hself, afterGiveBack]
    · intro r hr
      rw [hs, hself] at hr
      rcases hr with hr | hr
      · exact Or.inl (Or.inl hr)
      · cases hr
        exact Or.inl (Or.inl hslot)
    · intro o' ho
      cases ho
      exact hself
    · intro o' ho
      simp [ho, hasReturned] at hfrom
  · intro hc
    exact (h.ready hc).congr rfl (fun _ => rfl) (fun y _ => (h.ready hc).exact y id)
  · exact h.busy

/-! ## The first critical section -/

theorem QueueOK.not_queued (h : w.QueueOK) (hp : w.pc c = .locking) :
    w.pool.waiters c = ⟨false, []⟩ ∧ w.slot c = none ∧ c ∉ w.pool.pending := by
  have hw := h.waiter c
  simp only [WaiterOK, hp] at hw
  cases hv : w.pool.waiters c with
  | mk elem result =>
    rw [hv] at hw
    obtain ⟨rfl, rfl⟩ := hw
    refine ⟨rfl, by simp [slot, hp], ?_⟩
    rw [h.queued, hv]
    simp

theorem Inv.grantDirect (h : w.Inv calm) (hc : w.pool.closed = false) {r : Nat} {rs : List Nat}
    (hp : w.pc c = .locking) (hq : w.pool.pending = []) (hr : w.pool.ready = r :: rs) (la : Nat)
    (hw : Int) : ((w.setPool ((w.pool.taken r rs la hw).recordGrant c r)).setPC c
      (.received (.sandbox r))).Inv calm := by
  obtain ⟨hv, hnone, -⟩ := h.queue.not_queued hp
  have hidle : w.pc c ≠ .idle := by simp [hp]
  have hfrom : hasReturned (w.pc c) = false := by simp [hp, hasReturned]
  have hin : ((w.pool.taken r rs la hw).heap r).inFlight = (w.pool.heap r).inFlight + 1 := by
    simp [taken]
  have hdr : ((w.pool.taken r rs la hw).heap r).draining = false := by
    simpa [taken] using (h.front hc hr).2.2.2.1
  unfold recordGrant
  rw [hin, hdr]
  generalize hQ : (w.pool.taken r rs la hw).record (.grant c r ((w.pool.heap r).inFlight + 1)
    (w.pool.taken r rs la hw).limit false) = q
  have ht : w.pool.Took r rs q := by
    subst hQ; exact ⟨rfl, rfl, rfl, rfl, rfl, rfl, rfl, rfl, rfl, rfl, rfl⟩
  have hqw : q.waiters = w.pool.waiters := by subst hQ; rfl
  have hqp : q.pending = w.pool.pending := by subst hQ; rfl
  have hother : ∀ j, j ≠ c →
      ((w.setPool q).setPC c (.received (.sandbox r))).slot j = w.slot j := by
    intro j hj
    apply slot_other <;> simp [hj, hqw]
  have hsome : ((w.setPool q).setPC c (.received (.sandbox r))).slot c = some r := by
    simp [slot]
  refine { map := ?_, ledger := ?_, queue := ?_, drain := ?_, log := ?_, ready := ?_, busy := ?_ }
  · exact h.took_map ht
  · exact h.took_ledger hc hr ht (h.queue.lt_of_pc hidle) hnone hsome hother rfl
  · refine h.queue.move hidle hfrom rfl rfl rfl rfl (by simp [gaveUp]) ?_ ?_ ?_ ?_ ?_ ?_ ?_
    · simp [WaiterOK, hqw, hv]
    · simp [hqw]
    · simpa [hqw, hqp] using h.queue.queued c
    · simp [hqp]
    · simpa [hqp] using h.queue.nodup
    · exact fun _ => hqp.trans hq
    · simp [told, hqw, hv]
  · exact (h.took_drain hc hr ht).congr rfl rfl rfl rfl rfl rfl (fun _ => rfl) (fun _ => rfl)
      (fun _ => rfl) (fun _ _ => rfl)
  · refine h.log.snoc (c := c) (.grant c r ((w.pool.heap r).inFlight + 1)
      (w.pool.taken r rs la hw).limit false) rfl ?_ ?_ ⟨(h.front hc hr).2.2.2.2, rfl⟩ ?_
      (fun _ _ => rfl) hother ?_ ?_ ?_ rfl ?_ (by simp) (by simp) ?_
    · subst hQ; rfl
    · simp [hqp, hq, queueEvent, Lib.Fifo.run, Lib.Fifo.step]
    · intro j hj
      simp [hj]
    · simp [hp, hasReturned, isRet]
    · simp [kept, hsome, hnone, hp, isGrant, isGiveBack]
    · simp [hp, afterGiveBack, isGiveBack]
    · intro x hx
      simp only [hsome, setPC_pc, update_self, reduceCtorEq, or_false,
        Option.some.injEq] at hx
      subst hx
      exact Or.inr ⟨_, _, _, rfl⟩
    · simp [hp]
  · intro _
    exact (h.ready hc).take hr ht.limit ht.sandboxes ht.heap ht.ready
  · intro _ hne
    exact absurd (hqp.trans hq) hne

theorem Inv.enqueued (h : w.Inv calm) (hc : w.pool.closed = false) (hp : w.pc c = .locking)
    (hr : w.pool.ready = []) (hroom : (w.pool.pending.length : Int) < w.pool.queueDepth)
    (now : Nat) : ((w.setPool (w.pool.enqueue c now)).setPC c .selecting).Inv calm := by
  obtain ⟨hv, hnone, hnot⟩ := h.queue.not_queued hp
  have hidle : w.pc c ≠ .idle := by simp [hp]
  have hfrom : hasReturned (w.pc c) = false := by simp [hp, hasReturned]
  obtain ⟨qh, hw, hq⟩ := w.pool.enqueue_eq c now
  rw [hq]
  generalize hQ : ({ w.pool with
      pending := w.pool.pending ++ [c]
      waiters := update w.pool.waiters c ⟨true, []⟩
      log := w.pool.log ++ [.enqueue c w.pool.pending.length w.pool.queueDepth]
      queueHead := qh
      highWater := hw } : SandboxPool) = q
  have hqw : q.waiters = update w.pool.waiters c ⟨true, []⟩ := by subst hQ; rfl
  have hqp : q.pending = w.pool.pending ++ [c] := by subst hQ; rfl
  have hs : ((w.setPool q).setPC c .selecting).slot = w.slot := by
    funext j
    by_cases hj : j = c
    · subst hj
      rw [hnone]
      simp [slot, hqw]
    · apply slot_other <;> simp [hj, hqw]
  refine { map := ?_, ledger := ?_, queue := ?_, drain := ?_, log := ?_, ready := ?_, busy := ?_ }
  · subst hQ
    exact h.map.congr rfl rfl rfl rfl (fun _ => rfl) (fun _ => rfl)
  · subst hQ
    exact h.ledger.congr hs rfl (fun _ => rfl) rfl rfl rfl rfl
  · refine h.queue.move hidle hfrom rfl rfl rfl rfl (by simp [gaveUp]) ?_ ?_ ?_ ?_ ?_ ?_ ?_
    · simp [WaiterOK, hqw]
    · intro j hj
      simp [hqw, hj]
    · simp [hqw, hqp]
    · intro j hj
      simp [hqp, hj]
    · simp only [setPC_pool, setPool_pool, hqp]
      exact List.Nodup.append h.queue.nodup (by simp) (by simpa using hnot)
    · intro hcl
      have hqc : q.closed = w.pool.closed := by subst hQ; rfl
      simp [hqc, hc] at hcl
    · simp [told, hqw]
  · subst hQ
    exact h.drain.congr rfl rfl rfl rfl rfl rfl (fun _ => rfl) (fun _ => rfl) (fun _ => rfl)
      (fun _ _ => rfl)
  · refine h.log.snoc (c := c) (.enqueue c w.pool.pending.length w.pool.queueDepth) rfl ?_ ?_ hroom
      ?_ (fun _ _ => rfl) (fun j _ => congrFun hs j) ?_ ?_ ?_ rfl ?_ (by simp) (by simp) ?_
    · subst hQ; rfl
    · simp [hqp, queueEvent, Lib.Fifo.run, Lib.Fifo.step]
    · intro j hj
      simp [hj]
    · simp [hp, hasReturned, isRet]
    · simp [kept, hs, hp, isGrant, isGiveBack]
    · simp [hp, afterGiveBack, isGiveBack]
    · intro x hx
      exact Or.inl (Or.inl (by simpa [hs] using hx))
    · simp [hp]
  · intro _
    subst hQ
    exact (h.ready hc).congr rfl (fun _ => rfl) (fun y _ => (h.ready hc).exact y id)
  · intro _ _
    subst hQ
    exact hr

theorem Inv.withdrawn (h : w.Inv calm) (hp : w.pc c = .canceling)
    (hel : (w.pool.waiters c).elem = true) :
    ∃ p, w.pool.acquireCancel c = (p, true) ∧ ((w.setPool p).setPC c .leaving).Inv calm := by
  have hmem : c ∈ w.pool.pending := (h.queue.queued c).mpr hel
  have hv := (h.queue.waiting hmem).1
  have hnone := h.queue.slot_none hmem
  have hidle : w.pc c ≠ .idle := by simp [hp]
  have hfrom : hasReturned (w.pc c) = false := by simp [hp, hasReturned]
  obtain ⟨qh, hcancel⟩ := w.pool.acquireCancel_queued c hv
  refine ⟨_, hcancel, ?_⟩
  generalize hQ : ({ w.pool with
      pending := w.pool.pending.erase c
      waiters := update w.pool.waiters c ⟨false, []⟩
      queueHead := qh
      log := w.pool.log ++ [.withdraw c] } : SandboxPool) = q
  have hqw : q.waiters = update w.pool.waiters c ⟨false, []⟩ := by subst hQ; rfl
  have hqp : q.pending = w.pool.pending.erase c := by subst hQ; rfl
  have hs : ((w.setPool q).setPC c .leaving).slot = w.slot := by
    funext j
    by_cases hj : j = c
    · subst hj
      rw [hnone]
      simp [slot]
    · apply slot_other <;> simp [hj, hqw]
  refine { map := ?_, ledger := ?_, queue := ?_, drain := ?_, log := ?_, ready := ?_, busy := ?_ }
  · subst hQ
    exact h.map.congr rfl rfl rfl rfl (fun _ => rfl) (fun _ => rfl)
  · subst hQ
    exact h.ledger.congr hs rfl (fun _ => rfl) rfl rfl rfl rfl
  · refine h.queue.move hidle hfrom rfl rfl rfl rfl ?_ ?_ ?_ ?_ ?_ ?_ ?_ ?_
    · exact fun _ => h.queue.ctx c (by simp [hp, gaveUp])
    · simp [WaiterOK, hqw]
    · intro j hj
      simp [hqw, hj]
    · simp [hqw, hqp, h.queue.nodup.not_mem_erase]
    · intro j hj
      simp [hqp, List.mem_erase_of_ne hj]
    · simpa [hqp] using h.queue.nodup.erase c
    · intro hcl
      have hqc : q.closed = w.pool.closed := by subst hQ; rfl
      simp [hqp, h.queue.closed (hqc.symm.trans hcl)]
    · simp [told, hqw]
  · subst hQ
    exact h.drain.congr rfl rfl rfl rfl rfl rfl (fun _ => rfl) (fun _ => rfl) (fun _ => rfl)
      (fun _ _ => rfl)
  · refine h.log.snoc (c := c) (.withdraw c) rfl ?_ ?_ trivial ?_ (fun _ _ => rfl)
      (fun j _ => congrFun hs j) ?_ ?_ ?_ rfl ?_ (by simp) (by simp) ?_
    · subst hQ; rfl
    · simp [hqp, queueEvent, Lib.Fifo.run, Lib.Fifo.step]
    · intro j hj
      simp [hj]
    · simp [hp, hasReturned, isRet]
    · simp [kept, hs, hp, isGrant, isGiveBack]
    · simp [hp, afterGiveBack, isGiveBack]
    · intro x hx
      exact Or.inl (Or.inl (by simpa [hs] using hx))
    · simp [hp]
  · intro hc
    subst hQ
    exact (h.ready hc).congr rfl (fun _ => rfl) (fun y _ => (h.ready hc).exact y id)
  · intro hc hne
    have hqr : q.ready = w.pool.ready := by subst hQ; rfl
    have hqc : q.closed = w.pool.closed := by subst hQ; rfl
    exact hqr.trans (h.busy (hqc.symm.trans hc) (List.ne_nil_of_mem hmem))

end World

end HyperFaaS.Dataplane
