import HyperFaaS.Dataplane.PoolRelease

/-!
Every action of an `Acquire` caller and of a lease holder is fine: when it is
the caller's next one it runs without a fault and keeps the invariant.
-/

namespace HyperFaaS.Dataplane

open SandboxPool

namespace World

variable {calm : Prop}

/-! ## The actions of callers -/

/-- The action is not the next one of its caller, or it runs without a fault and
the invariant holds after it. -/
def Fine (calm : Prop) (x : Except Fault World) : Prop :=
  x = .error .disabled ∨ ∃ w', x = .ok w' ∧ w'.Inv calm

theorem setWaiter_self (w : World) (c : Nat) :
    w.setPool (w.pool.setWaiter c (w.pool.waiters c)) = w := by
  simp [setPool, setWaiter]

variable {w : World} {c : Nat}

theorem Inv.walk (h : w.Inv calm) {x : AcquirePC} (hidle : w.pc c ≠ .idle)
    (hfrom : hasReturned (w.pc c) = false) (hto : hasReturned x = false)
    (hv : WaiterOK x (w.pool.waiters c)) (hctx : gaveUp x = true → (w.ctxErr c).isSome = true)
    (hgive : afterGiveBack (w.pc c) = true → afterGiveBack x = true)
    (hown : ∀ e, x ≠ .received (.err (.ctx e))) (hslot : (w.setPC c x).slot c = w.slot c) :
    (w.setPC c x).Inv calm := by
  have hgo := h.goTo (x := x) (v := w.pool.waiters c) hidle hfrom hto hv rfl hctx hgive (by
    intro e he
    exact Or.inl (he.resolve_right (hown e)))
  rw [setWaiter_self] at hgo
  exact hgo hslot

theorem check_fine (h : w.Inv calm) (c : Nat) : Fine calm (w.check c) := by
  unfold check
  split
  · rename_i hp
    have hw := h.queue.waiter c
    simp only [WaiterOK, hp] at hw
    have hv : w.pool.waiters c = ⟨false, []⟩ := by
      cases hv : w.pool.waiters c
      simp_all
    have hnone : w.slot c = none := by simp [slot, hp]
    split
    · rename_i e hctx
      refine Or.inr ⟨_, rfl, h.returns (by simp [hp]) (by simp [hp, hasReturned]) hv ?_ ?_ ?_⟩
      · simpa [carried] using hnone
      · simp [hp, afterGiveBack]
      · simp [hctx]
    · refine Or.inr ⟨_, rfl, h.walk (by simp [hp]) (by simp [hp, hasReturned]) rfl ?_ ?_ ?_ (by simp)
        ?_⟩
      · simp [WaiterOK, hv]
      · simp [gaveUp]
      · simp [hp, afterGiveBack]
      · rw [hnone]
        simp [slot]
  · exact Or.inl rfl

theorem enter_fine (h : w.Inv calm) (c : Nat) : Fine calm (w.enter c) := by
  unfold enter
  split
  · rename_i hp
    have hidle : w.pc c ≠ .idle := by simp [hp]
    have hfrom : hasReturned (w.pc c) = false := by simp [hp, hasReturned]
    obtain ⟨hv, hnone, -⟩ := h.queue.not_queued hp
    -- a caller that is turned away returns its error at once
    have hfail : ∀ e, (∀ e', e ≠ .ctx e') → (w.ret c (.err e)).Inv calm := fun e he =>
      h.returns hidle hfrom hv (by simpa [carried] using hnone) (by simp [hp, afterGiveBack])
        (by simp [he])
    unfold acquireEnter
    by_cases hcl : w.pool.closed = true
    · simp only [hcl, if_true]
      exact Or.inr ⟨_, rfl, hfail .poolClosed (by simp)⟩
    · have hopen : w.pool.closed = false := by simpa using hcl
      simp only [hopen, Bool.false_eq_true, if_false]
      by_cases hslot : w.pool.pending = [] ∧ w.pool.ready ≠ []
      · obtain ⟨r, rs, hr⟩ := List.exists_cons_of_ne_nil hslot.2
        obtain ⟨la, hw, hacq⟩ := w.pool.acquireLocked_cons w.clock r rs hr (h.front hopen hr).1
        simp only [hslot.1, if_true, hacq]
        have hgrant := h.grantDirect hopen hp hslot.1 hr la hw
        have hret := hgrant.returns (c := c) (o := .lease r) (by simp) (by simp [hasReturned])
          (by simpa [recordGrant, record, taken] using hv)
          (by simp [slot, carried]) (by simp [afterGiveBack]) (by simp)
        refine Or.inr ⟨_, rfl, ?_⟩
        simpa [ret, setPC] using hret
      · have hnoslot : (if w.pool.pending = [] then w.pool.acquireLocked w.clock else none) =
            none := by
          split
          · rename_i hq
            apply acquireLocked_nil
            by_contra hne
            exact hslot ⟨hq, hne⟩
          · rfl
        rw [hnoslot]
        by_cases hfull : (w.pool.pending.length : Int) ≥ w.pool.queueDepth
        · simp only [hfull, if_true]
          exact Or.inr ⟨_, rfl, hfail .queueFull (by simp)⟩
        · simp only [hfull, if_false]
          have hready : w.pool.ready = [] := by
            by_cases hq : w.pool.pending = []
            · by_contra hne
              exact hslot ⟨hq, hne⟩
            · exact h.busy hopen hq
          exact Or.inr ⟨_, rfl, h.enqueued hopen hp hready (by omega) w.clock⟩
  · exact Or.inl rfl

theorem receive_fine (h : w.Inv calm) (c : Nat) : Fine calm (w.receive c) := by
  unfold receive
  split
  · rename_i x rest hp hx
    have hw := h.queue.waiter c
    simp only [WaiterOK, hp] at hw
    rcases hw with ⟨-, hnil⟩ | ⟨hel, y, hy⟩
    · simp [hnil] at hx
    · rw [hy, List.cons.injEq] at hx
      obtain ⟨rfl, rfl⟩ := hx
      refine Or.inr ⟨_, rfl, h.goTo (by simp [hp]) (by simp [hp, hasReturned]) rfl ?_ rfl ?_ ?_ ?_ ?_⟩
      · simp [WaiterOK, hel]
      · simp [gaveUp]
      · simp [hp, afterGiveBack]
      · intro e he
        exact Or.inl (by simpa [hy, eq_comm] using he)
      · cases y <;> simp [slot, hp, hy]
  · exact Or.inl rfl

theorem confirm_fine (h : w.Inv calm) (c : Nat) : Fine calm (w.confirm c) := by
  have hv : ∀ x, w.pc c = .received x → w.pool.waiters c = ⟨false, []⟩ := by
    intro x hp
    have hw := h.queue.waiter c
    simp only [WaiterOK, hp] at hw
    cases hv : w.pool.waiters c
    simp_all
  unfold confirm
  split
  · rename_i e hp
    refine Or.inr ⟨_, rfl, h.returns (by simp [hp]) (by simp [hp, hasReturned]) (hv _ hp) ?_ ?_ ?_⟩
    · simp [slot, hp, carried]
    · simp [hp, afterGiveBack]
    · intro e' he
      cases he
      exact h.queue.own c e' (Or.inr (Or.inl hp))
  · rename_i r hp
    split
    · rename_i e hctx
      refine Or.inr ⟨_, rfl, h.walk (by simp [hp]) (by simp [hp, hasReturned]) rfl ?_ ?_ ?_ (by simp)
        ?_⟩
      · simp [WaiterOK, hv _ hp]
      · simp [hctx]
      · simp [hp, afterGiveBack]
      · simp [slot, hp]
    · refine Or.inr ⟨_, rfl, h.returns (by simp [hp]) (by simp [hp, hasReturned]) (hv _ hp) ?_ ?_
        (by simp)⟩
      · simp [slot, hp, carried]
      · simp [hp, afterGiveBack]
  · exact Or.inl rfl

theorem giveUp_fine (h : w.Inv calm) (c : Nat) : Fine calm (w.giveUp c) := by
  unfold giveUp
  split
  · rename_i e hp hctx
    refine Or.inr ⟨_, rfl, h.walk (by simp [hp]) (by simp [hp, hasReturned]) rfl ?_ ?_ ?_ (by simp)
        ?_⟩
    · simpa [WaiterOK, hp] using h.queue.waiter c
    · simp [hctx]
    · simp [hp, afterGiveBack]
    · simp [slot, hp]
  · exact Or.inl rfl

theorem leave_of_leaving (h : w.Inv calm) (hp : w.pc c = .leaving) {e : CtxErr}
    (hctx : w.ctxErr c = some e) : (w.ret c (.err (.ctx e))).Inv calm := by
  have hw := h.queue.waiter c
  simp only [WaiterOK, hp] at hw
  have hv : w.pool.waiters c = ⟨false, []⟩ := by
    cases hv : w.pool.waiters c
    simp_all
  refine h.returns (by simp [hp]) (by simp [hp, hasReturned]) hv ?_ ?_ ?_
  · simp [slot, hp, carried]
  · exact fun _ => ⟨.ctx e, rfl⟩
  · simp [hctx]

theorem withdraw_fine (h : w.Inv calm) (c : Nat) : Fine calm (w.withdraw c) := by
  unfold withdraw
  split
  · rename_i e hp hctx
    cases hel : (w.pool.waiters c).elem with
    | true =>
      obtain ⟨p, hcancel, hinv⟩ := h.withdrawn hp hel
      rw [hcancel]
      have hret := leave_of_leaving hinv (c := c) (by simp) hctx
      refine Or.inr ⟨_, rfl, ?_⟩
      simpa [ret, setPC] using hret
    | false =>
      -- answered in the meantime
      simp only [acquireCancel, hel, Bool.false_eq_true, if_false]
      have hw := h.queue.waiter c
      simp only [WaiterOK, hp, hel, Bool.false_eq_true, false_and, false_or, true_and] at hw
      refine Or.inr ⟨_, rfl, h.walk (by simp [hp]) (by simp [hp, hasReturned]) rfl ?_ ?_ ?_ (by simp)
        ?_⟩
      · exact ⟨hel, hw⟩
      · simp [gaveUp, hctx]
      · simp [hp, afterGiveBack]
      · simp [slot, hp]
  · exact Or.inl rfl

theorem collect_fine (h : w.Inv calm) (c : Nat) : Fine calm (w.collect c) := by
  have hone : ∀ x rest, w.pc c = .collecting → (w.pool.waiters c).result = x :: rest →
      (w.pool.waiters c).elem = false ∧ rest = [] := by
    intro x rest hp hx
    have hw := h.queue.waiter c
    simp only [WaiterOK, hp] at hw
    obtain ⟨hel, y, hy⟩ := hw
    rw [hy, List.cons.injEq] at hx
    exact ⟨hel, hx.2.symm⟩
  unfold collect
  split
  · rename_i r rest e hp hx hctx
    obtain ⟨hel, rfl⟩ := hone _ _ hp hx
    refine Or.inr ⟨_, rfl, h.goTo (by simp [hp]) (by simp [hp, hasReturned]) rfl ?_ rfl ?_ ?_
      (by simp) ?_⟩
    · simp [WaiterOK, hel]
    · simp [hctx]
    · simp [hp, afterGiveBack]
    · simp [slot, hp, hx]
  · rename_i e' rest e hp hx hctx
    obtain ⟨hel, rfl⟩ := hone _ _ hp hx
    have hleft := h.goTo (c := c) (x := .leaving) (v := ⟨false, []⟩) (by simp [hp])
      (by simp [hp, hasReturned]) rfl (by simp [WaiterOK]) hel.symm (by simp [hctx])
      (by simp [hp, afterGiveBack]) (by simp) (by simp [slot, hp, hx])
    have hret := leave_of_leaving hleft (c := c) (by simp) hctx
    refine Or.inr ⟨_, rfl, ?_⟩
    simpa [ret, setPC, popResult, hel] using hret
  · exact Or.inl rfl

theorem giveBack_fine (h : w.Inv calm) (c : Nat)
    (hcalm : calm → ∀ r, w.pc c = .givingBack r → ¬ (w.pool.closed = true ∧
      (w.pool.heap r).draining = true ∧ (w.pool.heap r).inFlight = 1)) :
    Fine calm (w.giveBack c) := by
  unfold giveBack
  split
  · rename_i r hp
    have hv := h.queue.waiter c
    simp only [WaiterOK, hp] at hv
    have hs : ∀ j, j ≠ c →
        ((w.setPool (w.pool.record (.giveBack c r))).setPC c .leaving).slot j = w.slot j := by
      intro j hj
      apply slot_other <;> simp [record, hj]
    have hr : Released w ((w.setPool (w.pool.record (.giveBack c r))).setPC c .leaving) c r
        (.giveBack c r) := by
      refine ⟨rfl, rfl, rfl, rfl, rfl, rfl, by simp [slot, hp], by simp [slot], hs, ?_, ?_⟩
      · refine h.queue.move (by simp [hp]) (by simp [hp, hasReturned]) rfl rfl rfl rfl ?_ ?_
          (fun _ _ => rfl) (h.queue.queued c) (fun _ _ => Iff.rfl) h.queue.nodup h.queue.closed ?_
        · exact fun _ => h.queue.ctx c (by simp [hp, gaveUp])
        · exact hv
        · intro e he
          exact h.queue.own c e (Or.inl (by simpa [told, record] using he))
      · refine h.log.snoc (c := c) (.giveBack c r) rfl rfl rfl trivial ?_ (fun _ _ => rfl) hs
          ?_ ?_ ?_ rfl ?_ ?_ (by simp) ?_
        · intro j hj
          simp [hj]
        · simp [hp, hasReturned, Event.isRet]
        · simp [kept, slot, hp, Event.isGrant, Event.isGiveBack]
        · simp [hp, afterGiveBack, Event.isGiveBack]
        · intro x hx
          simp [slot] at hx
        · intro x hx
          cases hx
          simp [slot, hp]
        · simp [hp]
    obtain ⟨p, hp', hinv⟩ := hr.run h w.clock (fun hc => hcalm hc r hp)
    refine Or.inr ⟨_, ?_, hinv⟩
    have hrun : (w.pool.record (.giveBack c r)).release r w.ctxErr w.clock = .ok p := hp'
    rw [hrun]
    rfl
  · exact Or.inl rfl

theorem leave_fine (h : w.Inv calm) (c : Nat) : Fine calm (w.leave c) := by
  unfold leave
  split
  · rename_i e hp hctx
    exact Or.inr ⟨_, rfl, leave_of_leaving h hp hctx⟩
  · exact Or.inl rfl

/-! ## The actions of lease holders -/

theorem QueueOK.setLease {w' : World} (h : w.QueueOK) {r : Nat} {l : Lease}
    (hp : w.pc c = .returned (.lease r)) (hn : w'.ncalls = w.ncalls) (hpc : w'.pc = w.pc)
    (hl : w'.lease = Function.update w.lease c l) (hx : w'.ctxErr = w.ctxErr)
    (hw : w'.pool.waiters = w.pool.waiters) (hq : w'.pool.pending = w.pool.pending)
    (hcl : w'.pool.closed = w.pool.closed) (hflag : l.released = true) : w'.QueueOK where
  idle := by rw [hn, hpc]; exact h.idle
  waiter := by rw [hpc, hw]; exact h.waiter
  queued := by rw [hq, hw]; exact h.queued
  nodup := by rw [hq]; exact h.nodup
  ctx := by rw [hpc, hx]; exact h.ctx
  lease := by
    intro j hj
    rw [hpc] at hj
    have hne : j ≠ c := by
      rintro rfl
      exact hj r hp
    rw [hl, Function.update_of_ne hne]
    exact h.lease j hj
  flags := by
    intro j hj
    rw [hl] at hj ⊢
    by_cases hjc : j = c
    · subst hjc; simpa using hflag
    · rw [Function.update_of_ne hjc] at hj ⊢
      exact h.flags j hj
  closed := by rw [hcl, hq]; exact h.closed
  own := by
    intro j e hj
    rw [hx]
    exact h.own j e (by simpa only [told, hpc, hw] using hj)

theorem releaseLease_fine (h : w.Inv calm) (c : Nat) : Fine calm (w.releaseLease c) := by
  unfold releaseLease
  split
  · rename_i r hp
    split
    · exact Or.inr ⟨w, rfl, h⟩
    · rename_i hrel
      refine Or.inr ⟨_, rfl, ?_⟩
      have hs : (w.setLease c ⟨true, true⟩).slot = w.slot := by
        funext j
        by_cases hj : j = c
        · subst hj; simp [slot, hp, hrel]
        · apply slot_other <;> simp [hj]
      refine { map := h.map, ledger := ?_, queue := ?_, drain := ?_, log := ?_, ready := h.ready,
               busy := h.busy }
      · exact h.ledger.congr hs rfl (fun _ => rfl) rfl rfl rfl rfl
      · exact h.queue.setLease hp rfl rfl rfl rfl rfl rfl rfl rfl
      · exact h.drain.congr rfl rfl rfl rfl rfl rfl (fun _ => rfl) (fun _ => rfl) (fun _ => rfl)
          (fun _ _ => rfl)
      · refine h.log.still rfl rfl (fun _ => rfl) ?_ (fun _ hb => hb) ?_ (congrFun hs)
          (fun _ _ => Iff.rfl)
        · intro j
          simp [kept, hs]
        · intro j
          by_cases hj : j = c
          · subst hj; simp [hrel]
          · simp [hj]
  · exact Or.inl rfl

theorem finishRelease_fine (h : w.Inv calm) (c : Nat)
    (hcalm : calm → ∀ r, w.pc c = .returned (.lease r) → (w.lease c).releasing = true →
      ¬ (w.pool.closed = true ∧ (w.pool.heap r).draining = true ∧
        (w.pool.heap r).inFlight = 1)) : Fine calm (w.finishRelease c) := by
  unfold finishRelease
  split
  · rename_i r hp
    split
    · rename_i hrel
      have hs : ∀ j, j ≠ c →
          ((w.setPool (w.pool.record (.release c r))).setLease c ⟨true, false⟩).slot j =
            w.slot j := by
        intro j hj
        apply slot_other <;> simp [record, hj]
      have hr : Released w ((w.setPool (w.pool.record (.release c r))).setLease c ⟨true, false⟩)
          c r (.release c r) := by
        refine ⟨rfl, rfl, rfl, rfl, rfl, rfl, by simp [slot, hp, hrel], by simp [slot, hp], hs,
          ?_, ?_⟩
        · exact h.queue.setLease hp rfl rfl rfl rfl rfl rfl rfl rfl
        · refine h.log.snoc (c := c) (.release c r) rfl rfl rfl trivial (fun _ _ => rfl) ?_ hs
            ?_ ?_ ?_ ?_ ?_ (by simp) (by simp) (fun _ ho => ho)
          · intro j hj
            simp [hj]
          · simp [Event.isRet]
          · simp [kept, slot, hp, hrel, Event.isGrant, Event.isGiveBack]
          · simp [Event.isGiveBack]
          · simp [hrel, Event.isRelease]
          · intro x hx
            left; right
            simpa [slot, hp] using hx
      obtain ⟨p, hp', hinv⟩ := hr.run h w.clock (fun hc => hcalm hc r hp hrel)
      refine Or.inr ⟨_, ?_, hinv⟩
      have hrun : (w.pool.record (.release c r)).release r w.ctxErr w.clock = .ok p := hp'
      rw [hrun]
      rfl
    · exact Or.inl rfl
  · exact Or.inl rfl

end World

end HyperFaaS.Dataplane
