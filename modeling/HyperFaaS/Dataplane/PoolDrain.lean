import HyperFaaS.Dataplane.PoolTargets

/-!
The steps of `Drain` calls keep the invariant. A call marks its sandbox
(`Inv.marked`), moves on (`Inv.setDrain`), and in the end puts the sandbox back
(`Inv.reactivated`) or takes it out of the map.
-/

namespace HyperFaaS.Dataplane

open Function SandboxPool

namespace World

variable {calm : Prop}

/-! ## A call moves on -/

variable {w : World} {d r : Nat} {x : DrainPC}

/-- The places of `Drain` calls concern only `DrainOK`. -/
theorem Inv.setDrain (h : w.Inv calm) (hd : (w.setDrain d x).DrainOK calm) :
    (w.setDrain d x).Inv calm where
  map := h.map
  ledger := h.ledger.congr (slot_congr rfl rfl rfl) rfl (fun _ => rfl) rfl rfl rfl rfl
  queue := h.queue.congr rfl rfl rfl rfl rfl rfl rfl
  drain := hd
  log := h.log.congr rfl rfl (slot_congr rfl rfl rfl) rfl rfl
  ready := h.ready
  busy := h.busy

theorem DrainOK.settle (h : w.DrainOK calm) (hidle : w.drain d ≠ .idle) (hmade : ¬ unmade x)
    (hmark : ∀ id r, draining x id r → draining (w.drain d) id r)
    (hhand : ∀ id r, x = .handed id r → w.pool.drainedClosed d = true)
    (hexp : ∀ id r, x = .restoring id r → (w.drainCtx d).isSome = true) :
    (w.setDrain d x).DrainOK calm := by
  have hdrain : ∀ d', (w.setDrain d x).drain d' = if d' = d then x else w.drain d' :=
    update_apply _ _ _
  have hframe : (w.setDrain d x).ndrains = w.ndrains ∧ (w.setDrain d x).pool = w.pool ∧
      (w.setDrain d x).drainCtx = w.drainCtx := ⟨rfl, rfl, rfl⟩
  refine ⟨?_, ?_, h.both, ?_, h.uniq, h.closedZero, ?_, ?_, ?_, h.quiet⟩
  · grind [h.idle]
  · exact fun d' id r => by have := h.mark d' id r; grind
  · exact fun r d' hr => by have := h.made r d' hr; grind
  · grind [h.unmadeOpen]
  · exact fun d' id r => by have := h.handed d' id r; grind
  · exact fun d' id r => by have := h.expired d' id r; grind

theorem DrainOK.done (h : w.DrainOK calm) (hidle : w.drain d ≠ .idle)
    (hx : (∃ e, x = .failed e) ∨ ∃ id r, x = .finished id r) : (w.setDrain d x).DrainOK calm := by
  rcases hx with ⟨e, rfl⟩ | ⟨id, r, rfl⟩ <;>
    exact h.settle hidle (by simp [unmade]) (by simp [draining]) (by simp) (by simp)

theorem drainReady_fine (h : w.Inv calm) (d : Nat) : Fine calm (w.drainReady d) := by
  unfold drainReady
  split
  · rename_i id r hd
    split
    · rename_i hc
      refine Or.inr ⟨_, rfl, h.setDrain (h.drain.settle (by simp [hd]) (by simp [unmade]) ?_ ?_ ?_)⟩
      · intro i x hx
        simp only [draining, DrainPC.handed.injEq, reduceCtorEq, false_or] at hx
        rw [hd, hx.1, hx.2]
        exact Or.inl rfl
      · exact fun _ _ _ => hc
      · simp
    · exact Or.inl rfl
  · exact Or.inl rfl

theorem drainExpire_fine (h : w.Inv calm) (d : Nat) : Fine calm (w.drainExpire d) := by
  unfold drainExpire
  split
  · rename_i id r e hd hctx
    refine Or.inr ⟨_, rfl, h.setDrain (h.drain.settle (by simp [hd]) (by simp [unmade]) ?_ ?_ ?_)⟩
    · intro i x hx
      simp only [draining, DrainPC.restoring.injEq, reduceCtorEq, or_false, false_or] at hx
      rw [hd, hx.1, hx.2]
      exact Or.inl rfl
    · simp
    · simp [hctx]
  · exact Or.inl rfl

/-! ## A sandbox is marked -/

/-- The pool after `Drain` call `d` marked `r`. -/
def marked (p : SandboxPool) (r d : Nat) : SandboxPool :=
  { p with
    heap := update p.heap r
      { p.heap r with ready := false, draining := true, drained := some d }
    ready := p.ready.erase r
    active := p.active - 1
    drainedClosed := if (p.heap r).inFlight = 0 then update p.drainedClosed d true
      else p.drainedClosed }

theorem drainStart_marked {p : SandboxPool} {id : Nat} (hc : p.closed = false)
    (hf : ∀ r, (p.heap r).ready = true ↔ r ∈ p.ready) (hr : p.sandboxes id = some r)
    (hd : (p.heap r).draining = false) : p.drainStart d id = (marked p r d, .ok r) := by
  unfold drainStart removeReadyLocked setSandbox
  cases hflag : (p.heap r).ready with
  | true =>
    by_cases hz : (p.heap r).inFlight = 0 <;> simp [marked, hc, hr, hd, hflag, hz]
  | false =>
    have hnot : r ∉ p.ready := by
      rw [← hf r, hflag]
      simp
    by_cases hz : (p.heap r).inFlight = 0 <;>
      simp [marked, hc, hr, hd, hflag, hz, List.erase_of_not_mem hnot]

theorem drainStart_failed {p q : SandboxPool} {id : Nat} {e : DrainErr}
    (h : p.drainStart d id = (q, .error e)) : q = p := by
  unfold drainStart at h
  split at h
  · exact (congrArg Prod.fst h).symm
  · split at h
    · exact (congrArg Prod.fst h).symm
    · split at h
      · exact (congrArg Prod.fst h).symm
      · simp at h

theorem marked_field (p : SandboxPool) (r d : Nat) {β : Type} (f : PooledSandbox → β)
    (hf : f { p.heap r with ready := false, draining := true, drained := some d } = f (p.heap r))
    (x : Nat) : f ((marked p r d).heap x) = f (p.heap x) :=
  update_field f p.heap r _ hf x

theorem DrainOK.marked (h : w.DrainOK calm) {id : Nat} (hd : w.drain d = .locking id)
    (hlt : r < w.pool.next) (hid : (w.pool.heap r).target.instanceID = id)
    (hoff : (w.pool.heap r).draining = false) :
    ((w.setPool (marked w.pool r d)).setDrain d (.waiting id r)).DrainOK calm := by
  have hunmade : unmade (w.drain d) := by rw [hd]; exact Or.inr ⟨id, rfl⟩
  have hopen := h.unmadeOpen d hunmade
  -- no sandbox had this channel, and `r` had none
  have hfree : ∀ x, (w.pool.heap x).drained ≠ some d :=
    fun x hx => (h.made x d hx).2 hunmade
  have hnone : ∀ d', (w.pool.heap r).drained ≠ some d' := by
    intro d' hd'
    have := (h.both r).mpr ⟨d', hd'⟩
    simp [hoff] at this
  generalize hw : (w.setPool (World.marked w.pool r d)).setDrain d (.waiting id r) = w'
  have hdrain : ∀ d', w'.drain d' = if d' = d then .waiting id r else w.drain d' := by
    subst hw
    exact update_apply _ _ _
  have hheap : ∀ x, w'.pool.heap x = if x = r then
      { w.pool.heap r with ready := false, draining := true, drained := some d }
      else w.pool.heap x := by
    subst hw
    exact update_apply _ _ _
  have hframe : w'.ndrains = w.ndrains ∧ w'.drainCtx = w.drainCtx ∧ w'.pool.next = w.pool.next ∧
      w'.pool.closed = w.pool.closed := by
    subst hw
    exact ⟨rfl, rfl, rfl, rfl⟩
  have hchan : ∀ d', w'.pool.drainedClosed d' =
      if d' = d then decide ((w.pool.heap r).inFlight = 0) else w.pool.drainedClosed d' := by
    subst hw
    intro d'
    show (if (w.pool.heap r).inFlight = 0 then update w.pool.drainedClosed d true
      else w.pool.drainedClosed) d' = _
    split
    · simp [update_apply, *]
    · grind
  constructor
  case idle => grind [h.idle]
  case mark => exact fun d' i x => by have := h.mark d' i x; grind [draining]
  case both => exact fun x => by have := h.both x; grind
  case made => exact fun x d' => by have := h.made x d'; grind [unmade]
  case uniq => exact fun x y d' => by have := h.uniq x y d'; grind
  case closedZero => exact fun x d' => by have := h.closedZero x d'; grind
  case unmadeOpen => exact fun d' => by have := h.unmadeOpen d'; grind [unmade]
  case handed => exact fun d' i x => by have := h.handed d' i x; grind
  case expired => exact fun d' i x => by have := h.expired d' i x; grind
  case quiet =>
    intro hq x d'
    have := h.quiet (by grind) x d'
    grind

/-- The first critical section of `Drain`, when it marks a sandbox. -/
theorem Inv.marked (h : w.Inv calm) (hc : w.pool.closed = false) {id : Nat}
    (hd : w.drain d = .locking id) (hr : w.pool.sandboxes id = some r)
    (hoff : (w.pool.heap r).draining = false) :
    ((w.setPool (marked w.pool r d)).setDrain d (.waiting id r)).Inv calm := by
  obtain ⟨hlt, hid⟩ := h.map.entry id r hr
  have hin := h.map.inMap_of_entry hr
  have hready := h.ready hc
  have hnot : r ∉ w.pool.ready.erase r := hready.nodup.not_mem_erase
  have hs : ((w.setPool (World.marked w.pool r d)).setDrain d (.waiting id r)).slot = w.slot :=
    slot_congr rfl rfl rfl
  exact {
    map := h.map.drain hin hoff rfl rfl rfl rfl
      (marked_field w.pool r d (fun s => s.target.instanceID) rfl) (by simp [World.marked])
      (by
        intro x hx
        simp [World.marked, hx])
    ledger := h.ledger.congr hs rfl (marked_field w.pool r d (fun s => s.inFlight) rfl) rfl rfl rfl
      rfl
    queue := h.queue.congr rfl rfl rfl rfl rfl rfl rfl
    drain := h.drain.marked hd hlt hid hoff
    log := h.log.congr rfl rfl hs rfl rfl
    ready := by
      intro _
      refine ⟨hready.nodup.erase r, ?_, ?_⟩
      · intro x
        by_cases hx : x = r
        · subst hx
          exact iff_of_false (by simp [World.marked]) hnot
        · have hm := hready.flag x
          simpa [World.marked, hx, List.mem_erase_of_ne hx] using hm
      · intro x _
        by_cases hx : x = r
        · subst hx
          exact iff_of_false hnot (by simp [World.marked, SandboxPool.free, SandboxPool.live])
        · have hm := hready.exact x (fun hf => hf)
          simpa [World.marked, SandboxPool.free, SandboxPool.live, SandboxPool.inMap, hx,
            List.mem_erase_of_ne hx] using hm
    busy := by
      intro _ hq
      simp [World.marked, h.busy hc hq] }

theorem drainLock_fine (h : w.Inv calm) (d : Nat) : Fine calm (w.drainLock d) := by
  unfold drainLock
  split
  · rename_i id hd
    cases hst : w.pool.drainStart d id with
    | mk q res =>
      cases res with
      | error e =>
        have hq := drainStart_failed hst
        subst hq
        exact Or.inr ⟨_, rfl, h.setDrain (h.drain.done (by simp [hd]) (Or.inl ⟨e, rfl⟩))⟩
      | ok r =>
        -- the sandbox was in the map and not draining
        have hcase : w.pool.closed = false ∧ w.pool.sandboxes id = some r ∧
            (w.pool.heap r).draining = false := by
          unfold drainStart at hst
          split at hst
          · simp at hst
          · rename_i hc
            split at hst
            · simp at hst
            · rename_i r' hr'
              split at hst
              · simp at hst
              · rename_i hoff
                have hrr : r' = r := by
                  have := congrArg Prod.snd hst
                  simpa using this
                subst hrr
                exact ⟨by simpa using hc, hr', by simpa using hoff⟩
        obtain ⟨hc, hr, hoff⟩ := hcase
        rw [drainStart_marked hc (h.ready hc).flag hr hoff] at hst
        have hq : q = marked w.pool r d := (congrArg Prod.fst hst).symm
        subst hq
        exact Or.inr ⟨_, rfl, h.marked hc hd hr hoff⟩
  · exact Or.inl rfl

/-! ## A sandbox is put back, or goes -/

/-- The pool after the mark of `r` was taken back, before `r` is refreshed. -/
def unmarked (p : SandboxPool) (r : Nat) : SandboxPool :=
  { p with
    heap := update p.heap r { p.heap r with draining := false, drained := none }
    active := p.active + 1 }

theorem DrainOK.unmarked (h : w.DrainOK calm) (hno : ∀ d id, ¬ draining (w.drain d) id r) :
    (w.setPool (unmarked w.pool r)).DrainOK calm := by
  have hheap : ∀ x, (w.setPool (World.unmarked w.pool r)).pool.heap x =
      if x = r then { w.pool.heap r with draining := false, drained := none }
      else w.pool.heap x := update_apply _ _ _
  refine ⟨h.idle, ?_, ?_, ?_, ?_, ?_, h.unmadeOpen, h.handed, h.expired, ?_⟩
  · intro d id x hd
    have hne : x ≠ r := by
      rintro rfl
      exact hno d id hd
    have := h.mark d id x hd
    grind
  · exact fun x => by have := h.both x; grind
  · exact fun x d hx => h.made x d (by grind)
  · exact fun x y d hx hy => h.uniq x y d (by grind) (by grind)
  · exact fun x d hx hc => by have := h.closedZero x d (by grind) hc; grind
  · exact fun hq x d hx hz => h.quiet hq x d (by grind) (by grind)

/-- **Reactivation.** A draining map sandbox whose `Drain` is over is offered again. -/
theorem Inv.reactivated (h : w.Inv calm) (hin : w.pool.inMap r = true)
    (hdr : (w.pool.heap r).draining = true) (hno : ∀ d id, ¬ draining (w.drain d) id r) :
    ∃ p, w.pool.reactivate r w.ctxErr w.clock = .ok p ∧ (w.setPool p).Inv calm := by
  have hf : ∀ {β : Type} (f : PooledSandbox → β),
      f { w.pool.heap r with draining := false, drained := none } = f (w.pool.heap r) →
      ∀ x, f ((unmarked w.pool r).heap x) = f (w.pool.heap x) := fun f hf =>
    update_field f w.pool.heap r _ hf
  have hs : (w.setPool (unmarked w.pool r)).slot = w.slot := slot_congr rfl rfl rfl
  have hbase : (w.setPool (unmarked w.pool r)).Base calm := {
    map := h.map.undrain hin hdr rfl rfl rfl rfl (hf (fun s => s.target.instanceID) rfl)
      (by simp [unmarked])
      (by
        intro x hx
        simp [unmarked, hx])
    ledger := h.ledger.congr hs rfl (hf (fun s => s.inFlight) rfl) rfl rfl rfl rfl
    queue := h.queue.congr rfl rfl rfl rfl rfl rfl rfl
    drain := h.drain.unmarked hno
    log := h.log.congr rfl rfl hs rfl rfl }
  have hin' : (unmarked w.pool r).inMap r = true := by
    have ht : ((unmarked w.pool r).heap r).target.instanceID =
        (w.pool.heap r).target.instanceID := hf (fun s => s.target.instanceID) rfl r
    simp only [inMap, ht]
    exact hin
  have hbut : w.pool.closed = false → (unmarked w.pool r).ReadyBut (fun x => x = r) := by
    intro hc
    refine (h.ready hc).congr rfl (hf (fun s => s.ready) rfl) ?_
    intro x hx
    rw [(h.ready hc).exact x id]
    simp [unmarked, free, live, inMap, hx]
  obtain ⟨b, l, he⟩ := (unmarked w.pool r).refreshReady_eq r
  have hclosed : ((unmarked w.pool r).refreshReadyLocked r).closed = w.pool.closed := by
    rw [he]; rfl
  have hcore : ((w.setPool (unmarked w.pool r)).setPool
      ((unmarked w.pool r).refreshReadyLocked r)).Core calm := by
    refine { Base.refresh hbase r with ready := fun ho => ?_ }
    have href := (hbut (hclosed.symm.trans ho)).refresh hin'
    exact href.congr rfl (fun _ => rfl) (fun x _ => href.exact x (fun hx => hx.2 hx.1))
  have hreact : w.pool.reactivate r w.ctxErr w.clock =
      ((unmarked w.pool r).refreshReadyLocked r).dispatchLocked w.ctxErr w.clock := rfl
  rw [hreact]
  by_cases hcl : w.pool.closed = true
  · refine ⟨_, dispatch_closed w.clock _ hcore.queue (hclosed.trans hcl), ?_⟩
    refine { hcore with busy := fun ho => ?_ }
    have := (hclosed.trans hcl).symm.trans ho
    simp at this
  · obtain ⟨p, hp, hinv, -⟩ := dispatch_ok w.clock _ hcore (hclosed.trans (by simpa using hcl))
    exact ⟨p, hp, hinv⟩

/-- A call that is over leaves no other call with a mark on its sandbox. -/
theorem DrainOK.no_mark (h : w.DrainOK calm) (d id : Nat) (hd : draining (w.drain d) id r)
    (hx : ∀ i y, ¬ draining x i y) : ∀ d' i, ¬ draining ((w.setDrain d x).drain d') i r := by
  intro d' i hd'
  by_cases hdd : d' = d
  · subst hdd
    exact hx i r (by simpa using hd')
  · have h₁ := (h.mark d' i r (by simpa [hdd] using hd')).1
    rw [(h.mark d id r hd).1, Option.some.injEq] at h₁
    exact hdd h₁.symm

theorem drainRestore_fine (h : w.Inv calm) (d : Nat) : Fine calm (w.drainRestore d) := by
  unfold drainRestore
  split
  · rename_i id r e hd hctx
    have hdone := h.setDrain (h.drain.done (d := d) (x := .failed (.ctx e)) (by simp [hd])
      (Or.inl ⟨_, rfl⟩))
    unfold restore
    by_cases hcase : (!w.pool.inMap r || !(w.pool.heap r).draining) = true
    · rw [if_pos hcase]
      exact Or.inr ⟨_, rfl, hdone⟩
    · rw [if_neg hcase]
      simp only [Bool.or_eq_true, Bool.not_eq_true', not_or, Bool.not_eq_false] at hcase
      obtain ⟨p, hp, hinv⟩ := hdone.reactivated hcase.1 hcase.2
        (h.drain.no_mark d id (by rw [hd]; exact Or.inr (Or.inl rfl))
          (by simp [draining]))
      have hrun : w.pool.reactivate r w.ctxErr w.clock = .ok p := hp
      rw [hrun]
      exact Or.inr ⟨_, rfl, hinv⟩
  · exact Or.inl rfl

theorem drainFinish_fine (h : w.Inv calm) (d : Nat) (stopped : Bool) :
    Fine calm (w.drainFinish d stopped) := by
  unfold drainFinish
  split
  · rename_i id r hd
    have hdone := h.setDrain (h.drain.done (d := d) (x := .finished id r) (by simp [hd])
      (Or.inr ⟨_, _, rfl⟩))
    unfold finish
    by_cases hcase : w.pool.sandboxes id ≠ some r ∨ (w.pool.heap r).draining = false
    · rw [if_pos hcase]
      exact Or.inr ⟨_, rfl, hdone⟩
    · rw [if_neg hcase]
      simp only [not_or, not_not, Bool.not_eq_false] at hcase
      obtain ⟨hr, hdr⟩ := hcase
      cases stopped with
      | true =>
        -- the entry goes; a draining sandbox was not counted as active
        have hdel : w.pool.deleteEntry id =
            deleted w.pool id r (w.pool.heap r).ready w.pool.ready := by
          simp [deleteEntry, deleted, touch_self, hdr]
        refine Or.inr ⟨((w.setDrain d (.finished id r)).setPool (w.pool.deleteEntry id)), rfl, ?_⟩
        rw [hdel]
        refine { hdone.toBase.deleted hr _ _ with ready := fun hc => ?_, busy := hdone.busy }
        have hready : w.pool.ReadyOK := hdone.ready hc
        have hnot : r ∉ w.pool.ready := by
          rw [hready.exact r (fun hf => hf)]
          simp [free, live, hdr]
        refine ReadyOK.deleted h.map hr ?_ hnot
        rw [touch_self]
        exact hready.congr rfl (fun _ => rfl) (fun x _ => hready.exact x (fun hf => hf))
      | false =>
        obtain ⟨p, hp, hinv⟩ := hdone.reactivated (h.map.inMap_of_entry hr) hdr
          (h.drain.no_mark d id (by rw [hd]; exact Or.inr (Or.inr rfl))
            (by simp [draining]))
        have hrun : w.pool.reactivate r w.ctxErr w.clock = .ok p := hp
        simp only [Bool.false_eq_true, if_false, hrun]
        exact Or.inr ⟨_, rfl, hinv⟩
  · exact Or.inr ⟨w, rfl, h⟩
  · exact Or.inl rfl

end World

end HyperFaaS.Dataplane
