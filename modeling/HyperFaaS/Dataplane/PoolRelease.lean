import HyperFaaS.Dataplane.PoolCallers

/-!
Giving up a slot (`SandboxPool.release`), by a caller whose context ended or by
a lease holder. `Released.run` is the one lemma about it: a slot that was
granted can be given up without a fault, from any state the invariant allows.
-/

namespace HyperFaaS.Dataplane

open SandboxPool

namespace World

variable {calm : Prop}

/-- A slot less on `r`. The channel of its drain may be closed along with the
last one, and has to be while the pool is open. -/
theorem DrainOK.drop {w w' : World} (h : w.DrainOK calm) {r : Nat}
    (hpos : 0 < (w.pool.heap r).inFlight) (hn : w'.ndrains = w.ndrains) (hd : w'.drain = w.drain)
    (hx : w'.drainCtx = w.drainCtx) (hnx : w'.pool.next = w.pool.next)
    (hcl : w'.pool.closed = w.pool.closed)
    (hheap : w'.pool.heap = Function.update w.pool.heap r
      { w.pool.heap r with inFlight := (w.pool.heap r).inFlight - 1 })
    (hmono : ∀ d, w.pool.drainedClosed d = true → w'.pool.drainedClosed d = true)
    (hnew : ∀ d, w'.pool.drainedClosed d = true → w.pool.drainedClosed d = true ∨
      ((w.pool.heap r).drained = some d ∧ (w.pool.heap r).inFlight = 1))
    (hlast : w.pool.closed = false ∨ calm → ∀ d, (w.pool.heap r).drained = some d →
      (w.pool.heap r).inFlight = 1 → w'.pool.drainedClosed d = true) : w'.DrainOK calm := by
  have hheap : ∀ x, w'.pool.heap x = if x = r then
      { w.pool.heap r with inFlight := (w.pool.heap r).inFlight - 1 } else w.pool.heap x := by
    rw [hheap]
    exact Function.update_apply _ _ _
  constructor
  case idle => rw [hn, hd]; exact h.idle
  case mark => rw [hd]; exact fun d id x hx => by have := h.mark d id x hx; grind
  case both => exact fun x => by have := h.both x; grind
  case made => rw [hd]; exact fun x d hx => by have := h.made x d; grind
  case uniq => exact fun x y d hx hy => h.uniq x y d (by grind) (by grind)
  case closedZero =>
    intro x d hx hc
    have := h.closedZero x d
    have := h.uniq x r d
    grind
  case unmadeOpen =>
    rw [hd]
    intro d hu
    have := h.unmadeOpen d hu
    have := h.made r d
    grind
  case handed => rw [hd]; exact fun d id x hx => hmono d (h.handed d id x hx)
  case expired => rw [hd, hx]; exact h.expired
  case quiet =>
    intro hq x d hx hz
    have := h.quiet (by grind) x d
    have := hlast (by grind) d
    grind

/-- The pool after one slot on `r` was given up, before the ready list or a
channel is looked at. -/
def dropped (p : SandboxPool) (r la : Nat) : SandboxPool :=
  { p with
    heap := Function.update p.heap r { p.heap r with inFlight := (p.heap r).inFlight - 1 }
    executing := p.executing - 1
    completed := p.completed + 1
    lastActivity := la }

theorem noteActivity_dropSlot (p : SandboxPool) (r now : Nat) :
    ∃ la, (p.dropSlot r).noteActivity now 0 = dropped p r la := by
  obtain ⟨la, hla⟩ := (p.dropSlot r).noteActivity_eq now 0
  exact ⟨la, hla⟩

theorem free_dropped_other (p : SandboxPool) {r x : Nat} (la : Nat) (hx : x ≠ r) :
    (dropped p r la).free x = p.free x := by
  simp [dropped, free, live, inMap, hx]

/-- A sandbox that is draining or no longer in the map is not free whatever its slots. -/
theorem free_dropped_self (p : SandboxPool) (r la : Nat)
    (h : (p.heap r).draining = true ∨ p.inMap r = false) :
    (dropped p r la).free r = p.free r := by
  rcases h with h | h
  · simp [dropped, free, live, inMap, h]
  · simp only [inMap] at h
    simp [dropped, free, live, inMap, h]

/-- The parts of the invariant that do not look at channels or the ready list,
after caller `c` gave up its slot on `r`. -/
structure Released (w w₁ : World) (c r : Nat) (e : Event) : Prop where
  pool : w₁.pool = w.pool.record e
  ncalls : w₁.ncalls = w.ncalls
  ctxErr : w₁.ctxErr = w.ctxErr
  ndrains : w₁.ndrains = w.ndrains
  drain : w₁.drain = w.drain
  drainCtx : w₁.drainCtx = w.drainCtx
  before : w.slot c = some r
  after : w₁.slot c = none
  other : ∀ j, j ≠ c → w₁.slot j = w.slot j
  queue : w₁.QueueOK
  log : w₁.LogOK

section Released

variable {w w₁ : World} {c r : Nat} {e : Event}

theorem Released.heap (hr : Released w w₁ c r e) : w₁.pool.heap = w.pool.heap := by
  rw [hr.pool]; rfl

theorem Released.closed (hr : Released w w₁ c r e) : w₁.pool.closed = w.pool.closed := by
  rw [hr.pool]; rfl

theorem Released.next (hr : Released w w₁ c r e) : w₁.pool.next = w.pool.next := by
  rw [hr.pool]; rfl

theorem Released.channels (hr : Released w w₁ c r e) :
    w₁.pool.drainedClosed = w.pool.drainedClosed := by
  rw [hr.pool]; rfl

theorem Released.inMap (hr : Released w w₁ c r e) (la x : Nat) :
    (dropped w₁.pool r la).inMap x = w.pool.inMap x := by
  have ht := SandboxPool.update_field (fun s => s.target) w.pool.heap r
    { w.pool.heap r with inFlight := (w.pool.heap r).inFlight - 1 } rfl x
  simp only at ht
  simp only [dropped, SandboxPool.inMap, hr.heap, ht]
  rw [hr.pool]
  rfl

theorem Released.inFlight_pos (hr : Released w w₁ c r e) (h : w.Inv calm) :
    c < w.ncalls ∧ 0 < (w.pool.heap r).inFlight := by
  have hc : c < w.ncalls := by
    apply h.queue.lt_of_pc
    intro hidle
    have := hr.before
    simp [slot, hidle] at this
  exact ⟨hc, h.ledger.inFlight_pos hc hr.before⟩

theorem Released.base (hr : Released w w₁ c r e) (h : w.Inv calm) (la : Nat)
    (channels : Nat → Bool)
    (hdrain : (w₁.setPool { dropped w₁.pool r la with drainedClosed := channels }).DrainOK calm) :
    (w₁.setPool { dropped w₁.pool r la with drainedClosed := channels }).Base calm := by
  have hslot : (w₁.setPool { dropped w₁.pool r la with drainedClosed := channels }).slot =
      w₁.slot := slot_congr rfl rfl rfl
  refine ⟨?_, ?_, ?_, hdrain, ?_⟩
  · refine h.map.congr ?_ ?_ ?_ ?_ ?_ ?_
    · simp [dropped, hr.pool, record]
    · simp [dropped, hr.pool, record]
    · simp [dropped, hr.pool, record]
    · simp [dropped, hr.pool, record]
    · simp only [setPool_pool, dropped, hr.heap]
      exact update_field (fun s => s.target.instanceID) w.pool.heap r _ rfl
    · simp only [setPool_pool, dropped, hr.heap]
      exact update_field (fun s => s.draining) w.pool.heap r _ rfl
  · refine h.ledger.drop (hr.inFlight_pos h).1 hr.before ?_ ?_ hr.ncalls ?_ ?_ ?_ ?_ ?_ ?_
    · rw [hslot]; exact hr.after
    · intro j hj
      rw [hslot]
      exact hr.other j hj
    · simp [dropped, hr.heap]
    · intro x hx
      simp [dropped, hr.heap, hx]
    · simp [dropped, hr.pool, record]
    · simp [dropped, hr.pool, record]
    · simp [dropped, hr.pool, record]
    · simp [dropped, hr.pool, record]
  · exact hr.queue.congr rfl rfl rfl rfl rfl rfl rfl
  · exact hr.log.congr rfl rfl hslot rfl rfl

/-- No channel has to be closed along with this slot. -/
theorem Released.base_open (hr : Released w w₁ c r e) (h : w.Inv calm) (la : Nat)
    (hlast : w.pool.closed = false ∨ calm →
      ¬ ((w.pool.heap r).draining = true ∧ (w.pool.heap r).inFlight = 1)) :
    (w₁.setPool (dropped w₁.pool r la)).Base calm := by
  refine hr.base h la w₁.pool.drainedClosed (h.drain.drop (hr.inFlight_pos h).2 hr.ndrains hr.drain
    hr.drainCtx hr.next hr.closed (by simp [dropped, hr.heap]) ?_ ?_ ?_)
  · intro d hd
    exact (congrFun hr.channels d).trans hd
  · intro d hd
    exact Or.inl ((congrFun hr.channels d).symm.trans hd)
  · intro hq d hd hone
    exact absurd ⟨(h.drain.both r).mpr ⟨d, hd⟩, hone⟩ (hlast hq)

/-- The ready list is right except perhaps about `r`, and about `r` too when it
cannot be offered. -/
theorem Released.readyBut (hr : Released w w₁ c r e) (h : w.Inv calm) (la : Nat)
    (hopen : w.pool.closed = false) {D : Nat → Prop}
    (hD : D r ∨ (w.pool.heap r).draining = true ∨ w.pool.inMap r = false) :
    (dropped w₁.pool r la).ReadyBut D := by
  have hfree : ∀ x, w₁.pool.free x = w.pool.free x := by
    intro x
    rw [hr.pool]
    rfl
  have hmap : w₁.pool.inMap r = w.pool.inMap r := by
    rw [hr.pool]
    rfl
  refine (h.ready hopen).congr (by rw [dropped, hr.pool]; rfl) ?_ ?_
  · simp only [dropped, hr.heap]
    exact update_field (fun s => s.ready) w.pool.heap r _ rfl
  · intro x hx
    rw [(h.ready hopen).exact x id, ← hfree x]
    by_cases hxr : x = r
    · subst hxr
      rw [free_dropped_self]
      rw [hr.heap, hmap]
      exact hD.resolve_left hx
    · rw [free_dropped_other _ la hxr]

theorem Released.rest (hr : Released w w₁ c r e) (h : w.Inv calm) (la : Nat)
    (hbase : (w₁.setPool (dropped w₁.pool r la)).Base calm)
    (hnot : w.pool.closed = false → (w.pool.heap r).draining = true ∨ w.pool.inMap r = false) :
    (w₁.setPool (dropped w₁.pool r la)).Inv calm where
  toBase := hbase
  ready := by
    intro hc
    have hopen := hr.closed.symm.trans hc
    exact hr.readyBut h la hopen (Or.inr (hnot hopen))
  busy := by
    intro hc
    have hopen := hr.closed.symm.trans hc
    simp only [setPool_pool, dropped, hr.pool]
    exact h.busy hopen

theorem Released.last (hr : Released w w₁ c r e) (h : w.Inv calm) (la : Nat)
    (hopen : w.pool.closed = false) (hdrain : (w.pool.heap r).draining = true)
    (hone : (w.pool.heap r).inFlight = 1) :
    ∃ p, (dropped w₁.pool r la).closeDrained r = .ok p ∧ (w₁.setPool p).Inv calm := by
  obtain ⟨d, hd⟩ := (h.drain.both r).mp hdrain
  have hch : w.pool.drainedClosed d = false := by
    cases hcd : w.pool.drainedClosed d with
    | false => rfl
    | true =>
      have := h.drain.closedZero r d hd hcd
      omega
  have hready := hr.readyBut h la hopen (Or.inr (Or.inl hdrain)) (D := fun _ => False)
  refine ⟨{ dropped w₁.pool r la with
    drainedClosed := Function.update w₁.pool.drainedClosed d true }, ?_, ?_⟩
  · simp [closeDrained, dropped, hr.heap, hd, hr.channels, hch]
  · have hbase := hr.base h la (Function.update w₁.pool.drainedClosed d true)
      (h.drain.drop (hr.inFlight_pos h).2 hr.ndrains hr.drain hr.drainCtx hr.next hr.closed
        (by simp [dropped, hr.heap]) ?_ ?_ ?_)
    · refine { hbase with ready := fun _ => ?_, busy := fun _ => ?_ }
      · exact hready.congr rfl (fun _ => rfl) (fun x _ => hready.exact x id)
      · simp only [setPool_pool, dropped, hr.pool]
        exact h.busy hopen
    · intro d' hd'
      by_cases hdd : d' = d
      · subst hdd; simp
      · simpa [hdd, hr.channels] using hd'
    · intro d' hd'
      by_cases hdd : d' = d
      · subst hdd; exact Or.inr ⟨hd, hone⟩
      · exact Or.inl (by simpa [hdd, hr.channels] using hd')
    · intro _ d' hd' _
      rw [hd, Option.some.injEq] at hd'
      simp [hd']

theorem Released.offer (hr : Released w w₁ c r e) (h : w.Inv calm) (la now : Nat)
    (hopen : w.pool.closed = false) (hdrain : ¬ (w.pool.heap r).draining = true)
    (hm : w.pool.inMap r = true) :
    ∃ p, ((dropped w₁.pool r la).refreshReadyLocked r).dispatchLocked w.ctxErr now = .ok p ∧
      (w₁.setPool p).Inv calm := by
  have hbase := hr.base_open h la (fun _ hd => hdrain hd.1)
  have href := (hr.readyBut h la hopen (Or.inl rfl) (D := fun x => x = r)).refresh
    ((hr.inMap la r).trans hm)
  have hcore : ((w₁.setPool (dropped w₁.pool r la)).setPool
      ((dropped w₁.pool r la).refreshReadyLocked r)).Core calm := {
    Base.refresh hbase r with
    ready := fun _ => href.congr rfl (fun _ => rfl)
      (fun x _ => href.exact x (fun hx => hx.2 hx.1)) }
  obtain ⟨b, l, heq⟩ := (dropped w₁.pool r la).refreshReady_eq r
  obtain ⟨p, hp, hinv, -⟩ := dispatch_ok now _ hcore (by rw [heq]; exact hr.closed.trans hopen)
  refine ⟨p, ?_, hinv⟩
  rw [← hr.ctxErr]
  exact hp

/-- **Release.** Giving up a slot that was granted runs without a fault and
keeps the invariant. Only the last lease of a draining sandbox, released after
`Close`, breaks what a calm run guarantees. -/
theorem Released.run (hr : Released w w₁ c r e) (h : w.Inv calm) (now : Nat)
    (hcalm : calm → ¬ (w.pool.closed = true ∧ (w.pool.heap r).draining = true ∧
      (w.pool.heap r).inFlight = 1)) :
    ∃ p, w₁.pool.release r w.ctxErr now = .ok p ∧ (w₁.setPool p).Inv calm := by
  have hpos := (hr.inFlight_pos h).2
  obtain ⟨la, hla⟩ := noteActivity_dropSlot w₁.pool r now
  have hdr : ((dropped w₁.pool r la).heap r).draining = (w.pool.heap r).draining := by
    simp [dropped, hr.heap]
  have hzero : ((dropped w₁.pool r la).heap r).inFlight = (w.pool.heap r).inFlight - 1 := by
    simp [dropped, hr.heap]
  have hcl : (dropped w₁.pool r la).closed = w.pool.closed := hr.closed
  unfold release
  rw [hr.heap, if_neg (by omega)]
  simp only [hla, hcl, hdr, hzero, hr.inMap la r]
  by_cases hclosed : w.pool.closed = true
  · rw [if_pos hclosed]
    have hbase := hr.base_open h la (fun hq hd => by
      rcases hq with ho | hca
      · simp [hclosed] at ho
      · exact hcalm hca ⟨hclosed, hd⟩)
    exact ⟨_, rfl, hr.rest h la hbase (fun ho => by simp [hclosed] at ho)⟩
  · have hopen : w.pool.closed = false := by simpa using hclosed
    rw [if_neg hclosed]
    by_cases hdrain : (w.pool.heap r).draining = true
    · rw [if_pos hdrain]
      by_cases hlast : (w.pool.heap r).inFlight - 1 = 0
      · rw [if_pos hlast]
        exact hr.last h la hopen hdrain (by omega)
      · rw [if_neg hlast]
        have hbase := hr.base_open h la (fun _ hd => by omega)
        exact ⟨_, rfl, hr.rest h la hbase (fun _ => Or.inl hdrain)⟩
    · rw [if_neg hdrain]
      by_cases hm : w.pool.inMap r = true
      · rw [if_pos hm]
        exact hr.offer h la now hopen hdrain hm
      · rw [if_neg hm]
        have hbase := hr.base_open h la (fun _ hd => hdrain hd.1)
        exact ⟨_, rfl, hr.rest h la hbase (fun _ => Or.inr (by simpa using hm))⟩

end Released

end World

end HyperFaaS.Dataplane
