import HyperFaaS.Dataplane.PoolActions

/-!
The operations that change the set of targets or the configuration (`Configure`,
`Add`, `Sync`, `Remove`, `Close`) keep the invariant. Each is a sequence of small
edits, of which only three are more than a change of the ready list: an entry
comes in (`Core.insertNew`), gets a new target (`Core.retarget`), or goes
(`Base.deleted`).
-/

namespace HyperFaaS.Dataplane

open SandboxPool

namespace World

variable {calm : Prop}

/-! ## An entry comes in -/

/-- The pool with a new record in the map, before it is refreshed. -/
def inserted (p : SandboxPool) (target : Sandbox) : SandboxPool :=
  { p with
    heap := Function.update p.heap p.next ⟨target, 0, false, false, none⟩
    sandboxes := Function.update p.sandboxes target.instanceID (some p.next)
    next := p.next + 1
    active := p.active + 1 }

theorem insertNew_eq (p : SandboxPool) (target : Sandbox) :
    p.insertNew target = (inserted p target).refreshReadyLocked p.next := rfl

variable {w : World} {r : Nat}

theorem Ledger.fresh (h : w.Ledger) : (w.pool.heap w.pool.next).inFlight = 0 := by
  rw [h.inFlight]
  have hzero : Nat.count (fun c => w.slot c = some w.pool.next) w.ncalls = 0 := by
    by_contra hne
    obtain ⟨c, -, hc⟩ := Nat.count_ne_iff_exists.mp hne
    have := h.slot_lt c _ hc
    omega
  rw [hzero]
  rfl

theorem Ledger.inserted (h : w.Ledger) (target : Sandbox) :
    (w.setPool (inserted w.pool target)).Ledger := by
  have hs : (w.setPool (World.inserted w.pool target)).slot = w.slot := slot_congr rfl rfl rfl
  have hi : ∀ x, ((World.inserted w.pool target).heap x).inFlight = (w.pool.heap x).inFlight :=
    SandboxPool.update_field (fun s => s.inFlight) w.pool.heap w.pool.next _ h.fresh.symm
  refine ⟨?_, ?_, ?_, h.counted, ?_⟩
  · intro x
    rw [hs]
    exact (hi x).trans (h.inFlight x)
  · rw [hs]
    exact h.executing
  · have hsum : ∑ x ∈ Finset.range (w.pool.next + 1), (w.pool.heap x).inFlight =
        ∑ x ∈ Finset.range w.pool.next, (w.pool.heap x).inFlight := by
      rw [Finset.sum_range_succ, h.fresh, add_zero]
    have hall : ∑ x ∈ Finset.range (w.pool.next + 1),
        ((World.inserted w.pool target).heap x).inFlight =
        ∑ x ∈ Finset.range (w.pool.next + 1), (w.pool.heap x).inFlight :=
      Finset.sum_congr rfl (fun x _ => hi x)
    exact h.total.trans (hsum.symm.trans hall.symm)
  · intro c x hc
    rw [hs] at hc
    have := h.slot_lt c x hc
    exact Nat.lt_succ_of_lt this

theorem DrainOK.inserted (h : w.DrainOK calm) (hl : w.Ledger) (target : Sandbox) :
    (w.setPool (inserted w.pool target)).DrainOK calm := by
  have hnone : (w.pool.heap w.pool.next).drained = none := by
    cases hd : (w.pool.heap w.pool.next).drained with
    | none => rfl
    | some d =>
      have := (h.made _ d hd).1
      omega
  have hoff : (w.pool.heap w.pool.next).draining = false := by
    cases hd : (w.pool.heap w.pool.next).draining with
    | false => rfl
    | true =>
      obtain ⟨d, hd'⟩ := (h.both _).mp hd
      simp [hnone] at hd'
  have hm : ∀ x, ((World.inserted w.pool target).heap x).drained = (w.pool.heap x).drained :=
    SandboxPool.update_field (fun s => s.drained) w.pool.heap w.pool.next _ hnone.symm
  have hg : ∀ x, ((World.inserted w.pool target).heap x).draining = (w.pool.heap x).draining :=
    SandboxPool.update_field (fun s => s.draining) w.pool.heap w.pool.next _ hoff.symm
  have hi : ∀ x, ((World.inserted w.pool target).heap x).inFlight = (w.pool.heap x).inFlight :=
    SandboxPool.update_field (fun s => s.inFlight) w.pool.heap w.pool.next _ hl.fresh.symm
  refine ⟨h.idle, ?_, ?_, ?_, ?_, ?_, h.unmadeOpen, h.handed, h.expired, ?_⟩
  · intro d id x hd
    obtain ⟨hx, ht⟩ := h.mark d id x hd
    have hne : x ≠ w.pool.next := by
      have := (h.made x d hx).1
      omega
    refine ⟨(hm x).trans hx, ?_⟩
    simpa [World.inserted, hne] using ht
  · intro x
    rw [setPool_pool, hg, hm]
    exact h.both x
  · intro x d hx
    rw [setPool_pool, hm] at hx
    obtain ⟨hlt, hmade⟩ := h.made x d hx
    exact ⟨Nat.lt_succ_of_lt hlt, hmade⟩
  · intro x y d hx hy
    rw [setPool_pool, hm] at hx hy
    exact h.uniq x y d hx hy
  · intro x d hx hc
    rw [setPool_pool, hm] at hx
    exact (hi x).trans (h.closedZero x d hx hc)
  · intro hq x d hx hz
    rw [setPool_pool, hm] at hx
    exact h.quiet hq x d hx ((hi x).symm.trans hz)

theorem Core.insertNew (h : w.Core calm) (hc : w.pool.closed = false) (target : Sandbox)
    (hnone : w.pool.sandboxes target.instanceID = none) :
    (w.setPool (w.pool.insertNew target)).Core calm := by
  have hs : (w.setPool (inserted w.pool target)).slot = w.slot := slot_congr rfl rfl rfl
  have hbase : (w.setPool (inserted w.pool target)).Base calm := {
    map := by
      refine h.map.insert target hnone rfl rfl rfl rfl ⟨?_, ?_⟩ ?_
      · simp [inserted]
      · simp [inserted]
      · intro x hx
        simp [inserted, hx]
    ledger := h.ledger.inserted target
    queue := h.queue.congr rfl rfl rfl rfl rfl rfl rfl
    drain := h.drain.inserted h.ledger target
    log := h.log.congr rfl rfl hs rfl rfl }
  have hready := h.ready hc
  have hnot : w.pool.next ∉ w.pool.ready := by
    intro hmem
    have hf := (hready.exact _ id).mp hmem
    simp only [free, live, Bool.and_eq_true] at hf
    exact absurd (h.map.inMap_lt hf.1.1) (by omega)
  have hbut : (inserted w.pool target).ReadyBut (fun x => x = w.pool.next) := by
    refine hready.congr rfl ?_ ?_
    · intro x
      by_cases hx : x = w.pool.next
      · subst hx
        have hflag : (w.pool.heap w.pool.next).ready = false := by
          simpa using mt (hready.flag _).mp hnot
        simp [inserted, hflag]
      · simp [inserted, hx]
    · intro x hx
      rw [hready.exact x id]
      by_cases hid : (w.pool.heap x).target.instanceID = target.instanceID
      · simp [free, live, inMap, inserted, hid, hnone, hx,
          Ne.symm hx]
      · simp [free, live, inMap, inserted, hid, hx]
  have hin : (inserted w.pool target).inMap w.pool.next = true := by
    simp [inMap, inserted]
  have href := hbut.refresh hin
  rw [insertNew_eq]
  exact {
    Base.refresh hbase w.pool.next with
    ready := fun _ => href.congr rfl (fun _ => rfl)
      (fun x _ => href.exact x (fun hx => hx.2 hx.1)) }

/-! ## An entry gets a new target, or goes -/

theorem Core.retarget (h : w.Core calm) {target : Sandbox}
    (hr : w.pool.sandboxes target.instanceID = some r) :
    (w.setPool (w.pool.retarget r target)).Core calm ∧
      (w.pool.closed = false → (w.pool.retarget r target).ready = w.pool.ready) := by
  have hid := (h.map.entry _ r hr).2
  have hf : ∀ {β : Type} (f : PooledSandbox → β),
      f { w.pool.heap r with target := target } = f (w.pool.heap r) →
      ∀ x, f ((w.pool.setSandbox r { w.pool.heap r with target := target }).heap x) =
        f (w.pool.heap x) := fun f hf =>
    update_field f w.pool.heap r _ hf
  have hbase : (w.setPool (w.pool.setSandbox r { w.pool.heap r with target := target })).Base calm :=
    h.toBase.edit _ w.pool.ready (hf (fun s => s.target.instanceID) hid.symm)
      (hf (fun s => s.inFlight) rfl) (hf (fun s => s.draining) rfl) (hf (fun s => s.drained) rfl)
  have hready : w.pool.closed = false →
      (w.pool.setSandbox r { w.pool.heap r with target := target }).ReadyOK := by
    intro hc
    refine (h.ready hc).congr rfl (hf (fun s => s.ready) rfl) ?_
    intro x _
    have hlive : (w.pool.setSandbox r { w.pool.heap r with target := target }).live x =
        w.pool.live x :=
      live_congr rfl (hf (fun s => s.target.instanceID) hid.symm x)
        (hf (fun s => s.draining) rfl x)
    have hfree : (w.pool.setSandbox r { w.pool.heap r with target := target }).free x =
        w.pool.free x :=
      free_congr rfl hlive (hf (fun s => s.inFlight) rfl x)
    rw [(h.ready hc).exact x id, hfree]
  have hm : (w.pool.setSandbox r { w.pool.heap r with target := target }).inMap r = true :=
    hbase.map.inMap_of_entry hr
  unfold SandboxPool.retarget
  refine ⟨{ Base.refresh hbase r with ready := ?_ }, ?_⟩
  · intro hc
    have hopen : w.pool.closed = false := by
      obtain ⟨b, l, he⟩ := refreshReady_eq
        (w.pool.setSandbox r { w.pool.heap r with target := target }) r
      rw [setPool_pool, he] at hc
      exact hc
    have href := (hready hopen).refresh hm
    exact href.congr rfl (fun _ => rfl) (fun x _ => href.exact x (fun hx => hx.1))
  · intro hopen
    rw [(hready hopen).refresh_ready hm]
    rfl

/-- The pool without the entry `id`, which was `r`. -/
def deleted (p : SandboxPool) (id r : Nat) (b : Bool) (l : List Nat) : SandboxPool :=
  { p.touch r b l with
    sandboxes := Function.update p.sandboxes id none
    active := p.active - if (p.heap r).draining then 0 else 1 }

theorem Base.deleted (h : w.Base calm) {id : Nat} (hr : w.pool.sandboxes id = some r) (b : Bool)
    (l : List Nat) : (w.setPool (deleted w.pool id r b l)).Base calm := by
  have ht := h.touch r b l
  have hs : (w.setPool (World.deleted w.pool id r b l)).slot = w.slot := slot_congr rfl rfl rfl
  exact {
    map := h.map.delete hr rfl rfl rfl rfl
      (update_field (fun s => s.target.instanceID) w.pool.heap r _ rfl)
      (update_field (fun s => s.draining) w.pool.heap r _ rfl)
    ledger := ht.ledger.congr (slot_congr rfl rfl rfl) rfl (fun _ => rfl) rfl rfl rfl rfl
    queue := h.queue.congr rfl rfl rfl rfl rfl rfl rfl
    drain := ht.drain.congr rfl rfl rfl rfl rfl rfl (fun _ => rfl) (fun _ => rfl) (fun _ => rfl)
      (fun _ _ => rfl)
    log := h.log.congr rfl rfl hs rfl rfl }

theorem ReadyOK.deleted {p : SandboxPool} (hmap : p.MapOK) {id : Nat} {b : Bool} {l : List Nat}
    (hr : p.sandboxes id = some r) (h : (p.touch r b l).ReadyBut (fun x => x = r)) (hnot : r ∉ l) :
    (deleted p id r b l).ReadyOK := by
  refine h.congr rfl (fun _ => rfl) ?_
  intro x _
  have hid := (hmap.entry id r hr).2
  by_cases hx : x = r
  · subst hx
    refine iff_of_false hnot ?_
    simp [deleted, touch, free, live, inMap,
      hid]
  · rw [h.exact x hx]
    by_cases hxi : (p.heap x).target.instanceID = id
    · simp [World.deleted, SandboxPool.touch, SandboxPool.free, SandboxPool.live,
        inMap, hx, hxi, hr, Ne.symm hx]
    · simp [World.deleted, SandboxPool.touch, SandboxPool.free, SandboxPool.live,
        SandboxPool.inMap, hx, hxi]

/-! ## The operations -/

theorem removeReady_nil (p : SandboxPool) (r : Nat) (h : p.ready = []) :
    (p.removeReadyLocked r).ready = [] := by
  unfold removeReadyLocked
  split <;> simp [h]

theorem remove_eq {p : SandboxPool} {id : Nat} (hr : p.sandboxes id = some r) :
    ∃ b l, p.removeReadyLocked r = p.touch r b l ∧ p.remove id = deleted p id r b l := by
  obtain ⟨b, l, he⟩ := p.removeReady_eq r
  refine ⟨b, l, he, ?_⟩
  unfold remove
  simp only [hr, he]
  cases hd : (p.heap r).draining <;>
    simp [touch, deleteEntry, deleted, hd]

theorem Core.remove (h : w.Core calm) (id : Nat) : (w.setPool (w.pool.remove id)).Core calm ∧
      (w.pool.ready = [] → (w.pool.remove id).ready = []) ∧
      (w.pool.remove id).closed = w.pool.closed ∧
      (w.pool.remove id).pending = w.pool.pending := by
  cases hr : w.pool.sandboxes id with
  | none =>
    have hsame : w.pool.remove id = w.pool := by simp [SandboxPool.remove, hr]
    rw [hsame]
    exact ⟨h, fun hn => hn, rfl, rfl⟩
  | some r =>
    obtain ⟨b, l, he, hrem⟩ := remove_eq hr
    rw [hrem]
    refine ⟨{ h.toBase.deleted hr b l with ready := fun hc => ?_ }, ?_, rfl, rfl⟩
    · obtain ⟨hbut, hnot⟩ := (h.ready hc).removeReady r
      rw [he] at hbut hnot
      refine ReadyOK.deleted h.map hr ?_ hnot
      exact hbut.congr rfl (fun _ => rfl) (fun x hx => hbut.exact x (by simpa using hx))
    · intro hn
      have hl := removeReady_nil w.pool r hn
      rw [he] at hl
      exact hl

theorem remove_fine (h : w.Inv calm) (id : Nat) : (w.setPool (w.pool.remove id)).Inv calm := by
  obtain ⟨hcore, hready, hclosed, hpending⟩ := h.toCore.remove id
  refine { hcore with busy := fun hc hq => ?_ }
  exact hready (h.busy (hclosed.symm.trans hc) (by rw [← hpending]; exact hq))

theorem add_fine (h : w.Inv calm) (target : Sandbox) :
    ∃ p, w.pool.add target w.ctxErr w.clock = .ok p ∧ (w.setPool p).Inv calm := by
  unfold add
  by_cases hvalid : validTarget target = true
  · by_cases hcl : w.pool.closed = true
    · exact ⟨w.pool, by simp [hvalid, hcl], h⟩
    · have hopen : w.pool.closed = false := by simpa using hcl
      simp only [hvalid, hopen, Bool.not_true, Bool.false_eq_true, if_false]
      cases hr : w.pool.sandboxes target.instanceID with
      | none =>
        have hcore := h.toCore.insertNew hopen target hr
        obtain ⟨b, l, he⟩ := (inserted w.pool target).refreshReady_eq w.pool.next
        obtain ⟨p, hp, hinv, -⟩ := dispatch_ok w.clock _ hcore (by
          rw [setPool_pool, insertNew_eq, he]
          exact hopen)
        exact ⟨p, hp, hinv⟩
      | some r =>
        obtain ⟨hcore, hready⟩ := h.toCore.retarget hr
        refine ⟨_, rfl, { hcore with busy := fun _ hq => ?_ }⟩
        rw [setPool_pool, hready hopen]
        obtain ⟨b, l, he⟩ := refreshReady_eq
          (w.pool.setSandbox r { w.pool.heap r with target := target }) r
        apply h.busy hopen
        unfold retarget at hq
        rw [setPool_pool, he] at hq
        exact hq
  · exact ⟨w.pool, by simp [hvalid], h⟩

theorem Core.foldl {α : Type} (f : SandboxPool → α → SandboxPool)
    (hf : ∀ (w : World) (a : α), w.Core calm → w.pool.closed = false →
      (w.setPool (f w.pool a)).Core calm ∧ (f w.pool a).closed = false)
    (l : List α) (w : World) (h : w.Core calm) (hc : w.pool.closed = false) :
    (w.setPool (l.foldl f w.pool)).Core calm ∧ (l.foldl f w.pool).closed = false := by
  induction l generalizing w with
  | nil => exact ⟨h, hc⟩
  | cons a as ih =>
    obtain ⟨hcore, hclosed⟩ := hf w a h hc
    exact ih (w.setPool (f w.pool a)) hcore hclosed

theorem syncDrop_core (wanted : List Sandbox) (w : World) (id : Nat) (h : w.Core calm)
    (hc : w.pool.closed = false) :
    (w.setPool (w.pool.syncDrop wanted id)).Core calm ∧
      (w.pool.syncDrop wanted id).closed = false := by
  cases hr : w.pool.sandboxes id with
  | none =>
    have hsame : w.pool.syncDrop wanted id = w.pool := by simp [syncDrop, hr]
    rw [hsame]
    exact ⟨h, hc⟩
  | some r =>
    by_cases hskip : (wanted.any (·.instanceID == id) || (w.pool.heap r).draining) = true
    · have hsame : w.pool.syncDrop wanted id = w.pool := by
        unfold syncDrop
        simp only [hr, hskip, if_true]
      rw [hsame]
      exact ⟨h, hc⟩
    · -- an unwanted sandbox goes the way `Remove` would take it
      have hdrop : w.pool.syncDrop wanted id = w.pool.remove id := by
        obtain ⟨b, l, he⟩ := w.pool.removeReady_eq r
        have hd : (w.pool.heap r).draining = false := by
          simp only [Bool.or_eq_true, not_or, Bool.not_eq_true] at hskip
          exact hskip.2
        unfold syncDrop remove
        simp only [hr, hskip, he, Bool.false_eq_true, if_false]
        simp [touch, deleteEntry, hd]
      obtain ⟨hcore, -, hclosed, -⟩ := h.remove id
      rw [hdrop]
      exact ⟨hcore, hclosed.trans hc⟩

theorem syncPut_core (w : World) (target : Sandbox) (h : w.Core calm)
    (hc : w.pool.closed = false) :
    (w.setPool (w.pool.syncPut target)).Core calm ∧ (w.pool.syncPut target).closed = false := by
  unfold syncPut
  cases hr : w.pool.sandboxes target.instanceID with
  | none =>
    refine ⟨h.insertNew hc target hr, ?_⟩
    obtain ⟨b, l, he⟩ := (inserted w.pool target).refreshReady_eq w.pool.next
    simp only [insertNew_eq, he]
    exact hc
  | some r =>
    refine ⟨(h.retarget hr).1, ?_⟩
    obtain ⟨b, l, he⟩ := refreshReady_eq
      (w.pool.setSandbox r { w.pool.heap r with target := target }) r
    simp only [retarget, he]
    exact hc

theorem sync_fine (h : w.Inv calm) (order : List Nat) (wanted : List Sandbox) :
    ∃ p, w.pool.sync order wanted w.ctxErr w.clock = .ok p ∧ (w.setPool p).Inv calm := by
  unfold sync
  by_cases hcl : w.pool.closed = true
  · exact ⟨w.pool, by simp [hcl], h⟩
  · have hopen : w.pool.closed = false := by simpa using hcl
    simp only [hopen, Bool.false_eq_true, if_false]
    obtain ⟨h₁, hc₁⟩ := Core.foldl (syncDrop wanted) (syncDrop_core wanted) order w
      h.toCore hopen
    obtain ⟨h₂, hc₂⟩ := Core.foldl syncPut syncPut_core wanted _ h₁ hc₁
    obtain ⟨p, hp, hinv, -⟩ := dispatch_ok w.clock _ h₂ hc₂
    exact ⟨p, hp, hinv⟩

/-- The loop of `Configure`: what is left in doubt are the entries not visited. -/
theorem refreshAll (order : List Nat) (w : World) (h : w.Base calm) (D : Nat → Prop)
    (hr : w.pool.closed = false → w.pool.ReadyBut D) :
    (w.setPool (order.foldl refreshEntry w.pool)).Base calm ∧
      (order.foldl refreshEntry w.pool).closed = w.pool.closed ∧
      (w.pool.closed = false → (order.foldl refreshEntry w.pool).ReadyBut
        (fun x => D x ∧ ∀ id ∈ order, w.pool.sandboxes id ≠ some x)) := by
  induction order generalizing w D with
  | nil =>
    refine ⟨h, rfl, fun hc => ?_⟩
    exact (hr hc).congr rfl (fun _ => rfl) (fun x hx => (hr hc).exact x (by simpa using hx))
  | cons id ids ih =>
    simp only [List.foldl_cons]
    cases hid : w.pool.sandboxes id with
    | none =>
      have hsame : w.pool.refreshEntry id = w.pool := by simp [refreshEntry, hid]
      rw [hsame]
      obtain ⟨hb, hc, hrest⟩ := ih w h D hr
      refine ⟨hb, hc, fun ho => ?_⟩
      refine (hrest ho).congr rfl (fun _ => rfl) (fun x hx => (hrest ho).exact x ?_)
      rintro ⟨hD, hall⟩
      apply hx
      refine ⟨hD, ?_⟩
      simpa [hid] using hall
    | some r =>
      have hone : w.pool.refreshEntry id = w.pool.refreshReadyLocked r := by
        simp [refreshEntry, hid]
      rw [hone]
      obtain ⟨b, l, he⟩ := w.pool.refreshReady_eq r
      obtain ⟨hb, hc, hrest⟩ := ih (w.setPool (w.pool.refreshReadyLocked r)) (h.refresh r)
        (fun x => D x ∧ x ≠ r) (by
          intro ho
          rw [setPool_pool, he] at ho
          exact (hr ho).refresh (h.map.inMap_of_entry hid))
      rw [setPool_pool] at hc hrest
      have hcl : (w.pool.refreshReadyLocked r).closed = w.pool.closed := by rw [he]; rfl
      have hsb : (w.pool.refreshReadyLocked r).sandboxes = w.pool.sandboxes := by rw [he]; rfl
      refine ⟨hb, hc.trans hcl, fun ho => ?_⟩
      have hrest := hrest (hcl.trans ho)
      rw [hsb] at hrest
      refine hrest.congr rfl (fun _ => rfl) (fun x hx => hrest.exact x ?_)
      rintro ⟨⟨hD, hne⟩, hall⟩
      apply hx
      refine ⟨hD, ?_⟩
      intro i hi
      rcases List.mem_cons.mp hi with rfl | hi
      · rw [hid]
        intro hxr
        exact hne (Option.some.inj hxr).symm
      · exact hall i hi

theorem normalizeLimit_pos (limit : Int) : 0 < normalizeLimit limit := by
  unfold normalizeLimit defaultSandboxConcurrency
  split <;> omega

theorem configure_fine (h : w.Inv calm) (limit depth : Int) (order : List Nat)
    (hord : w.pool.Iterates order) :
    ∃ p, w.pool.configure limit depth order w.ctxErr w.clock = .ok p ∧ (w.setPool p).Inv calm := by
  generalize hQ : ({ w.pool with
    limit := normalizeLimit limit
    queueDepth := normalizeDepth depth } : SandboxPool) = q
  have hbase : (w.setPool q).Base calm := by
    subst hQ
    exact {
      map := ⟨normalizeLimit_pos limit, h.map.entry, h.map.active⟩
      ledger := h.ledger.congr (slot_congr rfl rfl rfl) rfl (fun _ => rfl) rfl rfl rfl rfl
      queue := h.queue.congr rfl rfl rfl rfl rfl rfl rfl
      drain := h.drain.congr rfl rfl rfl rfl rfl rfl (fun _ => rfl) (fun _ => rfl) (fun _ => rfl)
        (fun _ _ => rfl)
      log := h.log.congr rfl rfl (slot_congr rfl rfl rfl) rfl rfl }
  have hclosed : q.closed = w.pool.closed := by subst hQ; rfl
  have hbut : q.closed = false → q.ReadyBut (fun x => w.pool.inMap x = true) := by
    intro ho
    have hready := h.ready (hclosed.symm.trans ho)
    subst hQ
    refine hready.congr rfl (fun _ => rfl) ?_
    intro x hx
    rw [hready.exact x id]
    have hout : w.pool.inMap x = false := by simpa using hx
    simp only [inMap] at hout
    simp [free, live, inMap, hout]
  obtain ⟨hb, hc, hrest⟩ := refreshAll order (w.setPool q) hbase _ hbut
  rw [setPool_pool] at hc hrest
  have hsb : q.sandboxes = w.pool.sandboxes := by subst hQ; rfl
  have hcore : ((w.setPool q).setPool (order.foldl refreshEntry q)).Core calm := by
    refine { hb with ready := fun ho => ?_ }
    have hr := hrest (hc.symm.trans ho)
    refine hr.congr rfl (fun _ => rfl) (fun x _ => hr.exact x ?_)
    -- every entry was visited
    rintro ⟨hin, hall⟩
    have hmem := hord.2.2 x (h.map.inMap_lt hin) hin
    refine hall _ hmem ?_
    rw [hsb]
    simpa [inMap] using hin
  have hconf : w.pool.configure limit depth order w.ctxErr w.clock =
      (order.foldl refreshEntry q).dispatchLocked w.ctxErr w.clock := by
    subst hQ; rfl
  rw [hconf]
  by_cases hcl : w.pool.closed = true
  · refine ⟨_, dispatch_closed w.clock _ hcore.queue ((hc.trans hclosed).trans hcl), ?_⟩
    refine { hcore with busy := fun ho => ?_ }
    have := ((hc.trans hclosed).trans hcl).symm.trans ho
    simp at this
  · obtain ⟨p, hp, hinv, -⟩ := dispatch_ok w.clock _ hcore
      ((hc.trans hclosed).trans (by simpa using hcl))
    exact ⟨p, hp, hinv⟩

theorem close_fine (h : w.Inv calm) : ∃ p, w.pool.close = .ok p ∧ (w.setPool p).Inv calm := by
  unfold close
  by_cases hcl : w.pool.closed = true
  · exact ⟨w.pool, by simp [hcl], h⟩
  · simp only [hcl, Bool.false_eq_true, if_false]
    obtain ⟨p, hp, hcore, hnil⟩ := closeLoop_ok w.pool.pending w h.toCore rfl
    refine ⟨_, hp, ?_⟩
    have hs : (w.setPool { p with closed := true, ready := [] }).slot = (w.setPool p).slot :=
      slot_congr rfl rfl rfl
    exact {
      map := hcore.map.congr rfl rfl rfl rfl (fun _ => rfl) (fun _ => rfl)
      ledger := hcore.ledger.congr hs rfl (fun _ => rfl) rfl rfl rfl rfl
      queue := { hcore.queue with closed := fun _ => hnil }
      drain := { hcore.drain with quiet := fun hq => hcore.drain.quiet (by
        rcases hq with ho | hca
        · simp at ho
        · exact Or.inr hca) }
      log := hcore.log.congr rfl rfl hs rfl rfl
      ready := fun ho => by simp at ho
      busy := fun ho => by simp at ho }

end World

end HyperFaaS.Dataplane
