import HyperFaaS.Dataplane.PoolTurns
import HyperFaaS.Dataplane.PoolProperties

/-!
The entries of the pool. As long as the pool is neither synchronised with a list
nor closed:

* only `add`, `remove` and the end of a successful `Drain` change the map
  (`step_entry`);
* a sandbox of the map that is marked as draining has a `Drain` call in progress
  (`marks_of_reached`).
-/

namespace HyperFaaS.Dataplane

open Function

namespace SandboxPool

variable {ctxErr : Nat → Option CtxErr} {p q s : SandboxPool}

/-- The map, the marks and the state of the pool. -/
structure Entries where
  sandboxes : Nat → Option Nat
  draining : Nat → Bool
  closed : Bool

def entries (p : SandboxPool) : Entries :=
  ⟨p.sandboxes, fun r => (p.heap r).draining, p.closed⟩

/-! ## The helpers -/

variable {r now : Nat}

theorem entries_of_update {x : PooledSandbox} (hs : q.sandboxes = p.sandboxes)
    (hh : q.heap = update p.heap r x) (hc : q.closed = p.closed)
    (hd : x.draining = (p.heap r).draining) : q.entries = p.entries := by
  unfold entries
  rw [hs, hh, hc]
  congr
  exact funext (update_field (·.draining) p.heap r x hd)

theorem entries_removeReady (p : SandboxPool) (r : Nat) :
    (p.removeReadyLocked r).entries = p.entries := by
  obtain ⟨b, l, he⟩ := p.removeReady_eq r
  rw [he]
  exact entries_of_update rfl rfl rfl rfl

theorem entries_refreshReady (p : SandboxPool) (r : Nat) :
    (p.refreshReadyLocked r).entries = p.entries := by
  obtain ⟨b, l, he⟩ := p.refreshReady_eq r
  rw [he]
  exact entries_of_update rfl rfl rfl rfl

theorem entries_noteActivity (p : SandboxPool) (now : Nat) (n : Int) :
    (p.noteActivity now n).entries = p.entries := by
  unfold noteActivity
  split <;> rfl

theorem entries_noteDemand (p : SandboxPool) : p.noteDemandLocked.entries = p.entries := by
  unfold noteDemandLocked
  dsimp only
  split <;> rfl

theorem entries_updateQueueHead (p : SandboxPool) : p.updateQueueHeadLocked.entries = p.entries := by
  unfold updateQueueHeadLocked
  split <;> rfl

theorem entries_acquireLocked (h : p.acquireLocked now = some (r, q)) : q.entries = p.entries := by
  unfold acquireLocked at h
  split at h
  · cases h
  · rename_i r' rest _
    simp only [Option.some.injEq, Prod.mk.injEq] at h
    obtain ⟨rfl, rfl⟩ := h
    have htake : (p.takeSlot r').entries = p.entries := entries_of_update rfl rfl rfl rfl
    have hnote := (entries_noteActivity (p.takeSlot r') now 1).trans htake
    rw [entries_noteDemand]
    split
    · exact (entries_removeReady _ _).trans hnote
    · exact hnote

theorem entries_send {c : Nat} {x : AcquireResult} (h : p.send c x = .ok q) :
    q.entries = p.entries := by
  unfold send at h
  split at h <;> cases h
  rfl

theorem entries_dispatchLoop (l : List Nat) (p : SandboxPool)
    (h : dispatchLoop ctxErr now l p = .ok q) : q.entries = p.entries := by
  induction l generalizing p with
  | nil =>
    cases h
    rfl
  | cons c rest ih =>
    unfold dispatchLoop at h
    cases hc : ctxErr c with
    | some e =>
      simp only [hc] at h
      obtain ⟨p₁, hs, h⟩ := World.bind_ok h
      rw [ih p₁ h, entries_send hs]
      rfl
    | none =>
      simp only [hc] at h
      split at h
      · cases h
        rfl
      · rename_i r p₁ hacq
        obtain ⟨p₂, hs, h⟩ := World.bind_ok h
        rw [ih p₂ h, entries_send hs, ← entries_acquireLocked hacq]
        exact entries_updateQueueHead ({ p₁ with pending := rest }.clearElem c)

theorem entries_dispatchLocked (h : p.dispatchLocked ctxErr now = .ok q) : q.entries = p.entries :=
  entries_dispatchLoop p.pending p h

/-! ## The operations on leases and configuration -/

theorem entries_refreshEntries (order : List Nat) (p : SandboxPool) :
    (order.foldl refreshEntry p).entries = p.entries := by
  induction order generalizing p with
  | nil => rfl
  | cons id rest ih =>
    rw [List.foldl_cons, ih]
    unfold refreshEntry
    split
    · rfl
    · exact entries_refreshReady p _

theorem entries_configure {limit depth : Int} {order : List Nat}
    (h : p.configure limit depth order ctxErr now = .ok q) : q.entries = p.entries :=
  (entries_dispatchLocked h).trans (entries_refreshEntries order _)

theorem entries_closeDrained (h : p.closeDrained r = .ok q) : q.entries = p.entries := by
  unfold closeDrained at h
  split at h
  · cases h
    rfl
  · split at h <;> cases h
    rfl

theorem entries_release (h : p.release r ctxErr now = .ok q) : q.entries = p.entries := by
  have hslot : (p.dropSlot r).entries = p.entries := entries_of_update rfl rfl rfl rfl
  have hdrop := (entries_noteActivity (p.dropSlot r) now 0).trans hslot
  unfold release at h
  simp only at h
  split at h
  · cases h
  · refine Eq.trans ?_ hdrop
    split at h
    · cases h
      rfl
    · split at h
      · split at h
        · exact entries_closeDrained h
        · cases h
          rfl
      · split at h
        · exact (entries_dispatchLocked h).trans (entries_refreshReady _ r)
        · cases h
          rfl

theorem entries_acquireEnter (p : SandboxPool) (c now : Nat) :
    (p.acquireEnter c now).1.entries = p.entries := by
  unfold acquireEnter
  split
  · rfl
  · split
    · rename_i r p₁ hacq
      split at hacq
      · rw [← entries_acquireLocked hacq]
        rfl
      · cases hacq
    · split
      · rfl
      · obtain ⟨qh, hw, he⟩ := p.enqueue_eq c now
        rw [he]
        rfl

theorem entries_acquireCancel (p : SandboxPool) (c : Nat) :
    (p.acquireCancel c).1.entries = p.entries := by
  unfold acquireCancel
  split
  · exact entries_updateQueueHead ({ p with pending := p.pending.erase c }.clearElem c)
  · rfl

/-! ## The operations on entries -/

theorem retarget_entry (p : SandboxPool) (r : Nat) (target : Sandbox) :
    (p.retarget r target).sandboxes = p.sandboxes ∧
      (∀ x, ((p.retarget r target).heap x).draining = (p.heap x).draining) ∧
      (p.retarget r target).closed = p.closed := by
  have h : (p.retarget r target).entries = p.entries :=
    (entries_refreshReady _ r).trans (entries_of_update rfl rfl rfl rfl)
  exact ⟨congrArg Entries.sandboxes h, congrFun (congrArg Entries.draining h),
    congrArg Entries.closed h⟩

theorem insertNew_entry (p : SandboxPool) (target : Sandbox) :
    (p.insertNew target).sandboxes =
        update p.sandboxes target.instanceID (some p.next) ∧
      (∀ x, ((p.insertNew target).heap x).draining =
        if x = p.next then false else (p.heap x).draining) ∧
      (p.insertNew target).closed = p.closed := by
  have h := entries_refreshReady { p.setSandbox p.next ⟨target, 0, false, false, none⟩ with
    sandboxes := update p.sandboxes target.instanceID (some p.next)
    next := p.next + 1
    active := p.active + 1 } p.next
  refine ⟨congrArg Entries.sandboxes h,
    fun x => (congrFun (congrArg Entries.draining h) x).trans ?_, congrArg Entries.closed h⟩
  show (update p.heap p.next _ x).draining = _
  rw [update_apply]
  split <;> rfl

/-- No entry of `q` is marked that was not a marked entry of `p`. -/
def NoMark (p q : SandboxPool) : Prop :=
  ∀ id r, q.sandboxes id = some r → (q.heap r).draining = true →
    p.sandboxes id = some r ∧ (p.heap r).draining = true

theorem noMark_of_entries (h : q.entries = p.entries) : NoMark p q := by
  have hd := congrFun (congrArg Entries.draining h)
  have hs : q.sandboxes = p.sandboxes := congrArg Entries.sandboxes h
  exact fun id r hr hm => ⟨hs ▸ hr, (hd r).symm.trans hm⟩

theorem add_entry {target : Sandbox} (h : p.add target ctxErr now = .ok q) :
    NoMark p q ∧ q.closed = p.closed ∧
      (∀ id, id ≠ target.instanceID → q.sandboxes id = p.sandboxes id) ∧
      (validTarget target = true → p.closed = false →
        (q.sandboxes target.instanceID).isSome = true) := by
  unfold add at h
  split at h
  · rename_i hv
    cases h
    refine ⟨noMark_of_entries rfl, rfl, fun _ _ => rfl, fun hvalid => ?_⟩
    rw [hvalid] at hv
    cases hv
  · split at h
    · rename_i hc
      cases h
      refine ⟨noMark_of_entries rfl, rfl, fun _ _ => rfl, fun _ hopen => ?_⟩
      rw [hopen] at hc
      cases hc
    · split at h
      · rename_i r hr
        cases h
        obtain ⟨hs, hd, hc⟩ := retarget_entry p r target
        refine ⟨?_, hc, fun id _ => by rw [hs], fun _ _ => by rw [hs, hr]; rfl⟩
        intro id x hx hmark
        exact ⟨hs ▸ hx, hd x ▸ hmark⟩
      · have hk := entries_dispatchLocked h
        obtain ⟨hs, hd, hc⟩ := insertNew_entry p target
        have hs : q.sandboxes = _ := (congrArg Entries.sandboxes hk).trans hs
        have hd : ∀ x, (q.heap x).draining = _ :=
          fun x => (congrFun (congrArg Entries.draining hk) x).trans (hd x)
        refine ⟨?_, (congrArg Entries.closed hk).trans hc, ?_, fun _ _ => ?_⟩
        · intro id r hr hmark
          rw [hs] at hr
          rw [hd] at hmark
          grind [update_apply]
        · intro id hid
          rw [hs, update_of_ne hid]
        · rw [hs, update_self]
          rfl

theorem delete_entry (hk : q.entries = p.entries) (id : Nat) :
    NoMark p (q.deleteEntry id) ∧ (q.deleteEntry id).closed = p.closed ∧
      (q.deleteEntry id).sandboxes = update p.sandboxes id none := by
  have hs : q.sandboxes = p.sandboxes := congrArg Entries.sandboxes hk
  refine ⟨fun id' r hr hmark => ?_, congrArg Entries.closed hk, by simp only [deleteEntry, hs]⟩
  simp only [deleteEntry, hs] at hr
  by_cases hid : id' = id
  · rw [hid, update_self] at hr
    cases hr
  · rw [update_of_ne hid] at hr
    exact ⟨hr, (congrFun (congrArg Entries.draining hk) r).symm.trans hmark⟩

theorem remove_entry (p : SandboxPool) (id : Nat) :
    NoMark p (p.remove id) ∧ (p.remove id).closed = p.closed ∧
      (p.remove id).sandboxes = update p.sandboxes id none := by
  unfold remove
  split
  · rename_i hnone
    refine ⟨noMark_of_entries rfl, rfl, ?_⟩
    rw [← hnone, Function.update_eq_self]
  · rename_i r hr
    refine delete_entry ?_ id
    rw [← entries_removeReady p r]
    split <;> rfl

theorem reactivate_entry (h : p.reactivate r ctxErr now = .ok q) :
    q.sandboxes = p.sandboxes ∧ q.closed = p.closed ∧
      ∀ x, (q.heap x).draining = if x = r then false else (p.heap x).draining := by
  have hk := (entries_dispatchLocked h).trans (entries_refreshReady { p.setSandbox r
    { p.heap r with draining := false, drained := none } with active := p.active + 1 } r)
  refine ⟨congrArg Entries.sandboxes hk, congrArg Entries.closed hk,
    fun x => (congrFun (congrArg Entries.draining hk) x).trans ?_⟩
  show (update p.heap r _ x).draining = _
  rw [update_apply]
  split <;> rfl

/-- A `Drain` that expires leaves the map alone, and `r` is no marked entry
after it. -/
theorem restore_entry (hm : p.MapOK) (h : p.restore r ctxErr now = .ok q) :
    NoMark p q ∧ q.closed = p.closed ∧ q.sandboxes = p.sandboxes ∧
      ∀ id, q.sandboxes id = some r → (q.heap r).draining = false := by
  unfold restore at h
  split at h
  · rename_i hout
    cases h
    refine ⟨noMark_of_entries rfl, rfl, rfl, fun id hr => ?_⟩
    simp only [Bool.or_eq_true, Bool.not_eq_true'] at hout
    rcases hout with hout | hout
    · have hin := hm.inMap_of_entry hr
      rw [hout] at hin
      cases hin
    · exact hout
  · obtain ⟨hs, hc, hd⟩ := reactivate_entry h
    refine ⟨?_, hc, hs, fun id _ => by rw [hd, if_pos rfl]⟩
    intro id x hx hmark
    rw [hs] at hx
    rw [hd] at hmark
    split at hmark
    · cases hmark
    · exact ⟨hx, hmark⟩

/-- A `Drain` that ends deletes its entry when the sandbox was stopped, and `r` is
no marked entry after it. -/
theorem finish_entry {id : Nat} {stopped : Bool} (h : p.finish id r stopped ctxErr now = .ok q) :
    NoMark p q ∧ q.closed = p.closed ∧
      (∀ x, q.sandboxes x = p.sandboxes x ∨ x = id ∧ stopped = true ∧ q.sandboxes x = none) ∧
      (q.sandboxes id = some r → (q.heap r).draining = false) := by
  unfold finish at h
  split at h
  · rename_i hout
    cases h
    refine ⟨noMark_of_entries rfl, rfl, fun _ => .inl rfl, fun hr => ?_⟩
    rcases hout with hout | hout
    · exact absurd hr hout
    · exact hout
  · split at h
    · rename_i hstopped
      cases h
      refine ⟨(delete_entry rfl id).1, rfl, ?_, ?_⟩
      · intro x
        by_cases hx : x = id
        · exact .inr ⟨hx, hstopped, by simp [deleteEntry, hx]⟩
        · exact .inl (by simp [deleteEntry, hx])
      · intro hr
        simp [deleteEntry] at hr
    · obtain ⟨hs, hc, hd⟩ := reactivate_entry h
      refine ⟨?_, hc, fun x => .inl (by rw [hs]), fun _ => by rw [hd, if_pos rfl]⟩
      intro x y hy hmark
      rw [hs] at hy
      rw [hd] at hmark
      split at hmark
      · cases hmark
      · exact ⟨hy, hmark⟩

end SandboxPool

namespace DrainPC

/-- The instance of a `Drain` call in progress. -/
def about : DrainPC → Option Nat
  | .locking id | .waiting id _ | .restoring id _ | .handed id _ => some id
  | _ => none

end DrainPC

namespace World

variable {w w' : World} {a : Action}

/-- What is called while the function of the pool exists. -/
def resident : Action → Bool
  | .sync _ _ _ | .close => false
  | _ => true

/-- The mark of every entry has its `Drain` call. -/
def Marks (w : World) : Prop :=
  ∀ id r, w.pool.sandboxes id = some r → (w.pool.heap r).draining = true →
    ∃ d, draining (w.drain d) id r

variable {x : DrainPC} {r d : Nat}

theorem about_of_draining {id : Nat} (h : draining x id r) : x.about = some id := by
  rcases h with rfl | rfl | rfl <;> rfl

/-- What a step does to the entries and to the `Drain` calls. -/
structure Enters (w : World) (a : Action) (w' : World) : Prop where
  closed : w'.pool.closed = w.pool.closed
  entry : ∀ id, w'.pool.sandboxes id = w.pool.sandboxes id ∨
    (∃ t, a = .add t ∧ t.instanceID = id) ∨
    w'.pool.sandboxes id = none ∧
      (a = .remove id ∨ ∃ d r, a = .drainFinish d true ∧ w.drain d = .handed id r)
  about : ∀ d id, (w'.drain d).about = some id →
    (w.drain d).about = some id ∨ a = .drain id ∧ d = w.ndrains
  marks : w.Marks → w'.Marks
  ndrains : w.ndrains ≤ w'.ndrains

theorem Enters.kept (hk : w'.pool.entries = w.pool.entries) (hd : w'.drain = w.drain)
    (hn : w'.ndrains = w.ndrains) : Enters w a w' where
  closed := congrArg SandboxPool.Entries.closed hk
  entry := fun id => .inl (congrFun (congrArg SandboxPool.Entries.sandboxes hk) id)
  about := by
    intro d id h
    rw [hd] at h
    exact .inl h
  marks := by
    intro h id r hr hm
    obtain ⟨hr, hm⟩ := SandboxPool.noMark_of_entries hk id r hr hm
    rw [hd]
    exact h id r hr hm
  ndrains := Nat.le_of_eq hn.symm

theorem Enters.goes (habout : ∀ id, x.about = some id →
      (w.drain d).about = some id) (hmark : ∀ id r, draining (w.drain d) id r → draining x id r) :
    Enters w a (w.setDrain d x) where
  closed := rfl
  entry := fun id => .inl rfl
  about := by
    intro d' id h
    by_cases hd : d' = d
    · rw [hd, setDrain_drain, update_self] at h
      exact .inl (hd ▸ habout id h)
    · rw [setDrain_drain, update_of_ne hd] at h
      exact .inl h
  marks := by
    intro h id r hr hm
    obtain ⟨d', hd'⟩ := h id r hr hm
    refine ⟨d', ?_⟩
    by_cases hd : d' = d
    · rw [hd, setDrain_drain, update_self]
      exact hmark id r (hd ▸ hd')
    · rw [setDrain_drain, update_of_ne hd]
      exact hd'
  ndrains := Nat.le_refl _

theorem Enters.ends (id r : Nat) {p : SandboxPool} (hc : p.closed = w.pool.closed)
    (hentry : ∀ y, p.sandboxes y = w.pool.sandboxes y ∨
      y = id ∧ p.sandboxes y = none ∧ (∃ d r, a = .drainFinish d true ∧ w.drain d = .handed id r))
    (hmark : SandboxPool.NoMark w.pool p) (hd : ∀ y z, draining (w.drain d) y z → y = id ∧ z = r)
    (hr : p.sandboxes id = some r → (p.heap r).draining = false) (hx : x.about = none) :
    Enters w a ((w.setPool p).setDrain d x) where
  closed := hc
  entry := by
    intro y
    rcases hentry y with he | ⟨rfl, hnone, hfin⟩
    · exact .inl he
    · exact .inr (.inr ⟨hnone, .inr hfin⟩)
  about := by
    intro d' y h
    by_cases hdd : d' = d
    · rw [hdd, setDrain_drain, update_self, hx] at h
      cases h
    · rw [setDrain_drain, update_of_ne hdd] at h
      exact .inl h
  marks := by
    intro h y z hy hm
    have hold := hmark y z hy hm
    obtain ⟨d', hd'⟩ := h y z hold.1 hold.2
    have hdd : d' ≠ d := by
      rintro rfl
      obtain ⟨rfl, rfl⟩ := hd y z hd'
      have hm : (p.heap z).draining = true := hm
      rw [hr hy] at hm
      cases hm
    refine ⟨d', ?_⟩
    rw [setDrain_drain, update_of_ne hdd]
    exact hd'
  ndrains := Nat.le_refl _

theorem drainStart_ok {p q : SandboxPool} {id : Nat} (h : p.drainStart d id = (q, .ok r)) :
    p.closed = false ∧ p.sandboxes id = some r ∧ (p.heap r).draining = false := by
  unfold SandboxPool.drainStart at h
  split at h
  · cases h
  · rename_i hc
    split at h
    · cases h
    · rename_i r' hr
      split at h
      · cases h
      · rename_i hd
        have hrr : r' = r := by
          have := congrArg Prod.snd h
          simpa using this
        subst hrr
        exact ⟨by simpa using hc, hr, by simpa using hd⟩

theorem drainLock_enters (h : w.Inv False) (hs : w.drainLock d = .ok w') :
    Enters w (.drainLock d) w' := by
  unfold drainLock at hs
  split at hs
  · rename_i id hd
    cases hstart : w.pool.drainStart d id with
    | mk p res =>
      rw [hstart] at hs
      cases res with
      | error e =>
        cases hs
        have hp := drainStart_failed hstart
        subst hp
        refine Enters.goes (x := .failed e) nofun ?_
        rintro y z (hy | hy | hy) <;> rw [hd] at hy <;> cases hy
      | ok r =>
        cases hs
        obtain ⟨hopen, hr, hfree⟩ := drainStart_ok hstart
        rw [drainStart_marked hopen (h.ready hopen).flag hr hfree] at hstart
        cases hstart
        constructor
        case closed => rfl
        case entry => exact fun y => .inl rfl
        case about =>
          intro d' y hy
          by_cases hdd : d' = d
          · rw [hdd, setDrain_drain, update_self] at hy
            rw [hdd, hd]
            exact .inl hy
          · rw [setDrain_drain, update_of_ne hdd] at hy
            exact .inl hy
        case marks =>
          intro hm y z hy hmark
          by_cases hz : z = r
          · subst hz
            have hid := (h.map.entry id z hr).2
            have hid' := (h.map.entry y z hy).2
            refine ⟨d, ?_⟩
            rw [setDrain_drain, update_self, ← hid', hid]
            exact .inl rfl
          · have hold : (w.pool.heap z).draining = true := by
              simpa [marked, hz] using hmark
            obtain ⟨d', hd'⟩ := hm y z hy hold
            have hdd : d' ≠ d := by
              rintro rfl
              rcases hd' with hd' | hd' | hd' <;> rw [hd] at hd' <;> cases hd'
            refine ⟨d', ?_⟩
            rw [setDrain_drain, update_of_ne hdd]
            exact hd'
        case ndrains => exact Nat.le_refl _
  · cases hs

theorem drainRestore_enters (h : w.Inv False) (hs : w.drainRestore d = .ok w') :
    Enters w (.drainRestore d) w' := by
  unfold drainRestore at hs
  split at hs
  · rename_i id r e hd hctx
    obtain ⟨p, hp, hw⟩ := bind_ok hs
    cases hw
    obtain ⟨hmark, hc, hsame, hr⟩ := SandboxPool.restore_entry h.map hp
    refine Enters.ends id r hc (fun y => .inl (by rw [hsame])) hmark ?_ (hr id) rfl
    rintro y z (hy | hy | hy) <;> rw [hd] at hy <;> cases hy
    exact ⟨rfl, rfl⟩
  · cases hs

theorem drainFinish_enters {stopped : Bool} (hs : w.drainFinish d stopped = .ok w') :
    Enters w (.drainFinish d stopped) w' := by
  unfold drainFinish at hs
  split at hs
  · rename_i id r hd
    obtain ⟨p, hp, hw⟩ := bind_ok hs
    cases hw
    obtain ⟨hmark, hc, hentry, hr⟩ := SandboxPool.finish_entry hp
    refine Enters.ends id r hc ?_ hmark ?_ hr rfl
    · intro y
      rcases hentry y with he | ⟨rfl, rfl, hnone⟩
      · exact .inl he
      · exact .inr ⟨rfl, hnone, d, r, rfl, hd⟩
    · rintro y z (hy | hy | hy) <;> rw [hd] at hy <;> cases hy
      exact ⟨rfl, rfl⟩
  · cases hs
    exact Enters.kept rfl rfl rfl
  · cases hs

/-- **One step** and the entries. -/
theorem step_enters (h : w.Inv False) (ha : resident a = true) (hs : w.step a = .ok w') :
    Enters w a w' := by
  cases a with
  | sync targets order wanted => cases ha
  | close => cases ha
  | configure limit depth order =>
    simp only [step] at hs
    split at hs
    · obtain ⟨p, hp, rfl⟩ := map_ok hs
      exact .kept (SandboxPool.entries_configure hp) rfl rfl
    · cases hs
  | add target =>
    obtain ⟨p, hp, rfl⟩ := map_ok hs
    obtain ⟨hmark, hc, hother, -⟩ := SandboxPool.add_entry hp
    constructor
    case closed => exact hc
    case entry =>
      intro id
      by_cases hid : id = target.instanceID
      · exact .inr (.inl ⟨target, rfl, hid.symm⟩)
      · exact .inl (hother id hid)
    case about => exact fun d id hd => .inl hd
    case marks =>
      intro hm id r hr hd
      obtain ⟨hr, hd⟩ := hmark id r hr hd
      exact hm id r hr hd
    case ndrains => exact Nat.le_refl _
  | remove id =>
    cases hs
    obtain ⟨hmark, hc, hmap⟩ := SandboxPool.remove_entry w.pool id
    constructor
    case closed => exact hc
    case entry =>
      intro y
      rw [setPool_pool, hmap]
      by_cases hy : y = id
      · rw [hy, update_self]
        exact .inr (.inr ⟨rfl, .inl rfl⟩)
      · rw [update_of_ne hy]
        exact .inl rfl
    case about => exact fun d y hd => .inl hd
    case marks =>
      intro hm y r hr hd
      obtain ⟨hr, hd⟩ := hmark y r hr hd
      exact hm y r hr hd
    case ndrains => exact Nat.le_refl _
  | tick d | takeHighWater | acquire | cancel c e | cancelDrain d e =>
    cases hs
    exact .kept rfl rfl rfl
  | check c | receive c | confirm c | giveUp c | collect c | leave c | releaseLease c =>
    simp only [step, check, receive, confirm, giveUp, collect, leave, releaseLease] at hs
    repeat' split at hs
    all_goals cases hs
    all_goals exact .kept rfl rfl rfl
  | enter c =>
    simp only [step, enter] at hs
    have hk := SandboxPool.entries_acquireEnter w.pool c w.clock
    split at hs
    · split at hs <;> cases hs
      all_goals
        rename_i hent
        rw [hent] at hk
        exact .kept hk rfl rfl
    · cases hs
  | withdraw c =>
    simp only [step, withdraw] at hs
    have hk := SandboxPool.entries_acquireCancel w.pool c
    split at hs
    · split at hs <;> cases hs
      all_goals
        rename_i hcan
        rw [hcan] at hk
        exact .kept hk rfl rfl
    · cases hs
  | giveBack c =>
    simp only [step, giveBack] at hs
    split at hs
    · obtain ⟨p, hp, hw⟩ := bind_ok hs
      cases hw
      have hk := SandboxPool.entries_release hp
      exact .kept hk rfl rfl
    · cases hs
  | finishRelease c =>
    simp only [step, finishRelease] at hs
    split at hs
    · split at hs
      · obtain ⟨p, hp, hw⟩ := bind_ok hs
        cases hw
        have hk := SandboxPool.entries_release hp
        exact .kept hk rfl rfl
      · cases hs
    · cases hs
  | drain id =>
    cases hs
    have hidle := h.drain.idle w.ndrains (Nat.le_refl _)
    constructor
    case closed => rfl
    case entry => exact fun y => .inl rfl
    case about =>
      intro d y hd
      by_cases hdn : d = w.ndrains
      · subst hdn
        have hd : (update w.drain w.ndrains (.locking id) w.ndrains).about = some y := hd
        rw [update_self] at hd
        cases hd
        exact .inr ⟨rfl, rfl⟩
      · have hd : (update w.drain w.ndrains (.locking id) d).about = some y := hd
        rw [update_of_ne hdn] at hd
        exact .inl hd
    case marks =>
      intro hm y r hr hmark
      obtain ⟨d, hd⟩ := hm y r hr hmark
      have hdn : d ≠ w.ndrains := by
        rintro rfl
        rcases hd with hd | hd | hd <;> rw [hidle] at hd <;> cases hd
      refine ⟨d, ?_⟩
      show draining (update w.drain w.ndrains (.locking id) d) y r
      rw [update_of_ne hdn]
      exact hd
    case ndrains => exact Nat.le_succ _
  | drainLock d => exact drainLock_enters h hs
  | drainReady d =>
    simp only [step, drainReady] at hs
    split at hs
    · rename_i id r hd
      split at hs
      · cases hs
        refine .goes (fun y hy => by rw [hd]; exact hy) ?_
        rintro y z (hy | hy | hy) <;> rw [hd] at hy <;> cases hy
        exact .inr (.inr rfl)
      · cases hs
    · cases hs
  | drainExpire d =>
    simp only [step, drainExpire] at hs
    split at hs
    · rename_i id r _ hd _
      cases hs
      refine .goes (fun y hy => by rw [hd]; exact hy) ?_
      rintro y z (hy | hy | hy) <;> rw [hd] at hy <;> cases hy
      exact .inr (.inl rfl)
    · cases hs
  | drainRestore d => exact drainRestore_enters h hs
  | drainFinish d stopped => exact drainFinish_enters hs

theorem drainFinish_about {stopped : Bool} (hs : w.step (.drainFinish d stopped) = .ok w') :
    (w'.drain d).about = none := by
  simp only [step, drainFinish] at hs
  split at hs
  · obtain ⟨p, hp, hw⟩ := bind_ok hs
    cases hw
    rw [setDrain_drain, update_self]
    rfl
  · rename_i hd
    cases hs
    rw [hd]
    rfl
  · cases hs

theorem add_isSome {target : Sandbox} (hs : w.step (.add target) = .ok w')
    (hv : SandboxPool.validTarget target = true) (hc : w.pool.closed = false) :
    (w'.pool.sandboxes target.instanceID).isSome = true := by
  obtain ⟨p, hp, rfl⟩ := map_ok hs
  exact (SandboxPool.add_entry hp).2.2.2 hv hc

theorem remove_isNone {id : Nat} (hs : w.step (.remove id) = .ok w') :
    w'.pool.sandboxes id = none := by
  cases hs
  rw [setPool_pool, (SandboxPool.remove_entry w.pool id).2.2, update_self]

/-- **Run lemma.** -/
theorem marks_of_reached (hw : machine.ReachesWhile (fun _ a => resident a = true) w) :
    w.Marks := by
  have hall : w.Inv False ∧ w.Marks := by
    refine hw.invariant (I := fun w => w.Inv False ∧ w.Marks) ?_ ?_
    · rintro _ ⟨limit, depth, clock, rfl⟩
      exact ⟨init_inv limit depth clock, nofun⟩
    · rintro s a s' ⟨hi, hm⟩ ha hs
      exact ⟨step_inv hi (fun hc => hc.elim) hs, (step_enters hi ha hs).marks hm⟩
  exact hall.2

end World

end HyperFaaS.Dataplane
