import HyperFaaS.Lib.Count
import HyperFaaS.Lib.Fifo
import HyperFaaS.Dataplane.PoolMachine

/-!
The invariant of the pool and its callers. It has six parts, each with lemmas
that say what one change of the pool does to it:

* `MapOK`: map entries and the `active` counter;
* `ReadyBut`: the ready list, up to sandboxes a critical section still has to
  refresh;
* `Ledger`: slots in use, by sandbox and in total;
* `QueueOK`: waiters, their channels and the callers behind them;
* `DrainOK`: draining sandboxes, their channels and the `Drain` calls;
* `LogOK`: the history agrees with where the callers stand.
-/

namespace HyperFaaS.Dataplane

open Function

namespace SandboxPool

/-- In the map and not draining. -/
def live (p : SandboxPool) (r : Nat) : Bool := p.inMap r && !(p.heap r).draining

/-- Live with a slot below the limit. -/
def free (p : SandboxPool) (r : Nat) : Bool :=
  p.live r && decide ((p.heap r).inFlight < p.limit)

structure MapOK (p : SandboxPool) : Prop where
  limit_pos : 0 < p.limit
  entry : ∀ id r, p.sandboxes id = some r → r < p.next ∧ (p.heap r).target.instanceID = id
  active : p.active = Nat.count (fun r => p.live r = true) p.next

/-- The ready list is right except perhaps about the sandboxes in `D`. -/
structure ReadyBut (p : SandboxPool) (D : Nat → Prop) : Prop where
  nodup : p.ready.Nodup
  flag : ∀ r, (p.heap r).ready = true ↔ r ∈ p.ready
  exact : ∀ r, ¬ D r → (r ∈ p.ready ↔ p.free r = true)

/-- The ready list holds every free sandbox once and nothing else. -/
abbrev ReadyOK (p : SandboxPool) : Prop := p.ReadyBut (fun _ => False)

end SandboxPool

namespace World

/-- The slot a call holds: granted, on its way to the caller or in its hands,
and not yet released. -/
def slot (w : World) (c : Nat) : Option Nat :=
  match w.pc c with
  | .selecting | .canceling | .collecting =>
      match (w.pool.waiters c).result with
      | .sandbox r :: _ => some r
      | _ => none
  | .received (.sandbox r) => some r
  | .givingBack r => some r
  | .returned (.lease r) => if (w.lease c).released && !(w.lease c).releasing then none else some r
  | _ => none

structure Ledger (w : World) : Prop where
  inFlight : ∀ r, (w.pool.heap r).inFlight = Nat.count (fun c => w.slot c = some r) w.ncalls
  executing : w.pool.executing = Nat.count (fun c => (w.slot c).isSome = true) w.ncalls
  total : w.pool.executing = ∑ r ∈ Finset.range w.pool.next, (w.pool.heap r).inFlight
  counted : w.pool.executing = w.pool.accepted - w.pool.completed
  slot_lt : ∀ c r, w.slot c = some r → r < w.pool.next

/-- A waiter is queued with an empty channel, or answered exactly once. -/
def WaiterOK (x : AcquirePC) (v : Waiter) : Prop :=
  match x with
  | .selecting | .canceling => (v.elem = true ∧ v.result = []) ∨ (v.elem = false ∧ ∃ y, v.result = [y])
  | .collecting => v.elem = false ∧ ∃ y, v.result = [y]
  | _ => v.elem = false ∧ v.result = []

/-- The context of a call at these places has been cancelled. -/
def gaveUp : AcquirePC → Bool
  | .canceling | .collecting | .givingBack _ | .leaving => true
  | _ => false

/-- The call was told that its context ended with `e`, by its channel or by its
own look at the context. -/
def told (w : World) (c : Nat) (e : CtxErr) : Prop :=
  .err (.ctx e) ∈ (w.pool.waiters c).result ∨ w.pc c = .received (.err (.ctx e)) ∨
    w.pc c = .returned (.err (.ctx e))

structure QueueOK (w : World) : Prop where
  idle : ∀ c, w.ncalls ≤ c → w.pc c = .idle
  waiter : ∀ c, WaiterOK (w.pc c) (w.pool.waiters c)
  queued : ∀ c, c ∈ w.pool.pending ↔ (w.pool.waiters c).elem = true
  nodup : w.pool.pending.Nodup
  ctx : ∀ c, gaveUp (w.pc c) = true → (w.ctxErr c).isSome = true
  lease : ∀ c, (∀ r, w.pc c ≠ .returned (.lease r)) → w.lease c = ⟨false, false⟩
  flags : ∀ c, (w.lease c).releasing = true → (w.lease c).released = true
  closed : w.pool.closed = true → w.pool.pending = []
  own : ∀ c e, w.told c e → w.ctxErr c = some e

/-- A `Drain` call that has marked `r` and is not over. -/
def draining (x : DrainPC) (id : Nat) (r : Nat) : Prop :=
  x = .waiting id r ∨ x = .restoring id r ∨ x = .handed id r

/-- A `Drain` call that has not made its channel. -/
def unmade (x : DrainPC) : Prop := x = .idle ∨ ∃ id, x = .locking id

/-- A draining sandbox without leases has its channel closed, as long as the
pool is open. After `Close` a release no longer closes channels, so this goes on
only under the condition `calm` on the run. -/
structure DrainOK (w : World) (calm : Prop) : Prop where
  idle : ∀ d, w.ndrains ≤ d → w.drain d = .idle
  mark : ∀ d id r, draining (w.drain d) id r →
    (w.pool.heap r).drained = some d ∧ (w.pool.heap r).target.instanceID = id
  both : ∀ r, (w.pool.heap r).draining = true ↔ ∃ d, (w.pool.heap r).drained = some d
  made : ∀ r d, (w.pool.heap r).drained = some d → r < w.pool.next ∧ ¬ unmade (w.drain d)
  uniq : ∀ r r' d, (w.pool.heap r).drained = some d → (w.pool.heap r').drained = some d → r = r'
  closedZero : ∀ r d, (w.pool.heap r).drained = some d → w.pool.drainedClosed d = true →
    (w.pool.heap r).inFlight = 0
  unmadeOpen : ∀ d, unmade (w.drain d) → w.pool.drainedClosed d = false
  handed : ∀ d id r, w.drain d = .handed id r → w.pool.drainedClosed d = true
  expired : ∀ d id r, w.drain d = .restoring id r → (w.drainCtx d).isSome = true
  quiet : w.pool.closed = false ∨ calm → ∀ r d, (w.pool.heap r).drained = some d →
    (w.pool.heap r).inFlight = 0 → w.pool.drainedClosed d = true

end World

namespace Event

/-- What an event is to the queue. -/
def queueEvent : Event → Option (Lib.Fifo.QEvent Nat)
  | .enqueue c _ _ => some (.join c)
  | .grant c _ _ _ _ => some (.serve c)
  | .reject c _ => some (.leave c)
  | .withdraw c => some (.leave c)
  | _ => none

/-- The `Acquire` call an event is about. -/
def caller : Event → Nat
  | .enqueue c _ _ | .grant c _ _ _ _ | .reject c _ | .withdraw c | .giveBack c _ | .release c _
  | .ret c _ => c

def isGrant (c : Nat) : Event → Bool
  | .grant c' _ _ _ _ => decide (c' = c)
  | _ => false

def isGiveBack (c : Nat) : Event → Bool
  | .giveBack c' _ => decide (c' = c)
  | _ => false

def isRelease (c : Nat) : Event → Bool
  | .release c' _ => decide (c' = c)
  | _ => false

def isRet (c : Nat) : Event → Bool
  | .ret c' _ => decide (c' = c)
  | _ => false

/-- A grant within the limit on a sandbox that is not draining, an enqueue below
the depth. -/
def Within : Event → Prop
  | .grant _ _ inFlight limit draining => inFlight ≤ limit ∧ draining = false
  | .enqueue _ queued depth => queued < depth
  | _ => True

end Event

namespace World

/-- The call holds a slot, or returned with one. -/
def kept (w : World) (c : Nat) : Bool :=
  (w.slot c).isSome || match w.pc c with
    | .returned (.lease _) => true
    | _ => false

def hasReturned : AcquirePC → Bool
  | .returned _ => true
  | _ => false

/-- The call gave its slot back and ends with an error. -/
def afterGiveBack : AcquirePC → Bool
  | .leaving | .returned (.err _) => true
  | _ => false

structure LogOK (w : World) : Prop where
  fifo : Lib.Fifo.run [] (w.pool.log.filterMap Event.queueEvent) = some w.pool.pending
  within : ∀ e ∈ w.pool.log, e.Within
  returns : ∀ c, w.pool.log.countP (Event.isRet c) = (hasReturned (w.pc c)).toNat
  grants : ∀ c, w.pool.log.countP (Event.isGrant c) =
    w.pool.log.countP (Event.isGiveBack c) + (w.kept c).toNat
  gives : ∀ c, w.pool.log.countP (Event.isGiveBack c) ≤ (afterGiveBack (w.pc c)).toNat
  releases : ∀ c, w.pool.log.countP (Event.isRelease c) =
    ((w.lease c).released && !(w.lease c).releasing).toNat
  granted : ∀ c r, w.slot c = some r ∨ w.pc c = .returned (.lease r) →
    ∃ i l b, Event.grant c r i l b ∈ w.pool.log
  given : ∀ c r, Event.giveBack c r ∈ w.pool.log → ∃ i l b, Event.grant c r i l b ∈ w.pool.log
  returned : ∀ c o, Event.ret c o ∈ w.pool.log → w.pc c = .returned o

/-- Everything but the ready list. -/
structure Base (w : World) (calm : Prop) : Prop where
  map : w.pool.MapOK
  ledger : w.Ledger
  queue : w.QueueOK
  drain : w.DrainOK calm
  log : w.LogOK

/-- What holds inside a critical section, between its changes. -/
structure Core (w : World) (calm : Prop) : Prop extends Base w calm where
  ready : w.pool.closed = false → w.pool.ReadyOK

/-- What holds between critical sections: nobody waits while a slot is free. -/
structure Inv (w : World) (calm : Prop) : Prop extends Core w calm where
  busy : w.pool.closed = false → w.pool.pending ≠ [] → w.pool.ready = []

end World

/-! ## The map and its counter -/

namespace SandboxPool

theorem update_field {β : Type} (f : PooledSandbox → β) (g : Nat → PooledSandbox) (r : Nat)
    (s : PooledSandbox) (h : f s = f (g r)) (x : Nat) : f (update g r s x) = f (g x) := by
  by_cases hx : x = r
  · subst hx; simpa using h
  · simp [hx]

variable {p q : SandboxPool} {r : Nat} {D : Nat → Prop}

theorem live_congr (hs : q.sandboxes = p.sandboxes)
    (hid : (q.heap r).target.instanceID = (p.heap r).target.instanceID)
    (hd : (q.heap r).draining = (p.heap r).draining) : q.live r = p.live r := by
  simp only [live, inMap, hs, hid, hd]

theorem free_congr (hl : q.limit = p.limit) (hv : q.live r = p.live r)
    (hi : (q.heap r).inFlight = (p.heap r).inFlight) : q.free r = p.free r := by
  simp only [free, hl, hv, hi]

theorem MapOK.congr (h : p.MapOK) (hl : q.limit = p.limit) (hs : q.sandboxes = p.sandboxes)
    (hn : q.next = p.next) (ha : q.active = p.active)
    (hid : ∀ r, (q.heap r).target.instanceID = (p.heap r).target.instanceID)
    (hd : ∀ r, (q.heap r).draining = (p.heap r).draining) : q.MapOK where
  limit_pos := by rw [hl]; exact h.limit_pos
  entry := by
    intro id r hr
    rw [hs] at hr
    rw [hn, hid]
    exact h.entry id r hr
  active := by
    rw [ha, hn, h.active]
    congr 1
    apply Lib.count_congr
    intro r _
    rw [live_congr hs (hid r) (hd r)]

theorem MapOK.inMap_lt (h : p.MapOK) (hr : p.inMap r = true) : r < p.next := by
  simp only [inMap, beq_iff_eq] at hr
  exact (h.entry _ r hr).1

theorem MapOK.inMap_of_entry (h : p.MapOK) {id : Nat} (hr : p.sandboxes id = some r) :
    p.inMap r = true := by
  simp only [inMap, (h.entry id r hr).2, hr, beq_self_eq_true]

theorem MapOK.insert (h : p.MapOK) (target : Sandbox) (hnone : p.sandboxes target.instanceID = none)
    (hl : q.limit = p.limit) (hs : q.sandboxes = update p.sandboxes target.instanceID (some p.next))
    (hn : q.next = p.next + 1) (ha : q.active = p.active + 1)
    (hnew : (q.heap p.next).target = target ∧ (q.heap p.next).draining = false)
    (hold : ∀ r, r ≠ p.next → q.heap r = p.heap r) : q.MapOK where
  limit_pos := by rw [hl]; exact h.limit_pos
  entry := by
    intro id r hr
    rw [hs] at hr
    by_cases hid : id = target.instanceID
    · subst hid
      simp only [update_self, Option.some.injEq] at hr
      subst hr
      rw [hn, hnew.1]
      exact ⟨by omega, rfl⟩
    · rw [update_of_ne hid] at hr
      obtain ⟨hlt, ht⟩ := h.entry id r hr
      rw [hn, hold r (by omega)]
      exact ⟨by omega, ht⟩
  active := by
    have hlast : q.live p.next = true := by
      simp [live, inMap, hnew.1, hnew.2, hs]
    have hcount : Nat.count (fun r => q.live r = true) p.next =
        Nat.count (fun r => p.live r = true) p.next := by
      apply Lib.count_congr
      intro r hr
      have hheap : q.heap r = p.heap r := hold r (by omega)
      by_cases hid : (p.heap r).target.instanceID = target.instanceID
      · -- the key was free, so `r` was not in the map and `p.next` is there now
        simp [live, inMap, hheap, hid, hs, hnone]
        intro hc
        omega
      · simp [live, inMap, hheap, hs, hid]
    rw [ha, hn, Nat.count_succ, hcount, h.active]
    simp [hlast]

theorem MapOK.delete (h : p.MapOK) {id : Nat} (hr : p.sandboxes id = some r)
    (hl : q.limit = p.limit) (hs : q.sandboxes = update p.sandboxes id none) (hn : q.next = p.next)
    (ha : q.active = p.active - if (p.heap r).draining then 0 else 1)
    (hid : ∀ x, (q.heap x).target.instanceID = (p.heap x).target.instanceID)
    (hd : ∀ x, (q.heap x).draining = (p.heap x).draining) : q.MapOK where
  limit_pos := by rw [hl]; exact h.limit_pos
  entry := by
    intro i x hx
    rw [hs] at hx
    by_cases hi : i = id
    · subst hi; simp at hx
    · rw [update_of_ne hi] at hx
      rw [hn, hid]
      exact h.entry i x hx
  active := by
    obtain ⟨hlt, ht⟩ := h.entry id r hr
    have hgone : ¬ q.live r = true := by
      simp [live, inMap, hid, ht, hs]
    have hother : ∀ x, x ≠ r → (q.live x = true ↔ p.live x = true) := by
      intro x hx
      by_cases hi : (p.heap x).target.instanceID = id
      · simp [live, inMap, hid, hi, hs, hr, Ne.symm hx]
      · simp [live, inMap, hid, hi, hs, hd]
    by_cases hdr : (p.heap r).draining = true
    · have hp : ¬ p.live r = true := by simp [live, hdr]
      have hc : Nat.count (fun x => q.live x = true) p.next =
          Nat.count (fun x => p.live x = true) p.next := by
        apply Lib.count_congr
        intro x _
        by_cases hx : x = r
        · subst hx; exact iff_of_false hgone hp
        · exact hother x hx
      rw [ha, hn, hc, h.active]
      simp [hdr]
    · have hp : p.live r = true := by
        simp [live, h.inMap_of_entry hr, hdr]
      have hc := Lib.count_leave (p := fun x => p.live x = true) (q := fun x => q.live x = true)
        hlt hp hgone hother
      rw [ha, hn, h.active, hc]
      simp [hdr]

theorem MapOK.drain (h : p.MapOK) (hm : p.inMap r = true) (hdr : (p.heap r).draining = false)
    (hl : q.limit = p.limit) (hs : q.sandboxes = p.sandboxes) (hn : q.next = p.next)
    (ha : q.active = p.active - 1)
    (hid : ∀ x, (q.heap x).target.instanceID = (p.heap x).target.instanceID)
    (hq : (q.heap r).draining = true)
    (hd : ∀ x, x ≠ r → (q.heap x).draining = (p.heap x).draining) : q.MapOK where
  limit_pos := by rw [hl]; exact h.limit_pos
  entry := by
    intro i x hx
    rw [hs] at hx
    rw [hn, hid]
    exact h.entry i x hx
  active := by
    have hc := Lib.count_leave (p := fun x => p.live x = true) (q := fun x => q.live x = true)
      (h.inMap_lt hm) (by simp [live, hm, hdr]) (by simp [live, hq])
      (fun x hx => by rw [live_congr hs (hid x) (hd x hx)])
    rw [ha, hn, h.active, hc]
    omega

theorem MapOK.undrain (h : p.MapOK) (hm : p.inMap r = true) (hdr : (p.heap r).draining = true)
    (hl : q.limit = p.limit) (hs : q.sandboxes = p.sandboxes) (hn : q.next = p.next)
    (ha : q.active = p.active + 1)
    (hid : ∀ x, (q.heap x).target.instanceID = (p.heap x).target.instanceID)
    (hq : (q.heap r).draining = false)
    (hd : ∀ x, x ≠ r → (q.heap x).draining = (p.heap x).draining) : q.MapOK where
  limit_pos := by rw [hl]; exact h.limit_pos
  entry := by
    intro i x hx
    rw [hs] at hx
    rw [hn, hid]
    exact h.entry i x hx
  active := by
    have hm' : q.inMap r = true := by
      simpa only [inMap, hs, hid] using hm
    have hc := Lib.count_join (p := fun x => p.live x = true) (q := fun x => q.live x = true)
      (h.inMap_lt hm) (by simp [live, hdr]) (by simp [live, hq, hm'])
      (fun x hx => by rw [live_congr hs (hid x) (hd x hx)])
    rw [ha, hn, h.active, hc]
    omega

/-! ## The ready list -/

/-- A change of the ready list and of one sandbox's element pointer. -/
def touch (p : SandboxPool) (r : Nat) (b : Bool) (l : List Nat) : SandboxPool :=
  { p with heap := update p.heap r { p.heap r with ready := b }, ready := l }

theorem touch_self (p : SandboxPool) (r : Nat) : p.touch r (p.heap r).ready p.ready = p := by
  simp [touch]

theorem removeReady_eq (p : SandboxPool) (r : Nat) :
    ∃ b l, p.removeReadyLocked r = p.touch r b l := by
  unfold removeReadyLocked
  split
  · exact ⟨false, p.ready.erase r, rfl⟩
  · exact ⟨_, _, (p.touch_self r).symm⟩

theorem refreshReady_eq (p : SandboxPool) (r : Nat) :
    ∃ b l, p.refreshReadyLocked r = p.touch r b l := by
  unfold refreshReadyLocked
  split
  · exact ⟨true, p.ready ++ [r], rfl⟩
  · split
    · exact p.removeReady_eq r
    · exact ⟨_, _, (p.touch_self r).symm⟩

theorem touch_free (p : SandboxPool) (r : Nat) (b : Bool) (l : List Nat) (x : Nat) :
    (p.touch r b l).free x = p.free x := by
  have ht := update_field (fun s => s.target) p.heap r { p.heap r with ready := b } rfl x
  have hd := update_field (fun s => s.draining) p.heap r { p.heap r with ready := b } rfl x
  have hi := update_field (fun s => s.inFlight) p.heap r { p.heap r with ready := b } rfl x
  simp only at ht hd hi
  simp only [touch, free, live, inMap, ht, hd, hi]

theorem free_eq (p : SandboxPool) (r : Nat) : p.free r = (p.inMap r && p.available r) := by
  simp only [free, live, available, Bool.and_assoc]

/-- The list and the element pointers stay, the free sandboxes are re-read. -/
theorem ReadyBut.congr {D' : Nat → Prop} (h : p.ReadyBut D) (hr : q.ready = p.ready)
    (hf : ∀ x, (q.heap x).ready = (p.heap x).ready)
    (hx : ∀ x, ¬ D' x → (x ∈ p.ready ↔ q.free x = true)) : q.ReadyBut D' where
  nodup := hr ▸ h.nodup
  flag := by
    intro x
    rw [hf, hr]
    exact h.flag x
  exact := by
    intro x hd
    rw [hr]
    exact hx x hd

theorem ReadyBut.removeReady (h : p.ReadyBut D) (r : Nat) :
    (p.removeReadyLocked r).ReadyBut (fun x => D x ∨ x = r) ∧
      r ∉ (p.removeReadyLocked r).ready := by
  unfold removeReadyLocked
  split
  · rename_i hflag
    have hnot : r ∉ p.ready.erase r := h.nodup.not_mem_erase
    refine ⟨⟨h.nodup.erase r, ?_, ?_⟩, hnot⟩
    · intro x
      by_cases hx : x = r
      · subst hx; simpa [setSandbox] using hnot
      · simp only [setSandbox, update_of_ne hx]
        rw [h.flag x, List.mem_erase_of_ne hx]
    · intro x hx
      have hD : ¬ D x := fun hd => hx (Or.inl hd)
      have hne : x ≠ r := fun he => hx (Or.inr he)
      change x ∈ p.ready.erase r ↔ (p.touch r false (p.ready.erase r)).free x = true
      rw [touch_free, ← h.exact x hD]
      exact List.mem_erase_of_ne hne
  · rename_i hflag
    have hnot : r ∉ p.ready := fun hm => hflag ((h.flag r).mpr hm)
    refine ⟨⟨h.nodup, h.flag, fun x hx => h.exact x (fun hd => hx (Or.inl hd))⟩, hnot⟩

theorem ReadyBut.refresh (h : p.ReadyBut D) (hm : p.inMap r = true) :
    (p.refreshReadyLocked r).ReadyBut (fun x => D x ∧ x ≠ r) := by
  have hfree : p.free r = p.available r := by rw [free_eq, hm, Bool.true_and]
  unfold refreshReadyLocked
  split
  · rename_i hpush
    simp only [Bool.and_eq_true, Bool.not_eq_true'] at hpush
    have hnot : r ∉ p.ready := by
      rw [← h.flag r, hpush.2]
      simp
    refine ⟨?_, ?_, ?_⟩
    · rw [List.nodup_append]
      refine ⟨h.nodup, by simp, ?_⟩
      rintro a ha b hb rfl
      rw [List.mem_singleton] at hb
      exact hnot (hb ▸ ha)
    · intro x
      by_cases hx : x = r
      · subst hx; simp [setSandbox]
      · simp only [setSandbox, update_of_ne hx, List.mem_append, List.mem_singleton, hx,
          or_false]
        exact h.flag x
    · intro x hx
      change x ∈ p.ready ++ [r] ↔ (p.touch r true (p.ready ++ [r])).free x = true
      rw [touch_free, List.mem_append, List.mem_singleton]
      by_cases hxr : x = r
      · subst hxr; simp [hfree, hpush.1]
      · simp only [hxr, or_false]
        exact h.exact x (fun hd => hx ⟨hd, hxr⟩)
  · rename_i hpush
    split
    · rename_i hav
      simp only [Bool.not_eq_true'] at hav
      obtain ⟨hready, hnot⟩ := h.removeReady r
      refine ⟨hready.nodup, hready.flag, ?_⟩
      intro x hx
      by_cases hxr : x = r
      · subst hxr
        obtain ⟨b, l, he⟩ := p.removeReady_eq x
        refine iff_of_false hnot ?_
        rw [he, touch_free, hfree, hav]
        simp
      · apply hready.exact x
        rintro (hd | hd)
        · exact hx ⟨hd, hxr⟩
        · exact hxr hd
    · rename_i hav
      simp only [Bool.not_eq_true', Bool.not_eq_false] at hav
      refine ⟨h.nodup, h.flag, ?_⟩
      intro x hx
      by_cases hxr : x = r
      · subst hxr
        have hflag : (p.heap x).ready = true := by
          simpa [hav] using hpush
        exact iff_of_true ((h.flag x).mp hflag) (by rw [hfree, hav])
      · exact h.exact x (fun hd => hx ⟨hd, hxr⟩)

theorem ReadyBut.refresh_ready (h : p.ReadyOK) (hm : p.inMap r = true) :
    p.refreshReadyLocked r = p := by
  have hfree : p.free r = p.available r := by rw [free_eq, hm, Bool.true_and]
  have hflag : (p.heap r).ready = p.available r := by
    rw [← hfree, Bool.eq_iff_iff, h.flag r, h.exact r id]
  unfold refreshReadyLocked removeReadyLocked
  rw [hflag]
  cases p.available r <;> simp

theorem ReadyBut.take {rest : List Nat} (h : p.ReadyOK) (hr : p.ready = r :: rest)
    (hl : q.limit = p.limit) (hs : q.sandboxes = p.sandboxes) (hheap : q.heap = update p.heap r
      { p.heap r with
        inFlight := (p.heap r).inFlight + 1
        ready := decide ((p.heap r).inFlight + 1 < p.limit) })
    (hq : q.ready = if (p.heap r).inFlight + 1 < p.limit then rest ++ [r] else rest) :
    q.ReadyOK := by
  have hnd := h.nodup
  rw [hr, List.nodup_cons] at hnd
  have hlive : p.live r = true := by
    have hf := (h.exact r (fun hf => hf)).mp (by simp [hr])
    simp only [free, Bool.and_eq_true] at hf
    exact hf.1
  have hlive' : ∀ x, q.live x = p.live x := by
    intro x
    apply live_congr hs
    · rw [hheap, update_field (fun s => s.target.instanceID)]
      rfl
    · rw [hheap, update_field (fun s => s.draining)]
      rfl
  have hmem : ∀ x, x ≠ r → (x ∈ q.ready ↔ x ∈ p.ready) := by
    intro x hx
    rw [hq, hr]
    split <;> simp [hx]
  have hmemr : r ∈ q.ready ↔ (p.heap r).inFlight + 1 < p.limit := by
    rw [hq]
    split
    · rename_i hlt
      exact iff_of_true (by simp) hlt
    · rename_i hlt
      exact iff_of_false hnd.1 hlt
  refine ⟨?_, ?_, ?_⟩
  · rw [hq]
    split
    · rw [List.nodup_append]
      refine ⟨hnd.2, by simp, ?_⟩
      rintro a ha b hb rfl
      rw [List.mem_singleton] at hb
      exact hnd.1 (hb ▸ ha)
    · exact hnd.2
  · intro x
    by_cases hx : x = r
    · subst hx; simp [hheap, hmemr]
    · rw [hmem x hx, hheap, update_of_ne hx]
      exact h.flag x
  · intro x _
    by_cases hx : x = r
    · subst hx; simp [hmemr, free, hlive', hlive, hheap, hl]
    · rw [hmem x hx, h.exact x (fun hf => hf)]
      rw [free_congr hl (hlive' x) (by rw [hheap, update_of_ne hx])]

end SandboxPool

end HyperFaaS.Dataplane
