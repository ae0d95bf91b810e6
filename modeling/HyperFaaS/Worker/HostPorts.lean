import HyperFaaS.Lib.Machine
import Mathlib.Data.List.Nodup

/-!
Host ports of the containerd runtime (`pkg/worker/runtime/containerd/containerd.go`). With a
pool, ports come from the initial population, from a counter when the pool is empty, and
from replenishment; a port is listened on while it is in the pool, and given back at the end
of a clean teardown. Without a pool, a start takes the port of a listener on port 0. In both
cases the listener is closed before the port is used: traffic is redirected, and nothing
listens on the port of a running sandbox.

Other processes of the host listen on any port that is free, at any time. A listener on port
0 gets any port without a listener; one on a fixed port fails iff the port has one. The
counter has 32 bits, and a port has 16.

Proved here (`host_ports_exclusive`): no two sandboxes hold a port, and no port is held and in
the pool, if a listener on port 0 does not get a port that a sandbox holds and the counter
does not wrap. Without a pool a second sandbox may get the port of the first
(`host_port_shared`).
-/

namespace HyperFaaS.Worker.HostPorts

inductive Fault
  | disabled
  deriving DecidableEq, Repr

/-- The places of a start with its sandbox, and of a replenishment. -/
inductive PC
  | idle
  | borrow
  | close (port : Nat)
  | reserve (port : Nat)
  | reserved (port : Nat)
  | hold (port : Nat)
  | returnPort (port : Nat)
  | returning (port : Nat)
  | replenish
  | loop
  | refill (port : Nat)
  | refilled (port : Nat)
  | done
  deriving DecidableEq, Repr

/-- `populatePortPool` at an index. -/
inductive Populator
  | next (i : Nat)
  | reserved (i : Nat)
  | done
  deriving DecidableEq, Repr

/-- `listeners` are the runtime's own, `others` those of the rest of the host. -/
structure World where
  usePool : Bool
  poolSize : Nat
  pool : List Nat
  nextPort : Nat
  replenishing : Bool
  populator : Populator
  listeners : Nat → Bool
  others : Nat → Bool
  ncalls : Nat
  pc : Nat → PC

inductive Action
  | start
  | triggerReplenish
  | step (i : Nat)
  | listenAny (i port : Nat)
  | finish (i : Nat) (clean : Bool)
  | populate
  | listen (port : Nat)
  | unlisten (port : Nat)

def portPoolBase : Nat := 32768

namespace World

def go (w : World) (i : Nat) (x : PC) : World := { w with pc := Function.update w.pc i x }

def enter (w : World) (x : PC) : World := { w.go w.ncalls x with ncalls := w.ncalls + 1 }

def listening (w : World) (port : Nat) : Bool := w.listeners port || w.others port

/-- `reservePort` succeeds. -/
def free (w : World) (port : Nat) : Bool := decide (port < 2 ^ 16) && !w.listening port

def setListener (w : World) (port : Nat) (b : Bool) : World :=
  { w with listeners := Function.update w.listeners port b }

/-- A send on a channel that is missing is not ready. -/
def room (w : World) : Bool := w.usePool && decide (w.pool.length < w.poolSize)

def push (w : World) (port : Nat) : World := { w with pool := w.pool ++ [port] }

def counted (w : World) : Nat := w.nextPort % 2 ^ 32

def count (w : World) : World := { w with nextPort := w.nextPort + 1 }

def advance (w : World) (i : Nat) : Except Fault World :=
  match w.pc i with
  | .borrow =>
      if w.usePool then
        match w.pool with
        | port :: rest => .ok ({ w with pool := rest }.go i (.close port))
        | [] => .ok (w.count.go i (.reserve w.counted))
      else .error .disabled
  | .close port => .ok ((w.setListener port false).go i (.hold port))
  | .reserve port =>
      if w.free port then .ok ((w.setListener port true).go i (.reserved port))
      else .ok (w.go i .done)
  | .reserved port => .ok ((w.setListener port false).go i (.hold port))
  | .returnPort port =>
      if w.free port then .ok ((w.setListener port true).go i (.returning port))
      else .ok (w.go i .done)
  | .returning port =>
      if w.room then .ok ((w.push port).go i .done)
      else .ok ((w.setListener port false).go i .done)
  | .replenish =>
      if w.replenishing then .ok (w.go i .done)
      else .ok ({ w with replenishing := true }.go i .loop)
  | .loop =>
      if w.room then .ok (w.count.go i (.refill w.counted))
      else .ok ({ w with replenishing := false }.go i .done)
  | .refill port =>
      if w.free port then .ok ((w.setListener port true).go i (.refilled port))
      else .ok ({ w with replenishing := false }.go i .done)
  | .refilled port =>
      if w.room then .ok ((w.push port).go i .loop)
      else .ok ({ w.setListener port false with replenishing := false }.go i .done)
  | _ => .error .disabled

def populate (w : World) : Except Fault World :=
  match w.populator with
  | .next k =>
      if k < w.poolSize then
        if w.free (portPoolBase + k) then
          .ok { w.setListener (portPoolBase + k) true with populator := .reserved k }
        else .ok { w with populator := .next (k + 1) }
      else .ok { w with populator := .done }
  | .reserved k =>
      -- the send waits for a place
      if w.room then .ok { w.push (portPoolBase + k) with populator := .next (k + 1) }
      else .error .disabled
  | .done => .error .disabled

def step (w : World) : Action → Except Fault World
  | .start => .ok (w.enter .borrow)
  | .triggerReplenish => if w.usePool then .ok (w.enter .replenish) else .error .disabled
  | .step i => w.advance i
  | .listenAny i port =>
      -- `getFreePort`
      match w.pc i with
      | .borrow =>
          if !w.usePool && w.free port then
            .ok ((w.setListener port true).go i (.reserved port))
          else .error .disabled
      | _ => .error .disabled
  | .finish i clean =>
      -- a failed start, or the end of the teardown; a port is kept after a failed teardown
      match w.pc i with
      | .hold port => .ok (w.go i (if clean && w.usePool then .returnPort port else .done))
      | _ => .error .disabled
  | .populate => w.populate
  | .listen port =>
      if w.free port then .ok { w with others := Function.update w.others port true }
      else .error .disabled
  | .unlisten port => .ok { w with others := Function.update w.others port false }

def init (usePool : Bool) (poolSize : Nat) : World where
  usePool := usePool
  poolSize := poolSize
  pool := []
  nextPort := portPoolBase + poolSize
  replenishing := false
  populator := if usePool then .next 0 else .done
  listeners := fun _ => false
  others := fun _ => false
  ncalls := 0
  pc := fun _ => .idle

end World

def machine : Lib.Machine World Action Fault where
  start := fun w => ∃ usePool poolSize, w = World.init usePool poolSize
  step := World.step

/-- The port a start or a replenishment has. -/
def PC.port : PC → Option Nat
  | .close p | .reserve p | .reserved p | .hold p | .returnPort p | .returning p
  | .refill p | .refilled p => some p
  | _ => none

/-- The port of a sandbox, from its acquisition to the end of its teardown. -/
def PC.held : PC → Option Nat
  | .close p | .reserved p | .hold p | .returnPort p | .returning p => some p
  | _ => none

theorem PC.port_of_held {x : PC} {p : Nat} (h : x.held = some p) : x.port = some p := by
  cases x <;> first | exact h | cases h

def Populator.port : Populator → Option Nat
  | .reserved k => some (portPoolBase + k)
  | _ => none

/-- Ports below this index are taken from the population. -/
def Populator.index (poolSize : Nat) : Populator → Nat
  | .next k => k
  | .reserved k => k + 1
  | .done => poolSize

/-- A listener on port 0 does not get the port of a sandbox, and the counter is in range. -/
def World.sparing (w : World) : Action → Bool
  | .listenAny _ port => (List.range w.ncalls).all fun j => (w.pc j).held != some port
  | .step _ => decide (w.nextPort < 2 ^ 32)
  | _ => true

/-! ## Custody of ports -/

/-- Taken from the population or from the counter. -/
@[grind] def Allocated (size : Nat) (pop : Populator) (next p : Nat) : Prop :=
  p < portPoolBase + pop.index size ∨ portPoolBase + size ≤ p ∧ p < next

/-- The pool, the population and the calls have ports, each another one; with a pool all are from
the population or from the counter, without one only sandboxes have any. -/
structure Apart (use : Bool) (size : Nat) (pool : List Nat) (pop : Populator) (next : Nat)
    (pc : Nat → PC) : Prop where
  nodup : pool.Nodup
  calls : ∀ i j p, (pc i).port = some p → (pc j).port = some p → i = j
  pooled : ∀ i p, (pc i).port = some p → p ∉ pool
  reserved : ∀ p, pop.port = some p → p ∉ pool ∧ ∀ i, (pc i).port ≠ some p
  direct : use = false → pool = [] ∧ pop = .done ∧ ∀ j, (pc j).port = (pc j).held
  index : pop.index size ≤ size
  counter : portPoolBase + size ≤ next
  fromPool : use = true → ∀ p ∈ pool, Allocated size pop next p
  fromPopulation : use = true → ∀ p, pop.port = some p → Allocated size pop next p
  fromCall : use = true → ∀ i p, (pc i).port = some p → Allocated size pop next p

/-- The moves of call `i` to `x`. -/
inductive Turn (use : Bool) (pool : List Nat) (next : Nat) (pc : Nat → PC) (i : Nat) (x : PC) :
    List Nat → Nat → Prop
  | keep (hport : x.port = (pc i).port) (hx : use = false → x.port = x.held) :
      Turn use pool next pc i x pool next
  | drop (hport : x.port = none) : Turn use pool next pc i x pool next
  | borrow {p : Nat} {rest : List Nat} (huse : use = true) (hpool : pool = p :: rest)
      (hi : (pc i).port = none) (hport : x.port = some p) : Turn use pool next pc i x rest next
  | count (huse : use = true) (hi : (pc i).port = none) (hport : x.port = some next) :
      Turn use pool next pc i x pool (next + 1)
  | give {p : Nat} (huse : use = true) (hi : (pc i).port = some p) (hport : x.port = none) :
      Turn use pool next pc i x (pool ++ [p]) next
  | listen {p : Nat} (huse : use = false) (hi : (pc i).port = none) (hport : x.port = some p)
      (hheld : x.held = some p) (hfree : ∀ j, (pc j).held ≠ some p) :
      Turn use pool next pc i x pool next

theorem PC.held_of_port {x : PC} (h : x.port = none) : x.held = none := by
  cases x <;> first | rfl | cases h

section Apart

variable {use : Bool} {size next next' i k : Nat} {pool pool' : List Nat} {pop : Populator}
  {pc pc' : Nat → PC} {x : PC}

theorem Allocated.lt {p : Nat} (h : Allocated size pop next p) (hindex : pop.index size ≤ size)
    (hcounter : portPoolBase + size ≤ next) : p < next := by
  unfold Allocated at h
  omega

theorem Allocated.succ {p : Nat} (h : Allocated size pop next p) :
    Allocated size pop (next + 1) p := by
  unfold Allocated at h ⊢
  omega

theorem Apart.turn (h : Apart use size pool pop next pc) (hself : pc' i = x)
    (hother : ∀ j, j ≠ i → pc' j = pc j) (ht : Turn use pool next pc i x pool' next') :
    Apart use size pool' pop next' pc' := by
  have hheld := @PC.held_of_port x
  have hpooled := h.pooled
  have hdirect := h.direct
  have hlt {p : Nat} (hp : Allocated size pop next p) := hp.lt h.index h.counter
  have hsucc := @Allocated.succ size next pop
  constructor
  case nodup =>
    have hnodup := h.nodup
    cases ht <;> grind [List.nodup_cons, List.nodup_append]
  case calls =>
    have hcalls := h.calls
    have hcall := h.fromCall
    clear hsucc
    cases ht <;> grind
  case pooled =>
    have hnodup := h.nodup
    have hcalls := h.calls
    have hpool := h.fromPool
    clear hsucc
    cases ht <;> grind
  case reserved =>
    have hreserved := h.reserved
    have hpop := h.fromPopulation
    clear hsucc hpooled
    cases ht <;> grind [Populator.port]
  case direct =>
    clear hsucc hlt hpooled
    cases ht <;> grind
  case index => exact h.index
  case counter =>
    have hcounter := h.counter
    cases ht <;> omega
  case fromPool =>
    have hpool := h.fromPool
    have hcall := h.fromCall
    clear hlt hpooled
    cases ht <;> grind
  case fromPopulation =>
    have hpop := h.fromPopulation
    cases ht <;> grind
  case fromCall =>
    have hpool := h.fromPool
    have hcall := h.fromCall
    have hcounter := h.counter
    clear hlt hpooled
    cases ht <;> grind

theorem Apart.populator (h : Apart true size pool pop next pc) {pop' : Populator}
    (hport : pop'.port = none) (hle : pop.index size ≤ pop'.index size)
    (hindex : pop'.index size ≤ size) : Apart true size pool pop' next pc := by
  obtain ⟨nodup, calls, pooled, reserved, direct, index, counter, fromPool, fromPop, fromCall⟩ := h
  constructor <;> grind

theorem Apart.reserve (h : Apart true size pool (.next k) next pc) (hk : k < size) :
    Apart true size pool (.reserved k) next pc := by
  obtain ⟨nodup, calls, pooled, reserved, direct, index, counter, fromPool, fromPop, fromCall⟩ := h
  constructor <;> grind [Populator.index, Populator.port]

theorem Apart.push (h : Apart true size pool (.reserved k) next pc) (hk : k < size) :
    Apart true size (pool ++ [portPoolBase + k]) (.next (k + 1)) next pc := by
  obtain ⟨nodup, calls, pooled, reserved, direct, index, counter, fromPool, fromPop, fromCall⟩ := h
  constructor <;> grind [Populator.index, Populator.port, List.nodup_append]

end Apart

namespace World

variable {w w' u : World} {i p : Nat} {x : PC}

structure Exclusive (w : World) : Prop where
  bounded : ∀ j, w.ncalls ≤ j → w.pc j = .idle
  apart : Apart w.usePool w.poolSize w.pool w.populator w.nextPort w.pc

theorem Exclusive.go (h : Exclusive w) (hi : w.pc i ≠ .idle)
    (ht : Turn w.usePool w.pool w.nextPort w.pc i x u.pool u.nextPort)
    (huse : u.usePool = w.usePool) (hsize : u.poolSize = w.poolSize)
    (hpop : u.populator = w.populator) (hn : u.ncalls = w.ncalls) (hpc : u.pc = w.pc) :
    Exclusive (u.go i x) where
  bounded := fun j hj => by
    have hout : w.ncalls ≤ j := hn ▸ hj
    have hji : j ≠ i := fun hji => hi (hji ▸ h.bounded j hout)
    refine (Function.update_of_ne hji _ _).trans ?_
    rw [hpc]
    exact h.bounded j hout
  apart := by
    change Apart u.usePool u.poolSize u.pool u.populator u.nextPort _
    rw [huse, hsize, hpop]
    refine h.apart.turn (i := i) (x := x) ?_ (fun j hji => ?_) ht
    · simp [World.go]
    · simp [World.go, hji, hpc]

theorem Exclusive.enter (h : Exclusive w) (hx : x.port = none) : Exclusive (w.enter x) where
  bounded := fun j hj => by
    have hj : w.ncalls + 1 ≤ j := hj
    exact (Function.update_of_ne (by omega) _ _).trans (h.bounded j (by omega))
  apart := by
    refine h.apart.turn (i := w.ncalls) (x := x) ?_ (fun j hji => ?_) (.drop hx)
    · simp [World.enter, World.go]
    · simp [World.enter, World.go, hji]

theorem Exclusive.advance (h : Exclusive w) (hok : w.sparing (.step i) = true)
    (hs : w.advance i = .ok w') : Exclusive w' := by
  have hnext : w.nextPort < 2 ^ 32 := of_decide_eq_true hok
  have hcounted : w.counted = w.nextPort := Nat.mod_eq_of_lt hnext
  have huse (hroom : w.room = true) : w.usePool = true := (Bool.and_eq_true_iff.mp hroom).1
  unfold World.advance at hs
  cases hpc : w.pc i <;> simp only [hpc] at hs
  case borrow =>
    have hi : (w.pc i).port = none := by rw [hpc]; rfl
    split at hs
    · rename_i huse
      split at hs
      · rename_i p rest hpool
        cases hs
        exact h.go (by simp [hpc]) (.borrow huse hpool hi rfl) rfl rfl rfl rfl rfl
      · cases hs
        exact h.go (by simp [hpc]) (.count huse hi (congrArg some hcounted)) rfl rfl rfl rfl rfl
    · cases hs
  case returning p | refilled p =>
    split at hs <;> cases hs
    · rename_i hroom
      exact h.go (by simp [hpc]) (.give (huse hroom) (by rw [hpc]; rfl) rfl) rfl rfl rfl rfl rfl
    · exact h.go (by simp [hpc]) (.drop rfl) rfl rfl rfl rfl rfl
  case loop =>
    split at hs <;> cases hs
    · rename_i hroom
      exact h.go (by simp [hpc])
        (.count (huse hroom) (by rw [hpc]; rfl) (congrArg some hcounted)) rfl rfl rfl rfl rfl
    · exact h.go (by simp [hpc]) (.drop rfl) rfl rfl rfl rfl rfl
  case refill p =>
    split at hs <;> cases hs
    · refine h.go (by simp [hpc]) (.keep (by rw [hpc]; rfl) fun hd => ?_) rfl rfl rfl rfl rfl
      -- without a pool there is no replenishment
      have hheld := (h.apart.direct hd).2.2 i
      rw [hpc] at hheld
      cases hheld
    · exact h.go (by simp [hpc]) (.drop rfl) rfl rfl rfl rfl rfl
  all_goals
    repeat' split at hs
    all_goals cases hs
    all_goals first
      | exact h.go (by simp [hpc]) (.drop rfl) rfl rfl rfl rfl rfl
      | exact h.go (by simp [hpc]) (.keep (by rw [hpc]; rfl) fun _ => rfl) rfl rfl rfl rfl rfl

theorem Exclusive.populate (h : Exclusive w) (hs : w.populate = .ok w') : Exclusive w' := by
  obtain ⟨hbounded, hapart⟩ := h
  have huse (hne : w.populator ≠ .done) : w.usePool = true := by
    cases hu : w.usePool with
    | true => rfl
    | false => exact absurd (hapart.direct hu).2.1 hne
  unfold World.populate at hs
  split at hs
  · rename_i k hpop
    have hu := huse (by simp [hpop])
    rw [hu, hpop] at hapart
    split at hs
    · rename_i hk
      split at hs <;> cases hs
      · exact ⟨hbounded, hu ▸ hapart.reserve hk⟩
      · exact ⟨hbounded, hu ▸ hapart.populator rfl (Nat.le_succ k) hk⟩
    · cases hs
      exact ⟨hbounded, hu ▸ hapart.populator rfl hapart.index le_rfl⟩
  · rename_i k hpop
    have hu := huse (by simp [hpop])
    rw [hu, hpop] at hapart
    split at hs <;> cases hs
    exact ⟨hbounded, hu ▸ hapart.push hapart.index⟩
  · cases hs

theorem Exclusive.step (h : Exclusive w) {a : Action} (hok : w.sparing a = true)
    (hs : w.step a = .ok w') : Exclusive w' := by
  cases a with
  | start =>
    cases hs
    exact h.enter rfl
  | triggerReplenish =>
    simp only [World.step] at hs
    split at hs <;> cases hs
    exact h.enter rfl
  | step i => exact h.advance hok hs
  | listenAny i p =>
    simp only [World.step] at hs
    split at hs
    · rename_i hpc
      split at hs <;> cases hs
      rename_i hguard
      have hd : w.usePool = false := by
        simpa using (Bool.and_eq_true_iff.mp hguard).1
      refine h.go (by simp [hpc]) (.listen hd (by rw [hpc]; rfl) rfl rfl fun j hj => ?_)
        rfl rfl rfl rfl rfl
      have hlt : j < w.ncalls := by
        by_contra hge
        rw [h.bounded j (Nat.le_of_not_lt hge)] at hj
        cases hj
      have hne := List.all_eq_true.mp hok j (List.mem_range.mpr hlt)
      simp [hj] at hne
    · cases hs
  | finish i clean =>
    simp only [World.step] at hs
    split at hs <;> cases hs
    rename_i p hpc
    split
    · exact h.go (by simp [hpc]) (.keep (by rw [hpc]; rfl) fun _ => rfl) rfl rfl rfl rfl rfl
    · exact h.go (by simp [hpc]) (.drop rfl) rfl rfl rfl rfl rfl
  | populate => exact h.populate hs
  | listen p =>
    simp only [World.step] at hs
    split at hs <;> cases hs
    exact ⟨h.bounded, h.apart⟩
  | unlisten p =>
    cases hs
    exact ⟨h.bounded, h.apart⟩

theorem init_exclusive (usePool : Bool) (poolSize : Nat) : Exclusive (init usePool poolSize) where
  bounded := fun _ _ => rfl
  apart := by
    cases usePool <;> constructor <;> simp [init, PC.port, PC.held, Populator.port, Populator.index]

end World

/-- **Ports are exclusive.** -/
theorem host_ports_exclusive {w : World}
    (hw : machine.ReachesWhile (fun w a => w.sparing a = true) w) {i p : Nat}
    (hi : (w.pc i).held = some p) : (∀ j, (w.pc j).held = some p → j = i) ∧ p ∉ w.pool := by
  have h : w.Exclusive := by
    refine hw.invariant (I := World.Exclusive) ?_ fun _ _ _ hi hok hs => hi.step hok hs
    rintro _ ⟨usePool, poolSize, rfl⟩
    exact World.init_exclusive usePool poolSize
  have hmine := PC.port_of_held hi
  exact ⟨fun j hj => h.apart.calls j i p (PC.port_of_held hj) hmine, h.apart.pooled i p hmine⟩

/-- A pool of one: the first sandbox has its port, the second one of the counter. -/
theorem host_ports_exclusive_pool :
    ∃ w, machine.ReachesWhile (fun w a => w.sparing a = true) w ∧
      (w.pc 0).held = some 32768 ∧ (w.pc 1).held = some 32769 ∧
      (∀ j, (w.pc j).held = some 32768 → j = 0) ∧ 32768 ∉ w.pool := by
  obtain ⟨w, hw, hfirst, hsecond⟩ := machine.exists_while_of_run
    (P := fun w a => w.sparing a = true)
    (Q := fun w => (w.pc 0).held = some 32768 ∧ (w.pc 1).held = some 32769) (.init true 1)
    [.populate, .populate, .start, .step 0, .step 0, .start, .step 1, .step 1, .step 1]
    ⟨true, 1, rfl⟩ (by decide +kernel)
  exact ⟨w, hw, hfirst, hsecond, host_ports_exclusive hw hfirst⟩

/-- Without a pool: the listener of the first start is closed, and the second gets its port. -/
theorem host_port_shared :
    ∃ w, machine.Reachable w ∧ (w.pc 0).held = some 40000 ∧ (w.pc 1).held = some 40000 := by
  exact machine.exists_of_run (.init false 0)
    [.start, .listenAny 0 40000, .step 0, .start, .listenAny 1 40000, .step 1]
    ⟨false, 0, rfl⟩ (by decide +kernel)

end HyperFaaS.Worker.HostPorts
