import HyperFaaS.Leaf.Transitions
import HyperFaaS.Runtime.PlacementCalls

/-!
Who is inside which call of the placement ledger. Every `Schedule` call, every
completion and every `RecordStop` was made by one job or one removal of the leaf,
and each token is completed by the job it was issued to and by no other. So a
completion always goes through.
-/

namespace HyperFaaS.Leaf

open Function

open Autoscaling

/-- A job with a worker, until it enters the completion of its token. -/
def Job.placed (x : Job) : Bool :=
  match x.pc with
  | .planned | .created | .stored | .added | .failing | .registered => true
  | _ => false

/-- The job's completion is past its compare-and-swap. -/
def Job.passed (x : Job) (pc : Nat → Runtime.PC) : Bool :=
  match x.pc with
  | .completing t => !(pc t).entry
  | .done => true
  | _ => false

/-- `n` jobs among the `k` threads of the ledger. -/
structure JobCalls (n : Nat) (job : Nat → Job) (k : Nat) (pc : Nat → Runtime.PC)
    (effects : List (Nat × Nat)) : Prop where
  fresh : ∀ j, n ≤ j → (job j).pc = .idle ∧ (job j).reservation = none
  call : ∀ j, j < n → (job j).call < k
  calls : ∀ i j, i < n → j < n → (job i).call = (job j).call → i = j
  token : ∀ j r, (job j).reservation = some r →
    Runtime.World.tokenOf (pc (job j).call) = some r
  worker : ∀ j, (job j).placed = true →
    ∃ r, (job j).reservation = some r ∧ r.workerIndex = (job j).worker
  inside : ∀ j t, (job j).pc = .completing t → t < k
  own : ∀ j t b r, (job j).pc = .completing t → (pc t).completion = some (b, r) →
    (job j).reservation = some r ∧ (b = true → r.workerIndex = (job j).worker)
  owner : ∀ t c, (pc t).completion = some c → ∃ j, (job j).pc = .completing t
  single : ∀ i j t, (job i).pc = .completing t → (job j).pc = .completing t → i = j
  spent : ∀ e ∈ effects, ∃ j r, (job j).reservation = some r ∧
    e = (r.slot, r.generation) ∧ (job j).passed pc = true

/-- `n` removals among the `k` threads of the ledger. -/
structure RemovalCalls (n : Nat) (removal : Nat → Removal) (k : Nat) (pc : Nat → Runtime.PC) :
    Prop where
  waiting : ∀ m t, (removal m).pc = .waiting t → t < k ∧
    ∀ i, (pc t).recordOf = some i → i = (removal m).worker
  recorder : ∀ t i, (pc t).recordOf = some i → ∃ m, (removal m).pc = .waiting t
  singleRemoval : ∀ m n t, (removal m).pc = .waiting t → (removal n).pc = .waiting t → m = n
  unused : ∀ m, n ≤ m → (removal m).pc = .recording ∧ (removal m).items = []

/-! ## Jobs -/

section Jobs

variable {n k : Nat} {job : Nat → Job} {pc : Nat → Runtime.PC} {effects : List (Nat × Nat)}
variable {r : Runtime.PlacementReservation} {j : Nat}

/-- A thread of the ledger that has returned a token does not move again. -/
theorem over_of_token {x : Runtime.PC} (h : Runtime.World.tokenOf x = some r) : x.ended = true := by
  obtain ⟨o, rfl, -⟩ := Runtime.World.tokenOf_eq_some h
  rfl

theorem JobCalls.call_lt (h : JobCalls n job k pc effects) (hr : (job j).reservation = some r) :
    (job j).call < k := by
  by_cases hj : j < n
  · exact h.call j hj
  · rw [(h.fresh j (by omega)).2] at hr
    cases hr

theorem JobCalls.goes {p q : Runtime.World} {t : Nat}
    (h : JobCalls n job p.nthreads p.pc p.effects) (g : Runtime.World.Goes p q t) :
    JobCalls n job q.nthreads q.pc q.effects := by
  obtain ⟨hrunning, hsame, hothers, hentry, hcompletion, -, heffects, -⟩ := g
  have hold : ∀ u c, (q.pc u).completion = some c → (p.pc u).completion = some c := by grind
  have htoken : ∀ u r, Runtime.World.tokenOf (p.pc u) = some r → q.pc u = p.pc u := by
    grind [over_of_token]
  have hpassed : ∀ x : Job, x.passed p.pc = true → x.passed q.pc = true := by
    intro x
    unfold Job.passed
    split <;> grind
  constructor
  case fresh => exact h.fresh
  case call => exact hsame ▸ h.call
  case calls => exact h.calls
  case token => grind [h.token]
  case worker => exact h.worker
  case inside => exact hsame ▸ h.inside
  case own => exact fun j u b r hu hc => h.own j u b r hu (hold u _ hc)
  case owner => exact fun u c hc => h.owner u c (hold u c hc)
  case single => exact h.single
  case spent =>
    intro e he
    have hcase : e ∈ p.effects ∨ ∃ b r, p.pc t = .complete b r ∧ e = (r.slot, r.generation) := by
      grind
    rcases hcase with hmem | ⟨b, r, hx, heq⟩
    · obtain ⟨j, r, hr, heq, hj⟩ := h.spent e hmem
      exact ⟨j, r, hr, heq, hpassed _ hj⟩
    · -- the step is the compare-and-swap of a completion, which has an owner
      have hc : (p.pc t).completion = some (b, r) := by rw [hx]; rfl
      obtain ⟨j, hj⟩ := h.owner t _ hc
      exact ⟨j, r, (h.own j t b r hj hc).1, heq, by simp [Job.passed, hj, hentry]⟩

theorem JobCalls.setJob (h : JobCalls n job k pc effects) {x : Job} (hj : j < n)
    (hcall : x.call = (job j).call)
    (htoken : ∀ r, x.reservation = some r → Runtime.World.tokenOf (pc (job j).call) = some r)
    (hworker : x.placed = true → ∃ r, x.reservation = some r ∧ r.workerIndex = x.worker)
    (hx : ∀ t, x.pc ≠ .completing t)
    (hleft : ∀ t, (job j).pc = .completing t → (pc t).completion = none)
    (hspent : (job j).passed pc = true → x.pc = .done ∧ x.reservation = (job j).reservation) :
    JobCalls n (update job j x) k pc effects := by
  have hjob : ∀ i, update job j x i = if i = j then x else job i :=
    update_apply _ _ _
  constructor
  case fresh => grind [h.fresh]
  case call => exact fun i hi => by have := h.call i; grind
  case calls => grind [h.calls]
  case token => grind [h.token]
  case worker => grind [h.worker]
  case inside => exact fun i t hi => by have := h.inside i t; grind
  case own => grind [h.own]
  case owner =>
    intro t c hc
    obtain ⟨i, hi⟩ := h.owner t c hc
    exact ⟨i, by grind⟩
  case single => grind [h.single]
  case spent =>
    intro e he
    obtain ⟨i, r, hr, heq, hi⟩ := h.spent e he
    refine ⟨i, r, ?_, heq, ?_⟩
    · grind
    · grind [Job.passed]

theorem JobCalls.spawnJob (h : JobCalls n job k pc effects) {x : Job} (hcall : x.call < k)
    (hnew : ∀ j, j < n → (job j).call ≠ x.call) (hres : x.reservation = none)
    (hpc : x.pc = .scheduling) : JobCalls (n + 1) (update job n x) k pc effects := by
  have hjob : ∀ i, update job n x i = if i = n then x else job i :=
    update_apply _ _ _
  have hfresh := h.fresh n (Nat.le_refl n)
  constructor
  case fresh => grind [h.fresh]
  case call => exact fun i hi => by have := h.call i; grind
  case calls => grind [h.calls]
  case token => grind [h.token]
  case worker => grind [h.worker, Job.placed]
  case inside => exact fun i t hi => by have := h.inside i t; grind
  case own => grind [h.own]
  case owner =>
    intro t c hc
    obtain ⟨i, hi⟩ := h.owner t c hc
    exact ⟨i, by grind⟩
  case single => grind [h.single]
  case spent =>
    intro e he
    obtain ⟨i, r, hr, heq, hi⟩ := h.spent e he
    exact ⟨i, r, by grind, heq, by grind⟩

theorem JobCalls.spawn (h : JobCalls n job k pc effects) {y : Runtime.PC}
    (hy : y.completion = none) :
    JobCalls n job (k + 1) (update pc k y) effects := by
  have hpc : ∀ t, update pc k y t = if t = k then y else pc t :=
    update_apply _ _ _
  constructor
  case fresh => exact h.fresh
  case call => exact fun j hj => Nat.lt_succ_of_lt (h.call j hj)
  case calls => exact h.calls
  case token => exact fun j r hr => by have := h.call_lt hr; grind [h.token]
  case worker => exact h.worker
  case inside => exact fun j t ht => Nat.lt_succ_of_lt (h.inside j t ht)
  case own => grind [h.own]
  case owner => grind [h.owner]
  case single => exact h.single
  case spent =>
    intro e he
    obtain ⟨j, r, hr, heq, hj⟩ := h.spent e he
    have hin := h.inside j
    refine ⟨j, r, hr, heq, ?_⟩
    unfold Job.passed at hj ⊢
    grind

theorem JobCalls.complete (h : JobCalls n job k pc effects) {b : Bool}
    (hpc : (job j).pc = .registered ∨ (job j).pc = .cancelling) (hr : (job j).reservation = some r)
    (hb : b = true → r.workerIndex = (job j).worker) :
    JobCalls n (update job j { job j with pc := .completing k }) (k + 1)
      (update pc k (.complete b r)) effects := by
  have hjob : ∀ i, update job j { job j with pc := .completing k } i =
      if i = j then { job j with pc := .completing k } else job i := update_apply _ _ _
  have hthread : ∀ t, update pc k (.complete b r) t =
      if t = k then .complete b r else pc t := update_apply _ _ _
  constructor
  case fresh => grind [h.fresh]
  case call => exact fun i hi => by have := h.call i; grind
  case calls => grind [h.calls]
  case token =>
    intro i q hq
    have hq : (job i).reservation = some q := by grind
    have := h.call_lt hq
    grind [h.token]
  case worker => grind [h.worker, Job.placed]
  case inside => exact fun i t hi => by have := h.inside i t; grind
  case own => exact fun i t c q hi hc => by have := h.inside i t; grind [h.own, Runtime.PC.completion]
  case owner =>
    intro t c hc
    by_cases ht : t = k
    · exact ⟨j, by grind⟩
    · obtain ⟨i, hi⟩ := h.owner t c (by grind)
      exact ⟨i, by grind⟩
  case single => exact fun i l t hi hl => by have := h.inside i t; have := h.inside l t; grind [h.single]
  case spent =>
    intro e he
    obtain ⟨i, q, hq, heq, hi⟩ := h.spent e he
    have hin := h.inside i
    refine ⟨i, q, ?_, heq, ?_⟩
    · grind
    · grind [Job.passed]

end Jobs

/-! ## Removals -/

section Removals

variable {n k : Nat} {removal : Nat → Removal} {pc : Nat → Runtime.PC}

theorem RemovalCalls.goes {p q : Runtime.World} {t : Nat}
    (h : RemovalCalls n removal p.nthreads p.pc) (g : Runtime.World.Goes p q t) :
    RemovalCalls n removal q.nthreads q.pc := by
  obtain ⟨-, hsame, hothers, -, -, hrecord, -, -⟩ := g
  have hold : ∀ u i, (q.pc u).recordOf = some i → (p.pc u).recordOf = some i := by grind
  constructor
  case waiting =>
    intro m u hu
    obtain ⟨hlt, hi⟩ := h.waiting m u hu
    exact ⟨hsame ▸ hlt, fun i hr => hi i (hold u i hr)⟩
  case recorder => exact fun u i hi => h.recorder u i (hold u i hi)
  case singleRemoval => exact h.singleRemoval
  case unused => exact h.unused

theorem RemovalCalls.setRemoval (h : RemovalCalls n removal k pc) {m : Nat} {x : Removal}
    (hm : m < n) (hx : ∀ t, x.pc ≠ .waiting t)
    (hleft : ∀ t, (removal m).pc = .waiting t → (pc t).recordOf = none) :
    RemovalCalls n (update removal m x) k pc := by
  have hrem : ∀ i, update removal m x i = if i = m then x else removal i :=
    update_apply _ _ _
  constructor
  case waiting => exact fun i t hi => by have := h.waiting i t; grind
  case recorder =>
    intro t i hi
    obtain ⟨l, hl⟩ := h.recorder t i hi
    exact ⟨l, by grind⟩
  case singleRemoval => grind [h.singleRemoval]
  case unused => grind [h.unused]

theorem RemovalCalls.spawnRemoval (h : RemovalCalls n removal k pc) {x : Removal}
    (hx : x.pc = .recording) : RemovalCalls (n + 1) (update removal n x) k pc := by
  have hrem : ∀ i, update removal n x i = if i = n then x else removal i :=
    update_apply _ _ _
  have hunused := h.unused n (Nat.le_refl n)
  constructor
  case waiting => exact fun i t hi => by have := h.waiting i t; grind
  case recorder =>
    intro t i hi
    obtain ⟨l, hl⟩ := h.recorder t i hi
    exact ⟨l, by grind⟩
  case singleRemoval => grind [h.singleRemoval]
  case unused => grind [h.unused]

theorem RemovalCalls.spawn (h : RemovalCalls n removal k pc) {y : Runtime.PC}
    (hy : y.recordOf = none) : RemovalCalls n removal (k + 1) (update pc k y) := by
  have hpc : ∀ t, update pc k y t = if t = k then y else pc t :=
    update_apply _ _ _
  constructor
  case waiting => exact fun i t hi => by have := h.waiting i t; grind
  case recorder => grind [h.recorder]
  case singleRemoval => exact h.singleRemoval
  case unused => exact h.unused

theorem RemovalCalls.recordStop (h : RemovalCalls n removal k pc) {m : Nat} {y : Runtime.PC}
    (hy : ∀ i, y.recordOf = some i → i = (removal m).worker)
    (hpc : (removal m).pc = .recording) (hitems : (removal m).items ≠ []) :
    RemovalCalls n (update removal m { removal m with pc := .waiting k }) (k + 1)
      (update pc k y) := by
  have hrem : ∀ i, update removal m { removal m with pc := .waiting k } i =
      if i = m then { removal m with pc := .waiting k } else removal i := update_apply _ _ _
  have hthread : ∀ t, update pc k y t = if t = k then y else pc t :=
    update_apply _ _ _
  constructor
  case waiting => exact fun i t hi => by have := h.waiting i t; grind
  case recorder =>
    intro t i hi
    by_cases ht : t = k
    · exact ⟨m, by grind⟩
    · obtain ⟨l, hl⟩ := h.recorder t i (by grind)
      exact ⟨l, by grind⟩
  case singleRemoval =>
    exact fun i l t hi hl => by
      have := h.waiting i t
      have := h.waiting l t
      grind [h.singleRemoval]
  case unused => grind [h.unused]

end Removals

namespace World

variable {w w' : World}

structure Calls (w : World) : Prop extends
    JobCalls w.njobs w.job w.placement.nthreads w.placement.pc w.placement.effects,
    RemovalCalls w.nremovals w.removal w.placement.nthreads w.placement.pc where
  has : w.hasPlacement = true
  reach : Runtime.machine.Reachable w.placement

variable {j t : Nat} {p : Runtime.World}

theorem Calls.lt_njobs (h : w.Calls) {x : JobPC} (hj : (w.job j).pc = x) (hx : x ≠ .idle) :
    j < w.njobs := by
  by_contra hge
  exact hx (hj ▸ (h.fresh j (by omega)).1)

theorem Calls.removal_lt (h : w.Calls) {m : Nat} {x : RemovalPC} (hx : (w.removal m).pc = x)
    (hne : x ≠ .recording) : m < w.nremovals := by
  by_contra hge
  exact hne (hx ▸ (h.unused m (by omega)).1)

theorem Calls.next (h : w.Calls) {a : Runtime.Action} (hs : w.placement.step a = .ok p) :
    Runtime.machine.Reachable p :=
  Lib.Machine.Reachable.step h.reach hs

theorem spawn_pc (p : Runtime.World) (y : Runtime.PC) (ht : t < p.nthreads) :
    (p.spawn y).pc t = p.pc t := by
  simp [Runtime.World.spawn, show t ≠ p.nthreads by omega]

theorem spawn_self (p : Runtime.World) (y : Runtime.PC) : (p.spawn y).pc p.nthreads = y := by
  simp [Runtime.World.spawn]

theorem Calls.goJob (h : w.Calls) {x : JobPC} (pc : JobPC) (hpc : (w.job j).pc = x) (hx : x ≠ .idle)
    (hold : ∀ t, x ≠ .completing t) (hdone : x ≠ .done) (hnew : ∀ t, pc ≠ .completing t)
    (hplaced : ({ w.job j with pc := pc } : Job).placed = true → (w.job j).placed = true) :
    JobCalls w.njobs (update w.job j { w.job j with pc := pc }) w.placement.nthreads
      w.placement.pc w.placement.effects := by
  refine h.setJob (h.lt_njobs hpc hx) rfl (h.token j) (fun hp => h.worker j (hplaced hp)) hnew ?_ ?_
  · intro t ht
    exact absurd (hpc ▸ ht) (hold t)
  · intro hp
    cases x with
    | completing t => exact absurd rfl (hold t)
    | done => exact absurd rfl hdone
    | _ => simp [Job.passed, hpc] at hp

/-! ## Every step -/

theorem schedule_spawn {q : Runtime.World} {scheduler : Runtime.Scheduler} {image : String}
    (h : p.step (.schedule scheduler image) = .ok q) :
    ∃ y : Runtime.PC, q = p.spawn y ∧ y.completion = none ∧ y.recordOf = none := by
  cases scheduler with
  | missing | snapshot =>
    cases h
    exact ⟨_, rfl, rfl, rfl⟩
  | balanced =>
    simp only [Runtime.World.step] at h
    split at h
    · cases h
      exact ⟨_, rfl, rfl, rfl⟩
    · cases h
      exact ⟨_, rfl, rfl, rfl⟩

theorem complete_spawn {q : Runtime.World} {b : Bool} {r : Runtime.PlacementReservation}
    (h : p.step (.complete b r) = .ok q) : q = p.spawn (.complete b r) := by
  simp only [Runtime.World.step] at h
  split at h
  · cases h
    rfl
  · cases h

/-- `RecordStop` starts to count down its worker, if there is such a worker. -/
theorem recordStop_spawn {q : Runtime.World} {idx : Nat}
    (h : p.step (.recordStop (idx + 1)) = .ok q) :
    ∃ y : Runtime.PC, q = p.spawn y ∧ y.completion = none ∧
      y.recordOf = if idx < p.state.workers then some idx else none := by
  simp only [Runtime.World.step] at h
  split at h
  · rename_i hidx
    cases h
    exact ⟨_, rfl, rfl, by rw [if_pos (by omega)]; rfl⟩
  · rename_i hidx
    cases h
    exact ⟨_, rfl, rfl, by rw [if_neg (by omega)]; rfl⟩

theorem Calls.decided (h : w.Calls) {workerID : Nat} {picked : Option Runtime.PlacementChoice}
    {q : Option Runtime.PlacementReservation}
    (hd : w.decision (w.job j) picked = some (some (workerID, q))) :
    Runtime.World.tokenOf (w.placement.pc (w.job j).call) = q ∧
      ∃ r, q = some r ∧ workerID = r.workerIndex + 1 := by
  unfold decision at hd
  rw [if_pos h.has] at hd
  have hchosen := Runtime.World.chosen_of_reachable h.reach (w.job j).call
  split at hd
  · rename_i o ho
    split at hd
    · cases hd
    · rename_i hgood
      cases hd
      rw [ho] at hchosen ⊢
      refine ⟨rfl, ?_⟩
      rcases hchosen with herr | hzero | ⟨r, hr, hid⟩
      · exact absurd (.inl herr) hgood
      · exact absurd (.inr hzero) hgood
      · exact ⟨r, hr, hid⟩
  · cases hd

/-- The ledger's own steps, outside of new calls. -/
theorem Calls.ambient (h : w.Calls) {a : Runtime.Action} (ha : ambientPlacement a = true)
    (hs : w.placement.step a = .ok p) : (w.setPlacement p).Calls := by
  have hreach := h.next hs
  cases a with
  | telemetry idx t | resetImages idx | setTrackImages track =>
    cases hs
    exact ⟨h.toJobCalls, h.toRemovalCalls, h.has, hreach⟩
  | schedule scheduler image => cases ha
  | complete b r => cases ha
  | recordStop workerID => cases ha
  | pick t pick =>
    have g := Runtime.World.pick_goes hs
    exact ⟨h.toJobCalls.goes g, h.toRemovalCalls.goes g, h.has, hreach⟩
  | step t =>
    have g := Runtime.World.advance_goes hs
    exact ⟨h.toJobCalls.goes g, h.toRemovalCalls.goes g, h.has, hreach⟩

theorem Calls.ofJobs (h : w.Calls) (hj : JobCalls w'.njobs w'.job w.placement.nthreads
      w.placement.pc w.placement.effects) (hp : w'.placement = w.placement)
    (hhas : w'.hasPlacement = w.hasPlacement) (hn : w'.nremovals = w.nremovals)
    (hr : w'.removal = w.removal) : w'.Calls := by
  refine ⟨?_, ?_, hhas.trans h.has, ?_⟩
  · rwa [hp]
  · rw [hn, hr, hp]
    exact h.toRemovalCalls
  · rw [hp]
    exact h.reach

theorem Transition.calls {act : Action} (hs : Transition w act w') (h : w.Calls) : w'.Calls := by
  have hjob := h.toJobCalls
  have hremoval := h.toRemovalCalls
  cases hs with
  | placement ha hp => exact h.ambient ha hp
  | pool _ _ _ | setTarget _ | stop _ | launch _ | drain _ _ | drainHanded _ _ | drainFailed _ _
  | stopReply _ | finishDrain _ _ | removeNothing _ _ | cancelStop _ =>
    exact ⟨hjob, hremoval, h.has, h.reach⟩
  | schedule _ _ hp =>
    have hreach := h.next hp
    obtain ⟨y, rfl, hc, hr⟩ := schedule_spawn hp
    refine ⟨(hjob.spawn hc).spawnJob (Nat.lt_succ_self _) ?_ rfl rfl, hremoval.spawn hr, h.has,
      hreach⟩
    exact fun j hj => Nat.ne_of_lt (h.call j hj)
  | scheduleAlone _ hno =>
    rw [h.has] at hno
    cases hno
  | @planNothing j _ _ hpc _ =>
    exact h.ofJobs (h.goJob .done hpc (by simp) (by simp) (by simp) (by simp)
      (by simp [Job.placed])) rfl rfl rfl rfl
  | @planRefused j _ _ workerID q _ hpc hd _ =>
    obtain ⟨htoken, -⟩ := h.decided hd
    refine h.ofJobs (hjob.setJob (h.lt_njobs hpc (by simp)) rfl (fun r hr => htoken.trans hr)
      (by simp [Job.placed]) (by simp) ?_ ?_) rfl rfl rfl rfl
    · simp [hpc]
    · simp [Job.passed, hpc]
  | @planned j _ id workerID q a hpc hd ha =>
    obtain ⟨htoken, r, rfl, hid⟩ := h.decided hd
    refine h.ofJobs (hjob.setJob (h.lt_njobs hpc (by simp)) rfl (fun r hr => htoken.trans hr)
      (fun _ => ⟨r, rfl, by simp [hid]⟩) (by simp) ?_ ?_) rfl rfl rfl rfl
    · simp [hpc]
    · simp [Job.passed, hpc]
  | createFailed hpc | putFailed hpc _ =>
    exact h.ofJobs (h.goJob .failing hpc (by simp) (by simp) (by simp) (by simp)
      (by simp [Job.placed, hpc])) rfl rfl rfl rfl
  | @created j inst hpc =>
    refine h.ofJobs (hjob.setJob (h.lt_njobs hpc (by simp)) rfl (h.token j)
      (fun _ => h.worker j (by simp [Job.placed, hpc])) (by simp) ?_ ?_) rfl rfl rfl rfl
    · simp [hpc]
    · simp [Job.passed, hpc]
  | put hpc _ =>
    exact h.ofJobs (h.goJob .stored hpc (by simp) (by simp) (by simp) (by simp)
      (by simp [Job.placed, hpc])) rfl rfl rfl rfl
  | add hpc _ =>
    exact h.ofJobs (h.goJob .added hpc (by simp) (by simp) (by simp) (by simp)
      (by simp [Job.placed, hpc])) rfl rfl rfl rfl
  | register hpc =>
    exact h.ofJobs (h.goJob .registered hpc (by simp) (by simp) (by simp) (by simp)
      (by simp [Job.placed, hpc])) rfl rfl rfl rfl
  | fail hpc =>
    exact h.ofJobs (h.goJob .cancelling hpc (by simp) (by simp) (by simp) (by simp)
      (by simp [Job.placed])) rfl rfl rfl rfl
  | completeNone hpc _ =>
    rcases hpc with hpc | hpc <;>
      exact h.ofJobs (h.goJob .done hpc (by simp) (by simp) (by simp) (by simp)
        (by simp [Job.placed])) rfl rfl rfl rfl
  | @complete j r p hpc hr hp =>
    have hreach := h.next hp
    have hspawn := complete_spawn hp
    subst hspawn
    refine ⟨hjob.complete hpc hr ?_, hremoval.spawn rfl, h.has, hreach⟩
    intro hb
    obtain ⟨r', hr', hw⟩ := h.worker j (by simp [Job.placed, of_decide_eq_true hb])
    rw [hr] at hr'
    cases hr'
    exact hw
  | @finish j t hpc ht =>
    refine h.ofJobs (hjob.setJob (h.lt_njobs hpc (by simp)) rfl (h.token j) (by simp [Job.placed])
      (by simp) ?_ (fun _ => ⟨rfl, rfl⟩)) rfl rfl rfl rfl
    intro u hu
    rw [hpc] at hu
    cases hu
    rw [ht]
    rfl
  | @remove k a _ _ _ _ => exact ⟨hjob, hremoval.spawnRemoval rfl, h.has, h.reach⟩
  | @reconcile f idx presence _ => exact ⟨hjob, hremoval.spawnRemoval rfl, h.has, h.reach⟩
  | @sandboxRemoved f idx id revision _ =>
    exact ⟨hjob, hremoval.spawnRemoval rfl, h.has, h.reach⟩
  | @recordStop m p hpc hitems _ hp =>
    have hreach := h.next hp
    obtain ⟨y, rfl, hc, hr⟩ := recordStop_spawn hp
    refine ⟨hjob.spawn hc, hremoval.recordStop ?_ hpc hitems, h.has, hreach⟩
    intro i hi
    rw [hr] at hi
    split at hi
    · exact (Option.some.inj hi).symm
    · cases hi
  | recordNothing _ _ hno =>
    rw [h.has] at hno
    cases hno
  | @recorded m t hpc ht =>
    refine ⟨hjob, hremoval.setRemoval (h.removal_lt hpc (by simp)) (by simp) ?_, h.has, h.reach⟩
    intro u hu
    rw [hpc] at hu
    cases hu
    rw [ht]
    rfl
  | storeRemove hpc _ _ | poolRemove hpc _ _ =>
    exact ⟨hjob, hremoval.setRemoval (h.removal_lt hpc (by simp)) (by simp) (by simp [hpc]), h.has,
      h.reach⟩

theorem init_calls (c : Config) (hc : c.hasPlacement = true) : (init c).Calls := by
  refine ⟨⟨?_, ?_, ?_, ?_, ?_, ?_, ?_, ?_, ?_, ?_⟩, ⟨?_, ?_, ?_, ?_⟩, hc, .start ⟨_, _, _, _, rfl⟩⟩
  · exact fun j _ => ⟨rfl, rfl⟩
  · exact fun j hj => absurd hj (Nat.not_lt_zero j)
  · exact fun i _ hi => absurd hi (Nat.not_lt_zero i)
  · exact nofun
  · exact nofun
  · exact nofun
  · exact nofun
  · exact nofun
  · exact nofun
  · exact nofun
  · exact nofun
  · exact nofun
  · exact nofun
  · exact fun m _ => ⟨rfl, rfl⟩

theorem Transition.hasPlacement {act : Action} (hs : Transition w act w') :
    w'.hasPlacement = w.hasPlacement := by
  cases hs <;> rfl

/-- **Run lemma.** -/
theorem calls_of_reachable (hw : machine.Reachable w) (hp : w.hasPlacement = true) : w.Calls := by
  revert hp
  refine hw.invariant (I := fun w => w.hasPlacement = true → w.Calls) ?_ ?_
  · rintro s ⟨c, rfl⟩ hc
    exact init_calls c hc
  · intro s a s' hs hstep hp
    have ht := step_transition hstep
    exact ht.calls (hs (ht.hasPlacement ▸ hp))

/-- **A completion goes through.** The token of the job in it has not been
completed, since only its own job completes it. -/
theorem Calls.goes_through (h : w.Calls) {b : Bool} {r : Runtime.PlacementReservation}
    (hx : w.placement.pc t = .complete b r) : w.placement.state.acceptable r = true ∧
      w.placement.state.reservations r.slot = r.generation := by
  have hinv := Runtime.World.inv_of_reachable h.reach
  have hc : (w.placement.pc t).completion = some (b, r) := by rw [hx]; rfl
  obtain ⟨j, hj⟩ := h.owner t _ hc
  have hr := (h.own j t b r hj hc).1
  obtain ⟨o, ho, hor⟩ := Runtime.World.tokenOf_eq_some (h.token j r hr)
  have htoken : (w.placement.pc (w.job j).call).token = some r := by rw [ho]; exact hor
  have hok := (hinv.place (w.job j).call).token htoken
  constructor
  · simp [Runtime.PlacementState.acceptable, hok.valid, hok.slot, hok.worker]
  · have hlive := hinv.live_iff htoken
    have hunspent : (r.slot, r.generation) ∉ w.placement.effects := by
      intro hmem
      obtain ⟨i, q, hq, heq, hi⟩ := h.spent _ hmem
      obtain ⟨o', ho', hoq⟩ := Runtime.World.tokenOf_eq_some (h.token i q hq)
      have htoken' : (w.placement.pc (w.job i).call).token = some q := by rw [ho']; exact hoq
      have hcall := hinv.unique _ _ _ _ htoken htoken' (congrArg Prod.fst heq)
        (congrArg Prod.snd heq)
      have hlt : i < w.njobs := by
        by_contra hge
        rw [(h.fresh i (by omega)).2] at hq
        cases hq
      have hji := h.calls j i (h.lt_njobs hj (by simp)) hlt hcall
      subst hji
      simp [Job.passed, hj, hx, Runtime.PC.entry] at hi
    rw [decide_eq_true hunspent] at hlive
    exact of_decide_eq_true hlive

end World

end HyperFaaS.Leaf
