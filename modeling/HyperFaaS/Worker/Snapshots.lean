import HyperFaaS.Lib.Machine
import Mathlib.Logic.Function.Basic

/-!
Snapshots of the Firecracker runtime (runtime.go, snapshots.go and vm.go of
`pkg/worker/runtime/firecracker`). A start restores the snapshot of its function if there is
one; else it boots, and takes one. One creator at a time writes the files of a function, and
a failed restore invalidates them. Every start may fail at every point.

A snapshot file is what it was taken of: the boot image and the shape of a machine. The
files and the table are known by function id alone.

Proved here (`restored_fresh`): a restored machine has the boot image and the shape of its
request, if all starts of a function have the same ones. After an update of the function a
start restores the old machine (`restored_stale`).

Networks, proxies and processes are not in this module.
-/

namespace HyperFaaS.Worker.Firecracker

open Function

inductive Fault
  | disabled
  deriving DecidableEq, Repr

/-! ## Requests -/

structure Config where
  initrdImagePath : String
  rootfsImagePath : String
  deriving DecidableEq, Repr

structure Resources where
  memoryBytes : Nat
  cpuUnits : Nat
  deriving DecidableEq, Repr

structure Request where
  functionId : Nat
  image : String
  artifactImage : Option String
  resources : Option Resources
  env : String
  deriving DecidableEq, Repr

/-- What a machine boots with. -/
structure Boot where
  image : String
  memMiB : Nat
  vcpuCount : Nat
  deriving DecidableEq, Repr

def defaultMemSizeMiB : Nat := 256

def defaultVCPUCount : Nat := 1

/-- The image of `Start`, and the base of `prepareBootImage`. -/
def bootBase (cfg : Config) (req : Request) : String :=
  let image := if req.image = "" then req.artifactImage.getD "" else req.image
  if image = "" then
    if cfg.initrdImagePath ≠ "" then cfg.initrdImagePath else cfg.rootfsImagePath
  else image

/-- The sums are of 64 bits. -/
def resourceShape (req : Request) : Nat × Nat :=
  match req.resources with
  | none => (defaultMemSizeMiB, defaultVCPUCount)
  | some spec =>
      (if 0 < spec.memoryBytes then
          max 64 ((spec.memoryBytes + 1024 * 1024 - 1) % 2 ^ 64 / (1024 * 1024))
        else defaultMemSizeMiB,
        if 0 < spec.cpuUnits then max 1 ((spec.cpuUnits + 999) % 2 ^ 64 / 1000)
        else defaultVCPUCount)

def bootOf (cfg : Config) (req : Request) : Boot :=
  ⟨bootBase cfg req, (resourceShape req).1, (resourceShape req).2⟩

/-! ## Starts -/

inductive File
  | memory
  | state
  | tmpMemory
  | tmpState
  deriving DecidableEq, Repr

inductive VM
  | booted
  | restored (memory state : Boot)
  deriving DecidableEq, Repr

/-- The places of a start. -/
inductive PC
  | idle
  | select
  | restore
  | restored (memory state : Boot)
  | invalidate
  | boot
  | booted
  | beginCreate
  | waitCreate (job : Nat)
  | createSnapshot
  | publishMemory
  | publishState
  | put
  | finishCreate
  | returned (vm : Option VM)
  deriving DecidableEq, Repr

/-- `snapshots`: the table has the function. `createJobs`: the start that creates. -/
structure World where
  cfg : Config
  snapshots : Nat → Bool
  createJobs : Nat → Option Nat
  files : File → Nat → Option Boot
  ncalls : Nat
  req : Nat → Request
  pc : Nat → PC

inductive Action
  | start (req : Request)
  | step (i : Nat)
  | fail (i : Nat)
  | abort (i : Nat)

namespace World

def go (w : World) (i : Nat) (x : PC) : World := { w with pc := update w.pc i x }

def set (w : World) (k : File) (f : Nat) (b : Option Boot) : World :=
  { w with files := update w.files k (update (w.files k) f b) }

def function (w : World) (i : Nat) : Nat := (w.req i).functionId

def enter (w : World) (req : Request) : World :=
  { w with
    ncalls := w.ncalls + 1
    req := update w.req w.ncalls req
    pc := update w.pc w.ncalls .select }

def removeTemporary (w : World) (f : Nat) : World := (w.set .tmpMemory f none).set .tmpState f none

/-- The files that `invalidate` removes. -/
def removeAll (w : World) (f : Nat) : World :=
  ((w.removeTemporary f).set .memory f none).set .state f none

/-- The next operation of start `i` succeeds. -/
def advance (w : World) (i : Nat) : Except Fault World :=
  let f := w.function i
  match w.pc i with
  | .select => .ok (w.go i (if w.snapshots f then .restore else .boot))
  | .restore =>
      match w.files .memory f, w.files .state f with
      | some memory, some state => .ok (w.go i (.restored memory state))
      | _, _ => .error .disabled
  | .restored memory state => .ok (w.go i (.returned (some (.restored memory state))))
  | .invalidate =>
      -- it waits for the creator
      if (w.createJobs f).isNone then
        .ok ({ w.removeAll f with snapshots := update w.snapshots f false }.go i .boot)
      else .error .disabled
  | .boot => .ok (w.go i .booted)
  | .booted => .ok (w.go i .beginCreate)
  | .beginCreate =>
      if w.snapshots f then .ok (w.go i (.returned (some .booted)))
      else
        match w.createJobs f with
        | some job => .ok (w.go i (.waitCreate job))
        | none =>
            .ok ({ w with createJobs := update w.createJobs f (some i) }.go i
              .createSnapshot)
  | .waitCreate job =>
      if w.createJobs f = some job then .error .disabled
      else .ok (w.go i (.returned (some .booted)))
  | .createSnapshot =>
      let b := bootOf w.cfg (w.req i)
      .ok (((w.set .tmpMemory f (some b)).set .tmpState f (some b)).go i .publishMemory)
  | .publishMemory =>
      .ok (((w.set .memory f (w.files .tmpMemory f)).set .tmpMemory f none).go i .publishState)
  | .publishState =>
      .ok (((w.set .state f (w.files .tmpState f)).set .tmpState f none).go i .put)
  | .put => .ok ({ w with snapshots := update w.snapshots f true }.go i .finishCreate)
  | .finishCreate =>
      .ok ({ w with createJobs := update w.createJobs f none }.go i
        (.returned (some .booted)))
  | _ => .error .disabled

/-- It fails and the start goes on. -/
def recover (w : World) (i : Nat) : Except Fault World :=
  let f := w.function i
  match w.pc i with
  | .restore => .ok (w.go i .invalidate)
  | .booted => .ok (w.go i (.returned (some .booted)))
  | .createSnapshot => .ok ((w.removeTemporary f).go i .finishCreate)
  | .publishMemory => .ok ((w.removeTemporary f).go i .finishCreate)
  | .publishState => .ok (((w.set .memory f none).set .tmpState f none).go i .finishCreate)
  | _ => .error .disabled

/-- It fails and the start returns an error. -/
def abort (w : World) (i : Nat) : Except Fault World :=
  match w.pc i with
  | .select | .restore | .restored _ _ | .boot | .booted => .ok (w.go i (.returned none))
  | _ => .error .disabled

def step (w : World) : Action → Except Fault World
  | .start req => .ok (w.enter req)
  | .step i => w.advance i
  | .fail i => w.recover i
  | .abort i => w.abort i

def init (cfg : Config) : World where
  cfg := cfg
  snapshots := fun _ => false
  createJobs := fun _ => none
  files := fun _ _ => none
  ncalls := 0
  req := fun _ => ⟨0, "", none, none, ""⟩
  pc := fun _ => .idle

/-- All starts of a function have one boot image and shape. -/
def unchanged (w : World) : Action → Bool
  | .start req => (List.range w.ncalls).all fun j =>
      (w.req j).functionId != req.functionId || bootOf w.cfg (w.req j) == bootOf w.cfg req
  | _ => true

end World

def machine : Lib.Machine World Action Fault where
  start := fun w => ∃ cfg, w = World.init cfg
  step := World.step

/-! ## Where the files come from -/

namespace World

variable {w w' : World} {i f : Nat} {b : Boot}

/-- A start of function `f` has this boot. -/
def Known (w : World) (f : Nat) (b : Boot) : Prop :=
  ∃ j < w.ncalls, w.function j = f ∧ bootOf w.cfg (w.req j) = b

structure Traced (w : World) : Prop where
  entered : ∀ i, w.pc i ≠ .idle → i < w.ncalls
  files : ∀ k f b, w.files k f = some b → w.Known f b
  restored : ∀ i m s, w.pc i = .restored m s ∨ w.pc i = .returned (some (.restored m s)) →
    w.Known (w.function i) m ∧ w.Known (w.function i) s
  agree : ∀ i < w.ncalls, ∀ j < w.ncalls, w.function i = w.function j →
    bootOf w.cfg (w.req i) = bootOf w.cfg (w.req j)

theorem Traced.go (h : Traced w) {x : PC} (hi : w.pc i ≠ .idle)
    (hx : ∀ m s, x = .restored m s ∨ x = .returned (some (.restored m s)) →
      w.Known (w.function i) m ∧ w.Known (w.function i) s) : Traced (w.go i x) where
  entered j hj := by
    rcases eq_or_ne j i with rfl | hji
    · exact h.entered j hi
    · exact h.entered j fun hidle => hj ((update_of_ne hji _ _).trans hidle)
  files := h.files
  restored j m s hj := by
    rcases eq_or_ne j i with rfl | hji
    · refine hx m s ?_
      simpa [go] using hj
    · refine h.restored j m s ?_
      simpa [World.go, Function.update_of_ne hji] using hj
  agree := h.agree

theorem Traced.set (h : Traced w) {k : File} {v : Option Boot}
    (hv : ∀ b, v = some b → w.Known f b) : Traced (w.set k f v) where
  entered := h.entered
  files k' f' b hb := by
    by_cases hk : k' = k
    · subst hk
      by_cases hf : f' = f
      · subst hf
        exact hv b (by simpa [set] using hb)
      · exact h.files k' f' b (by simpa [World.set, Function.update_of_ne hf] using hb)
    · exact h.files k' f' b (by simpa [World.set, Function.update_of_ne hk] using hb)
  restored := h.restored
  agree := h.agree

theorem Traced.clear (h : Traced w) (k : File) (f : Nat) : Traced (w.set k f none) :=
  h.set nofun

theorem Traced.removeTemporary (h : Traced w) (f : Nat) : Traced (w.removeTemporary f) :=
  (h.clear .tmpMemory f).clear .tmpState f

theorem Traced.removeAll (h : Traced w) (f : Nat) : Traced (w.removeAll f) :=
  ((h.removeTemporary f).clear .memory f).clear .state f

theorem Traced.tables (h : Traced w) (snapshots : Nat → Bool) (createJobs : Nat → Option Nat) :
    Traced { w with snapshots := snapshots, createJobs := createJobs } :=
  ⟨h.entered, h.files, h.restored, h.agree⟩

theorem Traced.own (h : Traced w) (hi : w.pc i ≠ .idle) :
    w.Known (w.function i) (bootOf w.cfg (w.req i)) := ⟨i, h.entered i hi, rfl, rfl⟩

theorem Traced.enter (h : Traced w) {req : Request} (hok : w.unchanged (.start req) = true) :
    Traced (w.enter req) := by
  have hreq (j : Nat) (hj : j < w.ncalls) : (w.enter req).req j = w.req j :=
    update_of_ne (Nat.ne_of_lt hj) _ _
  have hnew : (w.enter req).req w.ncalls = req := update_self ..
  have hknown (f : Nat) (b : Boot) : w.Known f b → (w.enter req).Known f b := by
    rintro ⟨j, hj, hf, hb⟩
    refine ⟨j, Nat.lt_succ_of_lt hj, ?_, ?_⟩
    · rw [function, hreq j hj]
      exact hf
    · rw [hreq j hj]
      exact hb
  have hsame (j : Nat) (hj : j < w.ncalls) (hf : w.function j = req.functionId) :
      bootOf w.cfg (w.req j) = bootOf w.cfg req := by
    simp only [unchanged, List.all_eq_true, List.mem_range] at hok
    have hj := hok j hj
    simp only [Bool.or_eq_true, bne_iff_ne, beq_iff_eq] at hj
    exact hj.resolve_left fun hne => hne hf
  refine ⟨fun j hj => ?_, fun k f b hb => hknown f b (h.files k f b hb), fun j m s hj => ?_,
    fun j hj k hk hf => ?_⟩
  · change j < w.ncalls + 1
    rcases eq_or_ne j w.ncalls with rfl | hne
    · exact Nat.lt_succ_self _
    · exact Nat.lt_succ_of_lt (h.entered j fun hidle =>
        hj ((update_of_ne hne _ _).trans hidle))
  · rcases eq_or_ne j w.ncalls with rfl | hne
    · simp [World.enter] at hj
    · have hj : w.pc j = .restored m s ∨ w.pc j = .returned (some (.restored m s)) := by
        simpa [World.enter, Function.update_of_ne hne] using hj
      have hlt : j < w.ncalls := h.entered j (by rcases hj with hj | hj <;> simp [hj])
      obtain ⟨hm, hs⟩ := h.restored j m s hj
      rw [function, hreq j hlt]
      exact ⟨hknown _ _ hm, hknown _ _ hs⟩
  · -- the new start agrees with the earlier ones of its function
    have hj : j < w.ncalls + 1 := hj
    have hk : k < w.ncalls + 1 := hk
    change bootOf w.cfg _ = bootOf w.cfg _
    simp only [function] at hf
    rcases Nat.lt_succ_iff_lt_or_eq.mp hj with hj | rfl
    · rcases Nat.lt_succ_iff_lt_or_eq.mp hk with hk | rfl
      · rw [hreq j hj, hreq k hk] at hf ⊢
        exact h.agree j hj k hk hf
      · rw [hreq j hj, hnew] at hf ⊢
        exact hsame j hj hf
    · rcases Nat.lt_succ_iff_lt_or_eq.mp hk with hk | rfl
      · rw [hnew, hreq k hk] at hf ⊢
        exact (hsame k hk hf.symm).symm
      · rfl

theorem Traced.advance (h : Traced w) (hs : w.advance i = .ok w') : Traced w' := by
  unfold World.advance at hs
  simp only at hs
  cases hpc : w.pc i with
  | idle => simp [hpc] at hs
  | returned vm => simp [hpc] at hs
  | select =>
    simp only [hpc] at hs
    cases hs
    refine h.go (by simp [hpc]) fun m s hx => ?_
    split at hx <;> rcases hx with hx | hx <;> cases hx
  | restore =>
    simp only [hpc] at hs
    split at hs
    · rename_i m s hm hst
      cases hs
      refine h.go (by simp [hpc]) fun m' s' hx => ?_
      rcases hx with hx | hx
      · cases hx
        exact ⟨h.files _ _ _ hm, h.files _ _ _ hst⟩
      · cases hx
    · cases hs
  | restored m s =>
    simp only [hpc] at hs
    cases hs
    refine h.go (by simp [hpc]) fun m' s' hx => ?_
    rcases hx with hx | hx
    · cases hx
    · cases hx
      exact h.restored i m s (.inl hpc)
  | invalidate =>
    simp only [hpc] at hs
    split at hs
    · cases hs
      exact ((h.removeAll _).tables _ _).go (by simp [World.removeAll, World.removeTemporary,
        World.set, hpc]) nofun
    · cases hs
  | boot =>
    simp only [hpc] at hs
    cases hs
    exact h.go (by simp [hpc]) nofun
  | booted =>
    simp only [hpc] at hs
    cases hs
    exact h.go (by simp [hpc]) nofun
  | beginCreate =>
    simp only [hpc] at hs
    split at hs
    · cases hs
      exact h.go (by simp [hpc]) nofun
    split at hs
    · cases hs
      exact h.go (by simp [hpc]) nofun
    · cases hs
      exact (h.tables _ _).go (by simp [hpc]) nofun
  | waitCreate job =>
    simp only [hpc] at hs
    split at hs
    · cases hs
    · cases hs
      exact h.go (by simp [hpc]) nofun
  | createSnapshot =>
    simp only [hpc] at hs
    cases hs
    have hown : ∀ b, some (bootOf w.cfg (w.req i)) = some b → w.Known (w.function i) b := by
      rintro b ⟨⟩
      exact h.own (by simp [hpc])
    exact ((h.set hown).set hown).go (by simp [World.set, hpc]) nofun
  | publishMemory =>
    simp only [hpc] at hs
    cases hs
    have hmoved := h.set (k := .memory) (h.files .tmpMemory (w.function i))
    exact (hmoved.clear .tmpMemory _).go (by simp [World.set, hpc]) nofun
  | publishState =>
    simp only [hpc] at hs
    cases hs
    have hmoved := h.set (k := .state) (h.files .tmpState (w.function i))
    exact (hmoved.clear .tmpState _).go (by simp [World.set, hpc]) nofun
  | put =>
    simp only [hpc] at hs
    cases hs
    exact (h.tables _ _).go (by simp [hpc]) nofun
  | finishCreate =>
    simp only [hpc] at hs
    cases hs
    exact (h.tables _ _).go (by simp [hpc]) nofun

theorem Traced.recover (h : Traced w) (hs : w.recover i = .ok w') : Traced w' := by
  unfold World.recover at hs
  simp only at hs
  split at hs
  · rename_i hpc
    cases hs
    exact h.go (by simp [hpc]) nofun
  · rename_i hpc
    cases hs
    exact h.go (by simp [hpc]) nofun
  · rename_i hpc
    cases hs
    exact (h.removeTemporary _).go (by simp [World.removeTemporary, World.set, hpc]) nofun
  · rename_i hpc
    cases hs
    exact (h.removeTemporary _).go (by simp [World.removeTemporary, World.set, hpc]) nofun
  · rename_i hpc
    cases hs
    exact ((h.clear .memory _).clear .tmpState _).go (by simp [World.set, hpc]) nofun
  · cases hs

theorem Traced.abort (h : Traced w) (hs : w.abort i = .ok w') : Traced w' := by
  unfold World.abort at hs
  split at hs <;> cases hs
  all_goals rename_i hpc; exact h.go (by simp [hpc]) nofun

theorem Traced.step (h : Traced w) {a : Action} (hok : w.unchanged a = true)
    (hs : w.step a = .ok w') : Traced w' := by
  cases a with
  | start req =>
    cases hs
    exact h.enter hok
  | step i => exact h.advance hs
  | fail i => exact h.recover hs
  | abort i => exact h.abort hs

theorem init_traced (cfg : Config) : Traced (init cfg) where
  entered _ hi := absurd rfl hi
  files := nofun
  restored _ _ _ hj := by rcases hj with hj | hj <;> cases hj
  agree := nofun

end World

/-- **A restored machine is the one that was asked for.** -/
theorem restored_fresh {w : World}
    (hw : machine.ReachesWhile (fun w a => w.unchanged a = true) w) {i : Nat} {m s : Boot}
    (hi : w.pc i = .returned (some (.restored m s))) :
    m = bootOf w.cfg (w.req i) ∧ s = bootOf w.cfg (w.req i) := by
  have h : w.Traced := by
    refine hw.invariant (I := World.Traced) ?_ fun _ _ _ hi hok hs => hi.step hok hs
    rintro _ ⟨cfg, rfl⟩
    exact World.init_traced cfg
  have hlt : i < w.ncalls := h.entered i (by simp [hi])
  obtain ⟨⟨j, hj, hfj, hbj⟩, ⟨k, hk, hfk, hbk⟩⟩ := h.restored i m s (.inr hi)
  exact ⟨hbj ▸ h.agree j hj i hlt hfj, hbk ▸ h.agree k hk i hlt hfk⟩

def request (image : String) : Request := ⟨1, image, none, none, ""⟩

/-- The steps of a start that boots and takes a snapshot. -/
def creates (i : Nat) : List Action := List.replicate 9 (.step i)

/-- A second start of the function restores. -/
theorem restored_fresh_second :
    ∃ w, machine.ReachesWhile (fun w a => w.unchanged a = true) w ∧ ∃ m s,
      w.pc 1 = .returned (some (.restored m s)) ∧ m = bootOf w.cfg (w.req 1) ∧
        s = bootOf w.cfg (w.req 1) := by
  obtain ⟨w, hw, hpc⟩ := machine.exists_while_of_run (P := fun w a => w.unchanged a = true)
    (Q := fun w => w.pc 1 = .returned (some (.restored ⟨"a", 256, 1⟩ ⟨"a", 256, 1⟩)))
    (.init ⟨"", "rootfs"⟩)
    (.start (request "a") :: creates 0 ++ [.start (request "a"), .step 1, .step 1, .step 1])
    ⟨_, rfl⟩ (by decide +kernel)
  exact ⟨w, hw, _, _, hpc, restored_fresh hw hpc⟩

/-- The function has a new image, and its start restores the old one. -/
theorem restored_stale :
    ∃ w, machine.Reachable w ∧ ∃ m s, w.pc 1 = .returned (some (.restored m s)) ∧
      m ≠ bootOf w.cfg (w.req 1) := by
  obtain ⟨w, hw, hpc, hne⟩ := machine.exists_of_run
    (Q := fun w => w.pc 1 = .returned (some (.restored ⟨"a", 256, 1⟩ ⟨"a", 256, 1⟩)) ∧
      (⟨"a", 256, 1⟩ : Boot) ≠ bootOf w.cfg (w.req 1)) (.init ⟨"", "rootfs"⟩)
    (.start (request "a") :: creates 0 ++ [.start (request "b"), .step 1, .step 1, .step 1])
    ⟨_, rfl⟩ (by decide +kernel)
  exact ⟨w, hw, _, _, hpc, hne⟩

end HyperFaaS.Worker.Firecracker
