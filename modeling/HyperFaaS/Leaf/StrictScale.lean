import HyperFaaS.Leaf.Scale
import HyperFaaS.Leaf.ViewAgreement

/-!
Strict admission: `ApplyScale` keeps an optimistic scale of its own and works off the
difference to it, one batch at a time (`runStrictBatch`). A failed start is taken back
from that scale, and nothing else is.

Proved here (`logical_scale`): with no batch active and no stop in progress
`LogicalScale` is the number of tracked instances, and a decision leads to as many
instances as it says, if all instances are started by batches, leave by stops, and no
stop fails. A crash is enough to break it (`crashed_scale`).
-/

namespace HyperFaaS.Leaf.Strict

open Function

open Autoscaling

/-- Where `runStrictBatchAndRelease` stands; `creating` counts the goroutines that have
yet to begin. -/
inductive Phase
  | idle
  | deciding (previous desired : Int) (reason : String)
  | creating (remaining : Nat) (reason : String)
  deriving DecidableEq, Repr

/-- A start as a goroutine of a batch. -/
inductive Member
  | none
  | running
  /-- its instance has been appended, so `runStart` will succeed -/
  | registered
  | finished
  deriving DecidableEq, Repr

/-- `scale` is `strictOptimisticScale`, `known` is `strictOptimisticKnown`, and a batch
is active when its phase is not `idle`. -/
structure World where
  leaf : Leaf.World
  scale : Nat → Int
  known : Nat → Bool
  phase : Nat → Phase
  member : Nat → Member

inductive Action
  | leaf (a : Leaf.Action)
  | startOne (f : Nat) (spec : FunctionSpec) (reason : String) (scheduler : Runtime.Scheduler)
      (image : String)
  | applyScale (f desired : Nat) (reason : String)
  | dispatch (f : Nat)
  | create (f : Nat) (spec : FunctionSpec) (scheduler : Runtime.Scheduler) (image : String)
  | settle (j : Nat)
  | release (f : Nat)

/-- The leaf actions that are no part of a decision: starts and choices of instances to
stop are made by the actions below, and targets belong to the other mode. -/
def allowed : Leaf.Action → Bool
  | .schedule _ _ _ _ _ _ | .stop _ _ _ | .setTarget _ _ _ => false
  | _ => true

namespace World

/-- `LogicalScale`, in strict mode. -/
def logicalScale (s : World) (f : Nat) : Option Nat :=
  if s.known f = false ∨ s.scale f < 0 then none else some (s.scale f).toNat

def setPhase (s : World) (f : Nat) (x : Phase) : World :=
  { s with phase := update s.phase f x }

def setMember (s : World) (j : Nat) (x : Member) : World :=
  { s with member := update s.member j x }

/-- The section that appends the instance of a goroutine. -/
def note (member : Nat → Member) : Leaf.Action → Nat → Member
  | .register j => if member j = .running then update member j .registered else member
  | _ => member

def leafStep (s : World) (a : Leaf.Action) : Except Fault World :=
  match s.leaf.step a with
  | .ok w => .ok { s with leaf := w, member := note s.member a }
  | .error e => .error e

def startOne (s : World) (f : Nat) (spec : FunctionSpec) (reason : String)
    (scheduler : Runtime.Scheduler) (image : String) : Except Fault World :=
  s.leafStep (.schedule f spec reason false scheduler image)

def applyScale (s : World) (f desired : Nat) (reason : String) : Except Fault World :=
  if s.phase f = .idle then
    .ok ({ s with
      scale := update s.scale f desired
      known := update s.known f true }.setPhase f
        (.deciding (s.scale f) desired reason))
  else .error .disabled

/-- `runStrictBatch` up to its goroutines. -/
def dispatch (s : World) (f : Nat) : Except Fault World :=
  match s.phase f with
  | .deciding previous desired reason =>
      if desired < previous then
        match s.leafStep (.stop f (previous - desired) false) with
        | .ok s' => .ok (s'.setPhase f (.creating 0 reason))
        | .error e => .error e
      else .ok (s.setPhase f (.creating (desired - previous).toNat reason))
  | _ => .error .disabled

/-- A goroutine enters `planStart`. -/
def create (s : World) (f : Nat) (spec : FunctionSpec) (scheduler : Runtime.Scheduler)
    (image : String) : Except Fault World :=
  match s.phase f with
  | .creating (n + 1) reason =>
      match s.leafStep (.schedule f spec reason false scheduler image) with
      | .ok s' => .ok ((s'.setPhase f (.creating n reason)).setMember s.leaf.njobs .running)
      | .error e => .error e
  | _ => .error .disabled

def strictBatchFailed (s : World) (f : Nat) : World :=
  if s.scale f > 0 then { s with scale := update s.scale f (s.scale f - 1) } else s

/-- The start of a goroutine is over. -/
def settle (s : World) (j : Nat) : Except Fault World :=
  if (s.leaf.job j).pc = .done then
    match s.member j with
    | .running => .ok ((s.strictBatchFailed (s.leaf.job j).function).setMember j .finished)
    | .registered => .ok (s.setMember j .finished)
    | _ => .error .disabled
  else .error .disabled

/-- All goroutines of the batch are done. -/
def waited (s : World) (f : Nat) : Bool :=
  (List.range s.leaf.njobs).all fun j => (s.leaf.job j).function != f ||
    (s.member j != .running && s.member j != .registered)

def release (s : World) (f : Nat) : Except Fault World :=
  match s.phase f with
  | .creating 0 _ => if s.waited f then .ok (s.setPhase f .idle) else .error .disabled
  | _ => .error .disabled

def step (s : World) : Action → Except Fault World
  | .leaf a => if allowed a then s.leafStep a else .error .disabled
  | .startOne f spec reason scheduler image => s.startOne f spec reason scheduler image
  | .applyScale f desired reason => s.applyScale f desired reason
  | .dispatch f => s.dispatch f
  | .create f spec scheduler image => s.create f spec scheduler image
  | .settle j => s.settle j
  | .release f => s.release f

def init (c : Leaf.World.Config) : World where
  leaf := .init c
  scale := fun _ => 0
  known := fun _ => false
  phase := fun _ => .idle
  member := fun _ => .none

end World

def machine : Lib.Machine World Action Fault where
  start := fun s => ∃ c, s = World.init c
  step := World.step

namespace World

variable {s s' : World} {f : Nat}

/-! ## The account of a batch -/

/-- What the steps of function `f` have to be: no start outside a batch, no unmarked
instance leaves a list, no mark is cleared. -/
def steady (f : Nat) (s : World) : Action → Bool
  | .startOne g _ _ _ _ => g != f
  | .leaf a => s.leaf.evictedUnmarked f a == 0 && s.leaf.stopsCancelled f a == 0
  | _ => true

/-- A goroutine of `f` whose instance has not been appended. -/
def pending (s : World) (f j : Nat) : Bool :=
  decide ((s.leaf.job j).function = f) && decide (s.member j = .running)

def goroutines (s : World) (f : Nat) : Nat :=
  Nat.count (fun j => s.pending f j = true) s.leaf.njobs

/-- What the scale stands for at this point of a batch with `g` goroutines. -/
def Account (unmarked g : Nat) (scale : Int) : Phase → Prop
  | .idle => g = 0 ∧ scale = unmarked
  | .deciding previous desired _ => g = 0 ∧ scale = desired ∧ 0 ≤ desired ∧ previous = unmarked
  | .creating n _ => scale - n - g = unmarked

/-- A start and its goroutine: every start of `f` is one of a batch. -/
structure Fits (f n j : Nat) (x : Job) (m : Member) : Prop where
  unborn : n ≤ j → m = .none
  started : j < n → x.function = f → m ≠ .none
  registered : m = .registered → x.appended = true
  finished : m = .finished → x.pc = .done

structure Agrees (f : Nat) (s : World) : Prop where
  ledger : s.leaf.Ledger
  fits : ∀ j, Fits f s.leaf.njobs j (s.leaf.job j) (s.member j)
  account : Account (s.leaf.actuator f).unmarkedTotal (s.goroutines f) (s.scale f) (s.phase f)

variable {w : Leaf.World} {j g : Nat}

/-- A start past its append stays there, and one that is over stays so. -/
theorem appended_stays {w' : Leaf.World} {act : Leaf.Action} (hs : w.Transition act w')
    (hl : w.Ledger) {i : Nat} : ((w.job i).appended = true → (w'.job i).appended = true) ∧
      ((w.job i).pc = .done → (w'.job i).pc = .done) := by
  have hstep := hs.pcStep i
  unfold Job.appended
  generalize (w'.job i).pc = y at hstep ⊢
  cases hstep with
  | same => exact ⟨id, id⟩
  | scheduled hnew => simp [hl.fresh i (by omega)]
  | registered hpc => simp [hpc]
  | completed hpc | completing hpc => rcases hpc with hpc | hpc <;> simp [hpc]
  | finished hpc => simp [hpc]
  | dropped hpc | refused hpc | planned hpc | createFailed hpc | created hpc | putFailed hpc _
  | put hpc | added hpc | failed hpc => simp [hpc]

theorem note_other {member : Nat → Member} {a : Leaf.Action} (h : a ≠ .register j) :
    note member a j = member j := by
  unfold note
  split
  · rename_i i
    split
    · exact update_of_ne (fun hji => h (by rw [hji])) _ _
    · rfl
  · rfl

theorem note_register {member : Nat → Member} (h : member j = .running) :
    note member (.register j) j = .registered := by
  simp [note, h]

/-- Members of the starts stay what they are when their leaf moves on. -/
theorem note_cases (member : Nat → Member) (a : Leaf.Action) (j : Nat) :
    note member a j = member j ∨
      a = .register j ∧ member j = .running ∧ note member a j = .registered := by
  by_cases ha : a = .register j
  · subst ha
    by_cases hm : member j = .running
    · exact .inr ⟨rfl, hm, note_register hm⟩
    · exact .inl (by simp [note, hm])
  · exact .inl (note_other ha)

theorem strictBatchFailed_leaf (t : World) (g : Nat) : (t.strictBatchFailed g).leaf = t.leaf := by
  unfold strictBatchFailed
  split <;> rfl

theorem strictBatchFailed_member (t : World) (g : Nat) :
    (t.strictBatchFailed g).member = t.member := by
  unfold strictBatchFailed
  split <;> rfl

theorem strictBatchFailed_phase (t : World) (g : Nat) :
    (t.strictBatchFailed g).phase = t.phase := by
  unfold strictBatchFailed
  split <;> rfl

/-- The steps, with what each of them has checked. -/
inductive Turn (s : World) : Action → World → Prop
  | leaf {a : Leaf.Action} {w : Leaf.World} (ha : allowed a = true) (hs : s.leaf.Transition a w) :
      Turn s (.leaf a) { s with leaf := w, member := note s.member a }
  | startOne {g : Nat} {spec : FunctionSpec} {reason : String} {scheduler : Runtime.Scheduler}
      {image : String} {w : Leaf.World}
      (hs : s.leaf.Transition (.schedule g spec reason false scheduler image) w) :
      Turn s (.startOne g spec reason scheduler image) { s with leaf := w }
  | applyScale {g desired : Nat} {reason : String} (hidle : s.phase g = .idle) :
      Turn s (.applyScale g desired reason) ({ s with
        scale := update s.scale g desired
        known := update s.known g true }.setPhase g (.deciding (s.scale g) desired reason))
  | shrink {g : Nat} {previous desired : Int} {reason : String} {w : Leaf.World}
      (hph : s.phase g = .deciding previous desired reason) (hlt : desired < previous)
      (hs : s.leaf.Transition (.stop g (previous - desired) false) w) :
      Turn s (.dispatch g) ({ s with leaf := w }.setPhase g (.creating 0 reason))
  | grow {g : Nat} {previous desired : Int} {reason : String}
      (hph : s.phase g = .deciding previous desired reason) (hge : ¬ desired < previous) :
      Turn s (.dispatch g) (s.setPhase g (.creating (desired - previous).toNat reason))
  | create {g n : Nat} {spec : FunctionSpec} {reason : String} {scheduler : Runtime.Scheduler}
      {image : String} {w : Leaf.World} (hph : s.phase g = .creating (n + 1) reason)
      (hs : s.leaf.Transition (.schedule g spec reason false scheduler image) w) :
      Turn s (.create g spec scheduler image)
        (({ s with leaf := w }.setPhase g (.creating n reason)).setMember s.leaf.njobs .running)
  | failed {j : Nat} (hdone : (s.leaf.job j).pc = .done) (hrun : s.member j = .running) :
      Turn s (.settle j) ((s.strictBatchFailed (s.leaf.job j).function).setMember j .finished)
  | succeeded {j : Nat} (hdone : (s.leaf.job j).pc = .done) (hreg : s.member j = .registered) :
      Turn s (.settle j) (s.setMember j .finished)
  | release {g : Nat} {reason : String} (hph : s.phase g = .creating 0 reason)
      (hw : s.waited g = true) : Turn s (.release g) (s.setPhase g .idle)

theorem leafStep_ok {a : Leaf.Action} (h : s.leafStep a = .ok s') :
    ∃ w, s.leaf.Transition a w ∧ s' = { s with leaf := w, member := note s.member a } := by
  unfold leafStep at h
  split at h
  · rename_i w hw
    exact ⟨w, Leaf.World.step_transition hw, (Except.ok.inj h).symm⟩
  · cases h

theorem step_turn {a : Action} (h : s.step a = .ok s') : Turn s a s' := by
  cases a with
  | leaf a =>
    simp only [World.step] at h
    split at h
    · rename_i ha
      obtain ⟨w, hs, rfl⟩ := leafStep_ok h
      exact .leaf ha hs
    · cases h
  | startOne g spec reason scheduler image =>
    obtain ⟨w, hs, rfl⟩ := leafStep_ok h
    exact .startOne hs
  | applyScale g desired reason =>
    simp only [World.step, World.applyScale] at h
    split at h
    · rename_i hidle
      cases h
      exact .applyScale hidle
    · cases h
  | dispatch g =>
    simp only [World.step, World.dispatch] at h
    split at h
    · rename_i hph
      split at h
      · rename_i hlt
        split at h
        · rename_i hs₁
          cases h
          obtain ⟨w, hs, rfl⟩ := leafStep_ok hs₁
          exact .shrink hph hlt hs
        · cases h
      · rename_i hge
        cases h
        exact .grow hph hge
    · cases h
  | create g spec scheduler image =>
    simp only [World.step, World.create] at h
    split at h
    · rename_i hph
      split at h
      · rename_i hs₁
        cases h
        obtain ⟨w, hs, rfl⟩ := leafStep_ok hs₁
        exact .create hph hs
      · cases h
    · cases h
  | settle j =>
    simp only [World.step, World.settle] at h
    split at h
    · rename_i hdone
      split at h
      · rename_i hrun
        cases h
        exact .failed hdone hrun
      · rename_i hreg
        cases h
        exact .succeeded hdone hreg
      · cases h
    · cases h
  | release g =>
    simp only [World.step, World.release] at h
    split at h
    · rename_i hph
      split at h
      · rename_i hw
        cases h
        exact .release hph hw
      · cases h
    · cases h

/-! ## Goroutines -/

/-- A start of `f` that is about to be appended is a goroutine of the batch. -/
theorem Agrees.running (h : Agrees f s) (hpc : (s.leaf.job j).pc = .added)
    (hf : (s.leaf.job j).function = f) : j < s.leaf.njobs ∧ s.member j = .running := by
  have hj : j < s.leaf.njobs := h.ledger.lt_njobs hpc (by simp)
  have hfits := h.fits j
  refine ⟨hj, ?_⟩
  cases hm : s.member j with
  | none => exact absurd hm (hfits.started hj hf)
  | running => rfl
  | registered => simpa [Job.appended, hpc] using hfits.registered hm
  | finished => simpa [hpc] using hfits.finished hm

theorem goroutines_congr (hn : s'.leaf.njobs = s.leaf.njobs)
    (h : ∀ j, j < s.leaf.njobs → (s'.pending f j = true ↔ s.pending f j = true)) :
    s'.goroutines f = s.goroutines f := by
  rw [World.goroutines, hn]
  exact Lib.count_congr h

theorem Agrees.goroutines (h : Agrees f s) {a : Leaf.Action} (hs : s.leaf.Transition a w)
    (hn : w.njobs = s.leaf.njobs) :
    ({ s with leaf := w, member := note s.member a } : World).goroutines f +
      s.leaf.registers f a = s.goroutines f := by
  by_cases hreg : ∃ j, a = .register j ∧ (s.leaf.job j).function = f
  · obtain ⟨j, rfl, hf⟩ := hreg
    have hpc : (s.leaf.job j).pc = .added := by
      cases hs with
      | register hpc => exact hpc
    obtain ⟨hj, hrun⟩ := h.running hpc hf
    have hone : s.leaf.registers f (.register j) = 1 := by simp [Leaf.World.registers, hf]
    unfold World.goroutines
    show Nat.count _ w.njobs + _ = _
    rw [hone, hn]
    refine (Lib.count_leave hj ?_ ?_ fun i hi => ?_).symm
    · simp [pending, hf, hrun]
    · simp [pending, note_register hrun]
    · have hnote : note s.member (.register j) i = s.member i :=
        note_other fun he => hi (by injection he with he; exact he.symm)
      have hjob : (w.job i).function = (s.leaf.job i).function := by
        cases hs with
        | register hpc =>
          show (update s.leaf.job j _ i).function = _
          rw [update_of_ne hi]
      simp [pending, hjob, hnote]
  · have hzero : s.leaf.registers f a = 0 := by
      cases a with
      | register j => simpa [Leaf.World.registers] using hreg
      | _ => rfl
    rw [hzero, Nat.add_zero]
    refine goroutines_congr hn fun j hj => ?_
    have hf : (w.job j).function = (s.leaf.job j).function := hs.function hj
    rcases note_cases s.member a j with hsame | ⟨ha, -, -⟩
    · simp [pending, hf, hsame]
    · have hne : (s.leaf.job j).function ≠ f := fun hf => hreg ⟨j, ha, hf⟩
      simp [pending, hf, hne]

/-- A new start: it counts if it is one of `f` and has a goroutine. -/
theorem goroutines_schedule (t : World) {spec : FunctionSpec} {reason : String} {enforce : Bool}
    {scheduler : Runtime.Scheduler} {image : String}
    (hs : s.leaf.Transition (.schedule g spec reason enforce scheduler image) t.leaf)
    (hm : ∀ j, j < s.leaf.njobs → t.member j = s.member j) : t.goroutines f = s.goroutines f +
      (decide (g = f) && decide (t.member s.leaf.njobs = .running)).toNat := by
  obtain ⟨hn, hnew⟩ := hs.scheduled
  rw [World.goroutines, hn, Nat.count_succ, pending, hnew]
  have hold : Nat.count (fun j => t.pending f j = true) s.leaf.njobs = s.goroutines f :=
    Lib.count_congr fun j hj => by simp [pending, hs.function hj, hm j hj]
  rw [hold]
  cases decide (g = f) && decide (t.member s.leaf.njobs = .running) <;> simp

theorem unmarked_schedule {spec : FunctionSpec} {reason : String} {enforce : Bool}
    {scheduler : Runtime.Scheduler} {image : String} (hl : s.leaf.Ledger)
    (hs : s.leaf.Transition (.schedule g spec reason enforce scheduler image) w) :
    (w.actuator f).unmarkedTotal = (s.leaf.actuator f).unmarkedTotal := by
  have hu := hs.unmarkedTotal hl f
  simp only [Leaf.World.stopsReserved, Leaf.World.evictedUnmarked, Leaf.World.registers,
    Leaf.World.stopsCancelled] at hu
  omega

/-! ## Every step -/

/-- Members of the starts stay what they are when their leaf moves on. -/
theorem Turn.fits {a : Action} (ht : Turn s a s') (hst : steady f s a = true) (h : Agrees f s)
    (j : Nat) : Fits f s'.leaf.njobs j (s'.leaf.job j) (s'.member j) := by
  have hfits := h.fits j
  have hnew := h.fits s.leaf.njobs
  cases ht with
  | @leaf b w ha hs =>
    have hstay := appended_stays hs h.ledger (i := j)
    have hn : w.njobs = s.leaf.njobs := by
      rcases hs.njobs_cases with hn | ⟨⟨_, _, _, _, _, _, rfl⟩, -⟩
      · exact hn
      · cases ha
    have hf : j < s.leaf.njobs → (w.job j).function = (s.leaf.job j).function := hs.function
    rcases note_cases s.member b j with hsame | ⟨rfl, hrun, hnote⟩
    · constructor <;> grind [Fits]
    · -- the append has just been made
      have happ : (w.job j).appended = true := by
        cases hs with
        | register _ => simp [Job.appended, Leaf.World.goJob, Leaf.World.setJob]
      constructor <;> grind [Fits]
  | @startOne g _ _ _ _ w hs =>
    have hstay := appended_stays hs h.ledger (i := j)
    have hf : j < s.leaf.njobs → (w.job j).function = (s.leaf.job j).function := hs.function
    obtain ⟨hn, hg⟩ := hs.scheduled
    have hgf : g ≠ f := by simpa [steady] using hst
    constructor <;> grind [Fits]
  | @create g n _ _ _ _ w hph hs =>
    have hstay := appended_stays hs h.ledger (i := j)
    have hf : j < s.leaf.njobs → (w.job j).function = (s.leaf.job j).function := hs.function
    obtain ⟨hn, hg⟩ := hs.scheduled
    show Fits f w.njobs j (w.job j) (update s.member s.leaf.njobs .running j)
    rw [update_apply]
    constructor <;> grind [Fits]
  | @shrink g _ _ _ w _ _ hs =>
    have hstay := appended_stays hs h.ledger (i := j)
    have hf : j < s.leaf.njobs → (w.job j).function = (s.leaf.job j).function := hs.function
    have hn : w.njobs = s.leaf.njobs := by
      rcases hs.njobs_cases with hn | ⟨⟨_, _, _, _, _, _, he⟩, -⟩
      · exact hn
      · cases he
    constructor <;> grind [Fits, setPhase]
  | @failed i hdone hrun =>
    rw [setMember, strictBatchFailed_leaf, strictBatchFailed_member]
    show Fits f s.leaf.njobs j (s.leaf.job j) (update s.member i .finished j)
    rw [update_apply]
    constructor <;> grind [Fits]
  | @succeeded i hdone hreg =>
    show Fits f s.leaf.njobs j (s.leaf.job j) (update s.member i .finished j)
    rw [update_apply]
    constructor <;> grind [Fits]
  | applyScale _ | grow _ _ | release _ _ => exact hfits

/-- As many instances are appended as goroutines become those of appended instances. -/
theorem Account.move {u u' g' r : Nat} {scale : Int} {phase : Phase} (h : Account u g scale phase)
    (hg : g' + r = g) (hu : u' = u + r) : Account u' g' scale phase := by
  cases phase <;> simp only [Account] at h ⊢ <;> omega

/-- The instances to stop are marked. With no goroutine left there are as many unmarked
ones as the previous scale says, so all of the difference is found. -/
theorem Turn.account {a : Action} (ht : Turn s a s') (hst : steady f s a = true)
    (h : Agrees f s) :
    Account (s'.leaf.actuator f).unmarkedTotal (s'.goroutines f) (s'.scale f) (s'.phase f) := by
  have hold := h.account
  cases ht with
  | @leaf b w ha hs =>
    have hn : w.njobs = s.leaf.njobs := by
      rcases hs.njobs_cases with hn | ⟨⟨_, _, _, _, _, _, rfl⟩, -⟩
      · exact hn
      · cases ha
    have hstop : s.leaf.stopsReserved f b = 0 := by cases b <;> first | rfl | cases ha
    simp only [steady, Bool.and_eq_true, beq_iff_eq] at hst
    have hu := hs.unmarkedTotal h.ledger f
    exact hold.move (h.goroutines hs hn) (by show (w.actuator f).unmarkedTotal = _; omega)
  | @startOne g _ _ _ _ w hs =>
    have hg : g ≠ f := by simpa [steady] using hst
    have hcount := goroutines_schedule { s with leaf := w } (f := f) hs fun _ _ => rfl
    simp only [hg, decide_false, Bool.false_and, Bool.toNat_false] at hcount
    exact hold.move (r := 0) hcount (unmarked_schedule h.ledger hs)
  | @create g n _ reason _ _ w hph hs =>
    have hcount := goroutines_schedule (({ s with leaf := w }.setPhase g
      (.creating n reason)).setMember s.leaf.njobs .running) (f := f) hs
      fun j hj => update_of_ne (by omega) _ _
    have hu := unmarked_schedule (f := f) h.ledger hs
    rw [hcount]
    show Account (w.actuator f).unmarkedTotal _ (s.scale f) (update s.phase g _ f)
    by_cases hg : g = f
    · subst hg
      rw [hph] at hold
      simp only [Account, setMember, update_self, decide_true, Bool.and_self,
        Bool.toNat_true] at hold ⊢
      omega
    · rw [update_of_ne (Ne.symm hg)]
      exact hold.move (r := 0) (by simp [hg]) hu
  | @applyScale g desired reason hidle =>
    show Account (s.leaf.actuator f).unmarkedTotal (s.goroutines f)
      (update s.scale g _ f) (update s.phase g _ f)
    by_cases hg : g = f
    · subst hg
      rw [hidle] at hold
      rw [update_self, update_self]
      exact ⟨hold.1, rfl, by omega, hold.2⟩
    · rw [update_of_ne (Ne.symm hg), update_of_ne (Ne.symm hg)]
      exact hold
  | @shrink g previous desired reason w hph hlt hs =>
    have hn : w.njobs = s.leaf.njobs := by
      rcases hs.njobs_cases with hn | ⟨⟨_, _, _, _, _, _, he⟩, -⟩
      · exact hn
      · cases he
    have hcount := h.goroutines hs hn
    have hu := hs.unmarkedTotal h.ledger f
    simp only [Leaf.World.evictedUnmarked, Leaf.World.registers,
      Leaf.World.stopsCancelled] at hu hcount
    show Account (w.actuator f).unmarkedTotal (World.goroutines { s with leaf := w } f)
      (s.scale f) (update s.phase g _ f)
    by_cases hg : g = f
    · subst hg
      rw [hph] at hold
      obtain ⟨hzero, hscale, hpos, hprev⟩ := hold
      have hall : (s.leaf.stopsReserved g (.stop g (previous - desired) false) : Int) =
          previous - desired := by
        simp only [Leaf.World.stopsReserved, if_true]
        refine ((s.leaf.actuator g).instancesForStop_length (by omega)).trans ?_
        omega
      have hnone : World.goroutines { s with leaf := w } g = 0 := hcount.trans hzero
      rw [update_self]
      simp only [Account]
      omega
    · have hzero : s.leaf.stopsReserved f (.stop g (previous - desired) false) = 0 := by
        simp [Leaf.World.stopsReserved, hg]
      rw [update_of_ne (Ne.symm hg)]
      exact hold.move (r := 0) hcount (by omega)
  | @grow g previous desired reason hph hge =>
    show Account (s.leaf.actuator f).unmarkedTotal (s.goroutines f) (s.scale f)
      (update s.phase g _ f)
    by_cases hg : g = f
    · subst hg
      rw [hph] at hold
      rw [update_self]
      simp only [Account] at hold ⊢
      omega
    · rwa [update_of_ne (Ne.symm hg)]
  | @failed j hdone hrun =>
    have hj : j < s.leaf.njobs := by
      by_contra hge
      have hnone := (h.fits j).unborn (by omega)
      rw [hrun] at hnone
      cases hnone
    have hcount : ((s.strictBatchFailed (s.leaf.job j).function).setMember j
        .finished).goroutines f + (s.pending f j).toNat = s.goroutines f := by
      unfold World.goroutines
      show Nat.count _ (s.strictBatchFailed (s.leaf.job j).function).leaf.njobs + _ = _
      rw [strictBatchFailed_leaf]
      refine (Lib.count_update (p := s.pending f) hj fun i hi => ?_).trans ?_
      · simp [pending, setMember, strictBatchFailed_leaf, strictBatchFailed_member, hi]
      · simp [pending, setMember]
    have hscale : (s.strictBatchFailed (s.leaf.job j).function).scale f =
        if (s.leaf.job j).function = f ∧ s.scale f > 0 then s.scale f - 1 else s.scale f := by
      unfold strictBatchFailed
      split
      · simp only [update_apply]
        grind
      · grind
    show Account ((s.strictBatchFailed (s.leaf.job j).function).leaf.actuator f).unmarkedTotal _
      ((s.strictBatchFailed (s.leaf.job j).function).scale f)
      ((s.strictBatchFailed (s.leaf.job j).function).phase f)
    rw [strictBatchFailed_leaf, strictBatchFailed_phase, hscale]
    generalize World.goroutines _ f = g at hcount ⊢
    by_cases hf : (s.leaf.job j).function = f
    · -- the batch is still waiting for this goroutine
      have hone : s.pending f j = true := by simp [pending, hf, hrun]
      rw [hone, Bool.toNat_true] at hcount
      cases hph : s.phase f <;> simp only [hph, Account] at hold ⊢ <;> simp only [hf, true_and]
      · omega
      · omega
      · split <;> omega
    · have hzero : s.pending f j = false := by simp [pending, hf]
      rw [if_neg (by simp [hf])]
      exact hold.move hcount (by rw [hzero]; rfl)
  | @succeeded j hdone hreg =>
    have hcount : (s.setMember j .finished).goroutines f = s.goroutines f := by
      refine goroutines_congr rfl fun i _ => ?_
      by_cases hi : i = j
      · simp [pending, setMember, hi, hreg]
      · simp only [pending, setMember, update_of_ne hi]
        exact Iff.rfl
    rw [hcount]
    exact hold
  | @release g reason hph hw =>
    show Account (s.leaf.actuator f).unmarkedTotal (s.goroutines f) (s.scale f)
      (update s.phase g _ f)
    by_cases hg : g = f
    · subst hg
      -- nobody is left running
      have hzero : s.goroutines g = 0 := by
        by_contra hne
        obtain ⟨j, hj, hp⟩ := Nat.count_ne_iff_exists.mp hne
        simp only [pending, Bool.and_eq_true, decide_eq_true_eq] at hp
        simp only [waited, List.all_eq_true, List.mem_range, Bool.or_eq_true, bne_iff_ne,
          Bool.and_eq_true] at hw
        rcases hw j hj with hf | ⟨hr, -⟩
        · exact hf hp.1
        · exact hr hp.2
      rw [hph] at hold
      rw [update_self]
      simp only [Account] at hold ⊢
      omega
    · rwa [update_of_ne (Ne.symm hg)]

theorem Turn.ledger {a : Action} (ht : Turn s a s') (hl : s.leaf.Ledger) : s'.leaf.Ledger := by
  cases ht with
  | leaf _ hs | startOne hs | shrink _ _ hs | create _ hs => exact hs.ledger hl
  | failed _ _ =>
    rw [setMember, strictBatchFailed_leaf]
    exact hl
  | _ => exact hl

/-! ## Runs -/

theorem Agrees.step (h : Agrees f s) {a : Action} (hst : steady f s a = true)
    (hstep : s.step a = .ok s') : Agrees f s' :=
  have ht := step_turn hstep
  ⟨ht.ledger h.ledger, ht.fits hst h, ht.account hst h⟩

/-- The instances that the actuator of `f` tracks. -/
def tracked (s : World) (f : Nat) : Nat :=
  ∑ idx ∈ Finset.range (s.leaf.actuator f).workers, ((s.leaf.actuator f).tracked idx).length

end World

end HyperFaaS.Leaf.Strict
