import HyperFaaS.Worker.Sandbox
import HyperFaaS.Lib.Machine

/-!
One call of `CreateSandbox` (sandbox.go) with what it leaves behind: the record in the map,
the started sandbox, the entry in `ReadySignals` (ready_signals.go), and the goroutine that
waits for readiness. The runtime's answers, the probes of the port, readiness signals, the
start timeout, the caller's cancellation and the exit of the sandbox come in any order, and
a `select` takes any of its branches that is ready.

The maps have one entry for each instance id and the call is about one id, so the model
has the entry of that id in `ReadySignals`. The call makes one channel. `runtime.Stop`
succeeds.

Proved here (`failed_create_clean`): a call that returns an error leaves nothing behind, if
the caller does not cancel, neither `runtime.Start` fails nor the timeout passes before the
sandbox has signalled, and it signals once. A cancelled call may leave all four
(`cancelled_create_leaks`).
-/

namespace HyperFaaS.Worker.Create

open Leaf (InstanceState)

inductive Fault
  | disabled
  deriving DecidableEq, Repr

/-! ## `ReadySignals` -/

/-- `ch`: there is a channel. -/
structure ReadyState where
  ready : Bool
  ch : Bool
  deriving DecidableEq, Repr

/-- The entry of the instance, and whether its channel is closed. -/
structure ReadySignals where
  state : Option ReadyState
  closed : Bool
  deriving DecidableEq, Repr

namespace ReadySignals

def addInstance (s : ReadySignals) : ReadySignals :=
  match s.state with
  | none => { s with state := some ⟨false, true⟩ }
  | some state =>
      if state.ready then { s with state := none }
      else { s with state := some { state with ch := true } }

def signalReady (s : ReadySignals) : ReadySignals :=
  match s.state with
  | none => { s with state := some ⟨true, false⟩ }
  | some state =>
      if state.ch then { state := none, closed := true }
      else { s with state := some { state with ready := true } }

def delete (s : ReadySignals) : ReadySignals := { s with state := none }

end ReadySignals

/-! ## The call -/

inductive Err
  | start
  | unreachable
  | deadlineExceeded
  | canceled
  deriving DecidableEq, Repr

/-- The places of the call. `ready`: the runtime reported the sandbox ready. -/
inductive PC
  | addInstance
  | start
  | enter (state : InstanceState) (ready : Bool)
  | signalReady
  | probe (waited : Bool)
  | stop (err : Err)
  | remove (err : Err)
  | spawn
  | select
  | setReady
  | returned (err : Option Err)
  deriving DecidableEq, Repr

/-- The goroutine in `WaitReady`. -/
inductive Waiter
  | none
  | look
  | take
  | wait
  | clear
  | done
  deriving DecidableEq, Repr

/-- `started` and `stopped`: what the runtime was asked to do. `watching`: `watchLifecycle`
waits for the exit of the sandbox. -/
structure World where
  id : Nat
  sandbox : Sandbox
  signals : ReadySignals
  pc : PC
  waiter : Waiter
  watching : Bool
  canceled : Bool
  timedOut : Bool
  started : Bool
  stopped : Bool
  deriving DecidableEq, Repr

inductive Branch
  | waitDone
  | startDone
  | ctxDone
  deriving DecidableEq, Repr

inductive Action
  | go
  | started (state : InstanceState) (ready : Bool)
  | startFailed
  | probed (ok : Bool)
  | choose (branch : Branch)
  | waiter
  | signal
  | timeout
  | cancel
  | exit

namespace World

def waitReady (w : World) : Except Fault World :=
  match w.waiter with
  | .look =>
      match w.signals.state with
      | none => .ok { w with waiter := .done }
      | some ⟨true, _⟩ => .ok { w with waiter := .take }
      | some ⟨false, true⟩ => .ok { w with waiter := .wait }
      | some ⟨false, false⟩ => .ok { w with waiter := .done }
  | .take => .ok { w with waiter := .done, signals := w.signals.delete }
  | .wait =>
      if w.signals.closed then .ok { w with waiter := .clear } else .error .disabled
  | .clear => .ok { w with waiter := .done, signals := w.signals.delete }
  | _ => .error .disabled

/-- A step that only the call takes part in. -/
def go (w : World) : Except Fault World :=
  match w.pc with
  | .addInstance => .ok { w with pc := .start, signals := w.signals.addInstance }
  | .enter state ready =>
      .ok { w with
        pc := if ready then .signalReady else .spawn
        sandbox := (w.sandbox.enter w.id state).1
        watching := true }
  | .signalReady => .ok { w with pc := .probe false, signals := w.signals.signalReady }
  | .stop err => .ok { w with pc := .remove err, stopped := true }
  | .remove err =>
      .ok { w with pc := .returned (some err), sandbox := w.sandbox.removeInstance w.id }
  | .spawn => .ok { w with pc := .select, waiter := .look }
  | .setReady => .ok { w with pc := .returned none }
  | _ => .error .disabled

/-- The last `select`. The start context ends with the caller's. -/
def choose (w : World) : Branch → Except Fault World
  | .waitDone => if w.waiter = .done then .ok { w with pc := .probe true } else .error .disabled
  | .startDone =>
      if w.timedOut ∨ w.canceled then .ok { w with pc := .stop .deadlineExceeded }
      else .error .disabled
  | .ctxDone =>
      if w.canceled then .ok { w with pc := .returned (some .canceled) } else .error .disabled

def step (w : World) : Action → Except Fault World
  | .go => w.go
  | .started state ready =>
      match w.pc with
      | .start => .ok { w with pc := .enter state ready, started := true }
      | _ => .error .disabled
  | .startFailed =>
      match w.pc with
      | .start => .ok { w with pc := .returned (some .start) }
      | _ => .error .disabled
  | .probed ok =>
      match w.pc with
      | .probe waited =>
          .ok { w with
            pc := if ok then (if waited then .setReady else .returned none)
              else .stop .unreachable }
      | _ => .error .disabled
  | .choose branch =>
      match w.pc with
      | .select => w.choose branch
      | _ => .error .disabled
  | .waiter => w.waitReady
  | .signal => .ok { w with signals := w.signals.signalReady }
  | .timeout => .ok { w with timedOut := true }
  | .cancel => .ok { w with canceled := true }
  | .exit =>
      if w.watching then
        .ok { w with
          watching := false
          sandbox := (w.sandbox.removeInstanceAndNotify w.id).1 }
      else .error .disabled

def init (id : Nat) (sandbox : Sandbox) : World where
  id := id
  sandbox := sandbox
  signals := ⟨none, false⟩
  pc := .addInstance
  waiter := .none
  watching := false
  canceled := false
  timedOut := false
  started := false
  stopped := false

/-- Nothing of the call is left. -/
structure Clean (w : World) : Prop where
  record : w.id ∉ w.sandbox.ids
  stopped : w.started = true → w.stopped = true
  entry : w.signals.state = none
  waiter : ¬ (w.waiter = .wait ∧ w.signals.closed = false)

end World

def machine : Lib.Machine World Action Fault where
  start := fun w => ∃ id sandbox, id ∉ sandbox.ids ∧ w = World.init id sandbox
  step := World.step

/-! ## The condition -/

/-- The sandbox signals while its channel is there, and not when the runtime has reported it
ready; `runtime.Start` fails, and the timeout passes, after the signal only; the caller does
not cancel. After the call has returned, time and caller are free. -/
def World.orderly (w : World) : Action → Bool
  | .signal =>
      w.signals.state == some ⟨false, true⟩ &&
        match w.pc with
        | .enter _ ready => !ready
        | .signalReady => false
        | _ => true
  | .started _ ready => !ready || w.signals.state == some ⟨false, true⟩
  | .startFailed => w.signals.state.isNone
  | .timeout =>
      match w.pc with
      | .returned _ => true
      | .addInstance => false
      | _ => w.signals.state.isNone
  | .cancel =>
      match w.pc with
      | .returned _ => true
      | _ => false
  | _ => true

/-! ## What holds on the way -/

/-- Before the record is made. -/
def PC.before : PC → Bool
  | .addInstance | .start | .enter _ _ => true
  | _ => false

/-- The runtime has reported the sandbox ready, and this is not signalled. -/
def PC.early : PC → Bool
  | .enter _ true | .signalReady => true
  | _ => false

/-- After the readiness of the sandbox, or an error. -/
def PC.after : PC → Bool
  | .probe _ | .stop _ | .remove _ | .returned (some _) => true
  | _ => false

def PC.running : PC → Bool
  | .returned _ => false
  | _ => true

/-- Waiting for the signal, and signalled. -/
def awaited : ReadySignals := ⟨some ⟨false, true⟩, false⟩

def signalled : ReadySignals := ⟨none, true⟩

namespace World

variable {w w' : World}

structure Tidy (w : World) : Prop where
  fresh : w.pc = .addInstance → w.signals = ⟨none, false⟩ ∧ w.timedOut = false
  entry : w.pc ≠ .addInstance → w.signals = awaited ∨ w.signals = signalled
  early : w.pc.early = true → w.signals = awaited
  after : w.pc.after = true → w.signals = signalled
  canceled : w.pc.running = true → w.canceled = false
  timedOut : w.pc ≠ .addInstance → w.pc.running = true → w.timedOut = true → w.signals = signalled
  idle : w.pc.before = true → w.waiter = .none ∧ w.id ∉ w.sandbox.ids
  woken : w.waiter = .clear ∨ w.waiter = .done → w.signals = signalled
  take : w.waiter ≠ .take
  starting : w.pc = .addInstance ∨ w.pc = .start → w.started = false
  removing : ∀ err, w.pc = .remove err → w.stopped = true
  failed : ∀ err, w.pc = .returned (some err) →
    w.id ∉ w.sandbox.ids ∧ (w.started = true → w.stopped = true)

theorem Tidy.clean (h : Tidy w) {err : Err} (hpc : w.pc = .returned (some err)) : Clean w := by
  have hsignals := h.after (by rw [hpc]; rfl)
  obtain ⟨hrecord, hstopped⟩ := h.failed err hpc
  refine ⟨hrecord, hstopped, by rw [hsignals]; rfl, ?_⟩
  rintro ⟨-, hclosed⟩
  rw [hsignals] at hclosed
  cases hclosed

theorem Tidy.move (h : Tidy w) (hfrom : w.pc ≠ .addInstance) (hrun : w.pc.running = true)
    {pc : PC} {sandbox : Sandbox} {watching stopped : Bool} (hbefore : pc.before = false)
    (hearly : pc.early = true → w.signals = awaited)
    (hafter : pc.after = true → w.signals = signalled)
    (hremoving : ∀ err, pc = .remove err → stopped = true)
    (hfailed : ∀ err, pc = .returned (some err) →
      w.id ∉ sandbox.ids ∧ (w.started = true → stopped = true)) :
    Tidy { w with pc := pc, sandbox := sandbox, watching := watching, stopped := stopped } where
  fresh he := by
    have he : pc = .addInstance := he
    rw [he] at hbefore
    cases hbefore
  entry _ := h.entry hfrom
  early := hearly
  after := hafter
  canceled _ := h.canceled hrun
  timedOut _ _ := h.timedOut hfrom hrun
  idle he := absurd (he.symm.trans hbefore) Bool.true_eq_false.mp
  woken := h.woken
  take := h.take
  starting he := by
    have he : pc = .addInstance ∨ pc = .start := he
    rcases he with rfl | rfl <;> cases hbefore
  removing := hremoving
  failed := hfailed

theorem Tidy.signalled (h : Tidy w) (hpc : w.pc ≠ .addInstance) (hearly : w.pc.early = false) :
    Tidy { w with signals := signalled } where
  fresh he := absurd he hpc
  entry _ := .inr rfl
  early he := absurd (he.symm.trans hearly) Bool.true_eq_false.mp
  after _ := rfl
  canceled := h.canceled
  timedOut _ _ _ := rfl
  idle := h.idle
  woken _ := rfl
  take := h.take
  starting := h.starting
  removing := h.removing
  failed := h.failed

theorem Tidy.wait (h : Tidy w) {waiter : Waiter} (hbefore : w.pc.before = false)
    (htake : waiter ≠ .take)
    (hwoken : waiter = .clear ∨ waiter = .done → w.signals = Create.signalled) :
    Tidy { w with waiter := waiter } :=
  { h with
    idle := fun he => absurd (he.symm.trans hbefore) Bool.true_eq_false.mp
    woken := hwoken
    take := htake }

theorem Tidy.addInstance (h : Tidy w) (hpc : w.pc = .addInstance) :
    Tidy { w with pc := .start, signals := w.signals.addInstance } := by
  obtain ⟨hsignals, htime⟩ := h.fresh hpc
  obtain ⟨hwaiter, hrecord⟩ := h.idle (by rw [hpc]; rfl)
  have hadded : w.signals.addInstance = awaited := by rw [hsignals]; rfl
  rw [hadded]
  exact {
    fresh := nofun
    entry := fun _ => .inl rfl
    early := nofun
    after := nofun
    canceled := fun _ => h.canceled (by rw [hpc]; rfl)
    timedOut := fun _ _ ht => absurd (ht.symm.trans htime) Bool.true_eq_false.mp
    idle := fun _ => ⟨hwaiter, hrecord⟩
    woken := fun hw => by
      have hw : w.waiter = .clear ∨ w.waiter = .done := hw
      rw [hwaiter] at hw
      rcases hw with hw | hw <;> cases hw
    take := h.take
    starting := fun _ => h.starting (.inl hpc)
    removing := nofun
    failed := nofun }

theorem Tidy.go (h : Tidy w) (hs : w.go = .ok w') : Tidy w' := by
  unfold World.go at hs
  split at hs
  · rename_i hpc
    cases hs
    exact h.addInstance hpc
  · rename_i state ready hpc
    cases hs
    refine h.move (by rw [hpc]; exact PC.noConfusion) (by rw [hpc]; rfl) ?_ (fun hearly => ?_) ?_ ?_ ?_
    · cases ready <;> rfl
    · cases ready with
      | true => exact h.early (by rw [hpc]; rfl)
      | false => cases hearly
    all_goals cases ready <;> nofun
  · -- the call signals for the sandbox
    rename_i hpc
    cases hs
    have hsignals := h.early (by rw [hpc]; rfl)
    have hsignal : w.signals.signalReady = Create.signalled := by rw [hsignals]; rfl
    rw [hsignal]
    exact {
      fresh := nofun
      entry := fun _ => .inr rfl
      early := nofun
      after := fun _ => rfl
      canceled := fun _ => h.canceled (by rw [hpc]; rfl)
      timedOut := fun _ _ _ => rfl
      idle := nofun
      woken := fun _ => rfl
      take := h.take
      starting := nofun
      removing := nofun
      failed := nofun }
  · rename_i err hpc
    cases hs
    have hsignals := h.after (by rw [hpc]; rfl)
    exact h.move (by rw [hpc]; exact PC.noConfusion) (by rw [hpc]; rfl) rfl nofun
      (fun _ => hsignals) (fun _ _ => rfl) nofun
  · rename_i err hpc
    cases hs
    have hsignals := h.after (by rw [hpc]; rfl)
    have hremoved : w.id ∉ (w.sandbox.removeInstance w.id).ids := fun hmem =>
      (Sandbox.ids_remove.mp hmem).2 rfl
    exact h.move (by rw [hpc]; exact PC.noConfusion) (by rw [hpc]; rfl) rfl nofun
      (fun _ => hsignals) nofun (fun _ _ => ⟨hremoved, fun _ => h.removing err hpc⟩)
  · rename_i hpc
    cases hs
    have hmoved : Tidy { w with pc := .select } :=
      h.move (by rw [hpc]; exact PC.noConfusion) (by rw [hpc]; rfl) rfl nofun nofun nofun nofun
    exact hmoved.wait rfl nofun nofun
  · rename_i hpc
    cases hs
    exact h.move (by rw [hpc]; exact PC.noConfusion) (by rw [hpc]; rfl) rfl nofun nofun nofun nofun
  · cases hs

theorem Tidy.choose (h : Tidy w) (hpc : w.pc = .select) {branch : Branch}
    (hs : w.choose branch = .ok w') : Tidy w' := by
  have hne : w.pc ≠ .addInstance := by rw [hpc]; exact PC.noConfusion
  have hrun : w.pc.running = true := by rw [hpc]; rfl
  have hnot := h.canceled hrun
  cases branch with
  | waitDone =>
    simp only [World.choose] at hs
    split at hs
    · rename_i hdone
      cases hs
      exact h.move hne hrun rfl nofun (fun _ => h.woken (.inr hdone)) nofun nofun
    · cases hs
  | startDone =>
    simp only [World.choose] at hs
    split at hs
    · rename_i hended
      cases hs
      have htime : w.timedOut = true := hended.resolve_right (by rw [hnot]; exact Bool.false_ne_true)
      exact h.move hne hrun rfl nofun (fun _ => h.timedOut hne hrun htime) nofun nofun
    · cases hs
  | ctxDone =>
    simp only [World.choose, hnot] at hs
    cases hs

theorem Tidy.waitReady (h : Tidy w) (hs : w.waitReady = .ok w') : Tidy w' := by
  have hbefore (hwaiter : w.waiter ≠ .none) : w.pc.before = false :=
    Bool.eq_false_iff.mpr fun hb => hwaiter (h.idle hb).1
  have hentry (hwaiter : w.waiter ≠ .none) : w.signals = awaited ∨ w.signals = Create.signalled := by
    refine h.entry fun hpc => ?_
    have hb := hbefore hwaiter
    rw [hpc] at hb
    cases hb
  unfold World.waitReady at hs
  split at hs
  · rename_i hlook
    have hne : w.waiter ≠ .none := by rw [hlook]; exact Waiter.noConfusion
    rcases hentry hne with hsig | hsig
    · have hstate : w.signals.state = some ⟨false, true⟩ := by rw [hsig]; rfl
      simp only [hstate] at hs
      cases hs
      exact h.wait (hbefore hne) nofun nofun
    · have hstate : w.signals.state = none := by rw [hsig]; rfl
      simp only [hstate] at hs
      cases hs
      exact h.wait (hbefore hne) nofun fun _ => hsig
  · rename_i htake
    exact absurd htake h.take
  · rename_i hwait
    have hne : w.waiter ≠ .none := by rw [hwait]; exact Waiter.noConfusion
    split at hs
    · rename_i hclosed
      cases hs
      refine h.wait (hbefore hne) nofun fun _ => (hentry hne).resolve_left fun hsig => ?_
      rw [hsig] at hclosed
      cases hclosed
    · cases hs
  · rename_i hclear
    have hne : w.waiter ≠ .none := by rw [hclear]; exact Waiter.noConfusion
    have hsig := h.woken (.inl hclear)
    have hdelete : w.signals.delete = w.signals := by rw [hsig]; rfl
    rw [hdelete] at hs
    cases hs
    exact h.wait (hbefore hne) nofun fun _ => hsig
  · cases hs

theorem Tidy.step (h : Tidy w) {a : Action} (hok : w.orderly a = true) (hs : w.step a = .ok w') :
    Tidy w' := by
  cases a with
  | go => exact h.go hs
  | started state ready =>
    simp only [World.step] at hs
    split at hs
    · rename_i hpc
      cases hs
      have hne : w.pc ≠ .addInstance := by rw [hpc]; exact PC.noConfusion
      exact {
        fresh := nofun
        entry := fun _ => h.entry hne
        early := fun hearly => by
          cases ready with
          | false => cases hearly
          | true =>
            refine (h.entry hne).resolve_right fun hsig => ?_
            simp [orderly, hsig, Create.signalled] at hok
        after := nofun
        canceled := fun _ => h.canceled (by rw [hpc]; rfl)
        timedOut := fun _ _ => h.timedOut hne (by rw [hpc]; rfl)
        idle := fun _ => h.idle (by rw [hpc]; rfl)
        woken := h.woken
        take := h.take
        starting := nofun
        removing := nofun
        failed := nofun }
    · cases hs
  | startFailed =>
    simp only [World.step] at hs
    split at hs
    · rename_i hpc
      cases hs
      have hne : w.pc ≠ .addInstance := by rw [hpc]; exact PC.noConfusion
      have hsig : w.signals = Create.signalled := by
        refine (h.entry hne).resolve_left fun hsig => ?_
        simp [orderly, hsig, awaited] at hok
      have hrecord := (h.idle (by rw [hpc]; rfl)).2
      have hnot := h.starting (.inr hpc)
      exact h.move hne (by rw [hpc]; rfl) rfl nofun (fun _ => hsig) nofun
        (fun _ _ => ⟨hrecord, fun hst => absurd (hst.symm.trans hnot) Bool.true_eq_false.mp⟩)
    · cases hs
  | probed ok =>
    simp only [World.step] at hs
    split at hs
    · rename_i waited hpc
      cases hs
      have hsig := h.after (by rw [hpc]; rfl)
      refine h.move (by rw [hpc]; exact PC.noConfusion) (by rw [hpc]; rfl) ?_ ?_ (fun _ => hsig) ?_ ?_
      · cases ok <;> cases waited <;> rfl
      all_goals cases ok <;> cases waited <;> nofun
    · cases hs
  | choose branch =>
    simp only [World.step] at hs
    split at hs
    · rename_i hpc
      exact h.choose hpc hs
    · cases hs
  | waiter => exact h.waitReady hs
  | signal =>
    cases hs
    simp only [orderly, Bool.and_eq_true, beq_iff_eq] at hok
    have hne : w.pc ≠ .addInstance := fun hpc => by
      rw [(h.fresh hpc).1] at hok
      cases hok.1
    have hsig : w.signals = awaited := (h.entry hne).resolve_right fun hsig => by
      rw [hsig] at hok
      cases hok.1
    have hearly : w.pc.early = false := by
      cases hpc : w.pc with
      | enter state ready =>
        cases ready with
        | false => rfl
        | true => simp [hpc] at hok
      | signalReady => simp [hpc] at hok
      | _ => rfl
    have hsignal : w.signals.signalReady = Create.signalled := by rw [hsig]; rfl
    rw [hsignal]
    exact h.signalled hne hearly
  | timeout =>
    cases hs
    refine { h with fresh := fun hpc => ?_, timedOut := fun hne hrun _ => ?_ }
    · have hpc : w.pc = .addInstance := hpc
      simp [orderly, hpc] at hok
    · refine (h.entry hne).resolve_left fun hsig => ?_
      have hrun : w.pc.running = true := hrun
      have hne : w.pc ≠ .addInstance := hne
      cases hpc : w.pc with
      | returned e =>
        rw [hpc] at hrun
        cases hrun
      | addInstance => exact hne hpc
      | _ => simp [orderly, hpc, hsig, awaited] at hok
  | cancel =>
    cases hs
    refine { h with canceled := fun hrun => ?_ }
    have hrun : w.pc.running = true := hrun
    cases hpc : w.pc with
    | returned e =>
      rw [hpc] at hrun
      cases hrun
    | _ => simp [orderly, hpc] at hok
  | exit =>
    simp only [World.step] at hs
    split at hs
    · cases hs
      have hless : w.id ∉ (w.sandbox.removeInstanceAndNotify w.id).1.ids := fun hmem =>
        (Sandbox.ids_remove.mp hmem).2 rfl
      exact { h with
        idle := fun hb => ⟨(h.idle hb).1, hless⟩
        failed := fun err he => ⟨hless, (h.failed err he).2⟩ }
    · cases hs

theorem init_tidy {id : Nat} {sandbox : Sandbox} (hid : id ∉ sandbox.ids) :
    Tidy (init id sandbox) where
  fresh _ := ⟨rfl, rfl⟩
  entry he := absurd rfl he
  early := nofun
  after := nofun
  canceled _ := rfl
  timedOut he := absurd rfl he
  idle _ := ⟨rfl, hid⟩
  woken := nofun
  take := nofun
  starting _ := rfl
  removing := nofun
  failed := nofun

end World

/-- **A failed call leaves nothing behind.** -/
theorem failed_create_clean {w : World}
    (hw : machine.ReachesWhile (fun w a => w.orderly a = true) w) {err : Err}
    (herr : w.pc = .returned (some err)) : w.Clean := by
  have htidy : w.Tidy := by
    refine hw.invariant (I := World.Tidy) ?_ fun _ _ _ hi hok hs => hi.step hok hs
    rintro _ ⟨id, sandbox, hid, rfl⟩
    exact World.init_tidy hid
  exact htidy.clean herr

def aState : InstanceState := ⟨1, 1, 1, "", "http", 1, 1, 0⟩

/-- The sandbox signals and the probe of its port fails. -/
theorem failed_create_clean_unreachable :
    ∃ w, machine.ReachesWhile (fun w a => w.orderly a = true) w ∧
      w.pc = .returned (some .unreachable) ∧ w.started = true ∧ w.Clean := by
  obtain ⟨w, hw, hpc, hstarted⟩ := machine.exists_while_of_run (P := fun w a => w.orderly a = true)
    (Q := fun w => w.pc = .returned (some .unreachable) ∧ w.started = true) (.init 1 .newSandbox)
    [.go, .started aState false, .go, .go, .waiter, .signal, .waiter, .waiter, .choose .waitDone,
      .probed false, .go, .go] ⟨1, _, List.not_mem_nil, rfl⟩ (by decide +kernel)
  exact ⟨w, hw, hpc, hstarted, failed_create_clean hw hpc⟩

/-- The caller cancels while the call waits, and the `select` takes the caller's context:
the record, the sandbox, the entry and the goroutine all stay. -/
theorem cancelled_create_leaks :
    ∃ w, machine.Reachable w ∧ w.pc = .returned (some .canceled) ∧ w.id ∈ w.sandbox.ids ∧
      (w.started = true ∧ w.stopped = false) ∧ w.signals.state ≠ none ∧
      (w.waiter = .wait ∧ w.signals.closed = false) := by
  exact machine.exists_of_run (.init 1 .newSandbox)
    [.go, .started aState false, .go, .go, .waiter, .cancel, .choose .ctxDone]
    ⟨1, _, List.not_mem_nil, rfl⟩ (by decide +kernel)

end HyperFaaS.Worker.Create
