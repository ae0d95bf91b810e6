import HyperFaaS.Lib.Machine

/-!
The health stream of a worker: the sampler of `WatchState` with `sendState` (health.go),
its channel of one place, and the handler that reads it (server.go). The stream's context
may end at any time.

Proved here (`sampler_not_wedged`): the sampler never waits on its own channel with nobody
to wake it, if the handler takes no update between the sampler's finding the channel full
and its taking the old update out. When it does, the sampler waits for an update that only
it could send, and the end of the context does not wake it (`sampler_wedged`).

Updates and errors are arbitrary.
-/

namespace HyperFaaS.Worker.Health

inductive Fault
  | disabled
  deriving DecidableEq, Repr

/-- The places of the sampler; those with a state are in `sendState`. -/
inductive Sampler (State : Type)
  | sampling
  | offering (state : State)
  | draining (state : State)
  | replacing (state : State)
  | waiting
  | ended
  deriving DecidableEq, Repr

inductive Handler (State : Type)
  | receiving
  | sending (state : State)
  | returned
  deriving DecidableEq, Repr

/-- `errsNil`: the handler has seen `errs` closed and reads it no more. -/
structure World (State Err : Type) where
  cancelled : Bool
  updates : Option State
  errs : Option Err
  errsNil : Bool
  sampler : Sampler State
  handler : Handler State
  deriving DecidableEq, Repr

inductive Action (State Err : Type)
  | cancel
  | sample (result : Except Err State)
  | offer
  | drain
  | replace
  | tick
  | finish
  | take
  | takeErr
  | seeUpdatesClosed
  | seeErrsClosed
  | send (ok : Bool)
  | leave

namespace World

variable {State Err : Type}

/-- `currentState`, and what `sendState` does with an error. -/
def sample (w : World State Err) (result : Except Err State) : World State Err :=
  match result with
  | .ok state => { w with sampler := .offering state }
  | .error e =>
      { w with sampler := .waiting, errs := if w.errs.isNone then some e else w.errs }

def step (w : World State Err) : Action State Err → Except Fault (World State Err)
  | .cancel => .ok { w with cancelled := true }
  | .sample result =>
      match w.sampler with
      | .sampling => .ok (w.sample result)
      | _ => .error .disabled
  | .offer =>
      -- the `select` of `sendState`
      match w.sampler, w.updates with
      | .offering state, none => .ok { w with sampler := .waiting, updates := some state }
      | .offering state, some _ => .ok { w with sampler := .draining state }
      | _, _ => .error .disabled
  | .drain =>
      match w.sampler, w.updates with
      | .draining state, some _ => .ok { w with sampler := .replacing state, updates := none }
      | _, _ => .error .disabled
  | .replace =>
      match w.sampler, w.updates with
      | .replacing state, none => .ok { w with sampler := .waiting, updates := some state }
      | _, _ => .error .disabled
  | .tick =>
      match w.sampler with
      | .waiting => .ok { w with sampler := .sampling }
      | _ => .error .disabled
  | .finish =>
      match w.sampler, w.cancelled with
      | .waiting, true => .ok { w with sampler := .ended }
      | _, _ => .error .disabled
  | .take =>
      match w.handler, w.updates with
      | .receiving, some state => .ok { w with handler := .sending state, updates := none }
      | _, _ => .error .disabled
  | .takeErr =>
      match w.handler, w.errsNil, w.errs with
      | .receiving, false, some _ => .ok { w with handler := .returned, errs := none }
      | _, _, _ => .error .disabled
  | .seeUpdatesClosed =>
      -- the sampler's end closes both channels; what they hold is read first
      match w.handler, w.sampler, w.updates with
      | .receiving, .ended, none => .ok { w with handler := .returned }
      | _, _, _ => .error .disabled
  | .seeErrsClosed =>
      match w.handler, w.sampler, w.errsNil, w.errs with
      | .receiving, .ended, false, none => .ok { w with errsNil := true }
      | _, _, _, _ => .error .disabled
  | .send ok =>
      match w.handler with
      | .sending _ => .ok { w with handler := if ok then .receiving else .returned }
      | _ => .error .disabled
  | .leave =>
      match w.handler, w.cancelled with
      | .receiving, true => .ok { w with handler := .returned }
      | _, _ => .error .disabled

def init : World State Err where
  cancelled := false
  updates := none
  errs := none
  errsNil := false
  sampler := .sampling
  handler := .receiving

/-- The sampler is at an operation on its channel that cannot be made now. -/
def blocked (w : World State Err) : Prop :=
  match w.sampler with
  | .draining _ => w.updates = none
  | .replacing _ => w.updates ≠ none
  | _ => False

end World

def machine (State Err : Type) : Lib.Machine (World State Err) (Action State Err) Fault where
  start := fun w => w = World.init
  step := World.step

section Wedge

variable {State Err : Type} {w w' : World State Err}

/-- The steps of the others: the handler, and the end of the context. -/
def Action.foreign : Action State Err → Bool
  | .sample _ | .offer | .drain | .replace | .tick | .finish => false
  | _ => true

/-- The sampler is blocked, and so it stays whatever the others do. -/
def World.Wedged (w : World State Err) : Prop :=
  ∀ l w', (machine State Err).Path (fun _ a => a.foreign = true) w l w' → w'.blocked

/-- The handler leaves an update that the sampler is about to take out. -/
def World.patient (w : World State Err) : Action State Err → Bool
  | .take =>
      match w.sampler with
      | .draining _ => false
      | _ => true
  | _ => true

/-- At its own channel the sampler can go on. -/
structure World.Flows (w : World State Err) : Prop where
  draining : ∀ state, w.sampler = .draining state → w.updates ≠ none
  replacing : ∀ state, w.sampler = .replacing state → w.updates = none

theorem World.Flows.not_blocked (h : w.Flows) : ¬ w.blocked := by
  unfold blocked
  cases hs : w.sampler with
  | draining state => exact h.draining state hs
  | replacing state => exact fun hne => hne (h.replacing state hs)
  | _ => exact id

theorem World.flows_of_sampler (h : w.Flows) (hs : w'.sampler = w.sampler)
    (hu : w'.updates = w.updates) : w'.Flows := by
  constructor
  · intro state hstate
    rw [hu]
    exact h.draining state (hs ▸ hstate)
  · intro state hstate
    rw [hu]
    exact h.replacing state (hs ▸ hstate)

theorem World.flows_away (hd : ∀ state, w.sampler ≠ .draining state)
    (hr : ∀ state, w.sampler ≠ .replacing state) : w.Flows :=
  ⟨fun state hs => absurd hs (hd state), fun state hs => absurd hs (hr state)⟩

theorem World.Flows.step (h : w.Flows) {a : Action State Err} (hok : w.patient a = true)
    (hstep : w.step a = .ok w') : w'.Flows := by
  cases a with
  | cancel =>
    cases hstep
    exact flows_of_sampler h rfl rfl
  | sample result =>
    simp only [World.step] at hstep
    split at hstep
    · cases hstep
      unfold World.sample
      cases result with
      | ok state => exact flows_away nofun nofun
      | error e => exact flows_away nofun nofun
    · cases hstep
  | offer =>
    simp only [World.step] at hstep
    split at hstep
    · cases hstep
      exact flows_away nofun nofun
    · rename_i hfull
      cases hstep
      refine ⟨fun state _ => ?_, nofun⟩
      rw [hfull]
      exact Option.some_ne_none _
    · cases hstep
  | drain =>
    simp only [World.step] at hstep
    split at hstep
    · cases hstep
      exact ⟨nofun, fun state _ => rfl⟩
    · cases hstep
  | replace =>
    simp only [World.step] at hstep
    split at hstep
    · cases hstep
      exact flows_away nofun nofun
    · cases hstep
  | tick =>
    simp only [World.step] at hstep
    split at hstep
    · cases hstep
      exact flows_away nofun nofun
    · cases hstep
  | finish =>
    simp only [World.step] at hstep
    split at hstep
    · cases hstep
      exact flows_away nofun nofun
    · cases hstep
  | take =>
    simp only [World.step] at hstep
    split at hstep
    · cases hstep
      refine ⟨fun state hs => ?_, fun state _ => rfl⟩
      have hs : w.sampler = .draining state := hs
      simp [World.patient, hs] at hok
    · cases hstep
  | takeErr =>
    simp only [World.step] at hstep
    split at hstep
    · cases hstep
      exact flows_of_sampler h rfl rfl
    · cases hstep
  | seeUpdatesClosed =>
    simp only [World.step] at hstep
    split at hstep
    · cases hstep
      exact flows_of_sampler h rfl rfl
    · cases hstep
  | seeErrsClosed =>
    simp only [World.step] at hstep
    split at hstep
    · cases hstep
      exact flows_of_sampler h rfl rfl
    · cases hstep
  | send ok =>
    simp only [World.step] at hstep
    split at hstep
    · cases hstep
      exact flows_of_sampler h rfl rfl
    · cases hstep
  | leave =>
    simp only [World.step] at hstep
    split at hstep
    · cases hstep
      exact flows_of_sampler h rfl rfl
    · cases hstep

/-- **The sampler goes on.** -/
theorem sampler_not_wedged
    (hw : (machine State Err).ReachesWhile (fun w a => w.patient a = true) w) : ¬ w.Wedged := by
  have hflows : w.Flows := by
    refine hw.invariant ?_ fun _ _ _ hi hok hs => World.Flows.step hi hok hs
    rintro _ rfl
    exact World.flows_away nofun nofun
  intro hwedged
  exact hflows.not_blocked (hwedged [] w (.nil w))

/-- A slow handler: the sampler replaces its update. -/
theorem sampler_not_wedged_slow :
    ∃ w : World Nat Nat, (machine Nat Nat).ReachesWhile (fun w a => w.patient a = true) w ∧
      w.updates = some 2 ∧ ¬ w.Wedged := by
  obtain ⟨w, hw, hu⟩ := (machine Nat Nat).exists_while_of_run (P := fun w a => w.patient a = true)
    (Q := fun w => w.updates = some 2) .init
    [.sample (.ok 1), .offer, .tick, .sample (.ok 2), .offer, .drain, .replace] rfl
    (by decide +kernel)
  exact ⟨w, hw, hu, sampler_not_wedged hw⟩

/-- An empty channel that only the sampler could fill. -/
theorem wedged_of_draining {state : State} (hs : w.sampler = .draining state)
    (hu : w.updates = none) : w.Wedged := by
  intro l w' hpath
  have hstay : w'.sampler = .draining state ∧ w'.updates = none := by
    refine hpath.invariant (I := fun v => v.sampler = .draining state ∧ v.updates = none)
      ?_ ⟨hs, hu⟩
    rintro v a v' ⟨hsv, huv⟩ hforeign hstep
    have hstep : v.step a = .ok v' := hstep
    cases a with
    | cancel =>
      cases hstep
      exact ⟨hsv, huv⟩
    | take => simp [World.step, huv] at hstep
    | takeErr =>
      simp only [World.step] at hstep
      split at hstep
      · cases hstep
        exact ⟨hsv, huv⟩
      · cases hstep
    | seeUpdatesClosed => simp [World.step, hsv] at hstep
    | seeErrsClosed => simp [World.step, hsv] at hstep
    | send ok =>
      simp only [World.step] at hstep
      split at hstep
      · cases hstep
        exact ⟨hsv, huv⟩
      · cases hstep
    | leave =>
      simp only [World.step] at hstep
      split at hstep
      · cases hstep
        exact ⟨hsv, huv⟩
      · cases hstep
    | _ => cases hforeign
  unfold World.blocked
  rw [hstay.1]
  exact hstay.2

/-- The handler takes the old update in between. -/
theorem sampler_wedged :
    ∃ w : World Nat Nat, (machine Nat Nat).Reachable w ∧ w.Wedged := by
  obtain ⟨w, hw, hs, hu⟩ := (machine Nat Nat).exists_of_run
    (Q := fun w => w.sampler = .draining 2 ∧ w.updates = none) .init
    [.sample (.ok 1), .offer, .tick, .sample (.ok 2), .offer, .take] rfl (by decide +kernel)
  exact ⟨w, hw, wedged_of_draining hs hu⟩

end Wedge

end HyperFaaS.Worker.Health
