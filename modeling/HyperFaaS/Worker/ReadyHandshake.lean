import HyperFaaS.Worker.CreateSandbox

/-!
The readiness handshake (ready_signals.go) of one instance id: one `AddInstance`, then one
`WaitReady`, and calls of `SignalReady` at any time. A call of `SignalReady` closes the channel
after its critical section, and `WaitReady` looks at the state it has read outside of it. The map
holds pointers, so the states live in a table; `AddInstance` makes the only channel.

Proved here (`ready_handshake`): `WaitReady` does not return before a signal, no channel is closed
twice, and after a signal `WaitReady` goes on, unless a call is about to close the channel.
-/

namespace HyperFaaS.Worker.Handshake

open Create (ReadyState Fault)
open Function (update)

/-- The places of `WaitReady`; `loaded` and `checked` have the state that was read. -/
inductive Waiter
  | none
  | read
  | loaded (p : Nat)
  | checked (p : Nat)
  | blocked
  | delete
  | returned
  deriving DecidableEq, Repr

/-- `closing`: the `SignalReady` calls between their section and `close`. `signalled`: those that
have had their section. -/
structure World where
  entry : Option Nat
  states : Nat → ReadyState
  nstates : Nat
  added : Bool
  closing : Nat
  closes : Nat
  signalled : Nat
  waiter : Waiter

inductive Action
  | addInstance
  | signalReady
  | close
  | waitReady
  | advance
  deriving DecidableEq, Repr

namespace World

def init : World := ⟨none, fun _ => ⟨false, false⟩, 0, false, 0, 0, 0, .none⟩

def push (w : World) (state : ReadyState) : World :=
  { w with
    entry := some w.nstates
    states := update w.states w.nstates state
    nstates := w.nstates + 1 }

def addInstance (w : World) : World :=
  match w.entry with
  | none => w.push ⟨false, true⟩
  | some p =>
      if (w.states p).ready then { w with entry := none }
      else { w with states := update w.states p { w.states p with ch := true } }

/-- The critical section of `SignalReady`; two of its branches return there. -/
def signalReady (w : World) : World :=
  match w.entry with
  | none => w.push ⟨true, false⟩
  | some p =>
      if (w.states p).ch then { w with entry := none, closing := w.closing + 1 }
      else { w with states := update w.states p { w.states p with ready := true } }

def advance (w : World) : Except Fault World :=
  match w.waiter with
  | .read =>
      match w.entry with
      | none => .ok { w with waiter := .returned }
      | some p => .ok { w with waiter := .loaded p }
  | .loaded p => .ok { w with waiter := if (w.states p).ready then .delete else .checked p }
  | .checked p => .ok { w with waiter := if (w.states p).ch then .blocked else .returned }
  | .blocked => if 0 < w.closes then .ok { w with waiter := .delete } else .error .disabled
  | .delete => .ok { w with entry := none, waiter := .returned }
  | .none | .returned => .error .disabled

def step (w : World) : Action → Except Fault World
  | .addInstance => if w.added then .error .disabled else .ok { w.addInstance with added := true }
  | .signalReady => .ok { w.signalReady with signalled := w.signalled + 1 }
  | .close =>
      if w.closing = 0 then .error .disabled
      else .ok { w with closing := w.closing - 1, closes := w.closes + 1 }
  | .waitReady =>
      if w.added = true ∧ w.waiter = .none then .ok { w with waiter := .read }
      else .error .disabled
  | .advance => w.advance

end World

def machine : Lib.Machine World Action Fault where
  start := fun w => w = World.init
  step := World.step

/-! ## The invariant -/

/-- What a place of `WaitReady` knows. -/
def World.Knows (w : World) : Waiter → Prop
  | .none | .read => True
  | .loaded p => p < w.nstates
  | .checked p => p < w.nstates ∧ w.states p = ⟨false, true⟩
  | .blocked => ∃ p < w.nstates, w.states p = ⟨false, true⟩
  | .delete | .returned => 0 < w.signalled

/-- Every state has a channel or is ready; the entry has its channel until the first signal, which
takes it over for closing. -/
structure World.Inv (w : World) : Prop where
  quiet : w.signalled = 0 → w.closing = 0 ∧ w.closes = 0
  once : w.closing + w.closes ≤ 1
  entry : ∀ p, w.entry = some p → p < w.nstates ∧
    w.states p = if w.signalled = 0 then ⟨false, true⟩ else ⟨true, false⟩
  absent : w.added = false → w.waiter = .none ∧ (w.entry = none ↔ w.signalled = 0)
  present : w.added = true → w.signalled = 0 → w.entry ≠ none
  kinds : ∀ p < w.nstates,
    w.states p = ⟨false, true⟩ ∧ w.added = true ∧ (0 < w.signalled → w.closing + w.closes = 1) ∨
      w.states p = ⟨true, false⟩ ∧ 0 < w.signalled
  waiter : w.Knows w.waiter

namespace World

variable {w t : World}

theorem Knows.mono {x : Waiter} (h : w.Knows x) (hn : w.nstates ≤ t.nstates)
    (hstates : ∀ p < w.nstates, w.states p = ⟨false, true⟩ → t.states p = ⟨false, true⟩)
    (hsignalled : w.signalled ≤ t.signalled) : t.Knows x := by
  cases x with
  | none | read => trivial
  | loaded p => exact Nat.lt_of_lt_of_le h hn
  | checked p => exact ⟨Nat.lt_of_lt_of_le h.1 hn, hstates p h.1 h.2⟩
  | blocked =>
    obtain ⟨p, hp, hch⟩ := h
    exact ⟨p, Nat.lt_of_lt_of_le hp hn, hstates p hp hch⟩
  | delete | returned => exact Nat.lt_of_lt_of_le h hsignalled

theorem Inv.addInstance (h : w.Inv) (hadded : w.added = false) :
    Inv { w.addInstance with added := true } := by
  obtain ⟨hwaiter, hentry⟩ := h.absent hadded
  have hq := h.quiet
  have hk := h.kinds
  have hw : Knows { w.addInstance with added := true } w.waiter := by rw [hwaiter]; trivial
  unfold World.addInstance push at hw ⊢
  cases hp : w.entry with
  | none =>
    have hs := hentry.1 hp
    simp only [hp] at hw ⊢
    constructor <;> grind
  | some p =>
    have he := h.entry p hp
    have hs : w.signalled ≠ 0 := fun hs => by grind
    rw [if_neg hs] at he
    simp only [hp, he.2, if_pos] at hw ⊢
    constructor <;> grind [h.once]

theorem Inv.signalReady (h : w.Inv) : Inv { w.signalReady with signalled := w.signalled + 1 } := by
  have hq := h.quiet
  have hk := h.kinds
  have ha := h.absent
  have hp := h.present
  unfold World.signalReady push
  cases hentry : w.entry with
  | none =>
    refine ⟨by simp, h.once, ?_, ?_, by simp, ?_, h.waiter.mono (Nat.le_succ _) ?_ (Nat.le_succ _)⟩ <;>
      grind
  | some p =>
    have he := h.entry p hentry
    rcases Nat.eq_zero_or_pos w.signalled with hzero | hpos
    · -- the first signal takes the channel
      rw [if_pos hzero] at he
      simp only [he.2, if_pos]
      refine ⟨by simp, ?_, by simp, ?_, by simp, ?_, h.waiter.mono (Nat.le_refl _) (fun _ _ => id)
        (Nat.le_succ _)⟩ <;> grind
    · rw [if_neg hpos.ne'] at he
      simp only [he.2, Bool.false_eq_true, if_false]
      refine ⟨by simp, h.once, ?_, ?_, by simp, ?_, h.waiter.mono (Nat.le_refl _) ?_
        (Nat.le_succ _)⟩ <;> grind

theorem Inv.goTo (h : w.Inv) {x : Waiter} (hadded : w.added = true) (hk : w.Knows x) :
    Inv { w with waiter := x } :=
  { h with absent := fun ha => by simp [hadded] at ha, waiter := hk }

theorem Inv.advance (h : w.Inv) (hs : w.advance = .ok t) : t.Inv := by
  have hadded : w.added = true := by
    refine eq_true_of_ne_false fun ha => ?_
    rw [World.advance, (h.absent ha).1] at hs
    cases hs
  have hk := h.waiter
  unfold World.advance at hs
  cases hpc : w.waiter <;> simp only [hpc] at hs hk
  case read =>
    have hp := h.present hadded
    split at hs <;> rename_i hentry <;> cases hs
    · exact h.goTo hadded (Nat.pos_of_ne_zero fun hz => hp hz hentry)
    · exact h.goTo hadded (h.entry _ hentry).1
  case loaded p =>
    cases hs
    refine h.goTo hadded ?_
    rcases h.kinds p hk with ⟨hch, -⟩ | ⟨hready, hpos⟩
    · simpa [hch] using ⟨hk, hch⟩
    · rw [hready]
      exact hpos
  case checked p =>
    cases hs
    refine h.goTo hadded ?_
    simpa [hk.2] using ⟨p, hk⟩
  case blocked =>
    split_ifs at hs with hclosed
    cases hs
    exact h.goTo hadded (Nat.pos_of_ne_zero fun hz => Nat.ne_of_gt hclosed (h.quiet hz).2)
  case delete =>
    cases hs
    exact { h.goTo hadded (x := .returned) hk with
      entry := by simp
      absent := fun ha => by simp [hadded] at ha
      present := fun _ hz => absurd hz (Nat.ne_of_gt hk) }
  all_goals cases hs

theorem Inv.step (h : w.Inv) {a : Action} (hs : w.step a = .ok t) : t.Inv := by
  cases a with
  | addInstance =>
    simp only [World.step] at hs
    split_ifs at hs with hadded
    cases hs
    exact h.addInstance (eq_false_of_ne_true hadded)
  | signalReady =>
    cases hs
    exact h.signalReady
  | close =>
    simp only [World.step] at hs
    split_ifs at hs with hclosing
    cases hs
    have hsignalled : w.signalled ≠ 0 := fun hz => hclosing (h.quiet hz).1
    have ho := h.once
    exact { h with
      quiet := fun hz => absurd hz hsignalled
      once := by grind
      kinds := fun p hp => by have := h.kinds p hp; grind }
  | waitReady =>
    simp only [World.step] at hs
    split_ifs at hs with hcall
    cases hs
    exact h.goTo hcall.1 trivial
  | advance => exact h.advance hs

end World

/-- **The readiness handshake.** -/
theorem ready_handshake {w : World} (hw : machine.Reachable w) :
    (w.waiter = .returned → 0 < w.signalled) ∧ w.closes ≤ 1 ∧
      (0 < w.signalled → w.closing = 0 → w.waiter ≠ .none → w.waiter ≠ .returned →
        ∃ t, w.step .advance = .ok t) := by
  have h : w.Inv := hw.invariant (I := World.Inv)
    (by
      rintro _ rfl
      constructor <;> simp [World.init, World.Knows])
    fun _ _ _ h hs => h.step hs
  have hk := h.waiter
  refine ⟨fun hret => ?_, by have := h.once; omega, fun hsignalled hclosing hcalled hleft => ?_⟩
  · rwa [hret] at hk
  · simp only [World.step, World.advance]
    cases hpc : w.waiter with
    | none => exact absurd hpc hcalled
    | returned => exact absurd hpc hleft
    | read => cases w.entry <;> exact ⟨_, rfl⟩
    | loaded p | checked p | delete => exact ⟨_, rfl⟩
    | blocked =>
      rw [hpc] at hk
      obtain ⟨p, hp, hch⟩ := hk
      -- the signal has taken the channel over, and no call is left to close it
      have hclosed : 0 < w.closes := by
        have := h.kinds p hp
        grind
      exact ⟨_, if_pos hclosed⟩

/-- The signal comes while `WaitReady` looks at the state. -/
theorem ready_handshake_returned : ∃ w, machine.Reachable w ∧ w.waiter = .returned ∧
    0 < w.signalled := by
  obtain ⟨w, hw, h⟩ := machine.exists_of_run (Q := fun w => w.waiter = .returned) World.init
    [.addInstance, .waitReady, .advance, .signalReady, .close, .advance, .advance, .advance,
      .advance] rfl (by decide +kernel)
  exact ⟨w, hw, h, (ready_handshake hw).1 h⟩

end HyperFaaS.Worker.Handshake
