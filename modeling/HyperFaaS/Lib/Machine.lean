import Mathlib.Algebra.BigOperators.Group.List.Basic
import Mathlib.Algebra.Order.Ring.Nat

/-!
Machines with partial steps. A step either reaches a new state or stops with a
reason; a reason may say that the action was not enabled, or that running it
would be a fault. Proved here, for every machine:

* `ReachesWhile.invariant`: what holds at the start and is kept by every step
  that meets a side condition holds in every state such steps reach;
* `reachesWhile_of_run`: a computed run gives a reached state;
* `ReachesWhile.watch_invariant`: the same for a machine with a record of its run;
* `Path.potential`: along a path, what the steps gain is paid for by a potential
  and by what the steps pay.
-/

namespace Lib

/-- Start states and a step function; `E` names the reasons a step can fail. -/
structure Machine (S A E : Type) where
  start : S → Prop
  step : S → A → Except E S

namespace Machine

/-- States reached from a start state by steps that all meet `ok`, a condition
on the action and the state before it. -/
inductive ReachesWhile {S A E : Type} (m : Machine S A E) (ok : S → A → Prop) : S → Prop
  | start {s : S} : m.start s → ReachesWhile m ok s
  | next {s t : S} {a : A} : ReachesWhile m ok s → ok s a → m.step s a = .ok t →
      ReachesWhile m ok t

/-- Reached by any steps at all. -/
def Reachable {S A E : Type} (m : Machine S A E) : S → Prop :=
  m.ReachesWhile (fun _ _ => True)

/-- **Invariant rule.** The step premise may use the side condition. -/
theorem ReachesWhile.invariant {S A E : Type} {m : Machine S A E} {ok : S → A → Prop}
    {I : S → Prop} (hstart : ∀ s, m.start s → I s)
    (hstep : ∀ s a t, I s → ok s a → m.step s a = .ok t → I t)
    {s : S} (h : m.ReachesWhile ok s) : I s := by
  induction h with
  | start hs => exact hstart _ hs
  | next _ hok hs ih => exact hstep _ _ _ ih hok hs

theorem Reachable.invariant {S A E : Type} {m : Machine S A E}
    {I : S → Prop} (hstart : ∀ s, m.start s → I s)
    (hstep : ∀ s a t, I s → m.step s a = .ok t → I t)
    {s : S} (h : m.Reachable s) : I s :=
  ReachesWhile.invariant hstart (fun s a t hi _ hs => hstep s a t hi hs) h

theorem ReachesWhile.reachable {S A E : Type} {m : Machine S A E} {ok : S → A → Prop}
    {s : S} (h : m.ReachesWhile ok s) : m.Reachable s := by
  induction h with
  | start hs => exact .start hs
  | next _ _ hs ih => exact .next ih trivial hs

theorem Reachable.step {S A E : Type} {m : Machine S A E} {s t : S} {a : A}
    (h : m.Reachable s) (hs : m.step s a = .ok t) : m.Reachable t :=
  .next h trivial hs

/-- Run a list of actions, each of which has to pass the check `ok`. -/
def run {S A E : Type} (m : Machine S A E) (ok : S → A → Bool) : S → List A → Option S
  | s, [] => some s
  | s, a :: as =>
      if ok s a then
        match m.step s a with
        | .ok t => m.run ok t as
        | .error _ => none
      else none

theorem reachesWhile_of_run {S A E : Type} (m : Machine S A E) {ok : S → A → Prop}
    {k : S → A → Bool} (hok : ∀ s a, k s a = true → ok s a) (as : List A) (s t : S)
    (hs : m.ReachesWhile ok s) (h : m.run k s as = some t) : m.ReachesWhile ok t := by
  induction as generalizing s with
  | nil =>
    simp only [run, Option.some.injEq] at h
    exact h ▸ hs
  | cons a as ih =>
    simp only [run] at h
    split at h
    · rename_i hc
      cases ha : m.step s a with
      | error e => simp [ha] at h
      | ok u =>
        simp only [ha] at h
        exact ih u (.next hs (hok s a hc) ha) h
    · simp at h

/-- Does the run finish in a state that passes the test? -/
def runTest {S A E : Type} (m : Machine S A E) (ok : S → A → Bool) (s : S) (as : List A)
    (test : S → Bool) : Bool :=
  (m.run ok s as).any test

/-- What a computed run ends in is reached by such runs. -/
theorem exists_while_of_runTest {S A E : Type} (m : Machine S A E) {P : S → A → Prop}
    {Q : S → Prop} [DecidablePred Q] {k : S → A → Bool} (hok : ∀ s a, k s a = true → P s a)
    (s : S) (as : List A) (hs : m.start s)
    (h : m.runTest k s as (fun t => decide (Q t)) = true) : ∃ t, m.ReachesWhile P t ∧ Q t := by
  unfold runTest at h
  cases hr : m.run k s as with
  | none => simp [hr] at h
  | some t =>
    simp only [hr, Option.any_some, decide_eq_true_eq] at h
    exact ⟨t, reachesWhile_of_run m hok as s t (.start hs) hr, h⟩

theorem exists_while_of_run {S A E : Type} (m : Machine S A E) {P : S → A → Prop} {Q : S → Prop}
    [∀ s a, Decidable (P s a)] [DecidablePred Q] (s : S) (as : List A) (hs : m.start s)
    (h : m.runTest (fun s a => decide (P s a)) s as (fun t => decide (Q t)) = true) :
    ∃ t, m.ReachesWhile P t ∧ Q t :=
  exists_while_of_runTest m (fun _ _ => of_decide_eq_true) s as hs h

theorem exists_of_run {S A E : Type} (m : Machine S A E) {Q : S → Prop} [DecidablePred Q]
    (s : S) (as : List A) (hs : m.start s)
    (h : m.runTest (fun _ _ => true) s as (fun t => decide (Q t)) = true) :
    ∃ t, m.Reachable t ∧ Q t :=
  exists_while_of_run m s as hs h

/-- One more step can be part of what is computed. -/
instance {S E : Type} (x : Except E S) (Q : S → Prop) [DecidablePred Q] :
    Decidable (∃ t, x = .ok t ∧ Q t) :=
  match x with
  | .error _ => .isFalse (by rintro ⟨_, h, _⟩; cases h)
  | .ok t => decidable_of_iff (Q t) ⟨fun h => ⟨t, rfl, h⟩, by rintro ⟨_, ⟨⟩, h⟩; exact h⟩

/-! ## Records beside a run -/

/-- The machine with a record of its run beside the state. No step reads the record; `note` says
what a step adds to it. -/
def watch {S A E G : Type} (m : Machine S A E) (first : S → G → Prop) (note : G → S → A → S → G) :
    Machine (S × G) A E where
  start := fun x => m.start x.1 ∧ first x.1 x.2
  step := fun x a => (m.step x.1 a).map fun t => (t, note x.2 x.1 a t)

section Watch

variable {S A E G : Type} {m : Machine S A E} {first : S → G → Prop} {note : G → S → A → S → G}
  {ok : S × G → A → Prop}

theorem watch_step {x y : S × G} {a : A} (h : (m.watch first note).step x a = .ok y) :
    m.step x.1 a = .ok y.1 ∧ y.2 = note x.2 x.1 a y.1 := by
  cases hs : m.step x.1 a with
  | error e => simp [watch, hs, Except.map] at h
  | ok t =>
    simp only [watch, hs, Except.map, Except.ok.injEq] at h
    subst h
    exact ⟨rfl, rfl⟩

/-- **Invariant rule with a record.** `J` holds in all states of the machine. -/
theorem ReachesWhile.watch_invariant {J : S → Prop} {I : S → G → Prop}
    (hJ : ∀ s, m.Reachable s → J s) (hstart : ∀ s g, m.start s → first s g → I s g)
    (hstep : ∀ s g a t, J s → I s g → ok (s, g) a → m.step s a = .ok t → I t (note g s a t))
    {x : S × G} (h : (m.watch first note).ReachesWhile ok x) : I x.1 x.2 := by
  have hall : m.Reachable x.1 ∧ I x.1 x.2 := by
    refine h.invariant (I := fun x => m.Reachable x.1 ∧ I x.1 x.2) ?_ ?_
    · exact fun x hx => ⟨.start hx.1, hstart _ _ hx.1 hx.2⟩
    · rintro ⟨s, g⟩ a ⟨t, g'⟩ ⟨hr, hi⟩ hok hs
      obtain ⟨hs, hg⟩ := watch_step hs
      exact ⟨hr.step hs, hg ▸ hstep s g a t (hJ s hr) hi hok hs⟩
  exact hall.2

end Watch

/-! ## Paths -/

/-- The steps from one state to another, each with the state before it. -/
inductive Path {S A E : Type} (m : Machine S A E) (ok : S → A → Prop) :
    S → List (S × A) → S → Prop
  | nil (s : S) : Path m ok s [] s
  | cons {s t u : S} {a : A} {l : List (S × A)} : ok s a → m.step s a = .ok t →
      Path m ok t l u → Path m ok s ((s, a) :: l) u

/-- What the steps of a path cost together. -/
def cost {S A : Type} (c : S → A → Nat) (l : List (S × A)) : Nat :=
  (l.map fun x => c x.1 x.2).sum

@[simp] theorem cost_nil {S A : Type} (c : S → A → Nat) : cost c [] = 0 := rfl

@[simp] theorem cost_cons {S A : Type} (c : S → A → Nat) (s : S) (a : A) (l : List (S × A)) :
    cost c ((s, a) :: l) = c s a + cost c l := by
  simp [cost]

section Path

variable {S A E : Type} {m : Machine S A E} {ok : S → A → Prop} {I : S → Prop} {s u : S}
  {l : List (S × A)}

/-- What a step keeps holds at the end of a path. -/
theorem Path.invariant (hstep : ∀ s a t, I s → ok s a → m.step s a = .ok t → I t)
    (h : m.Path ok s l u) (hs : I s) : I u := by
  induction h with
  | nil _ => exact hs
  | cons hok ha _ ih => exact ih (hstep _ _ _ hs hok ha)

theorem ReachesWhile.path (hs : m.ReachesWhile ok s) (h : m.Path ok s l u) :
    m.ReachesWhile ok u := by
  induction h with
  | nil _ => exact hs
  | cons hok ha _ ih => exact ih (.next hs hok ha)

/-- What a step keeps holds before every step of a path. -/
theorem Path.forall_mem (hstep : ∀ s a t, I s → ok s a → m.step s a = .ok t → I t)
    (h : m.Path ok s l u) (hs : I s) {x : S × A} (hx : x ∈ l) :
    I x.1 ∧ ok x.1 x.2 ∧ ∃ t, m.step x.1 x.2 = .ok t := by
  induction h with
  | nil _ => cases hx
  | @cons s t u a l hok ha _ ih =>
    rcases List.mem_cons.mp hx with rfl | hx
    · exact ⟨hs, hok, t, ha⟩
    · exact ih (hstep _ _ _ hs hok ha) hx

/-- **Potential rule.** -/
theorem Path.potential (gain pay : S → A → Nat) (phi : S → Nat)
    (hstep : ∀ s a t, I s → ok s a → m.step s a = .ok t →
      I t ∧ gain s a + phi t ≤ phi s + pay s a)
    (h : m.Path ok s l u) (hs : I s) : cost gain l + phi u ≤ phi s + cost pay l := by
  induction h with
  | nil _ => simp
  | cons hok ha _ ih =>
    obtain ⟨ht, hle⟩ := hstep _ _ _ hs hok ha
    have hrest := ih ht
    simp only [cost_cons]
    omega

end Path

/-- The steps of a computed run. -/
def steps {S A E : Type} (m : Machine S A E) (ok : S → A → Bool) :
    S → List A → Option (List (S × A) × S)
  | s, [] => some ([], s)
  | s, a :: as =>
      if ok s a then
        match m.step s a with
        | .ok t => (m.steps ok t as).map fun x => ((s, a) :: x.1, x.2)
        | .error _ => none
      else none

theorem path_of_steps {S A E : Type} (m : Machine S A E) {P : S → A → Prop} {k : S → A → Bool}
    (hok : ∀ s a, k s a = true → P s a) (as : List A) {s u : S} {l : List (S × A)}
    (h : m.steps k s as = some (l, u)) : m.Path P s l u := by
  induction as generalizing s l with
  | nil =>
    simp only [steps, Option.some.injEq, Prod.mk.injEq] at h
    rw [← h.1, ← h.2]
    exact .nil s
  | cons a as ih =>
    simp only [steps] at h
    split at h
    · rename_i hc
      cases ha : m.step s a with
      | error e => simp [ha] at h
      | ok t =>
        simp only [ha, Option.map_eq_some_iff, Prod.mk.injEq] at h
        obtain ⟨⟨l', u'⟩, hr, rfl, rfl⟩ := h
        exact .cons (hok s a hc) ha (ih hr)
    · simp at h

end Machine

end Lib
