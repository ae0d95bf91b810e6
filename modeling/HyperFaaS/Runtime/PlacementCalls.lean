import HyperFaaS.Runtime.PlacementTokens

/-!
What the callers of the placement ledger can rely on: how one atomic step moves
the `instances` counters and the calls that are about to change them (`Goes`),
and that a `Schedule` call answers with the worker of its own token.
-/

namespace HyperFaaS.Runtime

namespace PC

/-- A completion whose effect on the instance counters is not over: whether it
commits, and its token. -/
def completion : PC → Option (Bool × PlacementReservation)
  | .complete b r | .decPending b r _ => some (b, r)
  | .addInstance r => some (true, r)
  | _ => none

/-- Will add one to worker `idx`'s instances. -/
def commits (idx : Nat) (x : PC) : Bool :=
  x.completion.any fun c => c.1 && decide (c.2.workerIndex = idx)

/-- The worker of a `RecordStop` that is not over. -/
def recordOf : PC → Option Nat
  | .recordStop idx _ => some idx
  | _ => none

def records (idx : Nat) (x : PC) : Bool := decide (x.recordOf = some idx)

end PC

/-- On the snapshot path the scheduler's choice is the worker being tried. -/
def Call.Picks (c : Call) (idx : Nat) : Prop :=
  ∀ choice, c.path = .snapshot choice → choice.workerID = idx + 1

/-- The worker a thread works on is the one its call will answer with. -/
def Chosen : PC → Prop
  | .eligible c idx | .loadPending c idx | .loadLocal c idx _ | .loadTelemetry c idx _ _
  | .casPending c idx _ | .recheck c idx _ | .reloadLocal c idx _ | .reloadTelemetry c idx _ _
  | .undo c idx _ | .claim c idx | .slotLoad c idx _ _ | .slotCas c idx _ _ _
  | .unwind c idx _ => c.Picks idx
  | .image c r => c.Picks r.workerIndex
  | .releaseGlobal o _ | .returned o => o.Agrees
  | _ => True

namespace World

variable {w w' : World} {t : Nat} {x y : PC}

/-- What one atomic step of thread `t` does that concerns others. The equation
needs that a completion's compare-and-swap goes through, and that `RecordStop`
does not find its counter at zero. -/
structure Goes (w w' : World) (t : Nat) : Prop where
  running : (w.pc t).ended = false
  same : w'.nthreads = w.nthreads
  others : ∀ u, u ≠ t → w'.pc u = w.pc u
  entry : (w'.pc t).entry = false
  completion : (w'.pc t).completion = none ∨ (w'.pc t).completion = (w.pc t).completion
  record : (w'.pc t).recordOf = none ∨ (w'.pc t).recordOf = (w.pc t).recordOf
  effects : w'.effects = w.effects ∨
    ∃ b r, w.pc t = .complete b r ∧ w'.effects = w.effects ++ [(r.slot, r.generation)]
  instances : (∀ b r, w.pc t = .complete b r →
      w.state.acceptable r = true ∧ w.state.reservations r.slot = r.generation) →
    (∀ i, (w.pc t).recordOf = some i → 0 < (w.state.worker i).instances) →
    ∀ idx, (w'.state.worker idx).instances + ((w'.pc t).commits idx).toNat +
        ((w.pc t).records idx).toNat =
      (w.state.worker idx).instances + ((w.pc t).commits idx).toNat +
        ((w'.pc t).records idx).toNat

theorem Walk.plain {s : PlacementState} (hw : Walk s x y) :
    y.completion = x.completion ∧ y.recordOf = x.recordOf := by
  cases hw with
  | next hx | gaveUp hx | nextSlot hx | noSlot hx => cases hx <;> exact ⟨rfl, rfl⟩
  | _ => exact ⟨rfl, rfl⟩

/-- A step goes on with what its call is to do, or ends it. -/
theorem Acts.goals (a : Acts w t x y w') :
    (y.completion = none ∨ y.completion = x.completion) ∧
      (y.recordOf = none ∨ y.recordOf = x.recordOf) := by
  cases a with
  | walk hw => exact ⟨.inr hw.plain.1, .inr hw.plain.2⟩
  | grant h | drop h | leave h => cases h <;> exact ⟨.inl rfl, .inl rfl⟩
  | commit | consume => exact ⟨.inr rfl, .inl rfl⟩
  | _ => exact ⟨.inl rfl, .inl rfl⟩

theorem Acts.instances (a : Acts w t x y w')
    (hgood : ∀ b r, x = .complete b r →
      w.state.acceptable r = true ∧ w.state.reservations r.slot = r.generation)
    (hpos : ∀ i, x.recordOf = some i → 0 < (w.state.worker i).instances) (idx : Nat) :
    (w'.state.worker idx).instances + (y.commits idx).toNat + (x.records idx).toNat =
      (w.state.worker idx).instances + (x.commits idx).toNat + (y.records idx).toNat := by
  cases a with
  | walk hw =>
    obtain ⟨hc, hr⟩ := hw.plain
    simp only [PC.commits, PC.records, hc, hr]
    rfl
  | reserve => exact congrArg (· + 0 + 0) (setPendingStarts_instances ..)
  | grant h | leave h => cases h <;> rfl
  | image => exact congrArg (· + 0 + 0) (addPendingImage_field _ _ _ (fun _ _ _ => rfl) _ _)
  | drop h => cases h <;> exact congrArg (· + 0 + 0) (setPendingStarts_instances ..)
  | commit => exact congrArg (· + _ + 0) (setPendingStarts_instances ..)
  | lost h => exact absurd (hgood _ _ rfl) h
  | @add r =>
    simp only [setPC, setState, setInstances_instances]
    by_cases hidx : idx = r.workerIndex
    · subst hidx
      simp [PC.commits, PC.completion, PC.records, PC.recordOf]
    · simp [PC.commits, PC.completion, PC.records, PC.recordOf, hidx, Ne.symm hidx]
  | finish => exact congrArg (· + 0 + 0) (finishImage_field _ _ _ _ (fun _ _ _ => rfl) _)
  | @record i d =>
    have hpos := hpos i rfl
    simp only [setPC, setState, setInstances_instances]
    by_cases hidx : idx = i
    · subst hidx
      simp [PC.commits, PC.completion, PC.records, PC.recordOf]
      omega
    · simp [PC.commits, PC.completion, PC.records, PC.recordOf, hidx, Ne.symm hidx]
  | _ => rfl

/-- **Step lemma.** -/
theorem Acts.goes (a : Acts w t (w.pc t) y w') : Goes w w' t := by
  obtain ⟨hrun, hentry, hpc, hn⟩ := a.running
  have hself : w'.pc t = y := by rw [hpc, Function.update_self]
  constructor
  case running => exact hrun
  case same => exact hn
  case others =>
    intro u hu
    rw [hpc, Function.update_of_ne hu]
  case entry => rw [hself]; exact hentry
  case completion => rw [hself]; exact a.goals.1
  case record => rw [hself]; exact a.goals.2
  case effects =>
    generalize w.pc t = x at a
    cases a with
    | consume => exact .inr ⟨_, _, rfl, rfl⟩
    | _ => exact .inl rfl
  case instances => rw [hself]; exact a.instances

theorem advance_goes (hs : w.advance t = .ok w') : Goes w w' t := by
  obtain ⟨y, a⟩ := advance_acts hs
  exact a.goes

theorem pick_goes {p : Pick} (hs : w.pick t p = .ok w') : Goes w w' t := by
  obtain ⟨y, a⟩ := pick_acts hs
  exact a.goes

theorem placed_agrees {c : Call} {r : PlacementReservation} (h : c.Picks r.workerIndex) :
    (placed c r).Agrees := by
  unfold placed
  split
  · rename_i choice hc
    exact .inr (.inr ⟨r, rfl, h choice hc⟩)
  · exact .inr (.inr ⟨r, rfl, rfl⟩)

theorem balanced_picks (image : String) (start offset idx : Nat) :
    Call.Picks ⟨image, .balanced start offset⟩ idx := by
  intro choice hc
  cases hc

theorem Walk.chosen {s : PlacementState} (hw : Walk s x y) (h : Chosen x) : Chosen y := by
  cases hw with
  | full => exact .inl rfl
  | unpicked ho | gaveUp _ ho => exact ho.agrees
  | picked hpos =>
    intro choice hc
    cases hc
    simp only
    omega
  | started | next => exact balanced_picks _ _ _ _
  | nextSlot hx | noSlot hx => cases hx <;> exact h
  | _ => exact h

theorem Acts.chosen (a : Acts w t x y w') (h : Chosen x) : Chosen y := by
  cases a with
  | walk hw => exact hw.chosen h
  | grant hg => cases hg <;> exact h
  | image => exact placed_agrees h
  | drop hd =>
    cases hd with
    | next => exact balanced_picks _ _ _ _
    | gaveUp ho | unwound ho => exact ho.agrees
    | cancelled => trivial
  | leave hl =>
    cases hl with
    | returned => exact h
    | notify => trivial
  | _ => exact h

theorem step_chosen {a : Action} (h : ∀ u, Chosen (w.pc u)) (hs : w.step a = .ok w') (u : Nat) :
    Chosen (w'.pc u) := by
  cases steps_of_step hs with
  | edit => exact h u
  | @enter x hb =>
    have hx : Chosen x := by
      cases hb with
      | answered ho => exact ho.agrees
      | _ => trivial
    by_cases hu : u = w.nthreads
    · subst hu
      simpa [spawn] using hx
    · simpa [spawn, hu] using h u
  | @act t _ _ _ ha =>
    by_cases hu : u = t
    · subst hu
      rw [ha.running.2.2.1, Function.update_self]
      exact ha.chosen (h u)
    · rw [ha.goes.others u hu]
      exact h u

/-- **Run lemma.** Every `Schedule` call that answers with a worker has a token
of that worker. -/
theorem chosen_of_reachable (h : machine.Reachable w) : ∀ u, Chosen (w.pc u) := by
  refine h.invariant (I := fun w => ∀ u, Chosen (w.pc u)) ?_ ?_
  · rintro s ⟨workers, perWorker, total, cap, rfl⟩ u
    exact trivial
  · intro s a s' hs hstep u
    exact step_chosen hs hstep u

end World

end HyperFaaS.Runtime
