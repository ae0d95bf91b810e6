import HyperFaaS.Runtime.Placement

/-!
The steps of a placement call as a relation: where the call goes and what becomes
of the state. `Walk` are the steps that move the call alone, `Acts` adds those
that change a counter or a slot. The `decrement` loops, a refused worker and a
taken slot are resolved into the places they lead to, so that an argument about
every step is an induction on this relation and not on the code.
-/

namespace HyperFaaS.Runtime

/-- A compare-and-swap down from zero is never tried. -/
def Dec.Armed : Dec → Prop
  | .load => True
  | .cas current => 0 < current

/-- An outcome without a worker, or with the worker of its token. -/
def Outcome.Agrees (o : Outcome) : Prop :=
  o.err.isSome = true ∨ o.choice.workerID = 0 ∨
    ∃ r, o.reservation = some r ∧ o.choice.workerID = r.workerIndex + 1

/-- An answer without a token. -/
structure Outcome.Bare (o : Outcome) : Prop where
  none : o.reservation = none
  agrees : o.Agrees

namespace World

/-- The places from which `reserveWorker` refuses a worker without a trace. -/
inductive Asks : PC → Prop
  | eligible {c idx} : Asks (.eligible c idx)
  | loadPending {c idx} : Asks (.loadPending c idx)
  | loadTelemetry {c idx pending loc} : Asks (.loadTelemetry c idx pending loc)

/-- The places of `claimReservationSlot`'s loop. -/
inductive Tries (c : Call) (idx start : Nat) : PC → Prop
  | slotLoad {offset} : Tries c idx start (.slotLoad c idx start offset)
  | slotCas {offset state} : Tries c idx start (.slotCas c idx start offset state)

/-- The steps that change nothing but the call's own place. -/
inductive Walk (s : PlacementState) : PC → PC → Prop
  | full {b image} : Walk s (.globalLoad b image) (.returned (exhausted ⟨0, ""⟩))
  | readGlobal {b image} (h : 0 < s.startTokensTotal → s.pendingStarts < s.startTokensTotal) :
      Walk s (.globalLoad b image) (.globalCas b image s.pendingStarts)
  | lostGlobal {b image current} : Walk s (.globalCas b image current) (.globalLoad b image)
  | unpicked {image o} (h : Outcome.Bare o) : Walk s (.picking false image) (.releaseGlobal o .load)
  | picked {image id reason} (hpos : id ≠ 0) (h : id - 1 < s.workers) :
      Walk s (.picking false image) (.eligible ⟨image, .snapshot ⟨id, reason⟩⟩ (id - 1))
  | started {image idx} :
      Walk s (.picking true image) (.eligible ⟨image, .balanced idx 0⟩ (idx % s.workers))
  | next {x image start offset n} (hx : Asks x) :
      Walk s x (.eligible ⟨image, .balanced start offset⟩ (n % s.workers))
  | gaveUp {x o} (hx : Asks x) (h : Outcome.Bare o) : Walk s x (.releaseGlobal o .load)
  | eligible {c idx} : Walk s (.eligible c idx) (.loadPending c idx)
  | readPending {c idx}
      (h : 0 < s.startTokensPerWorker → (s.worker idx).pendingStarts < s.startTokensPerWorker) :
      Walk s (.loadPending c idx) (.loadLocal c idx (s.worker idx).pendingStarts)
  | uncapped {c idx} (hcap : s.maxInstancesPerWorker = 0)
      (h : 0 < s.startTokensPerWorker → (s.worker idx).pendingStarts < s.startTokensPerWorker) :
      Walk s (.loadPending c idx) (.casPending c idx (s.worker idx).pendingStarts)
  | readLocal {c idx pending} :
      Walk s (.loadLocal c idx pending) (.loadTelemetry c idx pending (s.worker idx).instances)
  | fits {c idx pending loc}
      (h : (s.observedInstances idx loc + pending) % 2 ^ 64 < s.maxInstancesPerWorker) :
      Walk s (.loadTelemetry c idx pending loc) (.casPending c idx pending)
  | lostPending {c idx pending} : Walk s (.casPending c idx pending) (.eligible c idx)
  | gone {c idx pending} : Walk s (.recheck c idx pending) (.undo c idx .load)
  | recheck {c idx pending} : Walk s (.recheck c idx pending) (.reloadLocal c idx pending)
  | exceeds {c idx pending loc} : Walk s (.reloadTelemetry c idx pending loc) (.undo c idx .load)
  | nextSlot {x c idx start offset} (hx : Tries c idx start x) :
      Walk s x (.slotLoad c idx start offset)
  | noSlot {x c idx start} (hx : Tries c idx start x) : Walk s x (.unwind c idx .load)
  | freeSlot {c idx start offset state} (h : state % 2 = 0) :
      Walk s (.slotLoad c idx start offset) (.slotCas c idx start offset state)
  | undo {c idx d d'} (h : Dec.Armed d') : Walk s (.undo c idx d) (.undo c idx d')
  | unwind {c idx d d'} (h : Dec.Armed d') : Walk s (.unwind c idx d) (.unwind c idx d')
  | releaseGlobal {o d d'} (h : Dec.Armed d') : Walk s (.releaseGlobal o d) (.releaseGlobal o d')
  | decPending {b r d d'} (h : Dec.Armed d') : Walk s (.decPending b r d) (.decPending b r d')
  | decGlobal {r d d'} (h : Dec.Armed d') : Walk s (.decGlobal r d) (.decGlobal r d')
  | recordStop {idx d d'} (h : Dec.Armed d') : Walk s (.recordStop idx d) (.recordStop idx d')

/-- The places that give a unit of worker `idx` back, and where they go on. -/
inductive Drops (s : PlacementState) : Nat → PC → PC → Prop
  | next {c idx d image start offset n} :
      Drops s idx (.undo c idx d) (.eligible ⟨image, .balanced start offset⟩ (n % s.workers))
  | gaveUp {c idx d o} (h : Outcome.Bare o) : Drops s idx (.undo c idx d) (.releaseGlobal o .load)
  | unwound {c idx d o} (h : Outcome.Bare o) :
      Drops s idx (.unwind c idx d) (.releaseGlobal o .load)
  | cancelled {r d} : Drops s r.workerIndex (.decPending false r d) (.finishImage false r)

/-- The places that give the global unit back. -/
inductive Leaves : PC → PC → Prop
  | returned {o d} : Leaves (.releaseGlobal o d) (.returned o)
  | notify {r d} : Leaves (.decGlobal r d) .notify

/-- The two ways in which `reserveWorker` returns true. -/
inductive Passes (s : PlacementState) (c : Call) (idx : Nat) : PC → Prop
  | uncapped {pending} (h : s.maxInstancesPerWorker = 0) : Passes s c idx (.recheck c idx pending)
  | fits {pending loc}
      (h : (s.observedInstances idx loc + pending + 1) % 2 ^ 64 ≤ s.maxInstancesPerWorker) :
      Passes s c idx (.reloadTelemetry c idx pending loc)

/-- A step of thread `t`, from its place to the next and to the world after it. -/
inductive Acts (w : World) (t : Nat) : PC → PC → World → Prop
  | walk {x y} (h : Walk w.state x y) : Acts w t x y (w.setPC t y)
  | enter {b image} :
      Acts w t (.globalCas b image w.state.pendingStarts) (.picking b image)
        ((w.setState (w.state.setGlobalStarts (w.state.pendingStarts + 1))).setPC t
          (.picking b image))
  | reserve {c idx pending} (h : (w.state.worker idx).pendingStarts = pending) :
      Acts w t (.casPending c idx pending) (.recheck c idx pending) (w.reserve t c idx pending)
  | reread {c idx pending} :
      Acts w t (.reloadLocal c idx pending)
        (.reloadTelemetry c idx pending (w.state.worker idx).instances)
        (w.setPC t (.reloadTelemetry c idx pending (w.state.worker idx).instances))
  | grant {x c idx} (h : Passes w.state c idx x) : Acts w t x (.claim c idx) (w.grant t c idx)
  | claim {c idx start cursor} :
      Acts w t (.claim c idx) (.slotLoad c idx start 0)
        ((w.setState { w.state with reservationCursor := cursor }).setPC t (.slotLoad c idx start 0))
  | slot {c idx start offset slot} (h : 0 < w.state.slots → slot < w.state.slots) :
      Acts w t (.slotCas c idx start offset (w.state.reservations slot))
        (.image c ⟨idx, c.image, slot, w.state.reservations slot + 1, true, w.seq t⟩)
        ((w.setState (w.state.setSlot slot (w.state.reservations slot + 1))).setPC t
          (.image c ⟨idx, c.image, slot, w.state.reservations slot + 1, true, w.seq t⟩))
  | image {c r} :
      Acts w t (.image c r) (.returned (placed c r))
        ((w.setState (w.state.addPendingImage r.workerIndex r.image)).setPC t
          (.returned (placed c r)))
  | drop {x y idx} (h : Drops w.state idx x y) :
      Acts w t x y ((w.setState (w.state.setPendingStarts idx
        ((w.state.worker idx).pendingStarts - 1))).setPC t y)
  | commit {r d} :
      Acts w t (.decPending true r d) (.addInstance r)
        ((w.setState (w.state.setPendingStarts r.workerIndex
          ((w.state.worker r.workerIndex).pendingStarts - 1))).setPC t (.addInstance r))
  | leave {x y} (h : Leaves x y) :
      Acts w t x y
        ((w.setState (w.state.setGlobalStarts (w.state.pendingStarts - 1))).setPC t y)
  | consume {b r} (hacc : w.state.acceptable r = true)
      (hgen : w.state.reservations r.slot = r.generation) :
      Acts w t (.complete b r) (.decPending b r .load) (w.consume t b r)
  | lost {b r} (h : ¬ (w.state.acceptable r = true ∧ w.state.reservations r.slot = r.generation)) :
      Acts w t (.complete b r) .completed (w.setPC t .completed)
  | add {r} :
      Acts w t (.addInstance r) (.finishImage true r)
        ((w.setState (w.state.setInstances r.workerIndex
          ((w.state.worker r.workerIndex).instances + 1))).setPC t (.finishImage true r))
  | finish {b r} :
      Acts w t (.finishImage b r) (.decGlobal r .load)
        ((w.setState (w.state.finishImage r b)).setPC t (.decGlobal r .load))
  | notify :
      Acts w t .notify .completed
        ((w.setState { w.state with startCapacityChanged := true }).setPC t .completed)
  | record {idx d} :
      Acts w t (.recordStop idx d) .recorded
        ((w.setState (w.state.setInstances idx ((w.state.worker idx).instances - 1))).setPC t
          .recorded)

/-- Changes of the state from outside the calls. -/
inductive Edits (s : PlacementState) : Action → PlacementState → Prop
  | telemetry {idx x} : Edits s (.telemetry idx x) (s.setTelemetry idx x)
  | resetImages {idx} : Edits s (.resetImages idx) (s.resetImages idx)
  | setTrackImages {track} : Edits s (.setTrackImages track) { s with trackImages := track }

/-- The first places of a call. -/
inductive Begins (w : World) : PC → Prop
  | answered {o} (h : Outcome.Bare o) : Begins w (.returned o)
  | schedule {b image} (h : b = true → 0 < w.state.workers) : Begins w (.globalLoad b image)
  | complete {b r} (h : r.valid = true → w.Issued r) : Begins w (.complete b r)
  | recordStop {idx} : Begins w (.recordStop idx .load)
  | recorded : Begins w .recorded

/-- The three kinds of steps. -/
inductive Steps (w : World) (a : Action) : World → Prop
  | edit {s} (h : Edits w.state a s) : Steps w a (w.setState s)
  | enter {x} (h : Begins w x) : Steps w a (w.spawn x)
  | act {t y w'} (ha : a = .step t ∨ ∃ b image, w.pc t = .picking b image)
      (h : Acts w t (w.pc t) y w') : Steps w a w'

variable {w w' : World} {t : Nat}

/-- A refused call tries the next worker or gives its global unit back. -/
theorem refused_cases (s : PlacementState) (c : Call) :
    (∃ image start offset n,
        refused s c = .eligible ⟨image, .balanced start offset⟩ (n % s.workers)) ∨
      ∃ o, refused s c = .releaseGlobal o .load ∧ Outcome.Bare o := by
  unfold refused
  split
  · exact .inr ⟨_, rfl, rfl, .inl rfl⟩
  · split
    · exact .inl ⟨_, _, _, _, rfl⟩
    · exact .inr ⟨_, rfl, rfl, .inl rfl⟩

theorem Acts.refused {x : PC} (hx : Asks x) (c : Call) :
    Acts w t x (refused w.state c) (w.setPC t (refused w.state c)) := by
  obtain ⟨image, start, offset, n, heq⟩ | ⟨o, heq, ho⟩ := refused_cases w.state c
  · exact heq ▸ .walk (.next hx)
  · exact heq ▸ .walk (.gaveUp hx ho)

theorem Acts.taken {x : PC} {c : Call} {idx start : Nat} (hx : Tries c idx start x) (offset : Nat) :
    Acts w t x (World.nextSlot w.state c idx start offset)
      (w.setPC t (World.nextSlot w.state c idx start offset)) := by
  unfold World.nextSlot
  split
  · exact .walk (.nextSlot hx)
  · exact .walk (.noSlot hx)

/-- One step of a `decrement` loop: round again, or one off the counter. At zero
the loop ends without a change. -/
theorem decrement_cases (w : World) (t value : Nat) (d : Dec) (store : Nat → PlacementState)
    (again : Dec → PC) (done : PC) :
    (∃ d', d'.Armed ∧ w.decrement t value d store again done = w.setPC t (again d')) ∨
      w.decrement t value d store again done =
        (w.setState (store (value - 1))).setPC t done := by
  cases d with
  | load =>
    by_cases hv : 0 < value
    · exact .inl ⟨.cas value, hv, by simp [decrement, Dec.step, hv]⟩
    · obtain rfl : value = 0 := by omega
      exact .inr (by simp [decrement, Dec.step])
  | cas current =>
    by_cases hc : value = current
    · exact .inr (by simp [decrement, Dec.step, hc])
    · exact .inl ⟨.load, trivial, by simp [decrement, Dec.step, hc]⟩

theorem unslotted_bare (c : Call) : Outcome.Bare (unslotted c) := by
  unfold unslotted
  split <;> exact ⟨rfl, .inl rfl⟩

/-- A loop of `decrement` goes round, or ends with its own step. -/
theorem Acts.decrement {value : Nat} {d : Dec} {store : Nat → PlacementState} {again : Dec → PC}
    {done : PC} (hagain : ∀ {d'}, Dec.Armed d' → Walk w.state (again d) (again d'))
    (hdone : Acts w t (again d) done ((w.setState (store (value - 1))).setPC t done)) :
    ∃ y, Acts w t (again d) y (w.decrement t value d store again done) := by
  obtain ⟨d', hd', heq⟩ | heq := decrement_cases w t value d store again done
  · rw [heq]
    exact ⟨_, .walk (hagain hd')⟩
  · rw [heq]
    exact ⟨_, hdone⟩

/-- The relation covers the code. -/
theorem advance_acts (hs : w.advance t = .ok w') : ∃ y, Acts w t (w.pc t) y w' := by
  cases hx : w.pc t <;> simp only [advance, hx] at hs
  case globalLoad =>
    split at hs <;> cases hs
    · exact ⟨_, .walk .full⟩
    · exact ⟨_, .walk (.readGlobal (by omega))⟩
  case globalCas =>
    split at hs <;> cases hs
    · rename_i hcur
      subst hcur
      exact ⟨_, .enter⟩
    · exact ⟨_, .walk .lostGlobal⟩
  case eligible c idx =>
    split at hs <;> cases hs
    · exact ⟨_, .walk .eligible⟩
    · exact ⟨_, .refused .eligible c⟩
  case loadPending c idx =>
    split at hs
    · cases hs
      exact ⟨_, .refused .loadPending c⟩
    · split at hs <;> cases hs
      · exact ⟨_, .walk (.readPending (by omega))⟩
      · exact ⟨_, .walk (.uncapped (by omega) (by omega))⟩
  case loadTelemetry c idx pending loc =>
    split at hs <;> cases hs
    · exact ⟨_, .refused .loadTelemetry c⟩
    · exact ⟨_, .walk (.fits (by omega))⟩
  case casPending =>
    split at hs <;> cases hs
    · exact ⟨_, .reserve (by assumption)⟩
    · exact ⟨_, .walk .lostPending⟩
  case recheck =>
    split at hs
    · cases hs
      exact ⟨_, .walk .gone⟩
    · split at hs <;> cases hs
      · exact ⟨_, .walk .recheck⟩
      · exact ⟨_, .grant (.uncapped (by omega))⟩
  case reloadTelemetry =>
    split at hs <;> cases hs
    · exact ⟨_, .walk .exceeds⟩
    · exact ⟨_, .grant (.fits (by omega))⟩
  case undo c idx d =>
    cases hs
    refine Acts.decrement .undo ?_
    obtain ⟨image, start, offset, n, hr⟩ | ⟨o, hr, ho⟩ := refused_cases w.state c
    · exact hr ▸ .drop .next
    · exact hr ▸ .drop (.gaveUp ho)
  case slotLoad c idx start offset =>
    split at hs <;> cases hs
    · exact ⟨_, .taken .slotLoad offset⟩
    · exact ⟨_, .walk (.freeSlot (by omega))⟩
  case slotCas c idx start offset state =>
    split at hs <;> cases hs
    · rename_i hstate
      subst hstate
      exact ⟨_, .slot (fun hpos => Nat.mod_lt _ hpos)⟩
    · exact ⟨_, .taken .slotCas offset⟩
  case complete =>
    split at hs <;> cases hs
    · rename_i hacc
      exact ⟨_, .consume hacc.1 hacc.2⟩
    · exact ⟨_, .lost (by assumption)⟩
  case decPending committed r d =>
    cases hs
    refine Acts.decrement .decPending ?_
    cases committed with
    | true => exact .commit
    | false => exact .drop .cancelled
  -- the places with one way on
  all_goals cases hs
  case loadLocal => exact ⟨_, .walk .readLocal⟩
  case reloadLocal => exact ⟨_, .reread⟩
  case claim => exact ⟨_, .claim⟩
  case image => exact ⟨_, .image⟩
  case unwind c _ _ => exact Acts.decrement .unwind (.drop (.unwound (unslotted_bare c)))
  case releaseGlobal => exact Acts.decrement .releaseGlobal (.leave .returned)
  case addInstance => exact ⟨_, .add⟩
  case finishImage => exact ⟨_, .finish⟩
  case decGlobal => exact Acts.decrement .decGlobal (.leave .notify)
  case notify => exact ⟨_, .notify⟩
  case recordStop => exact Acts.decrement .recordStop .record

theorem pick_acts {p : Pick} (hs : w.pick t p = .ok w') : ∃ y, Acts w t (w.pc t) y w' := by
  unfold pick at hs
  generalize w.pc t = x at hs ⊢
  split at hs
  case h_3 =>
    split at hs
    · cases hs
      exact ⟨_, .walk (.unpicked ⟨rfl, .inr (.inl rfl)⟩)⟩
    · split at hs <;> cases hs
      · exact ⟨_, .walk (.picked (by omega) (by assumption))⟩
      · -- `reserveWorker` refuses an index outside the table
        exact ⟨_, .walk (.unpicked ⟨rfl, .inl rfl⟩)⟩
  all_goals cases hs
  case h_1 => exact ⟨_, .walk (.unpicked ⟨rfl, .inl rfl⟩)⟩
  case h_2 => exact ⟨_, .walk (.unpicked ⟨rfl, .inr (.inl rfl)⟩)⟩
  case h_4 => exact ⟨_, .walk .started⟩

theorem pick_picking {p : Pick} (hs : w.pick t p = .ok w') :
    ∃ b image, w.pc t = .picking b image := by
  cases hx : w.pc t with
  | picking b image => exact ⟨b, image, rfl⟩
  | _ => simp [pick, hx] at hs

theorem steps_of_step {a : Action} (hs : w.step a = .ok w') : Steps w a w' := by
  cases a with
  | telemetry =>
    cases hs
    exact .edit .telemetry
  | resetImages =>
    cases hs
    exact .edit .resetImages
  | setTrackImages =>
    cases hs
    exact .edit .setTrackImages
  | schedule scheduler image =>
    cases scheduler with
    | missing =>
      cases hs
      exact .enter (.answered ⟨rfl, .inr (.inl rfl)⟩)
    | snapshot =>
      cases hs
      exact .enter (.schedule (by simp))
    | balanced =>
      simp only [step] at hs
      split at hs <;> cases hs
      · exact .enter (.answered ⟨rfl, .inr (.inl rfl)⟩)
      · exact .enter (.schedule (fun _ => by omega))
  | complete committed r =>
    simp only [step] at hs
    split at hs <;> cases hs
    rename_i hr
    exact .enter (.complete (by simpa [imp_iff_not_or] using hr))
  | recordStop workerID =>
    simp only [step] at hs
    split at hs <;> cases hs
    · exact .enter .recordStop
    · exact .enter .recorded
  | pick t p =>
    obtain ⟨y, hy⟩ := pick_acts hs
    exact .act (.inr (pick_picking hs)) hy
  | step t =>
    obtain ⟨y, hy⟩ := advance_acts hs
    exact .act (.inl rfl) hy

end World

end HyperFaaS.Runtime
