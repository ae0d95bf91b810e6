import HyperFaaS.Runtime.PlacementSlots

/-!
Every action keeps the start-token ledger, so it holds over every run: the
limits, agreement of the four counts when no call is in progress, at most one
effect for each token, and no decrement at zero.
-/

namespace HyperFaaS.Runtime

open PlacementState WorkerPlacement

namespace World

variable {w w' : World} {t : Nat} {x : PC}

section Edits

variable {α : Type} (f : WorkerPlacement → α) (s : PlacementState) (idx : Nat)

theorem setWorker_field {x : WorkerPlacement} (hx : f x = f (s.worker idx)) (j : Nat) :
    f ((s.setWorker idx x).worker j) = f (s.worker j) := by
  by_cases hj : j = idx
  · subst hj
    simp [setWorker, hx]
  · simp [setWorker, hj]

theorem setInstances_pending (n j : Nat) :
    ((s.setInstances idx n).worker j).pendingStarts = (s.worker j).pendingStarts :=
  setWorker_field pendingStarts s idx (by rfl) j

theorem setInstances_instances (n j : Nat) :
    ((s.setInstances idx n).worker j).instances = if j = idx then n else (s.worker j).instances := by
  by_cases hj : j = idx
  · subst hj
    simp [setInstances, setWorker]
  · simp [setInstances, setWorker, hj]

theorem setPendingStarts_instances (n j : Nat) :
    ((s.setPendingStarts idx n).worker j).instances = (s.worker j).instances :=
  setWorker_field instances s idx (by rfl) j

theorem addPendingImage_frame (image : String) : Frame s (s.addPendingImage idx image) := by
  unfold addPendingImage
  split <;> exact ⟨rfl, rfl, rfl, rfl⟩

theorem addPendingImage_other (image : String) :
    (s.addPendingImage idx image).pendingStarts = s.pendingStarts ∧
      (s.addPendingImage idx image).maxInstancesPerWorker = s.maxInstancesPerWorker ∧
      (s.addPendingImage idx image).reservations = s.reservations := by
  unfold addPendingImage
  split <;> exact ⟨rfl, rfl, rfl⟩

variable (r : PlacementReservation) (committed : Bool)

theorem finishImage_frame : Frame s (s.finishImage r committed) := by
  unfold finishImage
  split <;> exact ⟨rfl, rfl, rfl, rfl⟩

theorem finishImage_other :
    (s.finishImage r committed).pendingStarts = s.pendingStarts ∧
      (s.finishImage r committed).maxInstancesPerWorker = s.maxInstancesPerWorker ∧
      (s.finishImage r committed).reservations = s.reservations := by
  unfold finishImage
  split <;> exact ⟨rfl, rfl, rfl⟩

variable (hf : ∀ x p k, f { x with pendingImages := p, knownImages := k } = f x)

include hf

theorem addPendingImage_field (image : String) (j : Nat) :
    f ((s.addPendingImage idx image).worker j) = f (s.worker j) := by
  unfold addPendingImage
  split
  · exact setWorker_field f s idx (hf _ _ _) j
  · rfl

theorem finishImage_field (j : Nat) :
    f ((s.finishImage r committed).worker j) = f (s.worker j) := by
  unfold finishImage
  split
  · rfl
  · apply setWorker_field
    split
    · exact hf (s.worker r.workerIndex) _ _
    · exact hf (s.worker r.workerIndex) _ _

end Edits

theorem placed_reservation (c : Call) (r : PlacementReservation) :
    (placed c r).reservation = some r := by
  unfold placed
  split <;> rfl

variable {y : PC} {s : PlacementState} {idx : Nat} {a : Action}

/-- A step of a thread starts inside a call and does not end at the door of a
completion. -/
theorem Acts.running (a : Acts w t x y w') :
    x.ended = false ∧ y.entry = false ∧ w'.pc = Function.update w.pc t y ∧
      w'.nthreads = w.nthreads := by
  cases a with
  | walk h =>
    cases h with
    | next hx | gaveUp hx | nextSlot hx | noSlot hx => cases hx <;> exact ⟨rfl, rfl, rfl, rfl⟩
    | _ => exact ⟨rfl, rfl, rfl, rfl⟩
  | grant h | drop h | leave h => cases h <;> exact ⟨rfl, rfl, rfl, rfl⟩
  | _ => exact ⟨rfl, rfl, rfl, rfl⟩

theorem tokenOf_running (h : x.ended = false) : tokenOf x = none := by
  cases x with
  | returned o => cases h
  | _ => rfl

theorem Acts.turns (a : Acts w t x y w') (h : w.Inv) (hx : w.pc t = x) : Turns w w' t x y := by
  obtain ⟨hrun, -, hpc, hn⟩ := a.running
  exact ⟨hx, hpc, hn.ge, fun _ => hn ▸ h.running hx (by rintro rfl; cases hrun)⟩

theorem Walk.units (hw : Walk s x y) :
    y.token = x.token ∧ y.worker s = x.worker s ∧ y.starts s = x.starts s := by
  cases hw with
  | next hx | gaveUp hx | nextSlot hx | noSlot hx => cases hx <;> exact ⟨rfl, rfl, rfl⟩
  | _ => exact ⟨rfl, rfl, rfl⟩

theorem Asks.workers_pos (hx : Asks x) (h : PlaceOK s x) : 0 < s.workers := by
  cases hx with
  | eligible | loadPending => exact Nat.zero_lt_of_lt h
  | loadTelemetry => exact Nat.zero_lt_of_lt h.1

theorem Tries.worker_lt {c : Call} {start : Nat} (hx : Tries c idx start x) (h : PlaceOK s x) :
    idx < s.workers := by
  cases hx with
  | slotLoad => exact h
  | slotCas => exact h.1

theorem Walk.place (hw : Walk s x y) (h : PlaceOK s x) : PlaceOK s y := by
  cases hw with
  | full => exact nofun
  | readGlobal hlim | readPending hlim | uncapped _ hlim | freeSlot hlim => exact ⟨h, hlim⟩
  | lostGlobal => exact h.1
  | unpicked ho | gaveUp _ ho => exact ⟨ho.none, trivial⟩
  | picked _ hid => exact hid
  | started => exact Nat.mod_lt _ (h rfl)
  | next hx => exact Nat.mod_lt _ (hx.workers_pos h)
  | lostPending => exact h.1
  | gone | exceeds => exact ⟨h, trivial⟩
  | nextSlot hx => exact hx.worker_lt h
  | noSlot hx => exact ⟨hx.worker_lt h, trivial⟩
  | undo hd | unwind hd | releaseGlobal hd | decPending hd => exact ⟨h.1, hd⟩
  | decGlobal hd => exact hd
  | recordStop => trivial
  | _ => exact h

theorem Drops.units (hd : Drops s idx x y) :
    x.worker s = some idx ∧ y.worker s = none ∧ y.token = x.token ∧ y.starts s = x.starts s := by
  cases hd <;> exact ⟨rfl, rfl, rfl, rfl⟩

theorem Drops.place (hd : Drops s idx x y) (h : PlaceOK s x) : PlaceOK s y := by
  cases hd with
  | next => exact Nat.mod_lt _ (Nat.zero_lt_of_lt h.1)
  | gaveUp ho | unwound ho => exact ⟨ho.none, trivial⟩
  | cancelled => trivial

theorem Leaves.units (hl : Leaves x y) (h : PlaceOK s x) :
    PlaceOK s y ∧ y.token = x.token ∧ y.worker s = x.worker s ∧ x.starts s = true ∧
      y.starts s = false := by
  cases hl with
  | returned =>
    obtain ⟨hnone, -⟩ := h
    simp [PlaceOK, PC.token, PC.worker, PC.starts, hnone]
  | notify => exact ⟨trivial, rfl, rfl, rfl, rfl⟩

theorem Moves.drop (h : w.Inv) (hx : w.pc t = x) (hxw : x.worker w.state = some idx)
    (hyw : y.worker w.state = none) (hy : PlaceOK w.state y) (htoken : y.token = x.token)
    (hstarts : y.starts w.state = x.starts w.state) :
    Moves w ((w.setState (w.state.setPendingStarts idx
      ((w.state.worker idx).pendingStarts - 1))).setPC t y) x y := by
  have hpos := h.pending_pos hx hxw
  have hpend := setPendingStarts_pending w.state idx ((w.state.worker idx).pendingStarts - 1)
  refine ⟨hy, ⟨rfl, rfl, rfl, rfl⟩, rfl, rfl, htoken, ?_, by rw [hstarts]; rfl, fun _ hle => hle, ?_⟩
  · intro j
    simp only [setState, setPC, hpend, hxw, hyw]
    by_cases hj : j = idx
    · subst hj
      simp
      omega
    · simp [hj, Ne.symm hj]
  · intro _ j hle
    simp only [setState, setPC, hpend]
    split
    · subst j
      omega
    · exact hle

/-- **Step lemma.** Every atomic step of a call keeps the ledger. -/
theorem Acts.inv (a : Acts w t (w.pc t) y w') (h : w.Inv) : w'.Inv := by
  generalize hx : w.pc t = x at a
  obtain ⟨hrun, hentry, -⟩ := a.running
  have ht := tokenOf_running hrun
  have he : ∀ b r, y = .complete b r → r.valid = true → w.Issued r := by
    rintro b r rfl
    cases hentry
  have hp := h.placeAt hx
  have m := a.turns h hx
  cases a with
  | walk hw =>
    obtain ⟨htoken, hworker, hstarts⟩ := hw.units
    refine m.inv h ht he { place := hw.place hp, token := htoken, worker := ?_, global := ?_ }
    · exact fun _ => by rw [hworker]; rfl
    · rw [hstarts]
      rfl
  | enter => exact m.inv h ht he { place := hp.1, total := fun hpos _ => hp.2 hpos }
  | @reserve c idx pending hcur =>
    have hpend := setPendingStarts_pending w.state idx (pending + 1)
    refine m.inv h ht he { place := hp.1, worker := ?_, perWorker := ?_ }
    · intro j
      simp only [World.reserve, setState, setPC, hpend, PC.worker]
      by_cases hj : j = idx
      · subst hj
        simp [hcur]
      · simp [hj, Ne.symm hj]
    · intro hpos j hle
      simp only [World.reserve, setState, setPC, hpend]
      split
      · exact hp.2 hpos
      · exact hle
  | reread => exact m.inv h ht he { place := hp }
  | grant hg => cases hg <;> exact m.inv h ht he { place := hp }
  | claim => exact m.inv h ht he { place := hp }
  | slot hslot => exact h.claimSlot hx (hslot h.slots)
  | @image c r =>
    have hres := placed_reservation c r
    have hret : PlaceOK w.state (.returned (placed c r)) := by
      intro q hq
      rw [hres] at hq
      cases hq
      exact hp.1
    have hother := addPendingImage_other w.state r.workerIndex r.image
    have hpend := addPendingImage_field pendingStarts w.state r.workerIndex
      (fun _ _ _ => rfl) r.image
    refine m.inv h ht he
      { place := hret
        frame := addPendingImage_frame ..
        slots := hother.2.2
        token := hres
        worker := ?_
        global := ?_
        total := fun _ hle => hother.1.trans_le hle
        perWorker := fun _ j hle => (hpend j).trans_le hle }
    · intro j
      simp [setState, setPC, hpend, PC.worker, hres, Option.filter, hp.2]
    · simp only [setState, setPC, hother.1, PC.starts, hres, Option.any_some, hp.2]
  | drop hd =>
    obtain ⟨hxw, hyw, htoken, hstarts⟩ := hd.units
    exact m.inv h ht he (.drop h hx hxw hyw (hd.place hp) htoken hstarts)
  | commit => exact m.inv h ht he (.drop h hx rfl rfl trivial rfl rfl)
  | leave hl =>
    obtain ⟨hy, htoken, hworker, hxs, hys⟩ := hl.units hp
    have hpos := h.global_pos hx hxs
    refine m.inv h ht he { place := hy, token := htoken, worker := ?_, global := ?_, total := ?_ }
    · exact fun _ => by rw [hworker]; rfl
    · simp only [setState, setPC, setGlobalStarts, hxs, hys, Bool.toNat_true,
        Bool.toNat_false]
      omega
    · intro _ hle
      simp only [setState, setPC, setGlobalStarts]
      omega
  | consume hacc hgen => exact h.consume hx hacc hgen
  | lost => exact m.inv h ht he { place := trivial }
  | @add r =>
    have hpend := setInstances_pending w.state r.workerIndex
      ((w.state.worker r.workerIndex).instances + 1)
    exact m.inv h ht he
      { place := trivial
        worker := fun j => by rw [setPC, setState, hpend]; rfl
        perWorker := fun _ j hle => (hpend j).trans_le hle }
  | @finish b r =>
    have hother := finishImage_other w.state r b
    have hpend := finishImage_field pendingStarts w.state r b (fun _ _ _ => rfl)
    exact m.inv h ht he
      { place := trivial
        frame := finishImage_frame ..
        slots := hother.2.2
        worker := fun j => by rw [setPC, setState, hpend]; rfl
        global := by rw [setPC, setState, hother.1]; rfl
        total := fun _ hle => hother.1.trans_le hle
        perWorker := fun _ j hle => (hpend j).trans_le hle }
  | notify => exact m.inv h ht he { place := trivial }
  | @record idx d =>
    have hpend := setInstances_pending w.state idx ((w.state.worker idx).instances - 1)
    exact m.inv h ht he
      { place := trivial
        worker := fun j => by rw [setPC, setState, hpend]; rfl
        perWorker := fun _ j hle => (hpend j).trans_le hle }

theorem Inv.turns_spawn (h : w.Inv) (x : PC) : Turns w (w.spawn x) w.nthreads .idle x :=
  ⟨h.fresh _ le_rfl, rfl, Nat.le_succ _, fun _ => Nat.lt_succ_self _⟩

theorem Inv.turns_setState (h : w.Inv) (s : PlacementState) :
    Turns w (w.setState s) w.nthreads .idle .idle := by
  refine ⟨h.fresh _ le_rfl, ?_, le_rfl, fun hne => absurd rfl hne⟩
  rw [← h.fresh w.nthreads le_rfl, Function.update_eq_self]
  rfl

theorem Edits.field {s' : PlacementState} (he : Edits s a s') {α : Type} (f : WorkerPlacement → α)
    (hf : ∀ x p k l, f { x with telemetry := l, pendingImages := p, knownImages := k } = f x)
    (j : Nat) : f (s'.worker j) = f (s.worker j) := by
  cases he with
  | @telemetry idx x => exact setWorker_field f s idx (hf (s.worker idx) _ _ _) j
  | @resetImages idx => exact setWorker_field f s idx (hf (s.worker idx) _ _ _) j
  | setTrackImages => rfl

theorem step_frame (hs : w.step a = .ok w') : Frame w.state w'.state ∧
      w'.state.maxInstancesPerWorker = w.state.maxInstancesPerWorker := by
  cases steps_of_step hs with
  | edit he => cases he <;> exact ⟨⟨rfl, rfl, rfl, rfl⟩, rfl⟩
  | enter => exact ⟨⟨rfl, rfl, rfl, rfl⟩, rfl⟩
  | @act t _ _ _ ha =>
    generalize w.pc t = x at ha
    cases ha with
    | image => exact ⟨addPendingImage_frame .., (addPendingImage_other ..).2.1⟩
    | finish => exact ⟨finishImage_frame .., (finishImage_other ..).2.1⟩
    | _ => exact ⟨⟨rfl, rfl, rfl, rfl⟩, rfl⟩

theorem step_inv (h : w.Inv) (hs : w.step a = .ok w') : w'.Inv := by
  cases steps_of_step hs with
  | edit he =>
    have hpend := he.field pendingStarts (fun _ _ _ _ => rfl)
    refine (h.turns_setState _).inv h rfl (fun _ _ he => by cases he)
      { place := trivial, frame := ?_, slots := ?_, worker := ?_, global := ?_, total := ?_,
        perWorker := fun _ j hle => (hpend j).trans_le hle }
    · cases he <;> exact ⟨rfl, rfl, rfl, rfl⟩
    · cases he <;> rfl
    · exact fun j => by rw [setState, hpend]
    · cases he <;> rfl
    · cases he <;> exact fun _ hle => hle
  | enter hb =>
    have m := h.turns_spawn
    cases hb with
    | answered ho =>
      have hnone := ho.none
      refine (m _).inv h rfl (fun _ _ he => by cases he)
        { place := ?_, token := hnone, worker := ?_, global := ?_ }
      · exact fun r hr => by rw [hnone] at hr; cases hr
      · exact fun _ => by simp [PC.worker, hnone, spawn]
      · simp [PC.starts, hnone, spawn]
    | schedule hpos =>
      exact (m _).inv h rfl (fun _ _ he => by cases he) { place := hpos }
    | complete hr =>
      refine (m _).inv h rfl ?_ { place := trivial }
      rintro _ _ ⟨⟩
      exact hr
    | recordStop | recorded =>
      exact (m _).inv h rfl (fun _ _ he => by cases he) { place := trivial }
  | act _ ha => exact ha.inv h

theorem init_inv (h : w.Start) : w.Inv := by
  obtain ⟨workers, perWorker, total, cap, rfl⟩ := h
  have hzero : ∀ n, Nat.count (fun _ => false = true) n = 0 := by
    intro n
    induction n with
    | zero => rfl
    | succ n ih => simp
  constructor
  case toShape =>
    constructor
    case fresh => exact fun _ _ => rfl
    case slots => exact Nat.lt_of_lt_of_le Nat.zero_lt_one (Nat.le_max_left _ _)
    case place => exact fun _ => trivial
    case issued => exact nofun
    case total => exact fun _ => Nat.zero_le _
    case perWorker => exact fun _ _ => Nat.zero_le _
  case toTokens =>
    constructor
    case unique => exact nofun
    case nodup => exact List.nodup_nil
    case spent => exact nofun
    case used => exact nofun
  case toLedger =>
    constructor
    case worker => exact fun _ => rfl
    case global => rfl
    case odd => exact hzero _

/-- **Run lemma.** -/
theorem inv_of_reachable (h : machine.Reachable w) : w.Inv :=
  h.invariant (I := fun w => w.Inv) (fun _ => init_inv) (fun _ _ _ => step_inv)

/-- The next step of such a thread would find its counter at zero. -/
def AtFloor (s : PlacementState) : PC → Prop
  | .undo _ idx .load | .unwind _ idx .load => (s.worker idx).pendingStarts = 0
  | .decPending _ r .load => (s.worker r.workerIndex).pendingStarts = 0
  | .releaseGlobal _ .load | .decGlobal _ .load => s.pendingStarts = 0
  | _ => False

/-- No call is in progress. -/
def Quiet (w : World) : Prop := ∀ t, (w.pc t).ended = true

/-- The number of issued tokens that no completion has used. -/
def uncompleted (w : World) : Nat :=
  Nat.count (fun t => (tokenOf (w.pc t)).any (fun r => decide ((r.slot, r.generation) ∉ w.effects)) = true)
    w.nthreads

theorem Inv.not_atFloor (h : w.Inv) (t : Nat) : ¬ AtFloor w.state (w.pc t) := by
  intro hf
  cases hx : w.pc t with
  | undo c idx d | unwind c idx d | decPending c idx d =>
    have hp := h.pending_pos hx rfl
    rw [hx] at hf
    cases d with
    | load => exact absurd hf (by simp only [AtFloor]; omega)
    | cas current => exact hf
  | releaseGlobal o d | decGlobal o d =>
    have hp := h.global_pos hx rfl
    rw [hx] at hf
    cases d with
    | load => exact absurd hf (by simp only [AtFloor]; omega)
    | cas current => exact hf
  | _ =>
    rw [hx] at hf
    exact hf

theorem PlaceOK.worker_lt (h : PlaceOK s x) (hx : x.worker s = some idx) : idx < s.workers := by
  cases x with
  | recheck | reloadLocal | reloadTelemetry | claim | slotLoad =>
    cases hx
    exact h
  | undo | unwind | slotCas | decPending =>
    cases hx
    exact h.1
  | image =>
    cases hx
    exact h.1.worker
  | returned o =>
    simp only [PC.worker, Option.map_eq_some_iff, Option.filter_eq_some_iff] at hx
    obtain ⟨r, ⟨hr, -⟩, rfl⟩ := hx
    exact (h r hr).worker
  | _ => cases hx

theorem Inv.sum_pending (h : w.Inv) :
    ∑ idx ∈ Finset.range w.state.workers, (w.state.worker idx).pendingStarts =
      Nat.count (fun t => ((w.pc t).worker w.state).isSome = true) w.nthreads := by
  rw [← Lib.sum_count_some (fun t => (w.pc t).worker w.state) w.nthreads w.state.workers
    (fun t _ idx hidx => PlaceOK.worker_lt (h.place t) hidx)]
  apply Finset.sum_congr rfl
  intro idx _
  exact h.worker idx

/-- When no call is in progress, units are held through live tokens only. -/
theorem PC.starts_over (h : x.ended = true) : x.starts s = x.owns s := by
  cases x with
  | idle | returned | completed | recorded => rfl
  | _ => cases h

theorem PC.worker_over (h : x.ended = true) : (x.worker s).isSome = x.owns s := by
  cases x with
  | returned o =>
    simp only [PC.worker, PC.owns, PC.token]
    cases o.reservation with
    | none => rfl
    | some r => cases hl : s.live r <;> simp [Option.filter, hl]
  | idle | completed | recorded => rfl
  | _ => cases h

/-- A token is live exactly while no completion of it went through. -/
theorem Inv.live_iff (h : w.Inv) {r : PlacementReservation} (hr : (w.pc t).token = some r) :
    w.state.live r = decide ((r.slot, r.generation) ∉ w.effects) := by
  have hp := ((h.place t).token hr).past
  simp only [live, decide_eq_decide]
  constructor
  · intro hlive hmem
    have hlt := h.spent _ hmem
    simp only at hlt
    omega
  · intro hmem
    by_contra hne
    exact hmem (h.used t r hr (by omega))

theorem Inv.uncompleted_eq (h : w.Inv) (hq : w.Quiet) : w.uncompleted = w.owners := by
  apply Lib.count_congr
  intro t _
  have ho := hq t
  cases hx : w.pc t with
  | returned o =>
    simp only [tokenOf, PC.owns, PC.token]
    cases hr : o.reservation with
    | none => simp
    | some r =>
      have hl := h.live_iff (t := t) (r := r) (by rw [hx]; exact hr)
      simp only [Option.any_some, hl]
  | idle | completed | recorded => rfl
  | _ =>
    rw [hx] at ho
    cases ho

/-- **The start-token ledger.** In every state that interleavings of single
atomic steps reach: the counters are within their limits; when no call is in
progress the four counts agree; different calls return different tokens and no
token is used twice; and no decrement finds its counter at zero. -/
theorem start_tokens {w : World} (hw : machine.Reachable w) :
    (0 < w.state.startTokensTotal → w.state.pendingStarts ≤ w.state.startTokensTotal) ∧
    (0 < w.state.startTokensPerWorker →
      ∀ idx, (w.state.worker idx).pendingStarts ≤ w.state.startTokensPerWorker) ∧
    (w.Quiet →
      w.state.pendingStarts =
        ∑ idx ∈ Finset.range w.state.workers, (w.state.worker idx).pendingStarts ∧
      w.state.pendingStarts = w.uncompleted ∧
      w.state.pendingStarts = w.reserved) ∧
    (∀ t u r r', tokenOf (w.pc t) = some r → tokenOf (w.pc u) = some r' →
      (r.slot, r.generation) = (r'.slot, r'.generation) → t = u) ∧
    w.effects.Nodup ∧
    ∀ t, ¬ AtFloor w.state (w.pc t) := by
  have h := inv_of_reachable hw
  refine ⟨h.total, h.perWorker, ?_, ?_, h.nodup, h.not_atFloor⟩
  · intro hq
    have hstart : w.state.pendingStarts = w.owners := by
      rw [h.global]
      apply Lib.count_congr
      intro t _
      rw [PC.starts_over (hq t)]
    have hsum : ∑ idx ∈ Finset.range w.state.workers, (w.state.worker idx).pendingStarts =
        w.owners := by
      rw [h.sum_pending]
      apply Lib.count_congr
      intro t _
      rw [PC.worker_over (hq t)]
    exact ⟨hstart.trans hsum.symm, hstart.trans (h.uncompleted_eq hq).symm, hstart.trans h.odd.symm⟩
  · intro t u r r' ht hu heq
    have htoken : ∀ v q, tokenOf (w.pc v) = some q → (w.pc v).token = some q := by
      intro v q hv
      obtain ⟨o, hx, ho⟩ := tokenOf_eq_some hv
      rw [hx]
      exact ho
    cases Prod.mk.inj heq with
    | intro hs hg => exact h.unique t u r r' (htoken t r ht) (htoken u r' hu) hs hg

/-- A balanced `Schedule` that runs alone on its first worker, as thread `t`:
`n` is the number of its steps after the choice. -/
def placeAlone (t n : Nat) : List Action :=
  [.schedule .balanced "", .step t, .step t, .pick t (.start 0)] ++ List.replicate n (.step t)

/-- One token committed and cancelled, and the next one out: with nothing in
progress all counts are one. -/
theorem start_tokens_reused_slot :
    ∃ w : World, w.Quiet ∧ w.effects = [(0, 1)] ∧ w.state.pendingStarts = 1 ∧
      w.uncompleted = 1 ∧ w.reserved = 1 := by
  obtain ⟨w, hw, hover, heff, hone⟩ := machine.exists_of_run
    (Q := fun w => (∀ t ∈ List.range w.nthreads, (w.pc t).ended = true) ∧
      w.effects = [(0, 1)] ∧ w.state.pendingStarts = 1)
    (init (newPlacementState 1 1 1 0))
    (placeAlone 0 8 ++
      [.complete true ⟨0, "", 0, 1, true, 1⟩, .complete false ⟨0, "", 0, 1, true, 1⟩] ++
      List.replicate 8 (.step 1) ++ [.step 2] ++ placeAlone 3 8)
    ⟨1, 1, 1, 0, rfl⟩ (by decide +kernel)
  have hq : w.Quiet := by
    intro t
    by_cases hlt : t < w.nthreads
    · exact hover t (List.mem_range.mpr hlt)
    · rw [(inv_of_reachable hw).fresh t (by omega)]
      rfl
  obtain ⟨-, hun, hres⟩ := (start_tokens hw).2.2.1 hq
  exact ⟨w, hq, heff, hone, by omega, by omega⟩

end World

end HyperFaaS.Runtime
