import HyperFaaS.Worker.Runc

/-!
What the calls of one id leave in the tables of the runc runtime and of the worker: the entry of
`active`, the container and the record of the id, its `Row`. `Change` has the moves of one call
together with what they do to the row; `At` says what each call knows of the row, and that an
entry without a record, or a record without an entry, is the work of a call in progress.
`World.Tables.step` is for the steps of `World.orderly`.
-/

namespace HyperFaaS.Worker.Runc

open Function

structure Row where
  lease : Option Lease
  container : Option Nat
  recorded : Bool
  deriving DecidableEq, Repr

/-- The moves of a call and the row of its id. A call enters from `Phase.other`. -/
inductive Change (ph : Nat → Phase) (id : Nat) : Phase → Row → Phase → Row → Prop
  | create (hnone : ∀ j, (ph j).id ≠ some id) :
      Change ph id .other ⟨none, none, false⟩ (.early id) ⟨none, none, false⟩
  | fail {r : Row} : Change ph id (.early id) r .other r
  | activate {r : Row} (l : Lease) :
      Change ph id (.early id) r (.late id l) { r with lease := some l }
  | cleanup {r : Row} {l : Lease} : Change ph id (.late id l) r .other { r with lease := none }
  | run {r : Row} {l : Lease} (v : Nat) :
      Change ph id (.late id l) r (.recording id) { r with container := some v }
  | record {r : Row} : Change ph id (.recording id) r (.up id) { r with recorded := true }
  | ready {r : Row} : Change ph id (.up id) r .other r
  | stop {r : Row} : Change ph id (.up id) r (.stopping id) r
  | stopSandbox {r : Row} (hnone : ∀ j, (ph j).starts ≠ some id) :
      Change ph id .other r (.stopping id) r
  | delete {r : Row} : Change ph id (.stopping id) r (.taking id) { r with container := none }
  | take {r : Row} : Change ph id (.taking id) r (.removing id) { r with lease := none }
  | remove {r : Row} : Change ph id (.removing id) r .other { r with recorded := false }
  | watch {r : Row} (hnone : ∀ j, (ph j).starts ≠ some id) :
      Change ph id .other r (.watching id) r
  | unwatch {r : Row} : Change ph id (.watching id) r .other r
  | exit {r : Row} (hgone : r.lease = none ∨ ∃ j, (ph j).stops = some id) :
      Change ph id (.watching id) r (.forgetting id) r
  | forget {r : Row} : Change ph id (.forgetting id) r .other { r with recorded := false }

/-- Call `i` is in phase `b`, and the others are where they were. -/
structure Moves (ph ph' : Nat → Phase) (i : Nat) (b : Phase) : Prop where
  self : ph' i = b
  other : ∀ j, j ≠ i → ph' j = ph j

structure At (ph : Nat → Phase) (id : Nat) (r : Row) : Prop where
  solo : ∀ i j, (ph i).starts = some id → (ph j).id = some id → i = j
  early : ∀ i, ph i = .early id → r = ⟨none, none, false⟩
  late : ∀ i l, ph i = .late id l → r = ⟨some l, none, false⟩
  recording : ∀ i, ph i = .recording id → r.lease ≠ none ∧ r.recorded = false
  taking : ∀ i, ph i = .taking id → r.container = none
  removing : ∀ i, ph i = .removing id → r.lease = none
  forgetting : ∀ i, ph i = .forgetting id → r.lease = none ∨ ∃ j, (ph j).stops = some id
  entered : r.lease ≠ none → r.recorded = false → ∃ j, (ph j).keeps = some id
  recorded : r.recorded = true → r.lease = none → ∃ j, ph j = .removing id

variable {ph ph' : Nat → Phase} {id i : Nat} {b : Phase} {r r' : Row}
variable {p : Phase}

/-- A phase that starts, keeps or stops an id is of that id; a stop that has not
taken the entry keeps it. -/
@[grind →] theorem Phase.id_of_starts (h : p.starts = some id) : p.id = some id := by
  cases p <;> simp_all [Phase.starts, Phase.id]

@[grind →] theorem Phase.id_of_keeps (h : p.keeps = some id) : p.id = some id := by
  cases p <;> simp_all [Phase.keeps, Phase.id]

@[grind →] theorem Phase.keeps_of_stops (h : p.stops = some id) : p.keeps = some id := by
  cases p <;> simp_all [Phase.stops, Phase.keeps]

theorem At.frame (h : At ph id r) (hm : Moves ph ph' i b) (hold : (ph i).id ≠ some id)
    (hnew : b.id ≠ some id) : At ph' id r := by
  obtain ⟨solo, early, late, recording, taking, removing, forgetting, entered, recorded⟩ := h
  obtain ⟨hself, hother⟩ := hm
  constructor <;> grind

/-- Each field is from those named, since a call that starts an id is its only one. -/
theorem At.change (h : At ph id r) (hm : Moves ph ph' i b) (hc : Change ph id (ph i) r b r') :
    At ph' id r' := by
  have hsolo := h.solo
  obtain ⟨hself, hother⟩ := hm
  generalize hi : ph i = a at hc
  constructor
  case solo => cases hc <;> grind
  case early =>
    have hearly := h.early
    cases hc <;> grind
  case late =>
    have hearly := h.early
    have hlate := h.late
    cases hc <;> grind
  case recording =>
    have hlate := h.late
    have hrecording := h.recording
    cases hc <;> grind
  case taking =>
    have htaking := h.taking
    cases hc <;> grind
  case removing =>
    have hremoving := h.removing
    cases hc <;> grind
  case forgetting =>
    have hforgetting := h.forgetting
    cases hc <;> grind
  case entered =>
    have hlate := h.late
    have hremoving := h.removing
    have hforgetting := h.forgetting
    have hentered := h.entered
    cases hc <;> grind
  case recorded =>
    have hlate := h.late
    have hrecording := h.recording
    have hremoving := h.removing
    have hrecorded := h.recorded
    cases hc <;> grind

theorem Change.frame {a : Phase} (hc : Change ph id a r b r') {j : Nat} (hj : j ≠ id) :
    a.id ≠ some j ∧ b.id ≠ some j := by
  cases hc <;> simp [Phase.id, hj.symm]

/-! ## Worlds -/

namespace World

variable {w w' u : World} {x : PC} {o : Outcome}

def phases (w : World) (j : Nat) : Phase := (w.pc j).phase

def row (w : World) (id : Nat) : Row := ⟨w.active id, w.containers id, w.instances id⟩

theorem row_setActive (w : World) (id : Nat) (l : Option Lease) :
    (w.setActive id l).row = update w.row id { w.row id with lease := l } := by
  funext j
  rcases eq_or_ne j id with rfl | hj
  · simp [row, setActive]
  · simp [row, setActive, hj]

theorem row_setInstance (w : World) (id : Nat) (b : Bool) :
    (w.setInstance id b).row = update w.row id { w.row id with recorded := b } := by
  funext j
  rcases eq_or_ne j id with rfl | hj
  · simp [row, setInstance]
  · simp [row, setInstance, hj]

theorem row_addContainer (w : World) (id n : Nat) :
    (w.addContainer id n).row =
      update w.row id { w.row id with container := some w.ncontainers } := by
  funext j
  rcases eq_or_ne j id with rfl | hj
  · simp [row, addContainer]
  · simp [row, addContainer, hj]

theorem row_removeContainer (w : World) (id v : Nat) :
    (w.removeContainer id v).row =
      update w.row id { w.row id with container := none } := by
  funext j
  rcases eq_or_ne j id with rfl | hj
  · simp [row, removeContainer]
  · simp [row, removeContainer, hj]

theorem row_same (w : World) (id : Nat) : w.row = update w.row id (w.row id) :=
  (Function.update_eq_self id w.row).symm

theorem moves_go (hpc : u.pc = w.pc) (i : Nat) (x : PC) : Moves w.phases (u.go i x).phases i x.phase
    where
  self := by simp [phases, go]
  other := fun j hj => by simp [phases, go, hj, hpc]

/-- Every id, with what its calls know. -/
def Tables (w : World) : Prop := ∀ id, At w.phases id (w.row id)

theorem Tables.change (h : Tables w) (hpc : u.pc = w.pc) (hrow : u.row = update w.row id r')
    (hc : Change w.phases id (w.pc i).phase (w.row id) x.phase r') : Tables (u.go i x) := by
  have hmoves := moves_go hpc i x
  intro j
  change At _ j (u.row j)
  rw [hrow]
  rcases eq_or_ne j id with rfl | hj
  · rw [update_self]
    exact (h j).change hmoves hc
  · rw [update_of_ne hj]
    exact (h j).frame hmoves (hc.frame hj).1 (hc.frame hj).2

theorem Tables.same (h : Tables w) (hpc : u.pc = w.pc) (hrow : u.row = w.row)
    (hx : x.phase = (w.pc i).phase) : Tables (u.go i x) := by
  have hphases : (u.go i x).phases = w.phases := by
    funext j
    rcases eq_or_ne j i with rfl | hj
    · exact (moves_go hpc j x).self.trans hx
    · exact (moves_go hpc i x).other j hj
  intro id
  change At _ id (u.row id)
  rw [hphases, hrow]
  exact h id

/-! ## Calls -/

def Bounded (w : World) : Prop := ∀ j, w.ncalls ≤ j → w.pc j = .idle

theorem Bounded.phase (h : Bounded w) {j : Nat} (hj : w.ncalls ≤ j) : w.phases j = .other := by
  rw [phases, h j hj]
  rfl

theorem Bounded.enter (h : Bounded w) (x : PC) : Bounded (w.enter x) := by
  intro j hj
  have hj : w.ncalls + 1 ≤ j := hj
  exact (update_of_ne (by omega) _ _).trans (h j (by omega))

theorem Bounded.go (h : Bounded w) (hpc : u.pc = w.pc) (hn : u.ncalls = w.ncalls)
    (hi : w.pc i ≠ .idle) (x : PC) : Bounded (u.go i x) := by
  intro j hj
  have hout : w.ncalls ≤ j := hn ▸ hj
  have hji : j ≠ i := fun hji => hi (hji ▸ h j hout)
  refine (update_of_ne hji _ _).trans ?_
  rw [hpc]
  exact h j hout

theorem Bounded.forall_of_range (h : Bounded w) {p : Phase → Bool} (hother : p .other = true)
    (hall : (List.range w.ncalls).all (fun j => p (w.pc j).phase) = true) (j : Nat) :
    p (w.phases j) = true := by
  rcases Nat.lt_or_ge j w.ncalls with hj | hj
  · exact List.all_eq_true.mp hall j (List.mem_range.mpr hj)
  · rw [h.phase hj]
    exact hother

/-- A step of call `i` moves it; after a record there is one call more. -/
inductive Calls (w : World) (i : Nat) : World → Prop
  | go {u : World} (x : PC) (hpc : u.pc = w.pc) (hn : u.ncalls = w.ncalls) : Calls w i (u.go i x)
  | record {u : World} (x y : PC) (hpc : u.pc = w.pc) (hn : u.ncalls = w.ncalls) :
      Calls w i ((u.go i x).enter y)

theorem advance_calls (hs : w.advance i o = .ok w') : Calls w i w' := by
  unfold advance at hs
  cases hpc : w.pc i <;> simp only [hpc] at hs
  case acquire id =>
    cases hs
    unfold acquire
    split <;> exact .go _ rfl rfl
  case createNamespace id =>
    cases hs
    cases o <;> exact .go _ rfl rfl
  case record id =>
    cases hs
    exact .record _ _ rfl rfl
  case take id =>
    cases hs
    unfold take
    split <;> exact .go _ rfl rfl
  case giveBack l removes =>
    cases hs
    unfold giveBack
    split <;> exact .go _ rfl rfl
  case delete id tries =>
    unfold delete at hs
    repeat' split at hs
    all_goals cases hs
    all_goals exact .go _ rfl rfl
  all_goals
    repeat' split at hs
    all_goals cases hs
    all_goals exact .go _ rfl rfl

theorem advance_started (hs : w.advance i o = .ok w') : w.pc i ≠ .idle := by
  intro hidle
  simp [advance, hidle] at hs

theorem Bounded.step (h : Bounded w) {a : Action} (hs : w.step a = .ok w') : Bounded w' := by
  cases a with
  | createSandbox id =>
    cases hs
    exact h.enter _
  | stopSandbox id =>
    cases hs
    exact h.enter _
  | step i o =>
    have hstarted := advance_started hs
    cases advance_calls hs with
    | go x hpc hn => exact h.go hpc hn hstarted x
    | record x y hpc hn => exact (h.go hpc hn hstarted x).enter y

/-! ## Steps -/

theorem Tables.enter (h : Tables w) (hb : Bounded w) (id : Nat)
    (hc : Change w.phases id .other (w.row id) x.phase (w.row id)) : Tables (w.enter x) := by
  have hother : (w.pc w.ncalls).phase = .other := hb.phase le_rfl
  refine Tables.change (i := w.ncalls) h rfl (w.row_same id) ?_
  rw [hother]
  exact hc

theorem Tables.record (h : Tables w) (hb : Bounded w) (hpc : w.pc i = .record id) :
    Tables (((w.setInstance id true).go i (.created id)).enter (.watchLifecycle id)) := by
  have hphase : w.phases i = .recording id := by
    rw [phases, hpc]
    rfl
  have hstarted : w.pc i ≠ .idle := by
    rw [hpc]
    nofun
  have hrecorded : Tables ((w.setInstance id true).go i (.created id)) := by
    refine h.change rfl (w.row_setInstance id true) ?_
    rw [show (w.pc i).phase = .recording id from hphase]
    exact .record
  have hbound : Bounded ((w.setInstance id true).go i (.created id)) := hb.go rfl rfl hstarted _
  have hmoves : Moves w.phases ((w.setInstance id true).go i (.created id)).phases i (.up id) :=
    moves_go rfl i _
  refine hrecorded.enter hbound id (.watch fun j hj => ?_)
  rcases eq_or_ne j i with rfl | hji
  · rw [hmoves.self] at hj
    cases hj
  · rw [hmoves.other j hji] at hj
    exact hji ((h id).solo j i hj (by rw [hphase]; rfl))

theorem Tables.acquire (h : Tables w) (hpc : w.pc i = .acquire id) : Tables (w.acquire i id) := by
  unfold World.acquire
  split <;> exact h.same rfl rfl (by rw [hpc]; rfl)

theorem Tables.fail (h : Tables w) (hpc : (w.pc i).phase = .early id) : Tables (w.go i .done) := by
  refine h.change rfl (w.row_same id) ?_
  rw [hpc]
  exact .fail

theorem Tables.createNamespace (h : Tables w) (hpc : w.pc i = .createNamespace id) :
    Tables (w.createNamespace i id o) := by
  have hphase : (w.pc i).phase = .early id := by
    rw [hpc]
    rfl
  cases o with
  | ok => exact h.same rfl rfl hphase.symm
  | error => exact h.fail hphase
  | half => exact Tables.fail (w := w.makeNamespace id) h hphase

theorem Tables.take (h : Tables w) (hpc : w.pc i = .take id) : Tables (w.take i id) := by
  have hphase : (w.pc i).phase = .taking id := by
    rw [hpc]
    rfl
  unfold World.take
  split
  · refine h.change rfl (w.row_setActive id none) ?_
    rw [hphase]
    exact .take
  · rename_i hnone
    have hrow : { w.row id with lease := none } = w.row id := by
      simp [row, hnone]
    refine h.change rfl (w.row_same id) ?_
    rw [hphase]
    nth_rewrite 2 [← hrow]
    exact .take

theorem Tables.giveBack {l : Lease} {removes : Option Nat} (h : Tables w)
    (hpc : w.pc i = .giveBack l removes) :
    Tables (w.giveBack i l (.afterGiveBack removes)) := by
  have hphase : (PC.afterGiveBack removes).phase = (w.pc i).phase := by
    rw [hpc]
    cases removes <;> rfl
  unfold World.giveBack
  split <;> exact h.same rfl rfl hphase

theorem Tables.delete {tries : Nat} (h : Tables w) (hpc : w.pc i = .delete id tries)
    (hok : w.orderly (.step i o) = true) (hs : w.delete i id tries o = .ok w') : Tables w' := by
  have hphase : (w.pc i).phase = .stopping id := by
    rw [hpc]
    rfl
  cases o with
  | half => cases hs
  | ok =>
    simp only [delete] at hs
    split at hs
    · cases hs
      refine h.change rfl (w.row_removeContainer id _) ?_
      rw [hphase]
      exact .delete
    · cases hs
  | error =>
    cases hs
    split
    · exact h.same rfl rfl hphase.symm
    · rename_i hlast
      have hnone : w.containers id = none := by
        simpa [orderly, hpc, hlast] using hok
      have hrow : { w.row id with container := none } = w.row id := by
        simp [row, hnone]
      refine h.change rfl (w.row_same id) ?_
      rw [hphase]
      nth_rewrite 2 [← hrow]
      exact .delete

theorem Tables.watchLifecycle (h : Tables w) (hpc : w.pc i = .watchLifecycle id)
    (hok : w.orderly (.step i o) = true) :
    Tables (w.go i (if o = .ok then .removeInstanceAndNotify id else .done)) := by
  have hphase : (w.pc i).phase = .watching id := by
    rw [hpc]
    rfl
  refine h.change rfl (w.row_same id) ?_
  rw [hphase]
  split
  · rename_i hexit
    refine .exit ?_
    simp only [orderly, hpc, hexit, Bool.or_eq_true] at hok
    rcases hok with (hfalse | hnone) | hstops
    · cases of_decide_eq_true hfalse rfl
    · exact .inl (Option.isNone_iff_eq_none.mp hnone)
    · obtain ⟨j, _, hj⟩ := List.any_eq_true.mp hstops
      exact .inr ⟨j, beq_iff_eq.mp hj⟩
  · exact .unwatch

theorem Tables.advance (h : Tables w) (hb : Bounded w) (hok : w.orderly (.step i o) = true)
    (hs : w.advance i o = .ok w') : Tables w' := by
  -- the row stays, or one column of it is set
  have hrow {x : PC} (id : Nat) (hc : Change w.phases id (w.pc i).phase (w.row id) x.phase (w.row id)) :
      Tables (w.go i x) := h.change rfl (w.row_same id) hc
  unfold World.advance at hs
  cases hpc : w.pc i <;> simp only [hpc] at hs
  case prepare id =>
    cases hs
    split
    · exact h.same rfl rfl (by rw [hpc]; rfl)
    · exact h.fail (by rw [hpc]; rfl)
  case acquire id =>
    cases hs
    exact h.acquire hpc
  case createNamespace id =>
    cases hs
    exact h.createNamespace hpc
  case startPortProxy id l =>
    cases hs
    split
    · exact h.same rfl rfl (by rw [hpc]; rfl)
    · exact hrow id (by rw [hpc]; exact .fail)
  case activate id l =>
    cases hs
    exact h.change rfl (w.row_setActive id (some l)) (by rw [hpc]; exact .activate l)
  case run id l =>
    repeat' split at hs
    all_goals cases hs
    · exact h.change rfl (w.row_addContainer id l.netns) (by rw [hpc]; exact .run w.ncontainers)
    · exact h.same rfl rfl (by rw [hpc]; rfl)
  case cleanupStartFailure id l =>
    cases hs
    exact h.change rfl (w.row_setActive id none) (by rw [hpc]; exact .cleanup)
  case record id =>
    cases hs
    exact h.record hb hpc
  case created id =>
    cases hs
    refine hrow id ?_
    rw [hpc]
    split
    · exact .ready
    · exact .stop
  case delete id tries => exact h.delete hpc hok hs
  case take id =>
    cases hs
    exact h.take hpc
  case giveBack l removes =>
    cases hs
    exact h.giveBack hpc
  case removeInstance id =>
    cases hs
    exact h.change rfl (w.row_setInstance id false) (by rw [hpc]; exact .remove)
  case watchLifecycle id =>
    cases hs
    exact h.watchLifecycle hpc hok
  case removeInstanceAndNotify id =>
    cases hs
    exact h.change rfl (w.row_setInstance id false) (by rw [hpc]; exact .forget)
  all_goals
    repeat' split at hs
    all_goals cases hs
    all_goals exact h.same rfl rfl (by rw [hpc]; rfl)

theorem Tables.step (h : Tables w) (hb : Bounded w) {a : Action} (hok : w.orderly a = true)
    (hs : w.step a = .ok w') : Tables w' := by
  cases a with
  | createSandbox id =>
    simp only [orderly, Bool.and_eq_true, Bool.not_eq_true'] at hok
    obtain ⟨⟨⟨hlease, hcontainer⟩, hrecorded⟩, hall⟩ := hok
    have hrow : w.row id = ⟨none, none, false⟩ := by
      simp [row, Option.isNone_iff_eq_none.mp hlease, Option.isNone_iff_eq_none.mp hcontainer,
        hrecorded]
    have hnone := hb.forall_of_range (p := fun p => p.id != some id) rfl hall
    cases hs
    refine h.enter hb id ?_
    rw [hrow]
    exact .create fun j => bne_iff_ne.mp (hnone j)
  | stopSandbox id =>
    have hnone := hb.forall_of_range (p := fun p => p.starts != some id) rfl hok
    cases hs
    exact h.enter hb id (.stopSandbox fun j => bne_iff_ne.mp (hnone j))
  | step i o => exact h.advance hb hok hs

theorem init_phases (usePool : Bool) (poolSize j : Nat) :
    (init usePool poolSize).phases j = .other := by
  change (update (fun _ => PC.idle) 0 (if usePool then .populate 0 else .done) j).phase = _
  rcases eq_or_ne j 0 with rfl | hj
  · rw [update_self]
    cases usePool <;> rfl
  · rw [update_of_ne hj]
    rfl

theorem init_tables (usePool : Bool) (poolSize : Nat) : Tables (init usePool poolSize) := by
  intro id
  have hphase := init_phases usePool poolSize
  have hrow : (init usePool poolSize).row id = ⟨none, none, false⟩ := rfl
  rw [hrow]
  constructor <;> simp [hphase, Phase.starts]

theorem init_bounded (usePool : Bool) (poolSize : Nat) :
    Bounded (init usePool poolSize) := by
  intro j hj
  have hj : 0 < j := hj
  change update (fun _ => PC.idle) 0 (if usePool then .populate 0 else .done) j = .idle
  rw [update_of_ne (Nat.ne_of_gt hj)]

end World

end HyperFaaS.Worker.Runc
