import HyperFaaS.Worker.RuncEntries

/-!
The namespaces of the runc runtime are a ledger (`Lib.Ledger`): with what the calls know of the
tables (`World.Tables`), every step is a run of steps of the ledger (`World.Refines.step`).

Proved here (`runc_ledger_settled`): no container is there in a namespace of the pool, namespaces
that are there have different names, and when nothing is in progress but watches, every namespace
made is in the pool, deleted, or in one entry of `active`, and `active` has the ids of the
worker's map. This is for the runs of `World.orderly`. Without it the worker forgets a sandbox
whose process has ended, and its entry stays in `active` (`crash_leaves_active`).
-/

namespace HyperFaaS.Worker.Runc

open Function

namespace World

open Lib.Ledger (Step Runs)

variable {w w' u : World} {i id k n v : Nat} {l : Lease} {x : PC} {o : Outcome}

/-- The ledger of `w` becomes that of `w'`. -/
def Refines (w w' : World) : Prop := Runs w.ledger w'.ledger

/-! ## The ledger after a change -/

theorem ledger_go (w : World) (i : Nat) (x : PC) :
    (w.go i x).ledger = w.ledger.set (.call i) x.hand := by
  have hhand : (w.go i x).hand = update w.hand (.call i) x.hand := by
    funext place
    cases place with
    | entry id => rfl
    | call j =>
      rcases eq_or_ne j i with rfl | hji
      · simp [hand, go]
      · simp [hand, go, hji]
  simp only [ledger, Lib.Ledger.set, hhand]
  rfl

/-- The hand of an entry. -/
def entryHand (l : Option Lease) (c : Option Nat) : Option Lib.Hand :=
  l.map fun l => ⟨l.netns, some l.account, c⟩

theorem hand_entry (w : World) (id : Nat) :
    w.ledger.hand (.entry id) = entryHand (w.active id) (w.containers id) := rfl

theorem hand_row (hpc : u.pc = w.pc) {r : Row} (hrow : u.row = update w.row id r) :
    u.hand = update w.hand (.entry id) (entryHand r.lease r.container) := by
  funext place
  cases place with
  | call j =>
    change (u.pc j).hand = (w.pc j).hand
    rw [hpc]
  | entry j =>
    change entryHand (u.row j).lease (u.row j).container = _
    rw [hrow]
    rcases eq_or_ne j id with rfl | hj
    · simp
    · have hne : Place.entry j ≠ .entry id := fun he => hj (Place.entry.inj he)
      rw [update_of_ne hj, update_of_ne hne]
      rfl

theorem ledger_setActive (w : World) (id : Nat) (e : Option Lease) :
    (w.setActive id e).ledger = w.ledger.set (.entry id) (entryHand e (w.containers id)) := by
  have hhand := hand_row (w := w) (u := w.setActive id e) rfl (w.row_setActive id e)
  simp only [ledger, Lib.Ledger.set, hhand]
  rfl

theorem Refines.trans {w₁ w₂ : World} (h₁ : w.Refines w₁) (h₂ : w₁.Refines w₂) : w.Refines w₂ :=
  Runs.trans h₁ h₂

theorem Refines.go (hs : Runs w.ledger (u.ledger.set (.call i) x.hand)) : w.Refines (u.go i x) := by
  unfold Refines
  rw [ledger_go]
  exact hs

theorem Refines.keep (hledger : u.ledger = w.ledger) (hsame : x.hand = (w.pc i).hand) :
    w.Refines (u.go i x) := by
  refine .go (.same ?_)
  rw [hledger]
  exact w.ledger.set_same (.call i) hsame

theorem Refines.enter (hb : Bounded w) (hnew : x.hand = none) : w.Refines (w.enter x) := by
  refine Refines.keep (u := w) (i := w.ncalls) rfl ?_
  rw [hnew, hb w.ncalls le_rfl]
  rfl

theorem Refines.record (hb : Bounded w) (hpc : w.pc i = .record id) :
    w.Refines (((w.setInstance id true).go i (.created id)).enter (.watchLifecycle id)) := by
  have hstarted : w.pc i ≠ .idle := by
    rw [hpc]
    nofun
  have hgo : w.Refines ((w.setInstance id true).go i (.created id)) :=
    .keep rfl (by rw [hpc]; rfl)
  have hbound : Bounded ((w.setInstance id true).go i (.created id)) := hb.go rfl rfl hstarted _
  exact hgo.trans (.enter hbound rfl)

theorem Refines.acquire (hold : (w.pc i).hand = none) : w.Refines (w.acquire i id) := by
  unfold World.acquire
  split
  · rename_i n rest _ hpool
    exact .go (Runs.borrow (l := w.ledger) (p := .call i) hpool hold)
  · exact .keep rfl hold.symm

theorem Refines.giveBack (hold : (w.pc i).hand = some ⟨l.netns, some l.account, none⟩)
    (hnew : x.hand = none) : w.Refines (w.giveBack i l x) := by
  unfold World.giveBack
  split
  all_goals
    refine .go ?_
    rw [hnew]
  · exact Runs.restore (l := w.ledger) (p := .call i) hold
  · exact Runs.discard (l := w.ledger) (p := .call i) hold rfl

theorem Refines.activate (hold : (w.pc i).hand = some ⟨l.netns, some l.account, none⟩)
    (hlease : w.active id = none) (hcontainer : w.containers id = none) (hnew : x.hand = none) :
    w.Refines ((w.setActive id (some l)).go i x) := by
  have hne : Place.call i ≠ .entry id := nofun
  have hnone : w.ledger.hand (.entry id) = none := by
    rw [hand_entry, hlease]
    rfl
  have hpass := Step.pass (l := w.ledger) hne hold hnone
  refine .go (.one ?_)
  rw [ledger_setActive, hnew, hcontainer]
  simp only [Lib.Ledger.set, Function.update_comm hne.symm]
  exact hpass

theorem Refines.deactivate (hold : (w.pc i).hand = none) (hlease : w.active id = some l)
    (hcontainer : w.containers id = none)
    (hnew : x.hand = some ⟨l.netns, some l.account, none⟩) :
    w.Refines ((w.setActive id none).go i x) := by
  have hne : Place.entry id ≠ .call i := nofun
  have hentry : w.ledger.hand (.entry id) = some ⟨l.netns, some l.account, none⟩ := by
    rw [hand_entry, hlease, hcontainer]
    rfl
  refine .go (.one ?_)
  rw [ledger_setActive, hnew]
  exact .pass (l := w.ledger) hne hentry hold

theorem Refines.take (hold : (w.pc i).hand = none) (hcontainer : w.containers id = none) :
    w.Refines (w.take i id) := by
  unfold World.take
  split
  · rename_i l hlease
    exact .deactivate hold hlease hcontainer rfl
  · exact .keep rfl hold.symm

theorem Refines.addContainer (hlease : w.active id = some l) (hcontainer : w.containers id = none) :
    w.Refines (w.addContainer id l.netns) := by
  have hentry : w.ledger.hand (.entry id) = some ⟨l.netns, some l.account, none⟩ := by
    rw [hand_entry, hlease, hcontainer]
    rfl
  have hhand := hand_row (w := w) (u := w.addContainer id l.netns) rfl
    (w.row_addContainer id l.netns)
  have hledger : (w.addContainer id l.netns).ledger =
      { w.ledger with
        running := update w.ledger.running w.ledger.started (some l.netns)
        started := w.ledger.started + 1 }.set (.entry id)
          (some ⟨l.netns, some l.account, some w.ledger.started⟩) := by
    simp only [World.ledger, Lib.Ledger.set, hhand]
    simp only [World.addContainer, row, hlease, entryHand, Option.map_some]
  refine Runs.one ?_
  rw [hledger]
  exact .spawn (l := w.ledger) hentry rfl

theorem Refines.removeContainer (hcontainer : w.containers id = some v) :
    w.Refines (w.removeContainer id v) := by
  have hhand := hand_row (w := w) (u := w.removeContainer id v) rfl (w.row_removeContainer id v)
  have hfinish : Step w.ledger
      { w.ledger with running := update w.ledger.running v none } :=
    .finish (l := w.ledger) v
  refine (Runs.one hfinish).trans ?_
  cases hlease : w.active id with
  | none =>
    have hsame : entryHand none none = w.hand (.entry id) := by
      simp only [hand, hlease]
      rfl
    refine Runs.same ?_
    simp only [ledger, hhand, row, hlease, hsame, Function.update_eq_self]
    rfl
  | some l =>
    have hentry : w.ledger.hand (.entry id) = some ⟨l.netns, some l.account, some v⟩ := by
      rw [hand_entry, hlease, hcontainer]
      rfl
    refine Runs.one ?_
    have hledger : (w.removeContainer id v).ledger =
        { w.ledger with running := update w.ledger.running v none }.set (.entry id)
          (some ⟨l.netns, some l.account, none⟩) := by
      simp only [ledger, Lib.Ledger.set, hhand, row, hlease]
      rfl
    rw [hledger]
    refine .forget (p := Place.entry id) (h := ⟨l.netns, some l.account, some v⟩) hentry
      fun c hc => ?_
    cases hc
    exact update_self _ _ _

theorem Refines.delete {tries : Nat} (hpc : w.pc i = .delete id tries)
    (hs : w.delete i id tries o = .ok w') : w.Refines w' := by
  unfold World.delete at hs
  split at hs
  · split at hs
    · rename_i v hcontainer
      cases hs
      refine (Refines.removeContainer hcontainer).trans (.keep rfl ?_)
      simp [World.removeContainer, hpc, PC.hand]
    · cases hs
  · cases hs
    split <;> exact .keep rfl (by rw [hpc]; rfl)
  · cases hs

theorem Refines.advance (ht : Tables w) (hb : Bounded w) (hok : w.orderly (.step i o) = true)
    (hs : w.advance i o = .ok w') : w.Refines w' := by
  have hhand {h : Option Lib.Hand} (hh : (w.pc i).hand = h) : w.ledger.hand (.call i) = h := hh
  unfold World.advance at hs
  cases hpc : w.pc i <;> simp only [hpc] at hs
  case acquire id =>
    cases hs
    exact .acquire (by rw [hpc]; rfl)
  case createNamespace id =>
    have hold : (w.pc i).hand = none := by rw [hpc]; rfl
    simp only [orderly, hpc, Bool.and_eq_true] at hok
    cases hs
    cases o with
    | ok => exact .go (.create (hhand hold))
    | error => exact .keep rfl hold.symm
    | half => exact absurd rfl (of_decide_eq_true hok.1)
  case activate id l =>
    have hrow := (ht id).early i (by rw [phases, hpc]; rfl)
    cases hs
    exact .activate (by rw [hpc]; rfl) (congrArg Row.lease hrow) (congrArg Row.container hrow) rfl
  case run id l =>
    have hrow := (ht id).late i l (by rw [phases, hpc]; rfl)
    repeat' split at hs
    all_goals cases hs
    · have hadd : w.Refines (w.addContainer id l.netns) :=
        .addContainer (congrArg Row.lease hrow) (congrArg Row.container hrow)
      exact hadd.trans (.keep rfl (by simp [World.addContainer, hpc, PC.hand]))
    · exact .keep rfl (by rw [hpc]; rfl)
  case cleanupStartFailure id l =>
    have hrow := (ht id).late i l (by rw [phases, hpc]; rfl)
    cases hs
    exact .deactivate (by rw [hpc]; rfl) (congrArg Row.lease hrow) (congrArg Row.container hrow) rfl
  case record id =>
    cases hs
    exact .record hb hpc
  case delete id tries => exact .delete hpc hs
  case take id =>
    cases hs
    exact .take (by rw [hpc]; rfl) ((ht id).taking i (by rw [phases, hpc]; rfl))
  case giveBack l removes =>
    cases hs
    exact .giveBack (by rw [hpc]; rfl) (by cases removes <;> rfl)
  case populate k =>
    have hold : (w.pc i).hand = none := by rw [hpc]; rfl
    simp only [orderly, hpc, Bool.and_eq_true] at hok
    split at hs
    · cases o <;> cases hs
      · exact .go (.one (.make (hhand hold)))
      · exact .keep rfl hold.symm
      · exact absurd rfl (of_decide_eq_true hok.1)
    · cases hs
      exact .keep rfl hold.symm
  case populated k n =>
    have hold : (w.pc i).hand = some ⟨n, none, none⟩ := by rw [hpc]; rfl
    split at hs <;> cases hs
    exact .go (.one (.put (hhand hold)))
  all_goals
    cases hs
    try split
    all_goals exact .keep rfl (by rw [hpc]; rfl)

theorem Refines.step (ht : Tables w) (hb : Bounded w) {a : Action} (hok : w.orderly a = true)
    (hs : w.step a = .ok w') : w.Refines w' := by
  cases a with
  | step i o => exact .advance ht hb hok hs
  | _ =>
    cases hs
    exact .enter hb rfl

theorem init_balanced (usePool : Bool) (poolSize : Nat) :
    (init usePool poolSize).ledger.Balanced := by
  have hhand : (init usePool poolSize).hand = fun _ => none := by
    funext place
    cases place with
    | entry id => rfl
    | call j =>
      change (update (fun _ => PC.idle) 0 (if usePool then .populate 0 else .done) j).hand =
        none
      rcases eq_or_ne j 0 with rfl | hj
      · rw [update_self]
        cases usePool <;> rfl
      · rw [update_of_ne hj]
        rfl
  have hmade (n : Nat) : n ∈ ([] : List Nat) ↔ n < 0 := by simp
  have hinitial := Lib.Ledger.balanced_initial (P := Place) List.nodup_nil hmade
  unfold ledger
  rw [hhand]
  exact hinitial

/-! ## Names -/

/-- Namespaces that are there have different names. -/
def Named (w : World) : Prop := Lib.Distinct w.made w.name w.deleted

theorem Named.advance (h : Named w) (hok : w.orderly (.step i o) = true)
    (hs : w.advance i o = .ok w') : Named w' := by
  have hsame {u : World} (hmade : u.made = w.made) (hname : u.name = w.name)
      (hdeleted : u.deleted = w.deleted) : Named u := by
    unfold Named
    rw [hmade, hname, hdeleted]
    exact h
  unfold World.advance at hs
  cases hpc : w.pc i <;> simp only [hpc] at hs
  case acquire id =>
    cases hs
    unfold acquire
    split <;> exact hsame rfl rfl rfl
  case createNamespace id =>
    simp only [orderly, hpc, Bool.and_eq_true] at hok
    cases hs
    cases o with
    | error => exact hsame rfl rfl rfl
    | _ => exact Lib.Distinct.make h hok.2
  case populate k =>
    simp only [orderly, hpc, Bool.and_eq_true] at hok
    split at hs
    · cases o with
      | error =>
        cases hs
        exact hsame rfl rfl rfl
      | _ =>
        cases hs
        exact Lib.Distinct.make h hok.2
    · cases hs
      exact hsame rfl rfl rfl
  case take id =>
    cases hs
    unfold take
    split <;> exact hsame rfl rfl rfl
  case giveBack l removes =>
    cases hs
    unfold giveBack
    split
    · exact hsame rfl rfl rfl
    · exact Lib.Distinct.destroy h (List.subset_append_left _ _)
  case delete id tries =>
    unfold delete at hs
    repeat' split at hs
    all_goals cases hs
    all_goals exact hsame rfl rfl rfl
  all_goals
    repeat' split at hs
    all_goals cases hs
    all_goals exact hsame rfl rfl rfl

/-! ## The result -/

structure Inv (w : World) : Prop where
  bounded : Bounded w
  tables : Tables w
  named : Named w
  balanced : w.ledger.Balanced

theorem Inv.step (h : Inv w) {a : Action} (hok : w.orderly a = true) (hs : w.step a = .ok w') :
    Inv w' where
  bounded := h.bounded.step hs
  tables := h.tables.step h.bounded hok hs
  named := by
    cases a with
    | createSandbox id =>
      cases hs
      exact h.named
    | stopSandbox id =>
      cases hs
      exact h.named
    | step i o => exact h.named.advance hok hs
  balanced := h.balanced.runs (Refines.step h.tables h.bounded hok hs)

theorem init_inv (usePool : Bool) (poolSize : Nat) : Inv (init usePool poolSize) where
  bounded := init_bounded usePool poolSize
  tables := init_tables usePool poolSize
  named := fun n _ hn => absurd hn (Nat.not_lt_zero n)
  balanced := init_balanced usePool poolSize

theorem quiescent_hand (hq : w.quiescent) (j : Nat) : (w.pc j).hand = none := by
  rcases hq j with hpc | hpc | ⟨id, hpc⟩ <;> rw [hpc] <;> rfl

theorem quiescent_phase (hq : w.quiescent) (j : Nat) :
    w.phases j = .other ∨ ∃ id, w.phases j = .watching id := by
  rcases hq j with hpc | hpc | ⟨id, hpc⟩
  · exact .inl (by rw [phases, hpc]; rfl)
  · exact .inl (by rw [phases, hpc]; rfl)
  · exact .inr ⟨id, by rw [phases, hpc]; rfl⟩

theorem Tables.active_iff (h : Tables w) (hq : w.quiescent) (id : Nat) :
    w.active id ≠ none ↔ w.instances id = true := by
  constructor
  · intro hlease
    by_contra hnot
    obtain ⟨j, hj⟩ := (h id).entered hlease (Bool.not_eq_true _ ▸ hnot)
    rcases quiescent_phase hq j with hphase | ⟨_, hphase⟩ <;> rw [hphase] at hj <;> cases hj
  · intro hrecorded hnone
    obtain ⟨j, hj⟩ := (h id).recorded hrecorded hnone
    rcases quiescent_phase hq j with hphase | ⟨_, hphase⟩ <;> rw [hphase] at hj <;> cases hj

def settled (w : World) : Bool :=
  (List.range w.ncalls).all fun j =>
    match w.pc j with
    | .idle | .done | .watchLifecycle _ => true
    | _ => false

theorem quiescent_of_settled (hw : machine.Reachable w) (hs : w.settled = true) : w.quiescent := by
  have hb : Bounded w := by
    refine hw.invariant (I := Bounded) ?_ fun _ _ _ hi hs => hi.step hs
    rintro _ ⟨usePool, poolSize, _, rfl⟩
    exact init_bounded usePool poolSize
  intro j
  rcases Nat.lt_or_ge j w.ncalls with hj | hj
  · have hcall := List.all_eq_true.mp hs j (List.mem_range.mpr hj)
    split at hcall
    · rename_i hpc
      exact .inl hpc
    · rename_i hpc
      exact .inr (.inl hpc)
    · rename_i id hpc
      exact .inr (.inr ⟨id, hpc⟩)
    · cases hcall
  · exact .inl (hb j hj)

theorem holds_entry (hlease : w.active id = some l) : w.ledger.holds (some (.entry id)) l.netns := by
  change (entryHand (w.active id) (w.containers id)).map Lib.Hand.resource = _
  rw [hlease]
  rfl

theorem lease_of_holds (hheld : w.ledger.holds (some (.entry id)) n) :
    ∃ l, w.active id = some l ∧ l.netns = n := by
  have hheld : (entryHand (w.active id) (w.containers id)).map Lib.Hand.resource = some n := hheld
  cases hlease : w.active id with
  | none =>
    rw [hlease] at hheld
    cases hheld
  | some l =>
    rw [hlease] at hheld
    exact ⟨l, rfl, Option.some.inj hheld⟩

end World

/-- Namespaces of a settled runtime. -/
theorem runc_ledger_settled {w : World}
    (hw : machine.ReachesWhile (fun w a => w.orderly a = true) w) :
    (∀ n ∈ w.pool, ∀ container, w.running container ≠ some n) ∧
    (∀ n n', n < w.made → n' < w.made → n ∉ w.deleted → n' ∉ w.deleted →
      w.name n = w.name n' → n = n') ∧
    (w.quiescent →
      (∀ n, n < w.made →
        (n ∈ w.pool ∧ n ∉ w.deleted ∧ ∀ id l, w.active id = some l → l.netns ≠ n) ∨
        (n ∉ w.pool ∧ n ∈ w.deleted ∧ ∀ id l, w.active id = some l → l.netns ≠ n) ∨
        (n ∉ w.pool ∧ n ∉ w.deleted ∧ ∃! id, ∃ l, w.active id = some l ∧ l.netns = n)) ∧
      ∀ id, w.active id ≠ none ↔ w.instances id = true) := by
  have h : w.Inv := by
    refine hw.invariant (I := World.Inv) ?_ fun _ _ _ hi hok hs => hi.step hok hs
    rintro _ ⟨usePool, poolSize, _, rfl⟩
    exact World.init_inv usePool poolSize
  have hb := h.balanced
  refine ⟨hb.unused, h.named, fun hq => ⟨fun n hn => ?_, h.tables.active_iff hq⟩⟩
  -- what is held is not destroyed, and is held once
  have hlive {a : Option Place} (ha : w.ledger.holds a n) : n ∉ w.deleted :=
    fun hgone => (hb.ended n hgone).2 a ha
  have hother {a : Option Place} (ha : w.ledger.holds a n) (hne : ∀ id, a ≠ some (.entry id))
      (id : Nat) (l : Lease) (hlease : w.active id = some l) : l.netns ≠ n := by
    rintro rfl
    exact hne id (hb.sole ha (World.holds_entry hlease))
  rcases hb.kept n hn with hgone | ⟨place, hheld⟩
  · refine .inr (.inl ⟨(hb.ended n hgone).2 none, hgone, fun id l hlease => ?_⟩)
    rintro rfl
    exact (hb.ended _ hgone).2 _ (World.holds_entry hlease)
  · match place, hheld with
    | none, hheld => exact .inl ⟨hheld, hlive hheld, hother hheld nofun⟩
    | some (.call i), hheld =>
      exact absurd hheld (Lib.Ledger.not_holds_of_hand (World.quiescent_hand hq i) n)
    | some (.entry id), hheld =>
      refine .inr (.inr ⟨fun hpool => ?_, hlive hheld, id, World.lease_of_holds hheld, ?_⟩)
      · cases hb.sole (show w.ledger.holds none n from hpool) hheld
      · rintro id' ⟨l', hlease, rfl⟩
        exact Place.entry.inj (Option.some.inj (hb.sole (World.holds_entry hlease) hheld))

/-- A pool of one: a sandbox in its namespace is stopped and the watch sees the end, one in a
namespace of its own is stopped after it could not be made ready, a start fails, and a third
sandbox runs. -/
theorem runc_ledger_settled_mixed :
    ∃ w, machine.ReachesWhile (fun w a => w.orderly a = true) w ∧ w.quiescent ∧ w.made = 3 ∧
      w.pool = [0] ∧ w.deleted = [1] ∧ w.instances 9 = true ∧
      (∀ container, w.running container ≠ some 0) ∧ w.active 7 = none ∧
      ∃! id, ∃ l, w.active id = some l ∧ l.netns = 2 := by
  obtain ⟨w, hw, hsettled, hmade, hpool, hdeleted, hinstance, hstopped⟩ :=
    machine.exists_while_of_run (P := fun w a => w.orderly a = true)
    (Q := fun w => w.settled = true ∧ w.made = 3 ∧ w.pool = [0] ∧ w.deleted = [1] ∧
      w.instances 9 = true ∧ w.instances 7 = false) (.init true 1)
    ([.step 0 .ok, .step 0 .ok, .step 0 .ok, .createSandbox 7] ++ List.replicate 8 (.step 1 .ok) ++
      [.createSandbox 8] ++ List.replicate 8 (.step 3 .ok) ++
      [.step 3 .error, .step 3 .ok, .step 3 .error] ++ List.replicate 4 (.step 3 .ok) ++
      [.step 4 .ok, .step 4 .ok, .createSandbox 9] ++ List.replicate 9 (.step 5 .ok) ++
      [.stopSandbox 7, .step 7 .ok, .step 2 .ok, .step 2 .ok] ++ List.replicate 4 (.step 7 .ok) ++
      [.createSandbox 10] ++ List.replicate 5 (.step 8 .ok) ++ [.step 8 .error, .step 8 .ok,
        .step 8 .ok])
    ⟨true, 1, fun _ => by decide, rfl⟩ (by decide +kernel)
  have hq := World.quiescent_of_settled hw.reachable hsettled
  obtain ⟨hquiet, _, hrest⟩ := runc_ledger_settled hw
  obtain ⟨howned, hactive⟩ := hrest hq
  refine ⟨w, hw, hq, hmade, hpool, hdeleted, hinstance, hquiet 0 (by simp [hpool]), ?_, ?_⟩
  · by_contra hlease
    rw [(hactive 7).mp hlease] at hstopped
    cases hstopped
  · rcases howned 2 (by omega) with ⟨hin, _⟩ | ⟨_, hin, _⟩ | ⟨_, _, hone⟩
    · rw [hpool] at hin
      exact absurd hin (by decide)
    · rw [hdeleted] at hin
      exact absurd hin (by decide)
    · exact hone

/-- The process of a sandbox ends: the worker removes its record, and the runtime keeps its
entry. -/
theorem crash_leaves_active :
    ∃ w, machine.Reachable w ∧ w.quiescent ∧ w.instances 7 = false ∧ w.active 7 ≠ none := by
  obtain ⟨w, hw, hsettled, hlast⟩ := machine.exists_of_run
    (Q := fun w => w.settled = true ∧ w.instances 7 = false ∧ w.active 7 ≠ none) (.init false 0)
    (.createSandbox 7 :: List.replicate 9 (.step 1 .ok) ++ [.step 2 .ok, .step 2 .ok])
    ⟨false, 0, nofun, rfl⟩ (by decide +kernel)
  exact ⟨w, hw, World.quiescent_of_settled hw hsettled, hlast⟩

end HyperFaaS.Worker.Runc
