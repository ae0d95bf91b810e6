import HyperFaaS.Lib.Machine
import Mathlib.Logic.Function.Basic

/-!
`ApplyFunction` and `DeleteFunction` of one function (`pkg/leaf/runtime/runtime.go`),
step by step, with the actuators of its controllers. `DeleteFunction` takes the
function out of both tables under the lock and cleans up after releasing it. Proved
here: once all calls have returned, tables, pool, store and reporter agree
(`apply_delete_agree`), if no `ApplyFunction` takes the lock during such a clean-up
and no actuator that was removed writes to the store after it.
-/

namespace HyperFaaS.Leaf.Lifecycle

open Function

/-- Where a `DeleteFunction` call is: what it found under the lock and has still to
close. The controller is kept until the store is swept. -/
inductive Phase
  | toClose (ctrl pool : Option Nat)
  | toPool (ctrl pool : Option Nat)
  | toStore (ctrl : Option Nat)
  | toReport
  | done
  deriving DecidableEq, Repr

/-- Controllers and pools are numbered in the order of their creation. -/
structure World where
  controllers : Option Nat
  /-- the request function table: the pool of the function -/
  function : Option Nat
  ncontrollers : Nat
  npools : Nat
  poolClosed : Nat → Bool
  /-- an `ApplyFunction` call holds the lock and has still to publish -/
  applying : Bool
  ndeletes : Nat
  delete : Nat → Phase
  /-- the ids in `dataplane.Store` for the function -/
  store : Nat → Bool
  /-- what each actuator put there and has not removed -/
  held : Nat → Nat → Bool
  /-- `Reporter.last`: none, or whether it is a tombstone -/
  last : Option Bool

namespace World

def initial : World where
  controllers := none
  function := none
  ncontrollers := 0
  npools := 0
  poolClosed := fun _ => false
  applying := false
  ndeletes := 0
  delete := fun _ => .done
  store := fun _ => false
  held := fun _ _ => false
  last := none

inductive Action
  | apply
  | publishCapacity
  | delete
  | cleanUp (d : Nat)
  /-- actions of an actuator, also of one whose controller is gone -/
  | put (ctrl id : Nat)
  | remove (ctrl id : Nat)
  | publish (ctrl : Nat)

inductive Fault
  | notEnabled
  deriving DecidableEq, Repr

/-- `ApplyFunction` up to `PublishCapacity`; with a controller it ends here. -/
def apply (w : World) : World :=
  let pool := w.function.getD w.npools
  let npools := if w.function.isSome then w.npools else w.npools + 1
  match w.controllers with
  | some _ => { w with function := some pool, npools := npools }
  | none =>
      { w with
        function := some pool
        npools := npools
        controllers := some w.ncontrollers
        ncontrollers := w.ncontrollers + 1
        applying := true }

/-- The critical section of `DeleteFunction`. -/
def beginDelete (w : World) : World :=
  { w with
    function := none
    controllers := none
    ndeletes := w.ndeletes + 1
    delete := update w.delete w.ndeletes (.toClose w.controllers w.function) }

def setDelete (w : World) (d : Nat) (x : Phase) : World :=
  { w with delete := update w.delete d x }

def closePool (w : World) : Option Nat → World
  | none => w
  | some p => { w with poolClosed := update w.poolClosed p true }

/-- The next step of a clean-up: `close`, `Pool.Close`, `RemoveFunction`, `PublishDeleted`. -/
def cleanUp (w : World) (d : Nat) : Option World :=
  match w.delete d with
  | .toClose ctrl pool => some (w.setDelete d (.toPool ctrl pool))
  | .toPool ctrl pool => some ((w.closePool pool).setDelete d (.toStore ctrl))
  | .toStore _ => some { w.setDelete d .toReport with store := fun _ => false }
  | .toReport => some { w.setDelete d .done with last := some true }
  | .done => none

def setHeld (w : World) (ctrl id : Nat) (b : Bool) : World :=
  { w with
    store := update w.store id b
    held := update w.held ctrl (update (w.held ctrl) id b) }

def step (w : World) : Action → Except Fault World
  | .apply => if w.applying then .error .notEnabled else .ok w.apply
  | .publishCapacity =>
      if w.applying then .ok { w with applying := false, last := some false }
      else .error .notEnabled
  | .delete => if w.applying then .error .notEnabled else .ok w.beginDelete
  | .cleanUp d =>
      match w.cleanUp d with
      | some w' => .ok w'
      | none => .error .notEnabled
  | .put ctrl id =>
      if ctrl < w.ncontrollers then .ok (w.setHeld ctrl id true) else .error .notEnabled
  | .remove ctrl id =>
      if ctrl < w.ncontrollers then .ok (w.setHeld ctrl id false) else .error .notEnabled
  | .publish ctrl =>
      if ctrl < w.ncontrollers then .ok { w with last := some false } else .error .notEnabled

def machine : Lib.Machine World Action Fault where
  start := fun w => w = initial
  step := step

/-- All calls have returned. -/
def Quiet (w : World) : Prop := w.applying = false ∧ ∀ d, w.delete d = .done

/-- `CurrentState` lays tombstones over the snapshot of the function table. -/
def reportsDeleted (w : World) : Bool := w.last == some true

def reportsLive (w : World) : Bool := w.function.isSome && !w.reportsDeleted

/-- The controller whose instances a clean-up has still to sweep. -/
def Phase.sweeps : Phase → Option Nat
  | .toClose ctrl _ => ctrl
  | .toPool ctrl _ => ctrl
  | .toStore ctrl => ctrl
  | .toReport => none
  | .done => none

/-- The pool a clean-up has still to close. -/
def Phase.closes : Phase → Option Nat
  | .toClose _ pool => pool
  | .toPool _ pool => pool
  | _ => none

/-- The actuator is the current one, or a clean-up will still sweep what it puts. -/
def Owned (w : World) (ctrl : Nat) : Prop :=
  w.controllers = some ctrl ∨ ∃ d, Phase.sweeps (w.delete d) = some ctrl

/-- No call applies the function during a clean-up, and actuators that were removed
leave the store alone once it is swept. -/
def orderly (w : World) : Action → Prop
  | .apply => ∀ d, w.delete d = .done
  | .put ctrl _ => w.Owned ctrl
  | .remove ctrl id => ∀ g, w.controllers = some g → g ≠ ctrl → w.held g id = false
  | _ => True

/-! ## The invariant -/

structure Inv (w : World) : Prop where
  tables : w.controllers.isSome = w.function.isSome
  fresh : ∀ g, w.ncontrollers ≤ g → ∀ id, w.held g id = false
  pools : ∀ p, w.function = some p → p < w.npools ∧ w.poolClosed p = false
  closing : ∀ d p, Phase.closes (w.delete d) = some p → p < w.npools
  unused : ∀ p, w.npools ≤ p → w.poolClosed p = false
  deletes : ∀ d, w.ndeletes ≤ d → w.delete d = .done
  /-- during a clean-up the function is gone -/
  gone : ∀ d, w.delete d ≠ .done → w.controllers = none
  owned : ∀ id, w.store id = true → ∃ g, w.held g id = true ∧ w.Owned g
  stored : ∀ g, w.controllers = some g → ∀ id, w.held g id = true → w.store id = true
  only : ∀ g, w.controllers = some g → ∀ id, w.store id = true → w.held g id = true
  known : ∀ g, w.controllers = some g → g < w.ncontrollers
  told : w.controllers.isSome = true → w.applying = false → w.last ≠ some true

theorem initial_inv : initial.Inv where
  tables := rfl
  fresh := fun _ _ _ => rfl
  pools := fun p hp => by cases hp
  closing := fun d p hp => by cases hp
  unused := fun _ _ => rfl
  deletes := fun _ _ => rfl
  gone := fun d hd => absurd rfl hd
  owned := fun id h => by cases h
  stored := fun g hg => by cases hg
  only := fun g hg => by cases hg
  known := fun g hg => by cases hg
  told := fun h => by cases h

variable {w w' : World}
variable {g ctrl d : Nat}

theorem Inv.no_delete (h : w.Inv) (hg : w.controllers = some g) (d : Nat) : w.delete d = .done := by
  by_contra hd
  rw [h.gone d hd] at hg
  cases hg

/-- With a controller, the actuator that may put is its own. -/
theorem Inv.owned_eq (h : w.Inv) (hg : w.controllers = some g) (ho : w.Owned ctrl) : ctrl = g := by
  rcases ho with ho | ⟨d, hd⟩
  · exact Option.some.inj (ho.symm.trans hg)
  · rw [h.no_delete hg d] at hd
    cases hd

/-- Without a controller and without a clean-up the store is empty. -/
theorem Inv.swept (h : w.Inv) (hc : w.controllers = none) (hd : ∀ d, w.delete d = .done)
    (id : Nat) : w.store id = false := by
  cases hs : w.store id with
  | false => rfl
  | true =>
    obtain ⟨g, -, ho | ⟨d, hsweep⟩⟩ := h.owned id hs
    · rw [hc] at ho
      cases ho
    · rw [hd d] at hsweep
      cases hsweep

theorem Inv.apply (h : w.Inv) (hd : ∀ d, w.delete d = .done) : w.apply.Inv := by
  cases hc : w.controllers with
  | some g =>
    obtain ⟨p, hp⟩ : ∃ p, w.function = some p := by
      rw [← Option.isSome_iff_exists, ← h.tables, hc]
      rfl
    have hw : w.apply = w := by
      unfold World.apply
      cases w
      simp only at hc hp
      subst hc hp
      rfl
    rw [hw]
    exact h
  | none =>
    have hf : w.function = none := by
      have ht := h.tables
      rw [hc] at ht
      simpa using ht.symm
    have hw : w.apply = { w with
        function := some w.npools
        npools := w.npools + 1
        controllers := some w.ncontrollers
        ncontrollers := w.ncontrollers + 1
        applying := true } := by
      unfold World.apply
      rw [hc, hf]
      rfl
    rw [hw]
    have hempty := h.swept hc hd
    have hfresh := h.fresh w.ncontrollers le_rfl
    have hunused := h.unused w.npools le_rfl
    constructor
    case fresh => exact fun g hg => h.fresh g (Nat.le_of_succ_le hg)
    case closing => exact fun d p hp => (h.closing d p hp).trans (Nat.lt_succ_self _)
    case unused => exact fun p hp => h.unused p (Nat.le_of_succ_le hp)
    case deletes => exact h.deletes
    all_goals grind

theorem Inv.beginDelete (h : w.Inv) : w.beginDelete.Inv := by
  have hdel : ∀ d, w.beginDelete.delete d =
      if d = w.ndeletes then .toClose w.controllers w.function else w.delete d :=
    update_apply _ _ _
  have hw : w.beginDelete.function = none ∧ w.beginDelete.controllers = none ∧
      w.beginDelete.npools = w.npools ∧ w.beginDelete.ndeletes = w.ndeletes + 1 :=
    ⟨rfl, rfl, rfl, rfl⟩
  have hlast := h.deletes w.ndeletes le_rfl
  constructor
  case fresh => exact h.fresh
  case unused => exact h.unused
  case closing =>
    exact fun d p hp => by
      have := h.closing d p
      have := h.pools p
      grind [Phase.closes]
  case deletes => grind [h.deletes]
  case owned =>
    intro id hs
    obtain ⟨g, hheld, ho | ⟨d, hd⟩⟩ := h.owned id hs
    · exact ⟨g, hheld, .inr ⟨w.ndeletes, by grind [Phase.sweeps]⟩⟩
    · exact ⟨g, hheld, .inr ⟨d, by grind [Phase.sweeps]⟩⟩
  all_goals grind

theorem Owned.setDelete {x : Phase} (h : w.Owned g)
    (hx : Phase.sweeps x = Phase.sweeps (w.delete d)) (hdel : w'.delete = update w.delete d x)
    (hc : w'.controllers = w.controllers) : w'.Owned g := by
  rcases h with h | ⟨e, he⟩
  · exact .inl (hc.trans h)
  · refine .inr ⟨e, ?_⟩
    rw [hdel]
    by_cases hed : e = d
    · rw [hed, update_self, hx, ← hed]
      exact he
    · rw [update_of_ne hed]
      exact he

/-- A step of a clean-up. The function is gone, so most of the invariant is void; the
store is emptied, or kept with the controller that is still to be swept. -/
theorem Inv.cleaning (h : w.Inv) {x : Phase} (hne : w.delete d ≠ .done)
    (hx : ∀ p, Phase.closes x = some p → p < w.npools) (hdel : w'.delete = update w.delete d x)
    (hc : w'.controllers = w.controllers) (hf : w'.function = w.function)
    (hnc : w'.ncontrollers = w.ncontrollers) (hnp : w'.npools = w.npools)
    (hnd : w'.ndeletes = w.ndeletes) (hh : w'.held = w.held)
    (hunused : ∀ p, w.npools ≤ p → w'.poolClosed p = false) (hstore : w'.store = (fun _ => false) ∨
      w'.store = w.store ∧ Phase.sweeps x = Phase.sweeps (w.delete d)) : w'.Inv := by
  have hnone := h.gone d hne
  have hfnone : w.function = none := by
    have ht := h.tables
    rw [hnone] at ht
    simpa using ht.symm
  have hlt : d < w.ndeletes := by
    by_contra hge
    exact hne (h.deletes d (by omega))
  have hdel' : ∀ e, w'.delete e = if e = d then x else w.delete e := by
    rw [hdel]
    exact update_apply _ _ _
  constructor
  case fresh => rw [hnc, hh]; exact h.fresh
  case closing => exact fun e p hp => by have := h.closing e p; grind
  case unused => rw [hnp]; exact hunused
  case deletes => grind [h.deletes]
  case owned =>
    intro id hid
    rcases hstore with hs | ⟨hs, hsweep⟩
    · rw [hs] at hid
      cases hid
    · rw [hs] at hid
      obtain ⟨g, hheld, ho⟩ := h.owned id hid
      exact ⟨g, hh ▸ hheld, ho.setDelete hsweep hdel hc⟩
  all_goals grind

theorem Inv.cleanUp (h : w.Inv) (hs : w.cleanUp d = some w') : w'.Inv := by
  unfold World.cleanUp at hs
  cases hd : w.delete d with
  | toClose ctrl pool =>
    rw [hd] at hs
    cases hs
    exact h.cleaning (x := .toPool ctrl pool) (by rw [hd]; exact Phase.noConfusion)
      (fun p hp => h.closing d p (by rw [hd]; exact hp)) rfl rfl rfl rfl rfl rfl rfl h.unused
      (.inr ⟨rfl, by rw [hd]; rfl⟩)
  | toPool ctrl pool =>
    rw [hd] at hs
    cases hs
    cases pool with
    | none =>
      exact h.cleaning (x := .toStore ctrl) (by rw [hd]; exact Phase.noConfusion)
        nofun rfl rfl rfl rfl rfl rfl rfl h.unused
        (.inr ⟨rfl, by rw [hd]; rfl⟩)
    | some q =>
      have hq := h.closing d q (by rw [hd]; rfl)
      refine h.cleaning (x := .toStore ctrl) (by rw [hd]; exact Phase.noConfusion)
        nofun rfl rfl rfl rfl rfl rfl rfl (fun p hp => ?_)
        (.inr ⟨rfl, by rw [hd]; rfl⟩)
      show update w.poolClosed q true p = false
      rw [update_of_ne (by omega)]
      exact h.unused p hp
  | toStore ctrl =>
    rw [hd] at hs
    cases hs
    exact h.cleaning (x := .toReport) (by rw [hd]; exact Phase.noConfusion)
      nofun rfl rfl rfl rfl rfl rfl rfl h.unused (.inl rfl)
  | toReport =>
    rw [hd] at hs
    cases hs
    exact h.cleaning (x := .done) (by rw [hd]; exact Phase.noConfusion)
      nofun rfl rfl rfl rfl rfl rfl rfl h.unused
      (.inr ⟨rfl, by rw [hd]; rfl⟩)
  | done =>
    rw [hd] at hs
    cases hs

theorem setHeld_held (w : World) (ctrl id : Nat) (b : Bool) (g i : Nat) :
    (w.setHeld ctrl id b).held g i = if g = ctrl ∧ i = id then b else w.held g i := by
  by_cases hg : g = ctrl
  · subst hg
    simp [setHeld, update_apply]
  · simp [setHeld, hg]

theorem setHeld_store (w : World) (ctrl id : Nat) (b : Bool) (i : Nat) :
    (w.setHeld ctrl id b).store i = if i = id then b else w.store i :=
  update_apply _ _ _ _

theorem Inv.put (h : w.Inv) {id : Nat} (hlt : ctrl < w.ncontrollers) (ho : w.Owned ctrl) :
    (w.setHeld ctrl id true).Inv := by
  have hheld := w.setHeld_held ctrl id true
  have hstore := w.setHeld_store ctrl id true
  have heq : ∀ g, w.controllers = some g → ctrl = g := fun g hg => h.owned_eq hg ho
  refine ⟨h.tables, ?_, h.pools, h.closing, h.unused, h.deletes, h.gone, ?_, ?_, ?_, h.known, h.told⟩
  · intro g hg i
    have hg : w.ncontrollers ≤ g := hg
    grind [h.fresh]
  · intro i hi
    by_cases hid : i = id
    · exact ⟨ctrl, by grind, ho⟩
    · obtain ⟨g, hg, hog⟩ := h.owned i (by grind)
      exact ⟨g, by grind, hog⟩
  · exact fun g hg i => by have := h.stored g hg i; grind
  · exact fun g hg i => by have := h.only g hg i; have := heq g hg; grind

theorem Inv.remove (h : w.Inv) {id : Nat}
    (hok : ∀ g, w.controllers = some g → g ≠ ctrl → w.held g id = false) :
    (w.setHeld ctrl id false).Inv := by
  have hheld := w.setHeld_held ctrl id false
  have hstore := w.setHeld_store ctrl id false
  refine ⟨h.tables, ?_, h.pools, h.closing, h.unused, h.deletes, h.gone, ?_, ?_, ?_, h.known, h.told⟩
  · intro g hg i
    have hg : w.ncontrollers ≤ g := hg
    grind [h.fresh]
  · intro i hi
    obtain ⟨g, hg, hog⟩ := h.owned i (by grind)
    exact ⟨g, by grind, hog⟩
  · exact fun g hg i => by have := h.stored g hg i; have := hok g hg; grind
  · exact fun g hg i => by have := h.only g hg i; grind

theorem Inv.publish (h : w.Inv) (b : Bool) : { w with applying := b, last := some false }.Inv :=
  ⟨h.tables, h.fresh, h.pools, h.closing, h.unused, h.deletes, h.gone, h.owned, h.stored, h.only,
    h.known, fun _ _ hl => Bool.false_ne_true (Option.some.inj hl)⟩

theorem Inv.step (h : w.Inv) {a : Action} (hok : w.orderly a) (hs : w.step a = .ok w') :
    w'.Inv := by
  cases a with
  | apply =>
    simp only [World.step] at hs
    split_ifs at hs
    cases hs
    exact h.apply hok
  | publishCapacity =>
    simp only [World.step] at hs
    split_ifs at hs
    cases hs
    exact h.publish false
  | delete =>
    simp only [World.step] at hs
    split_ifs at hs
    cases hs
    exact h.beginDelete
  | cleanUp d =>
    simp only [World.step] at hs
    split at hs
    · rename_i u hu
      cases hs
      exact h.cleanUp hu
    · cases hs
  | put ctrl id =>
    simp only [World.step] at hs
    split_ifs at hs with hlt
    cases hs
    exact h.put hlt hok
  | remove ctrl id =>
    simp only [World.step] at hs
    split_ifs at hs
    cases hs
    exact h.remove hok
  | publish ctrl =>
    simp only [World.step] at hs
    split_ifs at hs
    cases hs
    exact h.publish w.applying

theorem reached_inv (h : machine.ReachesWhile orderly w) : w.Inv := by
  refine h.invariant ?_ fun w a w' hi hok hs => hi.step hok hs
  rintro w rfl
  exact initial_inv

/-- **Once all calls have returned**, everything agrees on the function. -/
theorem apply_delete_agree (h : machine.ReachesWhile orderly w) (hq : w.Quiet) :
    w.controllers.isSome = w.function.isSome ∧
    (∀ g p, w.controllers = some g → w.function = some p →
      w.poolClosed p = false ∧ (∀ id, w.store id = true ↔ w.held g id = true) ∧
        w.reportsDeleted = false) ∧
    (w.controllers = none → (∀ id, w.store id = false) ∧ w.reportsLive = false) := by
  have hi := reached_inv h
  refine ⟨hi.tables, fun g p hg hp => ⟨(hi.pools p hp).2, fun id => ?_, ?_⟩, fun hc => ?_⟩
  · exact ⟨hi.only g hg id, hi.stored g hg id⟩
  · have htold := hi.told (by rw [hg]; rfl) hq.1
    simpa [reportsDeleted] using htold
  · refine ⟨hi.swept hc hq.2, ?_⟩
    have ht := hi.tables
    rw [hc] at ht
    simp [reportsLive, ← ht]

/-! ## Two runs -/

/-- The function is applied, gets instance 7 and is applied again. -/
theorem applied_reached : ∃ w : World, machine.ReachesWhile orderly w ∧ w.Quiet ∧
    w.controllers = some 0 ∧ w.function = some 0 ∧ w.held 0 7 = true := by
  have h0 : machine.ReachesWhile orderly initial := .start rfl
  have h1 := h0.next (a := Action.apply) (fun _ => rfl) rfl
  have h2 := h1.next (a := Action.publishCapacity) trivial rfl
  have h3 := h2.next (a := Action.put 0 7) (.inl rfl) rfl
  have h4 := h3.next (a := Action.apply) (fun _ => rfl) rfl
  exact ⟨_, h4, ⟨rfl, fun _ => rfl⟩, rfl, rfl, rfl⟩

theorem apply_delete_agree_seven : ∃ w : World, machine.ReachesWhile orderly w ∧ w.Quiet ∧
    w.store 7 = true ∧ w.poolClosed 0 = false := by
  obtain ⟨w, hw, hq, hc, hf, hheld⟩ := applied_reached
  obtain ⟨hpool, hstore, -⟩ := (apply_delete_agree hw hq).2.1 0 0 hc hf
  exact ⟨w, hw, hq, (hstore 7).mpr hheld, hpool⟩

/-- The function is applied again between the lock and the clean-up of its deletion:
the new actuator's instance is swept and the function is reported as deleted. -/
theorem reapplied_function_swept : ∃ w : World, machine.Reachable w ∧ w.Quiet ∧
    w.controllers = some 1 ∧ w.function = some 1 ∧ w.held 1 7 = true ∧ w.store 7 = false ∧
    w.reportsDeleted = true := by
  have h0 : machine.Reachable initial := .start rfl
  have h1 := h0.step (a := Action.apply) rfl
  have h2 := h1.step (a := Action.publishCapacity) rfl
  have h3 := h2.step (a := Action.delete) rfl
  have h4 := h3.step (a := Action.apply) rfl
  have h5 := h4.step (a := Action.publishCapacity) rfl
  have h6 := h5.step (a := Action.put 1 7) rfl
  have h7 := h6.step (a := Action.cleanUp 0) rfl
  have h8 := h7.step (a := Action.cleanUp 0) rfl
  have h9 := h8.step (a := Action.cleanUp 0) rfl
  have h10 := h9.step (a := Action.cleanUp 0) rfl
  refine ⟨_, h10, ⟨rfl, fun d => ?_⟩, rfl, rfl, rfl, rfl, rfl⟩
  cases d <;> rfl

end World

end HyperFaaS.Leaf.Lifecycle
