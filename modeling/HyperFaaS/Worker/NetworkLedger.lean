import HyperFaaS.Worker.Networks

/-!
The networks of the Firecracker runtime are a ledger (`Lib.Ledger`): every step of the runtime
is a run of steps of the ledger (`World.Refines.step`). The exception is a machine whose start
fails when its process is there: `startMachine` waits for its end, and does not say whether it
has ended. `World.orderly` excludes a wait that is over before.
-/

namespace HyperFaaS.Worker.Networks

namespace World

open Lib.Ledger (Step Runs)

variable {w w' u : World} {i id k n v : Nat} {l : Lease} {x : PC} {o : Outcome} {inst : Instance}

/-- The ledger of `w` becomes that of `w'`. -/
def Refines (w w' : World) : Prop := Runs w.ledger w'.ledger

/-! ## The ledger after a change -/

theorem ledger_go (w : World) (i : Nat) (x : PC) :
    (w.go i x).ledger = w.ledger.set (.call i) x.hand := by
  have hhand : (w.go i x).hand = Function.update w.hand (.call i) x.hand := by
    funext place
    cases place with
    | inst k => rfl
    | call j =>
      rcases eq_or_ne j i with rfl | hji
      · simp [hand, go]
      · simp [hand, go, hji]
  simp only [ledger, Lib.Ledger.set, hhand]
  rfl

theorem ledger_setInstance (w : World) (k : Nat) (inst : Instance) :
    (w.setInstance k inst).ledger = w.ledger.set (.inst k) (inst.hand k) := by
  have hhand : (w.setInstance k inst).hand = Function.update w.hand (.inst k) (inst.hand k) := by
    funext place
    cases place with
    | call j => rfl
    | inst j =>
      rcases eq_or_ne j k with rfl | hjk
      · simp [hand, setInstance]
      · simp [hand, setInstance, hjk]
  simp only [ledger, Lib.Ledger.set, hhand]
  rfl

theorem Refines.same (hsame : w'.ledger = w.ledger) : w.Refines w' := Runs.same hsame

theorem Refines.one (hs : Step w.ledger w'.ledger) : w.Refines w' := Runs.one hs

theorem Refines.trans {w₁ w₂ : World} (h₁ : w.Refines w₁) (h₂ : w₁.Refines w₂) : w.Refines w₂ :=
  Runs.trans h₁ h₂

theorem Refines.go (hs : Runs w.ledger (u.ledger.set (.call i) x.hand)) : w.Refines (u.go i x) := by
  unfold Refines
  rw [ledger_go]
  exact hs

theorem Refines.keep (hledger : u.ledger = w.ledger) (hsame : x.hand = (w.pc i).hand) :
    w.Refines (u.go i x) := by
  refine .go (.same ?_)
  rw [hledger]
  exact w.ledger.set_same (.call i) hsame

theorem Refines.forget {h : Lib.Hand} (hold : (w.pc i).hand = some h)
    (hnew : x.hand = some { h with user := none })
    (hended : ∀ v, h.user = some v → w.running v = none) : w.Refines (w.go i x) := by
  refine .go (.one ?_)
  rw [hnew]
  exact .forget (l := w.ledger) hold hended

theorem hand_exited {u : Option Nat} (hgone : u.all w.exited = true) (v : Nat)
    (hv : u = some v) : w.running v = none := by
  subst hv
  exact Option.isNone_iff_eq_none.mp hgone

theorem Refines.enter (hidle : w.pc w.ncalls = .idle) (hnew : x.hand = none) :
    w.Refines (w.enter x) := by
  refine Refines.keep (i := w.ncalls) (u := w) rfl ?_
  rw [hnew, hidle]
  rfl

theorem Refines.instance {inst' : Instance} (hold : w.insts k = some inst)
    (hsame : inst'.hand k = inst.hand k) : w.Refines (w.setInstance k inst') := by
  refine .same ?_
  rw [ledger_setInstance]
  refine w.ledger.set_same (.inst k) ?_
  change inst'.hand k = (w.insts k).bind fun inst => inst.hand k
  rw [hold, hsame]
  rfl

/-! ## Each part of a call -/

theorem Refines.startMachine {snapshot : Bool}
    (hold : (w.pc i).hand = some ⟨l.network, some l.account, none⟩)
    (hs : w.startMachine i id l snapshot o = .ok w') : w.Refines w' := by
  have hspawn {x : PC} (hnew : x.hand = some ⟨l.network, some l.account, some w.nvmms⟩) :
      w.Refines ((w.spawn l.network).go i x) := by
    refine .go (.one ?_)
    rw [hnew]
    exact .spawn (l := w.ledger) (p := .call i) hold rfl
  cases o <;> cases hs
  · exact hspawn (by cases snapshot <;> rfl)
  · exact .keep rfl hold.symm
  · exact hspawn rfl

theorem Refines.take (hold : (w.pc i).hand = none) : w.Refines (w.take i id) := by
  unfold World.take
  split
  · rename_i n rest _ hpool
    exact .go (.one (.take (l := w.ledger) hpool hold))
  · exact .keep rfl hold.symm

theorem Refines.reaper (hi : i ≠ w.ncalls) (hidle : w.pc w.ncalls = .idle)
    (hold : (w.pc i).hand = some ⟨l.network, some l.account, some v⟩) :
    w.Refines ((w.go i (.unmark id)).enter (.reap id l v)) := by
  have hnone : w.hand (.call w.ncalls) = none := by
    change (w.pc w.ncalls).hand = none
    rw [hidle]
    rfl
  have hne : Place.call i ≠ .call w.ncalls := fun he => hi (Place.call.inj he)
  have hpass := Step.pass (l := w.ledger) hne hold hnone
  refine Refines.go (u := w.go i (.unmark id)) (i := w.ncalls) (.one ?_)
  rw [ledger_go]
  exact hpass

theorem Refines.cleanupFailedMachine {snapshot : Bool} {vmm : Option Nat} (hi : i ≠ w.ncalls)
    (hidle : w.pc w.ncalls = .idle) (hpc : w.pc i = .cleanupFailedMachine id l snapshot vmm)
    (hs : w.cleanupFailedMachine i id l snapshot vmm o = .ok w') : w.Refines w' := by
  have hold : (w.pc i).hand = some ⟨l.network, some l.account, vmm⟩ := by
    rw [hpc]
    rfl
  unfold World.cleanupFailedMachine at hs
  split at hs
  · split at hs
    · rename_i hgone
      cases hs
      exact .forget hold (by cases snapshot <;> rfl) (hand_exited hgone)
    · cases hs
  · split at hs
    · rename_i hgone
      cases hs
      exact .forget hold rfl (hand_exited hgone)
    · cases hs
  · split at hs
    · cases hs
    · split at hs <;> cases hs
      · exact Refines.reaper (w := (w.mark id false).markReaping id true) hi hidle hold
      · exact .keep rfl hold.symm
  · cases hs

theorem Refines.register (hb : w.ledger.Balanced)
    (hold : (w.pc i).hand = some ⟨l.network, some l.account, some v⟩) :
    w.Refines (w.register i id l v) := by
  -- the instance of this acquisition is not there yet, or it would have the network
  have hnone : w.hand (.inst l.account) = none := by
    cases hinst : w.hand (.inst l.account) with
    | none => rfl
    | some h =>
      have hinst : w.ledger.hand (.inst l.account) = some h := hinst
      have haccount : h.account = some l.account := by
        obtain ⟨inst, _, hhand⟩ := Option.bind_eq_some_iff.mp hinst
        unfold Instance.hand at hhand
        split at hhand
        · cases hhand
        · cases hhand
          rfl
      have hcall : w.ledger.hand (.call i) = _ := hold
      cases hb.sole_account hcall hinst rfl haccount
  have hne : Place.call i ≠ .inst l.account := nofun
  have hpass := Step.pass (l := w.ledger) hne hold hnone
  have hset := ledger_setInstance w l.account ⟨id, l.network, v, .unused, false, false⟩
  refine Refines.go (.one ?_)
  change Step w.ledger
    ((w.setInstance l.account ⟨id, l.network, v, .unused, false, false⟩).ledger.set (.call i) none)
  rw [hset]
  simp only [Lib.Ledger.set, Function.update_comm hne.symm]
  exact hpass

theorem Refines.runTeardown (hi : i ≠ w.ncalls) (hidle : w.pc w.ncalls = .idle)
    (hold : (w.pc i).hand = none) (hinst : w.insts k = some inst)
    (hs : w.runTeardown i k inst = .ok w') : w.Refines w' := by
  unfold World.runTeardown at hs
  split at hs
  · split at hs
    · cases hs
      have hset : w.Refines { w.setInstance k { inst with teardownOnce := .done } with
          activeTeardowns := w.activeTeardowns + 1 } :=
        Refines.instance (w := w) hinst rfl
      have hgo := hset.trans (Refines.keep (x := .done) rfl hold.symm)
      refine hgo.trans (Refines.enter ?_ rfl)
      exact (Function.update_of_ne hi.symm _ _).trans hidle
    · cases hs
      have hset : w.Refines (w.setInstance k { inst with teardownOnce := .running }) :=
        Refines.instance (w := w) hinst rfl
      exact hset.trans (Refines.keep rfl hold.symm)
  · cases hs
  · cases hs
    exact .keep rfl hold.symm

theorem Instance.hand_live (hrel : inst.released = false) (hinst : w.insts k = some inst) :
    w.ledger.hand (.inst k) =
      some ⟨inst.network, some k, if inst.exited then none else some inst.vmm⟩ := by
  change (w.insts k).bind (fun inst => inst.hand k) = _
  rw [hinst]
  simp [Instance.hand, hrel]

theorem Refines.exited (hgone : w.exited inst.vmm = true) (hinst : w.insts k = some inst) :
    w.Refines (w.setInstance k { inst with exited := true }) := by
  cases hrel : inst.released with
  | true => exact .instance hinst (by simp [Instance.hand, hrel])
  | false =>
    have hforget := Step.forget (Instance.hand_live hrel hinst) fun v hv => by
      split at hv
      · cases hv
      · cases hv
        exact Option.isNone_iff_eq_none.mp hgone
    refine .one ?_
    rw [ledger_setInstance]
    simpa [Instance.hand, hrel] using hforget

theorem After.pc_hand (after : After) : after.pc.hand = none := by
  cases after <;> rfl

theorem Refines.releaseInstance {async : Bool} (hold : (w.pc i).hand = none)
    (hinst : w.insts k = some inst) : w.Refines (w.releaseInstance i k async inst) := by
  unfold World.releaseInstance
  split
  · exact .keep rfl ((After.pc_hand _).trans hold.symm)
  · rename_i hrel
    have hne : Place.inst k ≠ .call i := nofun
    have hpass := Step.pass hne
      (Instance.hand_live (Bool.eq_false_of_not_eq_true hrel) hinst) hold
    refine .go (.one ?_)
    rw [ledger_setInstance]
    cases hexited : inst.exited <;> simpa [Instance.hand, PC.hand, hexited] using hpass

theorem Refines.advance (hb : w.ledger.Balanced) (hbounded : ∀ j, w.ncalls ≤ j → w.pc j = .idle)
    (hok : w.orderly (.step i o) = true) (hs : w.advance i o = .ok w') : w.Refines w' := by
  have hidle := hbounded w.ncalls le_rfl
  have hlive (hne : w.pc i ≠ .idle) : i ≠ w.ncalls := by
    rintro rfl
    exact hne hidle
  have hhand {h : Option Lib.Hand} (hh : (w.pc i).hand = h) : w.ledger.hand (.call i) = h := hh
  have hdrop {n : Nat} {x : PC} {u : World} (hold : (w.pc i).hand = some ⟨n, none, none⟩)
      (hnew : x.hand = none) (hu : u.ledger = w.ledger.destroy n) : w.Refines (u.go i x) := by
    refine .go (.one ?_)
    rw [hu, hnew]
    exact .drop (hhand hold) rfl
  unfold World.advance at hs
  cases hpc : w.pc i <;> simp only [hpc] at hs
  case acquire id =>
    cases hs
    exact .take (by rw [hpc]; rfl)
  case validate id n =>
    have hold : (w.pc i).hand = some ⟨n, none, none⟩ := by rw [hpc]; rfl
    cases o <;> cases hs
    · exact .go (.one (.acquire (hhand hold) rfl))
    · exact hdrop hold rfl rfl
  case buildNetwork id =>
    have hold : (w.pc i).hand = none := by rw [hpc]; rfl
    cases o <;> cases hs
    · exact .go (.create (hhand hold))
    · exact .keep rfl hold.symm
  case startMachine id l snapshot => exact .startMachine (by rw [hpc]; rfl) hs
  case drain id l snapshot vmm =>
    have hforget (hgone : w.exited vmm = true) :
        w.Refines (w.go i (.cleanupFailedMachine id l snapshot none)) :=
      .forget (by rw [hpc]; rfl) rfl (hand_exited (u := some vmm) hgone)
    split at hs
    · split at hs
      · rename_i hgone
        cases hs
        exact hforget hgone
      · cases hs
    · cases hs
      simp only [orderly, hpc] at hok
      exact hforget hok
    · cases hs
  case cleanupFailedMachine id l snapshot vmm =>
    exact .cleanupFailedMachine (hlive (by simp [hpc])) hidle hpc hs
  case waitForTCP id l vmm restored =>
    cases restored <;> cases o <;> cases hs <;> exact .keep rfl (by rw [hpc]; rfl)
  case register id l vmm =>
    cases hs
    exact .register hb (by rw [hpc]; rfl)
  case stopVMMAndWait id l vmm =>
    have hold : (w.pc i).hand = some ⟨l.network, some l.account, some vmm⟩ := by rw [hpc]; rfl
    split at hs
    · split at hs
      · rename_i hgone
        cases hs
        exact .forget hold rfl (hand_exited (u := some vmm) hgone)
      · cases hs
    · cases hs
      exact .keep rfl hold.symm
    · cases hs
  case reap id l vmm =>
    split at hs
    · rename_i hgone
      cases hs
      exact .forget (by rw [hpc]; rfl) rfl (hand_exited (u := some vmm) hgone)
    · cases hs
  case runTeardown k =>
    split at hs
    · rename_i inst hinst
      exact .runTeardown (hlive (by simp [hpc])) hidle (by rw [hpc]; rfl) hinst hs
    · cases hs
  case shutdownInstance k async forced =>
    have hold : (w.pc i).hand = none := by rw [hpc]; rfl
    split at hs
    · rename_i inst hinst
      cases o with
      | ok =>
        simp only [shutdownInstance] at hs
        split at hs
        · rename_i hgone
          cases hs
          exact (Refines.exited hgone hinst).trans (.keep rfl hold.symm)
        · cases hs
      | timeout =>
        cases hs
        cases forced <;> exact .keep rfl hold.symm
      | _ => cases hs
    · cases hs
  case releaseInstance k async =>
    split at hs
    · rename_i inst hinst
      cases hs
      exact .releaseInstance (by rw [hpc]; rfl) hinst
    · cases hs
  case onceDone k =>
    split at hs
    · rename_i inst hinst
      cases hs
      have hset : w.Refines (w.setInstance k { inst with teardownOnce := .done }) :=
        Refines.instance (w := w) hinst rfl
      refine hset.trans (.keep rfl ?_)
      simp [setInstance, hpc, PC.hand]
    · cases hs
  case release l after =>
    have hold : (w.pc i).hand = some ⟨l.network, some l.account, none⟩ := by rw [hpc]; rfl
    cases hs
    exact .go (.one (.giveBack (hhand hold) rfl))
  case returning n after =>
    have hold : (w.pc i).hand = some ⟨n, none, none⟩ := by rw [hpc]; rfl
    have hnone := After.pc_hand after
    repeat' split at hs
    all_goals cases hs
    · refine .go (.one ?_)
      rw [hnone]
      exact .put (hhand hold)
    · exact hdrop hold hnone rfl
    · exact hdrop hold hnone rfl
  case discard l vmm after =>
    have hold : (w.pc i).hand = some ⟨l.network, some l.account, some vmm⟩ := by rw [hpc]; rfl
    cases hs
    refine .go ?_
    rw [After.pc_hand]
    exact .discard (hhand hold) rfl
  case refill =>
    have hold : (w.pc i).hand = none := by rw [hpc]; rfl
    repeat' split at hs
    all_goals cases hs
    · exact .go (.one (.make (hhand hold)))
    · exact .keep rfl hold.symm
    · exact .keep rfl hold.symm
  case refilled n =>
    have hold : (w.pc i).hand = some ⟨n, none, none⟩ := by rw [hpc]; rfl
    split at hs <;> cases hs
    · exact .go (.one (.put (hhand hold)))
    · exact hdrop hold rfl rfl
  all_goals
    repeat' split at hs
    all_goals cases hs
    all_goals exact .keep rfl (by rw [hpc]; rfl)

theorem Refines.step (hb : w.ledger.Balanced) (hbounded : ∀ j, w.ncalls ≤ j → w.pc j = .idle)
    {a : Action} (hok : w.orderly a = true) (hs : w.step a = .ok w') : w.Refines w' := by
  have hidle := hbounded w.ncalls le_rfl
  cases a with
  | start id =>
    cases hs
    unfold start
    split
    · exact .enter hidle rfl
    · exact Refines.enter (w := w.mark id true) hidle rfl
  | step i o => exact .advance hb hbounded hok hs
  | exit v =>
    cases hs
    exact .one (.finish (l := w.ledger) v)
  | _ =>
    simp only [World.step] at hs
    split at hs <;> cases hs
    all_goals exact .enter hidle rfl

theorem init_balanced (cfg : Config) (populated : Nat) :
    (init cfg populated).ledger.Balanced := by
  have hhand : (init cfg populated).hand = fun _ => none := by
    funext place
    cases place <;> rfl
  have hinitial := Lib.Ledger.balanced_initial (P := Place) List.nodup_range
    fun n => List.mem_range (n := populated)
  unfold ledger
  rw [hhand]
  exact hinitial

/-! ## Calls -/

/-- A step of call `i` moves it, and may begin another one. -/
inductive Calls (w : World) (i : Nat) : World → Prop
  | go {u : World} (x : PC) (hpc : u.pc = w.pc) (hn : u.ncalls = w.ncalls) : Calls w i (u.go i x)
  | enter {u : World} (x y : PC) (hpc : u.pc = w.pc) (hn : u.ncalls = w.ncalls) :
      Calls w i ((u.go i x).enter y)

theorem advance_calls (hs : w.advance i o = .ok w') : Calls w i w' := by
  unfold advance at hs
  cases hpc : w.pc i <;> simp only [hpc] at hs
  case startMachine =>
    cases o <;> cases hs <;> exact .go _ rfl rfl
  case cleanupFailedMachine id l snapshot vmm =>
    unfold cleanupFailedMachine at hs
    repeat' split at hs
    all_goals cases hs
    all_goals first | exact .go _ rfl rfl | exact .enter _ _ rfl rfl
  case acquire =>
    cases hs
    unfold take
    split <;> exact .go _ rfl rfl
  case runTeardown =>
    unfold runTeardown at hs
    repeat' split at hs
    all_goals cases hs
    all_goals first | exact .go _ rfl rfl | exact .enter _ _ rfl rfl
  case shutdownInstance =>
    unfold shutdownInstance at hs
    repeat' split at hs
    all_goals cases hs
    all_goals exact .go _ rfl rfl
  case releaseInstance =>
    unfold releaseInstance at hs
    repeat' split at hs
    all_goals cases hs
    all_goals exact .go _ rfl rfl
  all_goals
    repeat' split at hs
    all_goals cases hs
    all_goals exact .go _ rfl rfl

theorem advance_started (hs : w.advance i o = .ok w') : w.pc i ≠ .idle := by
  intro hidle
  simp [advance, hidle] at hs

theorem bounded_enter (hbounded : ∀ j, w.ncalls ≤ j → w.pc j = .idle) (j : Nat)
    (hj : (w.enter x).ncalls ≤ j) : (w.enter x).pc j = .idle := by
  have hj : w.ncalls + 1 ≤ j := hj
  exact (Function.update_of_ne (by omega) _ _).trans (hbounded j (by omega))

theorem bounded_step (hbounded : ∀ j, w.ncalls ≤ j → w.pc j = .idle) {a : Action}
    (hs : w.step a = .ok w') : ∀ j, w'.ncalls ≤ j → w'.pc j = .idle := by
  cases a with
  | start id =>
    cases hs
    unfold start
    split
    · exact bounded_enter hbounded
    · exact bounded_enter (w := w.mark id true) hbounded
  | stop id =>
    simp only [step] at hs
    split at hs <;> cases hs <;> exact bounded_enter hbounded
  | watchLifecycle id =>
    simp only [step] at hs
    split at hs <;> cases hs <;> exact bounded_enter hbounded
  | replenish =>
    simp only [step] at hs
    split at hs <;> cases hs
    exact bounded_enter hbounded
  | step i o =>
    have hstarted := advance_started hs
    have hgo {u : World} {x : PC} (hpc : u.pc = w.pc) (hn : u.ncalls = w.ncalls) (j : Nat)
        (hj : u.ncalls ≤ j) : (u.go i x).pc j = .idle := by
      rw [hn] at hj
      have hji : j ≠ i := by
        rintro rfl
        exact hstarted (hbounded j hj)
      refine (Function.update_of_ne hji _ _).trans ?_
      rw [hpc]
      exact hbounded j hj
    cases advance_calls hs with
    | go x hpc hn => exact hgo hpc hn
    | enter x y hpc hn => exact bounded_enter (hgo hpc hn)
  | exit v =>
    cases hs
    exact hbounded

end World

end HyperFaaS.Worker.Networks
