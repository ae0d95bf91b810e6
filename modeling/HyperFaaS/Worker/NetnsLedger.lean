import HyperFaaS.Worker.Netns

/-!
The namespaces of the containerd runtime are a ledger (`Lib.Ledger`): every step is a run of
steps of the ledger (`World.Refines.step`), except that a start whose task does not start gives
its namespace back before it deletes the task, and that an entry of the table may be lost when
an id is used again.

Proved here (`netns_owned_once`): every namespace made is destroyed or in one place, the pool, a
call in progress or an entry of the table; every acquisition is given back or destroyed once;
no task is there in a namespace of the pool; namespaces that are there have different names.
This is for the runs of `World.orderly`. Without it a namespace of the pool has a task
(`netns_pooled_with_task`).
-/

namespace HyperFaaS.Worker.Netns

open Function

namespace World

open Lib.Ledger (Step Runs)

variable {w w' u : World} {i id k n v : Nat} {l : Lease} {m : Meta} {x : PC} {o : Outcome}

/-- The ledger of `w` becomes that of `w'`. -/
def Refines (w w' : World) : Prop := Runs w.ledger w'.ledger

/-! ## The ledger after a change -/

theorem ledger_go (w : World) (i : Nat) (x : PC) :
    (w.go i x).ledger = w.ledger.set (.call i) x.hand := by
  have hhand : (w.go i x).hand = update w.hand (.call i) x.hand := by
    funext place
    cases place with
    | entry id => rfl
    | call j =>
      rcases eq_or_ne j i with rfl | hji
      · simp [hand, go]
      · simp [hand, go, hji]
  simp only [ledger, Lib.Ledger.set, hhand]
  rfl

theorem ledger_setContainer (w : World) (id : Nat) (e : Option Meta) :
    (w.setContainer id e).ledger = w.ledger.set (.entry id) (e.map fun m => m.hand false) := by
  have hhand : (w.setContainer id e).hand =
      update w.hand (.entry id) (e.map fun m => m.hand false) := by
    funext place
    cases place with
    | call j => rfl
    | entry j =>
      rcases eq_or_ne j id with rfl | hj
      · simp [hand, setContainer]
      · simp [hand, setContainer, hj]
  simp only [ledger, Lib.Ledger.set, hhand]
  rfl

theorem Refines.trans {w₁ w₂ : World} (h₁ : w.Refines w₁) (h₂ : w₁.Refines w₂) : w.Refines w₂ :=
  Runs.trans h₁ h₂

theorem Refines.go (hs : Runs w.ledger (u.ledger.set (.call i) x.hand)) : w.Refines (u.go i x) := by
  unfold Refines
  rw [ledger_go]
  exact hs

theorem Refines.keep (hledger : u.ledger = w.ledger) (hsame : x.hand = (w.pc i).hand) :
    w.Refines (u.go i x) := by
  refine .go (.same ?_)
  rw [hledger]
  exact w.ledger.set_same (.call i) hsame

theorem Refines.enter (hidle : w.pc w.ncalls = .idle) (hnew : x.hand = none) :
    w.Refines (w.enter x) := by
  refine Refines.keep (u := w) (i := w.ncalls) rfl ?_
  rw [hnew, hidle]
  rfl

theorem Refines.takeNetns (hold : (w.pc i).hand = none) : w.Refines (w.takeNetns i id) := by
  unfold World.takeNetns
  split
  · rename_i n rest hpool
    exact .go (Runs.borrow (l := w.ledger) (p := .call i) hpool hold)
  · exact .keep rfl hold.symm

theorem Refines.destroy {h : Lib.Hand} (hold : (w.pc i).hand = some h) (hk : h.account = some k)
    (hnew : x.hand = none) :
    w.Refines (((w.giveBack k).destroyCNINamespace h.resource).go i x) := by
  refine .go ?_
  rw [hnew]
  exact Runs.discard (l := w.ledger) (p := .call i) hold hk

theorem Refines.returnNetnsToPool (hold : (w.pc i).hand = some ⟨n, some k, none⟩)
    (hnew : x.hand = none) : w.Refines (w.returnNetnsToPool i n k x) := by
  unfold World.returnNetnsToPool
  split
  · refine .go ?_
    rw [hnew]
    exact Runs.restore (l := w.ledger) (p := .call i) hold
  · exact .destroy hold rfl hnew

theorem Refines.register (hold : (w.pc i).hand = some ⟨l.netns, some l.account, some v⟩)
    (hfree : w.containers id = none) :
    w.Refines ((w.setContainer id (some ⟨l.netns, l.account, v⟩)).go i .done) := by
  have hne : Place.call i ≠ .entry id := nofun
  have hnone : w.ledger.hand (.entry id) = none := by
    change (w.containers id).map _ = none
    rw [hfree]
    rfl
  have hpass := Step.pass (l := w.ledger) hne hold hnone
  refine .go (.one ?_)
  rw [ledger_setContainer]
  simp only [Lib.Ledger.set, Function.update_comm hne.symm]
  exact hpass

theorem Refines.takeContainer (hold : (w.pc i).hand = none) (hm : w.containers id = some m)
    (hnew : x.hand = some (m.hand false)) :
    w.Refines ((w.setContainer id none).go i x) := by
  have hne : Place.entry id ≠ .call i := nofun
  have hentry : w.ledger.hand (.entry id) = some (m.hand false) := by
    change (w.containers id).map _ = _
    rw [hm]
    rfl
  refine .go (.one ?_)
  rw [ledger_setContainer, hnew]
  exact .pass (l := w.ledger) hne hentry hold

theorem Refines.finishTask (v : Nat) : w.Refines (w.removeTask v) :=
  Runs.one (.finish (l := w.ledger) v)

theorem Refines.removeTask {h : Lib.Hand} (hold : (w.pc i).hand = some h)
    (huser : h.user = some v) (hnew : x.hand = some { h with user := none }) :
    w.Refines ((w.removeTask v).go i x) := by
  refine (Refines.finishTask v).trans (.go (.one ?_))
  rw [hnew]
  refine .forget (l := (w.removeTask v).ledger) (p := .call i) hold fun u hu => ?_
  cases huser.symm.trans hu
  exact update_self _ _ _

theorem Refines.reclaim (hold : (w.pc i).hand = none)
    (hown : (w.containers id).all (fun m' => decide (m' = m)) = true) :
    w.Refines (w.reclaim i id m) := by
  unfold World.reclaim
  split
  · exact .keep rfl hold.symm
  · rename_i m' hm'
    rw [hm'] at hown
    have hsame : m' = m := of_decide_eq_true hown
    subst hsame
    rw [if_pos rfl]
    exact Refines.takeContainer (w := w) (x := .deleteTask m' true) hold hm' rfl

theorem Refines.finish {async deleted clean : Bool}
    (hold : (w.pc i).hand = some (m.hand deleted)) (hclean : clean = true → deleted = true) :
    w.Refines (w.finish i m async clean) := by
  have hnext : (PC.afterTeardown async).hand = none := by
    cases async <;> rfl
  unfold World.finish
  split
  · rename_i hyes
    rw [hclean hyes] at hold
    exact .returnNetnsToPool hold hnext
  · exact .destroy hold rfl hnext

theorem Refines.advance (hfailed : ∀ j l v, w.pc j ≠ .returnFailed l v)
    (hok : w.orderly (.step i o) = true) (hs : w.advance i o = .ok w') : w.Refines w' := by
  have hhand {h : Option Lib.Hand} (hh : (w.pc i).hand = h) : w.ledger.hand (.call i) = h := hh
  unfold World.advance at hs
  cases hpc : w.pc i <;> simp only [hpc] at hs
  case takeNetns id =>
    cases hs
    exact .takeNetns (by rw [hpc]; rfl)
  case createNetns id =>
    have hold : (w.pc i).hand = none := by rw [hpc]; rfl
    cases o <;> cases hs
    · exact .go (.create (hhand hold))
    · exact .keep rfl hold.symm
  case newTask id l =>
    have hold : (w.pc i).hand = some ⟨l.netns, some l.account, none⟩ := by rw [hpc]; rfl
    cases o <;> cases hs
    · exact .go (.one (.spawn (hhand hold) rfl))
    · exact .keep rfl hold.symm
  case startTask id l v =>
    cases o with
    | ok =>
      cases hs
      exact .keep rfl (by rw [hpc]; rfl)
    | error => simp [orderly, hpc] at hok
    | cancelled => cases hs
  case register id l v =>
    simp only [orderly, hpc] at hok
    cases hs
    exact .register (by rw [hpc]; rfl) (Option.isNone_iff_eq_none.mp hok)
  case returnNetns l =>
    cases hs
    exact .returnNetnsToPool (by rw [hpc]; rfl) rfl
  case returnFailed l v => exact absurd hpc (hfailed i l v)
  case deleteFailed v =>
    cases o <;> cases hs
    · exact (Refines.finishTask v).trans (.keep rfl (by simp [World.removeTask, hpc, PC.hand]))
    · exact .keep rfl (by rw [hpc]; rfl)
  case reclaim id m =>
    simp only [orderly, hpc] at hok
    cases hs
    exact .reclaim (by rw [hpc]; rfl) hok
  case deleteTask m async =>
    cases o <;> cases hs
    · exact .removeTask (h := m.hand false) (by rw [hpc]; rfl) rfl rfl
    · exact .keep rfl (by rw [hpc]; rfl)
  case finish m async deleted removed =>
    cases hs
    exact .finish (by rw [hpc]; rfl) fun hclean => (Bool.and_eq_true_iff.mp hclean).1
  case populate k =>
    have hold : (w.pc i).hand = none := by rw [hpc]; rfl
    split at hs
    · cases o <;> cases hs
      · exact .go (.one (.make (hhand hold)))
      · exact .keep rfl hold.symm
    · cases hs
      exact .keep rfl hold.symm
  case populated k n =>
    have hold : (w.pc i).hand = some ⟨n, none, none⟩ := by rw [hpc]; rfl
    split at hs <;> cases hs
    exact .go (.one (.put (hhand hold)))
  case refill =>
    have hold : (w.pc i).hand = none := by rw [hpc]; rfl
    split at hs
    · cases o <;> cases hs
      · exact .go (.one (.make (hhand hold)))
      · exact .keep rfl hold.symm
    · cases hs
      exact .keep rfl hold.symm
  case refilled n =>
    have hold : (w.pc i).hand = some ⟨n, none, none⟩ := by rw [hpc]; rfl
    split at hs <;> cases hs
    · exact .go (.one (.put (hhand hold)))
    · exact .go (.one (.drop (hhand hold) rfl))
  all_goals
    repeat' split at hs
    all_goals cases hs
    all_goals exact .keep rfl (by rw [hpc]; rfl)

theorem Refines.step (hbounded : ∀ j, w.ncalls ≤ j → w.pc j = .idle)
    (hfailed : ∀ j l v, w.pc j ≠ .returnFailed l v) {a : Action} (hok : w.orderly a = true)
    (hs : w.step a = .ok w') : w.Refines w' := by
  have hidle := hbounded w.ncalls le_rfl
  cases a with
  | stop id =>
    simp only [World.step] at hs
    split at hs
    · rename_i m hm
      cases hs
      exact Refines.takeContainer (i := w.ncalls) (x := .stop m) (by rw [hidle]; rfl) hm rfl
    · cases hs
      exact .enter hidle rfl
  | watchLifecycle id =>
    simp only [World.step] at hs
    split at hs <;> cases hs <;> exact .enter hidle rfl
  | step i o => exact .advance hfailed hok hs
  | _ =>
    cases hs
    exact .enter hidle rfl

theorem init_balanced (poolSize : Nat) (asyncTeardown : Bool) :
    (init poolSize asyncTeardown).ledger.Balanced := by
  have hhand : (init poolSize asyncTeardown).hand = fun _ => none := by
    funext place
    cases place with
    | entry id => rfl
    | call j =>
      change (update (fun _ => PC.idle) 0 (.populate 0) j).hand = none
      rcases eq_or_ne j 0 with rfl | hj
      · rfl
      · rw [update_of_ne hj]
        rfl
  have hmade (n : Nat) : n ∈ ([] : List Nat) ↔ n < 0 := by simp
  have hinitial := Lib.Ledger.balanced_initial (P := Place) List.nodup_nil hmade
  unfold ledger
  rw [hhand]
  exact hinitial

/-! ## Calls and names -/

/-- A step of call `i` moves it; a start fails only when its task does not start. -/
inductive Calls (w : World) (i : Nat) (o : Outcome) : World → Prop
  | go {u : World} (x : PC) (hpc : u.pc = w.pc) (hn : u.ncalls = w.ncalls)
      (hx : ∀ l v, x = .returnFailed l v → ∃ id, w.pc i = .startTask id l v ∧ o = .error) :
      Calls w i o (u.go i x)

theorem advance_calls (hs : w.advance i o = .ok w') : Calls w i o w' := by
  unfold advance at hs
  cases hpc : w.pc i <;> simp only [hpc] at hs
  case startTask id l v =>
    cases o <;> cases hs
    · exact .go _ rfl rfl nofun
    · refine .go _ rfl rfl fun l' v' he => ?_
      cases he
      exact ⟨id, hpc, rfl⟩
  case takeNetns id =>
    cases hs
    unfold takeNetns
    split <;> exact .go _ rfl rfl nofun
  case reclaim id m =>
    cases hs
    unfold reclaim
    split
    · exact .go _ rfl rfl nofun
    · split <;> exact .go _ rfl rfl nofun
  case finish m async deleted removed =>
    have hnext (l : Lease) (v : Nat) (he : PC.afterTeardown async = .returnFailed l v) :
        ∃ id, w.pc i = .startTask id l v ∧ o = .error := by
      cases async <;> cases he
    cases hs
    unfold finish returnNetnsToPool
    split
    · split <;> exact .go _ rfl rfl hnext
    · exact .go _ rfl rfl hnext
  case returnNetns l =>
    cases hs
    unfold returnNetnsToPool
    split <;> exact .go _ rfl rfl nofun
  case returnFailed l v =>
    cases hs
    unfold returnNetnsToPool
    split <;> exact .go _ rfl rfl nofun
  all_goals
    repeat' split at hs
    all_goals cases hs
    all_goals exact .go _ rfl rfl nofun

theorem advance_started (hs : w.advance i o = .ok w') : w.pc i ≠ .idle := by
  intro hidle
  simp [advance, hidle] at hs

/-- Namespaces that are there have different names. -/
def Named (w : World) : Prop := Lib.Distinct w.made w.name w.destroyed

theorem Named.advance (h : Named w) (hok : w.orderly (.step i o) = true)
    (hs : w.advance i o = .ok w') : Named w' := by
  have hsame {u : World} (hmade : u.made = w.made) (hname : u.name = w.name)
      (hdestroyed : u.destroyed = w.destroyed) : Named u := by
    unfold Named
    rw [hmade, hname, hdestroyed]
    exact h
  have hmore {u : World} {n : Nat} (hmade : u.made = w.made) (hname : u.name = w.name)
      (hdestroyed : u.destroyed = w.destroyed ++ [n]) : Named u := by
    unfold Named
    rw [hmade, hname, hdestroyed]
    exact h.destroy (List.subset_append_left _ _)
  have hreturn (n k : Nat) (x : PC) : Named (w.returnNetnsToPool i n k x) := by
    unfold returnNetnsToPool
    split
    · exact hsame rfl rfl rfl
    · exact hmore rfl rfl rfl
  unfold World.advance at hs
  cases hpc : w.pc i <;> simp only [hpc] at hs
  case createNetns id =>
    simp only [orderly, hpc] at hok
    cases o <;> cases hs
    · exact Lib.Distinct.make h hok
    · exact hsame rfl rfl rfl
  case populate k =>
    simp only [orderly, hpc] at hok
    split at hs
    · cases o <;> cases hs
      · exact Lib.Distinct.make h hok
      · exact hsame rfl rfl rfl
    · cases hs
      exact hsame rfl rfl rfl
  case refill =>
    simp only [orderly, hpc] at hok
    split at hs
    · cases o <;> cases hs
      · exact Lib.Distinct.make h hok
      · exact hsame rfl rfl rfl
    · cases hs
      exact hsame rfl rfl rfl
  case takeNetns id =>
    cases hs
    unfold takeNetns
    split <;> exact hsame rfl rfl rfl
  case reclaim id m =>
    cases hs
    unfold reclaim
    split
    · exact hsame rfl rfl rfl
    · split <;> exact hsame rfl rfl rfl
  case finish m async deleted removed =>
    cases hs
    unfold finish
    split
    · exact hreturn _ _ _
    · exact hmore rfl rfl rfl
  case returnNetns l =>
    cases hs
    exact hreturn _ _ _
  case returnFailed l v =>
    cases hs
    exact hreturn _ _ _
  case refilled n =>
    split at hs <;> cases hs
    · exact hsame rfl rfl rfl
    · exact hmore rfl rfl rfl
  all_goals
    repeat' split at hs
    all_goals cases hs
    all_goals exact hsame rfl rfl rfl

/-! ## The result -/

structure Inv (w : World) : Prop where
  bounded : ∀ j, w.ncalls ≤ j → w.pc j = .idle
  failed : ∀ j l v, w.pc j ≠ .returnFailed l v
  named : Named w
  balanced : w.ledger.Balanced

theorem bounded_enter (hbounded : ∀ j, w.ncalls ≤ j → w.pc j = .idle) (j : Nat)
    (hj : (w.enter x).ncalls ≤ j) : (w.enter x).pc j = .idle := by
  have hj : w.ncalls + 1 ≤ j := hj
  exact (update_of_ne (by omega) _ _).trans (hbounded j (by omega))

theorem failed_go (hfailed : ∀ j l v, w.pc j ≠ .returnFailed l v)
    (hx : ∀ l v, x ≠ .returnFailed l v) (j : Nat) (l : Lease) (v : Nat) :
    (w.go i x).pc j ≠ .returnFailed l v := by
  change update w.pc i x j ≠ _
  rcases eq_or_ne j i with rfl | hji
  · rw [update_self]
    exact hx l v
  · rw [update_of_ne hji]
    exact hfailed j l v

theorem Inv.enter (h : Inv w) (hx : ∀ l v, x ≠ .returnFailed l v)
    (hledger : w.Refines (w.enter x)) : Inv (w.enter x) :=
  ⟨bounded_enter h.bounded, failed_go h.failed hx, h.named, h.balanced.runs hledger⟩

theorem Inv.step (h : Inv w) {a : Action} (hok : w.orderly a = true) (hs : w.step a = .ok w') :
    Inv w' := by
  have hledger := Refines.step h.bounded h.failed hok hs
  cases a with
  | start id =>
    cases hs
    exact h.enter nofun hledger
  | stop id =>
    simp only [World.step] at hs
    split at hs
    · rename_i m hm
      cases hs
      exact ⟨bounded_enter (w := w.setContainer id none) h.bounded,
        failed_go (w := w.setContainer id none) h.failed nofun, h.named, h.balanced.runs hledger⟩
    · cases hs
      exact h.enter nofun hledger
  | watchLifecycle id =>
    simp only [World.step] at hs
    split at hs <;> cases hs <;> exact h.enter nofun hledger
  | replenish =>
    cases hs
    exact h.enter nofun hledger
  | step i o =>
    have hstarted := advance_started hs
    have hnamed := h.named.advance hok hs
    cases advance_calls hs with
    | @go u x hpc hn hx =>
      refine ⟨fun j hj => ?_, failed_go (by rw [hpc]; exact h.failed) fun l v he => ?_, hnamed,
        h.balanced.runs hledger⟩
      · have hout : w.ncalls ≤ j := hn ▸ hj
        have hji : j ≠ i := fun hji => hstarted (hji ▸ h.bounded j hout)
        refine (update_of_ne hji _ _).trans ?_
        rw [hpc]
        exact h.bounded j hout
      · obtain ⟨id, hpc, rfl⟩ := hx l v he
        simp [orderly, hpc] at hok

theorem init_inv (poolSize : Nat) (asyncTeardown : Bool) : Inv (init poolSize asyncTeardown)
    where
  bounded := fun j hj => by
    have hj : 0 < j := hj
    change update (fun _ => PC.idle) 0 (.populate 0) j = .idle
    rw [update_of_ne (Nat.ne_of_gt hj)]
  failed := fun j l v => by
    change update (fun _ => PC.idle) 0 (.populate 0) j ≠ _
    rcases eq_or_ne j 0 with rfl | hj
    · nofun
    · rw [update_of_ne hj]
      nofun
  named := fun n _ hn => absurd hn (Nat.not_lt_zero n)
  balanced := init_balanced poolSize asyncTeardown

end World

/-- **Namespaces have one owner.** -/
theorem netns_owned_once {w : World}
    (hw : machine.ReachesWhile (fun w a => w.orderly a = true) w) :
    (∀ n, n < w.made → (n ∈ w.destroyed ∧ ∀ place, ¬ w.ledger.holds place n) ∨
      (n ∉ w.destroyed ∧ ∃! place, w.ledger.holds place n)) ∧
    (∀ k n, w.acquired[k]? = some n →
      (w.given k = 1 ∧ ∀ place h, w.hand place = some h → h.account ≠ some k) ∨
      (w.given k = 0 ∧ ∃ place h, w.hand place = some h ∧ h.resource = n ∧
        h.account = some k)) ∧
    (∀ n ∈ w.pool, ∀ task, w.running task ≠ some n) ∧
    ∀ n n', n < w.made → n' < w.made → n ∉ w.destroyed → n' ∉ w.destroyed →
      w.name n = w.name n' → n = n' := by
  have h : w.Inv := by
    refine hw.invariant (I := World.Inv) ?_ fun _ _ _ hi hok hs => hi.step hok hs
    rintro _ ⟨poolSize, asyncTeardown, _, rfl⟩
    exact World.init_inv poolSize asyncTeardown
  have hb := h.balanced
  refine ⟨fun n hn => ?_, fun k n hk => ?_, hb.unused, h.named⟩
  · by_cases hgone : n ∈ w.destroyed
    · exact .inl ⟨hgone, (hb.ended n hgone).2⟩
    · obtain ⟨place, hplace⟩ := (hb.kept n hn).resolve_left hgone
      exact .inr ⟨hgone, place, hplace, fun place' hplace' => hb.sole hplace' hplace⟩
  · have honce : w.given k ≤ 1 := hb.once k
    rcases Nat.le_one_iff_eq_zero_or_eq_one.mp honce with hzero | hone
    · obtain ⟨hlt, _⟩ := List.getElem?_eq_some_iff.mp hk
      obtain ⟨place, hand, hhand, haccount⟩ := hb.owed k hlt hzero
      have htaken := (hb.account place hand k hhand haccount).1
      exact .inr ⟨hzero, place, hand, hhand, Option.some.inj (htaken.symm.trans hk), haccount⟩
    · refine .inl ⟨hone, fun place hand hhand haccount => ?_⟩
      have hzero : w.given k = 0 := (hb.account place hand k hhand haccount).2
      omega

/-- A pool of one: a sandbox whose task exits gives its namespace back, one whose container is
not deleted loses its own, and a third one runs. -/
theorem netns_owned_once_mixed :
    ∃ w, machine.ReachesWhile (fun w a => w.orderly a = true) w ∧ w.made = 3 ∧
      w.acquired = [0, 1, 2] ∧ w.given 0 = 1 ∧ w.given 1 = 1 ∧ w.given 2 = 0 ∧ w.pool = [0] ∧
      w.destroyed = [1] ∧ (∀ task, w.running task ≠ some 0) ∧
      ∃! place, w.ledger.holds place 2 := by
  obtain ⟨w, hw, hmade, hacquired, hfirst, hsecond, hthird, hpool, hdestroyed⟩ :=
    machine.exists_while_of_run (P := fun w a => w.orderly a = true)
    (Q := fun w => w.made = 3 ∧ w.acquired = [0, 1, 2] ∧ w.given 0 = 1 ∧ w.given 1 = 1 ∧
      w.given 2 = 0 ∧ w.pool = [0] ∧ w.destroyed = [1]) (.init 1 true)
    ([.step 0 .ok, .step 0 .ok, .step 0 .ok, .start 7] ++ List.replicate 7 (.step 1 .ok) ++
      [.start 8] ++ List.replicate 8 (.step 2 .ok) ++ [.start 9] ++
      List.replicate 8 (.step 3 .ok) ++ [.watchLifecycle 7] ++ List.replicate 5 (.step 4 .ok) ++
      [.stop 8, .step 5 .ok, .step 5 .ok, .step 5 .error, .step 5 .ok])
    ⟨1, true, by decide, rfl⟩ (by decide +kernel)
  obtain ⟨howned, _, hquiet, _⟩ := netns_owned_once hw
  refine ⟨w, hw, hmade, hacquired, hfirst, hsecond, hthird, hpool, hdestroyed,
    hquiet 0 (by simp [hpool]), ?_⟩
  rcases howned 2 (by omega) with ⟨hgone, _⟩ | ⟨_, hplace⟩
  · rw [hdestroyed] at hgone
    exact absurd hgone (by decide)
  · exact hplace

/-- The task does not start, and its namespace is in the pool before it is deleted. -/
theorem netns_pooled_with_task :
    ∃ w, machine.Reachable w ∧ w.pool = [0] ∧ w.running 0 = some 0 := by
  exact machine.exists_of_run (.init 1 false)
    [.step 0 .ok, .step 0 .ok, .start 7, .step 1 .ok, .step 1 .ok, .step 1 .ok, .step 1 .ok,
      .step 1 .ok, .step 1 .error, .step 1 .ok] ⟨1, false, by decide, rfl⟩ (by decide +kernel)

end HyperFaaS.Worker.Netns
