import HyperFaaS.Worker.NetworkLedger

/-!
An instance of the Firecracker runtime stays within reach until its network is released: the
table has it, or a call that ends it. `Stop` and the lifecycle watch clear the entry of an id,
whatever instance it has by then; so this needs that no start of an id begins while a call is
on its way to clear it.

Proved here (`networks_given_back_once`): every acquisition is given back once, or its network is
in the hands of one call in progress, or of one instance within reach; no process runs in a
network of the pool; `inUse` counts the acquisitions not given back. This is for runs in which
the process of a failed start has ended when the wait for it is over. Without that a network
comes into the pool with its process (`network_pooled_in_use`).
-/

namespace HyperFaaS.Worker.Networks

open Function

/-! ## Instances stay within reach -/

/-- What the calls know of the table, of the instances and of the number of acquisitions. -/
structure Reach (role : Nat → Role) (table : Nat → Option Nat) (insts : Nat → Option Instance)
    (bound : Nat) : Prop where
  solo : ∀ i j id a b, role i = .starting id a → role j = .starting id b → i = j
  clear : ∀ i id a, role i = .starting id a → table id = none
  apart : ∀ i j id a k, role i = .starting id a → role j ≠ .ending id k
  named : ∀ j id k, role j = .ending id k → ∀ k', table id = some k' → k' = k
  indexed : ∀ id k, table id = some k → ∃ inst, insts k = some inst ∧ inst.instanceID = id
  unborn : ∀ i id k, role i = .starting id (some k) → insts k = none
  numbered : ∀ k, insts k ≠ none → k < bound
  live : ∀ k inst, insts k = some inst → inst.released = false →
    table inst.instanceID = some k ∨ ∃ j, (role j).instance = some k
  torn : ∀ k inst, insts k = some inst → inst.teardownOnce ≠ .unused → inst.released = false →
    ∃ j, role j = .shutting k
  finished : ∀ j k, role j = .finishing k → ∃ inst, insts k = some inst ∧ inst.released = true

/-- The turns of call `i`: its new role, and what becomes of the rest. -/
inductive Turn (role : Nat → Role) (table : Nat → Option Nat) (insts : Nat → Option Instance)
    (bound i : Nat) : Role → (Nat → Option Nat) → (Nat → Option Instance) → Nat → Prop
  | keep : Turn role table insts bound i (role i) table insts bound
  /-- an instance that is left is released, or another call tears it down -/
  | leave {b : Role} (hb : b = .other ∨ ∃ k inst, b = .finishing k ∧ insts k = some inst ∧
        inst.released = true)
      (hleft : ∀ k inst, (role i).instance = some k → insts k = some inst →
        inst.released = false → ∃ j, j ≠ i ∧ role j = .shutting k) :
      Turn role table insts bound i b table insts bound
  | start {id : Nat} (hi : role i = .other) (hnone : table id = none)
      (hfree : ∀ j, (role j).id ≠ some id) :
      Turn role table insts bound i (.starting id none) table insts bound
  | lease {id : Nat} (hi : role i = .starting id none) :
      Turn role table insts bound i (.starting id (some bound)) table insts (bound + 1)
  | register {id k : Nat} {inst : Instance} (hi : role i = .starting id (some k)) (hk : k < bound)
      (hsole : ∀ j id', role j = .starting id' (some k) → j = i) (hid : inst.instanceID = id)
      (honce : inst.teardownOnce = .unused) :
      Turn role table insts bound i .other (update table id (some k))
        (update insts k (some inst)) bound
  | finish {id k : Nat} (hi : role i = .other) (hk : table id = some k) :
      Turn role table insts bound i (.ending id k) table insts bound
  | delete {id k : Nat} (hi : role i = .ending id k) :
      Turn role table insts bound i (.tearing k) (update table id none) insts bound
  | shut {k : Nat} (hi : role i = .other ∨ role i = .tearing k) :
      Turn role table insts bound i (.shutting k) table insts bound
  /-- one that is torn down has a call that does it -/
  | change {k : Nat} {inst inst' : Instance} (hinst : insts k = some inst)
      (hid : inst'.instanceID = inst.instanceID)
      (hrel : inst'.released = false → inst.released = false)
      (htorn : inst'.teardownOnce ≠ .unused → inst'.released = false → ∃ j, role j = .shutting k) :
      Turn role table insts bound i (role i) table (update insts k (some inst')) bound

theorem Reach.turn {role role' : Nat → Role} {table table' : Nat → Option Nat}
    {insts insts' : Nat → Option Instance} {bound bound' i : Nat} {b : Role}
    (h : Reach role table insts bound) (hself : role' i = b)
    (hother : ∀ j, j ≠ i → role' j = role j)
    (ht : Turn role table insts bound i b table' insts' bound') :
    Reach role' table' insts' bound' := by
  constructor
  case solo =>
    have hsolo := h.solo
    cases ht <;> grind
  case clear =>
    have hsolo := h.solo
    have hclear := h.clear
    cases ht <;> grind [update_apply]
  case apart =>
    have hclear := h.clear
    have hapart := h.apart
    cases ht <;> grind
  case named =>
    have hapart := h.apart
    have hnamed := h.named
    cases ht <;> grind [update_apply]
  case indexed =>
    have hunborn := h.unborn
    have hindexed := h.indexed
    cases ht <;> grind [update_apply]
  case unborn =>
    have hnumbered := h.numbered
    have hunborn := h.unborn
    cases ht <;> grind [update_apply]
  case numbered =>
    have hnumbered := h.numbered
    cases ht <;> grind [update_apply]
  case live =>
    -- the entry that `delete` clears is that of its own instance
    have hnamed := h.named
    have hclear := h.clear
    have hlive := h.live
    cases ht <;> grind [update_apply]
  case torn =>
    have htorn := h.torn
    cases ht <;> grind [update_apply]
  case finished =>
    have hunborn := h.unborn
    have hfinished := h.finished
    cases ht <;> grind [update_apply]

namespace World

variable {w w' u : World} {i id k n v : Nat} {l : Lease} {x : PC} {o : Outcome} {inst : Instance}

def Reaches (w : World) : Prop :=
  Reach (fun j => (w.pc j).role) w.instances w.insts w.acquired.length

theorem Reaches.congr (hr : Reaches w) (hpc : u.pc = w.pc) (hinstances : u.instances = w.instances)
    (hinsts : u.insts = w.insts) (hacquired : u.acquired = w.acquired) : Reaches u := by
  unfold Reaches
  rw [hpc, hinstances, hinsts, hacquired]
  exact hr

theorem Reaches.turn (hr : Reaches w) (hpc : u.pc = w.pc)
    (ht : Turn (fun j => (w.pc j).role) w.instances w.insts w.acquired.length i x.role u.instances
      u.insts u.acquired.length) : Reaches (u.go i x) := by
  refine Reach.turn hr ?_ (fun j hji => ?_) ht
  · simp [go]
  · simp [go, hji, hpc]

theorem Reaches.keep (hr : Reaches w) (hpc : u.pc = w.pc) (hinstances : u.instances = w.instances)
    (hinsts : u.insts = w.insts) (hacquired : u.acquired = w.acquired)
    (hrole : x.role = (w.pc i).role) : Reaches (u.go i x) := by
  refine hr.turn hpc ?_
  rw [hinstances, hinsts, hacquired, hrole]
  exact .keep

theorem Reaches.leave (hr : Reaches w) (hpc : u.pc = w.pc) (hinstances : u.instances = w.instances)
    (hinsts : u.insts = w.insts) (hacquired : u.acquired = w.acquired) (hother : x.role = .other)
    (hnone : (w.pc i).role.instance = none) : Reaches (u.go i x) := by
  refine hr.turn hpc ?_
  rw [hinstances, hinsts, hacquired, hother]
  refine .leave (.inl rfl) fun k _ hk => ?_
  rw [hnone] at hk
  cases hk

theorem Reaches.instance (hr : Reaches w) (inst' : Instance) (hinst : w.insts k = some inst)
    (hid : inst'.instanceID = inst.instanceID)
    (hrel : inst'.released = false → inst.released = false)
    (htorn : inst'.teardownOnce ≠ .unused → inst'.released = false →
      ∃ j, (w.pc j).role = .shutting k) : Reaches (w.setInstance k inst') :=
  Reach.turn (i := 0) hr rfl (fun _ _ => rfl) (.change hinst hid hrel htorn)

theorem PC.hand_of_starting {y : PC} (hy : y.role = .starting id (some k)) :
    ∃ h, y.hand = some h ∧ h.account = some k := by
  cases y
  case release l after => cases after <;> cases hy
  case returning n after => cases after <;> cases hy
  case discard l vmm after => cases after <;> cases hy
  all_goals cases hy
  all_goals exact ⟨_, rfl, rfl⟩

theorem Reaches.register (hr : Reaches w) (hb : w.ledger.Balanced)
    (hold : (w.pc i).role = .starting id (some l.account)) : Reaches (w.register i id l v) := by
  obtain ⟨h, hhand, haccount⟩ := PC.hand_of_starting hold
  have hcall : w.ledger.hand (.call i) = some h := hhand
  have hlt := (List.getElem?_eq_some_iff.mp (hb.account _ h _ hcall haccount).1).1
  refine hr.turn rfl (.register hold hlt (fun j id' hj => ?_) rfl rfl)
  obtain ⟨h', hhand', haccount'⟩ := PC.hand_of_starting hj
  have hcall' : w.ledger.hand (.call j) = some h' := hhand'
  exact Place.call.inj (hb.sole_account hcall' hcall haccount' haccount)

/-- The process of a failed restore is left to a call of its own. -/
theorem Reaches.reap (hr : Reaches w) (hi : i ≠ w.ncalls) (hidle : w.pc w.ncalls = .idle)
    (hnone : (w.pc i).role.instance = none) :
    Reaches ((((w.mark id false).markReaping id true).go i (.unmark id)).enter (.reap id l v)) := by
  have hleft : Reaches (((w.mark id false).markReaping id true).go i (.unmark id)) :=
    hr.leave rfl rfl rfl rfl rfl hnone
  refine (hleft.keep (i := w.ncalls) (x := .reap id l v) rfl rfl rfl rfl ?_).congr rfl rfl rfl rfl
  have hnew : (((w.mark id false).markReaping id true).go i (.unmark id)).pc w.ncalls = .idle :=
    (update_of_ne hi.symm _ _).trans hidle
  rw [hnew]
  rfl

theorem Reaches.runTeardown (hr : Reaches w) (hi : i ≠ w.ncalls) (hidle : w.pc w.ncalls = .idle)
    (hold : (w.pc i).role = .tearing k) (hinst : w.insts k = some inst)
    (hs : w.runTeardown i k inst = .ok w') : Reaches w' := by
  unfold World.runTeardown at hs
  split at hs
  · split at hs
    · cases hs
      -- the background teardown is there before the instance changes
      have hother : (w.pc w.ncalls).role = .other := by
        rw [hidle]
        rfl
      have hshut : Reaches (w.go w.ncalls (.shutdownInstance k true false)) :=
        hr.turn rfl (.shut (.inl hother))
      have hleader : ((w.go w.ncalls (.shutdownInstance k true false)).pc w.ncalls).role =
          .shutting k := by
        simp [go, PC.role]
      have hset := hshut.instance { inst with teardownOnce := .done } hinst rfl id
        fun _ _ => ⟨_, hleader⟩
      have hleave := hset.turn (i := i) (x := .done) rfl (.leave (.inl rfl) fun m _ hm _ _ => ?_)
      · refine hleave.congr ?_ rfl rfl rfl
        exact Function.update_comm hi _ _ _
      · refine ⟨w.ncalls, hi.symm, ?_⟩
        have hmine : (w.pc i).role.instance = some m := by
          simpa [setInstance, go, hi] using hm
        rw [hold] at hmine
        cases hmine
        exact hleader
    · cases hs
      have hshut : Reaches (w.go i (.shutdownInstance k false false)) :=
        hr.turn rfl (.shut (.inr hold))
      refine (hshut.instance { inst with teardownOnce := .running } hinst rfl id
        fun _ _ => ⟨i, ?_⟩).congr rfl rfl rfl rfl
      simp [go, PC.role]
  · cases hs
  · rename_i honce
    cases hs
    refine hr.turn rfl (.leave (.inl rfl) fun m inst' hm hinst' hrel => ?_)
    rw [hold] at hm
    cases hm
    cases hinst.symm.trans hinst'
    obtain ⟨j, hj⟩ := hr.torn k inst hinst (by simp [honce]) hrel
    refine ⟨j, fun hji => ?_, hj⟩
    subst hji
    cases hold.symm.trans hj

theorem Reaches.releaseInstance {async : Bool} (hr : Reaches w)
    (hold : (w.pc i).role = .shutting k) (hinst : w.insts k = some inst) :
    Reaches (w.releaseInstance i k async inst) := by
  have hmine {m : Nat} (hm : (w.pc i).role.instance = some m) : m = k := by
    rw [hold] at hm
    exact (Option.some.inj hm).symm
  -- a teardown in the call goes on to its end, one in the background is over
  have hnext {y : PC} (hy : y.role = (After.teardown k async).pc.role) {u : World} {inst' : Instance}
      (hinst' : u.insts k = some inst') (hrel : inst'.released = true) : y.role = .other ∨
      ∃ k inst, y.role = .finishing k ∧ u.insts k = some inst ∧ inst.released = true := by
    cases async with
    | true => exact .inl hy
    | false => exact .inr ⟨k, inst', hy, hinst', hrel⟩
  unfold World.releaseInstance
  split
  · rename_i hrel
    refine hr.turn rfl (.leave (hnext rfl hinst hrel) fun m inst' hm hinst' hfalse => ?_)
    cases hmine hm
    cases hinst.symm.trans hinst'
    cases hrel.symm.trans hfalse
  · have hset := hr.instance { inst with released := true } hinst rfl nofun
      nofun
    have hnow : (w.setInstance k { inst with released := true }).insts k =
        some { inst with released := true } := update_self _ _ _
    refine hset.turn rfl (.leave (hnext ?_ hnow rfl) fun m inst' hm hinst' hfalse => ?_)
    · cases async <;> split <;> rfl
    · cases hmine hm
      cases hnow.symm.trans hinst'
      cases hfalse

theorem After.pc_role (after : After) : after.pc.role = after.role := by
  cases after <;> rfl

/-- Most steps keep the role of their call, or end the call when it has no instance. -/
theorem Reaches.advance (hr : Reaches w) (hb : w.ledger.Balanced)
    (hbounded : ∀ j, w.ncalls ≤ j → w.pc j = .idle) (hs : w.advance i o = .ok w') :
    Reaches w' := by
  have hidle := hbounded w.ncalls le_rfl
  have hlive (hne : w.pc i ≠ .idle) : i ≠ w.ncalls := by
    rintro rfl
    exact hne hidle
  unfold World.advance at hs
  cases hpc : w.pc i <;> simp only [hpc] at hs
  case acquire id =>
    cases hs
    unfold take
    split <;> exact hr.keep rfl rfl rfl rfl (by rw [hpc]; rfl)
  case validate id n =>
    cases o <;> cases hs
    · refine hr.turn rfl ?_
      rw [lease, List.length_append]
      exact .lease (by rw [hpc]; rfl)
    · exact hr.keep rfl rfl rfl rfl (by rw [hpc]; rfl)
  case buildNetwork id =>
    cases o <;> cases hs
    · refine hr.turn rfl ?_
      rw [lease, List.length_append]
      exact .lease (by rw [hpc]; rfl)
    · exact hr.leave rfl rfl rfl rfl rfl (by rw [hpc]; rfl)
  case startMachine id l snapshot =>
    cases o <;> cases hs <;> cases snapshot <;> exact hr.keep rfl rfl rfl rfl (by rw [hpc]; rfl)
  case cleanupFailedMachine id l snapshot vmm =>
    have hnone : (w.pc i).role.instance = none := by
      rw [hpc]
      rfl
    unfold cleanupFailedMachine at hs
    cases snapshot
    all_goals
      repeat' split at hs
      all_goals cases hs
      all_goals first
        | exact hr.keep rfl rfl rfl rfl (by rw [hpc]; rfl)
        | exact hr.leave rfl rfl rfl rfl rfl hnone
        | exact hr.reap (hlive (by simp [hpc])) hidle hnone
  case register id l vmm =>
    cases hs
    exact hr.register hb (by rw [hpc]; rfl)
  case delete id k =>
    cases hs
    exact hr.turn rfl (.delete (by rw [hpc]; rfl))
  case runTeardown k =>
    split at hs
    · rename_i inst hinst
      exact hr.runTeardown (hlive (by simp [hpc])) hidle (by rw [hpc]; rfl) hinst hs
    · cases hs
  case shutdownInstance k async forced =>
    have hold : (w.pc i).role = .shutting k := by
      rw [hpc]
      rfl
    split at hs
    · rename_i inst hinst
      have hset := hr.instance { inst with exited := true } hinst rfl id fun _ _ => ⟨i, hold⟩
      unfold shutdownInstance at hs
      cases forced
      all_goals
        repeat' split at hs
        all_goals cases hs
        all_goals first
          | exact hr.keep rfl rfl rfl rfl hold.symm
          | exact hset.keep rfl rfl rfl rfl hold.symm
    · cases hs
  case releaseInstance k async =>
    split at hs
    · rename_i inst hinst
      cases hs
      exact hr.releaseInstance (by rw [hpc]; rfl) hinst
    · cases hs
  case onceDone k =>
    split at hs
    · rename_i inst hinst
      cases hs
      obtain ⟨inst', hinst', hrel⟩ := hr.finished i k (by simp [hpc, PC.role])
      cases hinst.symm.trans hinst'
      have hset := hr.instance { inst with teardownOnce := .done } hinst rfl id
        fun _ hfalse => absurd (hrel.symm.trans hfalse) Bool.true_eq_false.mp
      exact hset.leave rfl rfl rfl rfl rfl (by simp [setInstance, hpc, PC.role, Role.instance])
    · cases hs
  all_goals
    repeat' split at hs
    all_goals cases hs
    all_goals first
      | exact hr.keep rfl rfl rfl rfl (by rw [hpc]; rfl)
      | exact hr.keep rfl rfl rfl rfl (by rw [hpc]; exact After.pc_role _)
      | exact hr.leave rfl rfl rfl rfl rfl (by rw [hpc]; rfl)

theorem Reaches.step (hr : Reaches w) (hb : w.ledger.Balanced)
    (hbounded : ∀ j, w.ncalls ≤ j → w.pc j = .idle) {a : Action} (hok : w.orderly a = true)
    (hs : w.step a = .ok w') : Reaches w' := by
  have hother : (w.pc w.ncalls).role = .other := by
    rw [hbounded w.ncalls le_rfl]
    rfl
  have hnew {x : PC} (ht : Turn (fun j => (w.pc j).role) w.instances w.insts w.acquired.length
      w.ncalls x.role w.instances w.insts w.acquired.length) : Reaches (w.enter x) :=
    (hr.turn rfl ht).congr rfl rfl rfl rfl
  have hdone {x : PC} (hx : x.role = .other) : Reaches (w.enter x) :=
    (hr.keep rfl rfl rfl rfl (hx.trans hother.symm)).congr rfl rfl rfl rfl
  cases a with
  | start id =>
    cases hs
    unfold start
    split
    · exact hdone rfl
    · rename_i hfree
      have hnone : w.instances id = none := by
        cases hinst : w.instances id with
        | none => rfl
        | some k => simp [hinst] at hfree
      have hids (j : Nat) : (w.pc j).role.id ≠ some id := by
        rcases Nat.lt_or_ge j w.ncalls with hj | hj
        · have hne := List.all_eq_true.mp hok j (List.mem_range.mpr hj)
          exact bne_iff_ne.mp hne
        · rw [hbounded j hj]
          exact nofun
      exact (hnew (x := .waitForAsyncTeardown id) (.start hother hnone hids)).congr rfl rfl rfl rfl
  | stop id =>
    simp only [World.step] at hs
    split at hs
    · rename_i k hk
      cases hs
      exact hnew (.finish hother hk)
    · cases hs
      exact hdone rfl
  | watchLifecycle id =>
    simp only [World.step] at hs
    split at hs
    · rename_i k hk
      cases hs
      exact hnew (.finish hother hk)
    · cases hs
      exact hdone rfl
  | replenish =>
    simp only [World.step] at hs
    split at hs
    · cases hs
      exact hdone rfl
    · cases hs
  | step i o => exact hr.advance hb hbounded hs
  | exit v =>
    cases hs
    exact hr.congr rfl rfl rfl rfl

/-! ## The result -/

structure Inv (w : World) : Prop where
  bounded : ∀ j, w.ncalls ≤ j → w.pc j = .idle
  balanced : w.ledger.Balanced
  reaches : Reaches w

theorem Inv.step (h : Inv w) {a : Action} (hok : w.orderly a = true) (hs : w.step a = .ok w') :
    Inv w' :=
  ⟨bounded_step h.bounded hs, h.balanced.runs (Refines.step h.balanced h.bounded hok hs),
    h.reaches.step h.balanced h.bounded hok hs⟩

theorem init_inv (cfg : Config) (populated : Nat) : Inv (init cfg populated) where
  bounded := fun _ _ => rfl
  balanced := init_balanced cfg populated
  reaches := {
    solo := nofun
    clear := nofun
    apart := nofun
    named := nofun
    indexed := nofun
    unborn := nofun
    numbered := fun _ hk => absurd rfl hk
    live := nofun
    torn := nofun
    finished := nofun }

/-- The place has network `n` for acquisition `k`. -/
def has (w : World) (place : Place) (k n : Nat) : Prop :=
  ∃ vmm, w.hand place = some ⟨n, some k, vmm⟩

/-- A call in progress, or an instance that the table or a call leads to. -/
def reached (w : World) : Place → Prop
  | .call _ => True
  | .inst k => ∃ inst, w.insts k = some inst ∧
      (w.instances inst.instanceID = some k ∨ ∃ j, (w.pc j).role.instance = some k)

theorem Reaches.reached (hr : Reaches w) {place : Place} {h : Lib.Hand}
    (hh : w.hand place = some h) : w.reached place := by
  cases place with
  | call i => trivial
  | inst k =>
    obtain ⟨inst, hinst, hhand⟩ := Option.bind_eq_some_iff.mp hh
    have hrel : inst.released = false := by
      unfold Instance.hand at hhand
      split at hhand
      · cases hhand
      · rename_i hrel
        exact Bool.eq_false_of_not_eq_true hrel
    exact ⟨inst, hinst, hr.live k inst hinst hrel⟩

/-- What has not been given back is in the hands of one place. -/
theorem Inv.owed (h : Inv w) (hk : w.acquired[k]? = some n) (hopen : w.given k = 0) :
    ∃ place, w.has place k n ∧ w.reached place ∧ n ∉ w.pool ∧
      ∀ place' h', w.hand place' = some h' → h'.resource = n → place' = place := by
  obtain ⟨hlt, _⟩ := List.getElem?_eq_some_iff.mp hk
  obtain ⟨place, hand, hhand, haccount⟩ := h.balanced.owed k hlt hopen
  have htaken := (h.balanced.account place hand k hhand haccount).1
  have hres : hand.resource = n := Option.some.inj (htaken.symm.trans hk)
  refine ⟨place, ⟨hand.user, ?_⟩, h.reaches.reached hhand, ?_, fun place' h' hh' hsame => ?_⟩
  · have hhand : w.hand place = some hand := hhand
    rw [hhand, ← hres, ← haccount]
  · rw [← hres]
    exact h.balanced.not_pooled hhand
  · exact h.balanced.sole_hand hh' hhand (hsame.trans hres.symm)

/-- What has been given back is nobody's debt. -/
theorem Inv.closed (h : Inv w) (hgiven : w.given k ≠ 0) (place : Place) : ¬ w.has place k n := by
  rintro ⟨vmm, hhand⟩
  exact hgiven (h.balanced.account place _ k hhand rfl).2

end World

/-- **Networks are given back once.** -/
theorem networks_given_back_once {w : World}
    (hw : machine.ReachesWhile (fun w a => w.orderly a = true) w) :
    (∀ k n, w.acquired[k]? = some n →
      (w.given k = 1 ∧ ∀ place, ¬ w.has place k n) ∨
      (w.given k = 0 ∧ ∃ place, w.has place k n ∧ w.reached place ∧ n ∉ w.pool ∧
        ∀ place' h', w.hand place' = some h' → h'.resource = n → place' = place)) ∧
    (∀ n ∈ w.pool, ∀ vmm, w.running vmm ≠ some n) ∧
    w.inUse = (Nat.count (fun k => w.given k = 0) w.acquired.length : Nat) := by
  have h : w.Inv := by
    refine hw.invariant (I := World.Inv) ?_ fun _ _ _ hi hok hs => hi.step hok hs
    rintro _ ⟨cfg, populated, _, rfl⟩
    exact World.init_inv cfg populated
  refine ⟨fun k n hk => ?_, h.balanced.unused, h.balanced.inUse⟩
  have honce : w.given k ≤ 1 := h.balanced.once k
  rcases Nat.le_one_iff_eq_zero_or_eq_one.mp honce with hzero | hone
  · exact .inr ⟨hzero, h.owed hk hzero⟩
  · exact .inl ⟨hone, h.closed (by omega)⟩

/-- A pool of one, three starts: a failed restore whose process is reaped, a machine that is
stopped in the background, and one that runs. -/
theorem networks_given_back_once_mixed :
    ∃ w, machine.ReachesWhile (fun w a => w.orderly a = true) w ∧
      w.acquired = [0, 1, 2] ∧ w.given 0 = 1 ∧ w.given 1 = 1 ∧ w.given 2 = 0 ∧ w.pool = [0] ∧
      w.inUse = 1 ∧ (∀ vmm, w.running vmm ≠ some 0) ∧
      w.inUse = (Nat.count (fun k => w.given k = 0) w.acquired.length : Nat) := by
  obtain ⟨w, hw, hacquired, hfirst, hsecond, hthird, hpool, hinUse⟩ := machine.exists_while_of_run
    (P := fun w a => w.orderly a = true)
    (Q := fun w => w.acquired = [0, 1, 2] ∧ w.given 0 = 1 ∧ w.given 1 = 1 ∧ w.given 2 = 0 ∧
      w.pool = [0] ∧ w.inUse = 1) (.init ⟨true, 1, true, true⟩ 1)
    ([.start 7, .step 0 .ok, .step 0 .ok, .step 0 .ok, .step 0 .found, .step 0 .ok, .step 0 .error,
      .step 0 .timeout, .step 0 .ok, .start 8] ++ List.replicate 9 (.step 2 .ok) ++
      [.stop 8, .step 3 .ok, .step 3 .ok, .exit 1, .step 4 .ok, .step 4 .ok, .step 4 .ok,
        .step 4 .error, .step 4 .ok, .start 9] ++ List.replicate 8 (.step 5 .ok) ++
      [.exit 0, .step 1 .ok, .step 1 .ok, .step 1 .ok])
    ⟨⟨true, 1, true, true⟩, 1, by decide, rfl⟩ (by decide +kernel)
  obtain ⟨_, hquiet, hcount⟩ := networks_given_back_once hw
  exact ⟨w, hw, hacquired, hfirst, hsecond, hthird, hpool, hinUse, hquiet 0 (by simp [hpool]), hcount⟩

/-- The process of a failed start runs on after the wait, and its network is in the pool. -/
theorem network_pooled_in_use :
    ∃ w, machine.Reachable w ∧ w.pool = [0] ∧ w.running 0 = some 0 := by
  exact machine.exists_of_run (.init ⟨true, 1, false, false⟩ 1)
    [.start 7, .step 0 .ok, .step 0 .ok, .step 0 .ok, .step 0 .ok, .step 0 .spawned,
      .step 0 .timeout, .step 0 .ok, .step 0 .ok, .step 0 .ok]
    ⟨⟨true, 1, false, false⟩, 1, by decide, rfl⟩ (by decide +kernel)

end HyperFaaS.Worker.Networks
