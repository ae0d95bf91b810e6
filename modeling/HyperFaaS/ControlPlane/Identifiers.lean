import HyperFaaS.ControlPlane.Histories

/-!
The ids of users and functions over whole histories, at both backends. Proved here:

* `automatic_ids_fresh`: a creation without an id gets one that no user, or no function,
  has had, if explicit ids stay below the counter, a restart of the control plane finds
  the newest user and function, and the counter is not exhausted;
* `function_ids_unique`: a function id belongs to one user, if ids are never explicit.

Each condition is needed. The counter is moved by automatic ids only, so it can run into
an explicit one (`explicit_id_taken`), and it is rebuilt from the keys, so it can go back
behind a deleted one. A function is looked up under its user, so two users can hold the
same id (`shared_function_id`), while the leaf knows functions by their id alone.
-/

namespace HyperFaaS.ControlPlane

open Function Tables Etcd Memory Memory.Store Etcd.Store

/-! ## Freshness -/

/-- The counters lie above every id that was ever carried. -/
structure Fresh (t : Tables) (users functions : List UInt64) : Prop where
  oneUser : 1 ≤ t.nextUserID
  oneFunction : 1 ≤ t.nextFunctionID
  user : ∀ id ∈ users, id < t.nextUserID
  function : ∀ id ∈ functions, id < t.nextFunctionID
  users : ∀ u, (t.users u).isSome = true → u ∈ users
  functions : ∀ u f, (t.functions u f).isSome = true → f ∈ functions

/-- The ids of creations: an explicit one is below the counter, and an automatic one is
not the last there is. -/
def Op.below (nextUserID nextFunctionID : UInt64) : Op → Bool
  | .createUser (some user) =>
      if user.userId = 0 then decide (nextUserID + 1 ≠ 0) else decide (user.userId < nextUserID)
  | .createFunction (some function) =>
      if function.functionId = 0 then decide (nextFunctionID + 1 ≠ 0)
      else decide (function.functionId < nextFunctionID)
  | _ => true

namespace Fresh

variable {t t' : Tables} {us fs : List UInt64}

theorem takeUserID (h : Fresh t us fs) {x : UserSpec}
    (hx : Op.below t.nextUserID t.nextFunctionID (.createUser (some x)) = true) :
    Fresh (t.takeUserID x) us fs ∧ t.userID x < (t.takeUserID x).nextUserID := by
  unfold Tables.takeUserID Tables.userID
  simp only [Op.below] at hx
  split at hx
  · rename_i hzero
    have hlt := lt_succ_of_ne (of_decide_eq_true hx)
    rw [if_pos hzero, if_pos hzero]
    refine ⟨{ h with
      oneUser := UInt64.le_trans h.oneUser (UInt64.le_of_lt hlt)
      user := fun id hid => UInt64.lt_trans (h.user id hid) hlt }, hlt⟩
  · rename_i hzero
    rw [if_neg hzero, if_neg hzero]
    exact ⟨h, of_decide_eq_true hx⟩

theorem takeFunctionID (h : Fresh t us fs) {x : FunctionSpec}
    (hx : Op.below t.nextUserID t.nextFunctionID (.createFunction (some x)) = true) :
    Fresh (t.takeFunctionID x) us fs ∧ t.functionID x < (t.takeFunctionID x).nextFunctionID := by
  unfold Tables.takeFunctionID Tables.functionID
  simp only [Op.below] at hx
  split at hx
  · rename_i hzero
    have hlt := lt_succ_of_ne (of_decide_eq_true hx)
    rw [if_pos hzero, if_pos hzero]
    refine ⟨{ h with
      oneFunction := UInt64.le_trans h.oneFunction (UInt64.le_of_lt hlt)
      function := fun id hid => UInt64.lt_trans (h.function id hid) hlt }, hlt⟩
  · rename_i hzero
    rw [if_neg hzero, if_neg hzero]
    exact ⟨h, of_decide_eq_true hx⟩

theorem setUser (h : Fresh t us fs) (x : UserSpec) (hx : x.userId < t.nextUserID) :
    Fresh (t.setUser x.userId (some x)) (x.userId :: us) fs :=
  { h with
    user := by
      intro id hid
      rcases List.mem_cons.mp hid with rfl | hid
      · exact hx
      · exact h.user id hid
    users := by
      intro u hu
      have hu : (update t.users x.userId (some x) u).isSome = true := hu
      rcases eq_or_ne u x.userId with rfl | hne
      · exact .head _
      · rw [update_of_ne hne] at hu
        exact .tail _ (h.users u hu) }

theorem setFunction (h : Fresh t us fs) (x : FunctionSpec)
    (hx : x.functionId < t.nextFunctionID) :
    Fresh (t.setFunction x.userId x.functionId (some x)) us (x.functionId :: fs) :=
  { h with
    function := by
      intro id hid
      rcases List.mem_cons.mp hid with rfl | hid
      · exact hx
      · exact h.function id hid
    functions := by
      intro u f hf
      rw [functions_setFunction] at hf
      split at hf
      · rename_i hsame
        rw [hsame.2]
        exact .head _
      · exact .tail _ (h.functions u f hf) }

theorem deleteUser (h : Fresh t us fs) (u : UInt64) :
    Fresh { t.setUser u none with functions := update t.functions u fun _ => none } us fs :=
  { h with
    users := fun v hv => h.users v (by
      have hv : (update t.users u none v).isSome = true := hv
      grind [update_apply])
    functions := fun v f hf => h.functions v f (by
      have hf : (update t.functions u (fun _ => none) v f).isSome = true := hf
      rw [functions_deleteUser] at hf
      grind) }

/-- What one call adds to the ids that were carried. -/
theorem step (h : Fresh t us fs) {op : Op}
    (hop : Op.below t.nextUserID t.nextFunctionID op = true) :
    Fresh (t.step op).2.1 (usersAfter us op (t.step op).1)
      (functionsAfter fs op (t.step op).1) := by
  have hm := t.step_moves op
  generalize t.step op = r at hm ⊢
  cases hm with
  | refused => cases op <;> exact h
  | read hu hf _ =>
    cases op with
    | createUser x => exact absurd rfl (hu x)
    | createFunction x => exact absurd rfl (hf x)
    | _ => exact h
  | userTaken => exact (h.takeUserID hop).1
  | @createUser x =>
    obtain ⟨hfresh, hlt⟩ := h.takeUserID hop
    exact hfresh.setUser { x with userId := t.userID x } hlt
  | @updateUser x hx =>
    refine { h with users := fun u hu => ?_ }
    have hu : (update t.users x.userId (some x) u).isSome = true := hu
    rw [update_apply] at hu
    exact h.users u (by grind)
  | deleteUser => exact h.deleteUser _
  | functionTaken => exact (h.takeFunctionID hop).1
  | @createFunction x =>
    obtain ⟨hfresh, hlt⟩ := h.takeFunctionID hop
    exact hfresh.setFunction { x with functionId := t.functionID x } hlt
  | updateFunction _ _ hx =>
    refine { h with functions := fun u f hf => h.functions u f ?_ }
    rw [functions_setFunction] at hf
    grind
  | deleteFunction _ =>
    refine { h with functions := fun u f hf => h.functions u f ?_ }
    rw [functions_setFunction] at hf
    grind
  | putPlatformConfig => exact { h with }

theorem createUser (h : Fresh t us fs) {x : UserSpec} (hzero : x.userId = 0) (hname : x.name ≠ "") :
    (t.createUser x).1 = .ok (.user { x with userId := t.nextUserID }) ∧
      t.nextUserID ≠ 0 ∧ t.nextUserID ∉ us := by
  have hnot : t.nextUserID ∉ us := fun hmem => absurd (h.user _ hmem) (UInt64.lt_irrefl _)
  have hid : t.userID x = t.nextUserID := if_pos hzero
  have hnone : ¬ (t.users t.nextUserID).isSome = true := fun hsome => hnot (h.users _ hsome)
  refine ⟨?_, fun hz => ?_, hnot⟩
  · unfold Tables.createUser
    rw [if_neg hname, hid, if_neg hnone]
  · exact absurd (hz ▸ h.oneUser) (by decide)

theorem createFunction (h : Fresh t us fs) {x : FunctionSpec} (hzero : x.functionId = 0)
    (hvalid : x.valid = true) (huser : (t.users x.userId).isSome = true) :
    (t.createFunction x).1 = .ok (.function { x with functionId := t.nextFunctionID }) ∧
      t.nextFunctionID ≠ 0 ∧ t.nextFunctionID ∉ fs := by
  have hnot : t.nextFunctionID ∉ fs := fun hmem =>
    absurd (h.function _ hmem) (UInt64.lt_irrefl _)
  have hid : t.functionID x = t.nextFunctionID := if_pos hzero
  have hnone : ¬ (t.functions x.userId t.nextFunctionID).isSome = true :=
    fun hsome => hnot (h.functions _ _ hsome)
  have huser : ¬ (t.users x.userId).isNone = true := by
    rw [Option.isNone_iff_eq_none]
    exact Option.isSome_iff_ne_none.mp huser
  refine ⟨?_, fun hz => ?_, hnot⟩
  · unfold Tables.createFunction
    rw [if_neg (by simp [hvalid]), if_neg huser, hid, if_neg hnone]
  · exact absurd (hz ▸ h.oneFunction) (by decide)

end Fresh

theorem fresh_empty : Fresh .empty [] [] where
  oneUser := by decide
  oneFunction := by decide
  user := nofun
  function := nofun
  users := nofun
  functions := nofun

/-! ## Ids of functions -/

/-- No two users hold functions of one id. -/
structure Owned (t : Tables) : Prop where
  one : 1 ≤ t.nextFunctionID
  below : ∀ u f, (t.functions u f).isSome = true → f < t.nextFunctionID
  unique : ∀ u u' f, (t.functions u f).isSome = true → (t.functions u' f).isSome = true → u = u'

/-- No function has an explicit id, and an automatic one is not the last there is. -/
def Op.automatic (nextFunctionID : UInt64) : Op → Bool
  | .createFunction (some function) =>
      decide (function.functionId = 0 ∧ nextFunctionID + 1 ≠ 0)
  | _ => true

namespace Owned

variable {t t' : Tables}

theorem of_functions (h : Owned t) (hn : t'.nextFunctionID = t.nextFunctionID)
    (hf : ∀ u f, (t'.functions u f).isSome = true → (t.functions u f).isSome = true) :
    Owned t' where
  one := by rw [hn]; exact h.one
  below := by rw [hn]; exact fun u f hu => h.below u f (hf u f hu)
  unique := fun u u' f hu hu' => h.unique u u' f (hf u f hu) (hf u' f hu')

theorem takeUserID (h : Owned t) (x : UserSpec) : Owned (t.takeUserID x) := by
  unfold Tables.takeUserID
  split
  · exact ⟨h.one, h.below, h.unique⟩
  · exact h

theorem takeFunctionID (h : Owned t) {x : FunctionSpec}
    (hx : Op.automatic t.nextFunctionID (.createFunction (some x)) = true) :
    Owned (t.takeFunctionID x) ∧ t.functionID x = t.nextFunctionID ∧
      t.nextFunctionID < (t.takeFunctionID x).nextFunctionID := by
  obtain ⟨hzero, hmore⟩ := of_decide_eq_true hx
  have hlt := lt_succ_of_ne hmore
  rw [Tables.takeFunctionID, Tables.functionID, if_pos hzero, if_pos hzero]
  exact ⟨⟨UInt64.le_trans h.one (UInt64.le_of_lt hlt),
    fun u f hf => UInt64.lt_trans (h.below u f hf) hlt, h.unique⟩, rfl, hlt⟩

theorem step (h : Owned t) {op : Op} (hop : Op.automatic t.nextFunctionID op = true) :
    Owned (t.step op).2.1 := by
  have hm := t.step_moves op
  generalize t.step op = r at hm ⊢
  cases hm with
  | refused | read _ _ _ => exact h
  | userTaken => exact h.takeUserID _
  | createUser => exact (h.takeUserID _).of_functions rfl fun _ _ hf => hf
  | functionTaken => exact (h.takeFunctionID hop).1
  | @createFunction x _ _ _ =>
    obtain ⟨htake, hid, hlt⟩ := h.takeFunctionID hop
    -- the counter has no owner yet
    have hfresh : ∀ u, ¬ ((t.takeFunctionID x).functions u t.nextFunctionID).isSome = true := by
      intro u hu
      rw [(t.takeFunctionID_tables x).1] at hu
      exact absurd (h.below u _ hu) (UInt64.lt_irrefl _)
    rw [hid]
    refine ⟨htake.one, fun u f hf => ?_, fun u u' f hf hf' => ?_⟩
    · rw [functions_setFunction] at hf
      split at hf
      · rename_i hsame
        rw [hsame.2]
        exact hlt
      · exact htake.below u f hf
    · rw [functions_setFunction] at hf hf'
      grind [htake.unique u u' f]
  | deleteUser =>
    refine h.of_functions rfl fun u f hf => ?_
    have hf : (update t.functions _ (fun _ => none) u f).isSome = true := hf
    rw [functions_deleteUser] at hf
    grind
  | updateFunction _ _ hx =>
    refine h.of_functions rfl fun u f hf => ?_
    rw [functions_setFunction] at hf
    grind
  | deleteFunction _ =>
    refine h.of_functions rfl fun u f hf => ?_
    rw [functions_setFunction] at hf
    grind
  | updateUser _ | putPlatformConfig => exact h.of_functions rfl fun _ _ hf => hf

end Owned

theorem owned_empty : Owned .empty where
  one := by decide
  below := nofun
  unique := nofun

/-! ## Automatic ids -/

/-- The newest user and the newest function are stored. -/
def Etcd.Store.newest (s : Store) : Prop :=
  (s.nextUserID = 1 ∨ (s.etcd.get (userKey s.root (s.nextUserID - 1))).isSome = true) ∧
    (s.nextFunctionID = 1 ∨
      ∃ u, (s.etcd.get (functionKey s.root u (s.nextFunctionID - 1))).isSome = true)

def belowMemory (h : History Memory.Store) : Event → Prop
  | .call op => op.below h.store.nextUserID h.store.nextFunctionID = true
  | .restart => True

instance (h : History Memory.Store) : ∀ a, Decidable (belowMemory h a)
  | .call _ => inferInstanceAs (Decidable (_ = true))
  | .restart => .isTrue trivial

def belowEtcd (h : History Etcd.Store) : Event → Prop
  | .call op => op.below h.store.nextUserID h.store.nextFunctionID = true
  | .restart => h.store.newest

/-- A rebuilt counter that lies above the newest id is the counter. -/
theorem eq_of_pred_lt {next rebuilt : UInt64} (hone : 1 ≤ rebuilt) (hle : rebuilt ≤ next)
    (h : next = 1 ∨ next - 1 < rebuilt) : rebuilt = next := by
  refine UInt64.le_antisymm hle ?_
  rcases h with rfl | h
  · exact hone
  · have hnext := UInt64.le_trans hone hle
    rw [UInt64.le_iff_toNat_le] at hnext ⊢
    rw [UInt64.lt_iff_toNat_lt, UInt64.toNat_sub_of_le _ _ (UInt64.le_trans hone hle)] at h
    simp only [UInt64.reduceToNat] at hnext h
    omega

variable {t : Tables}

theorem Fresh.restart {ρ : Nat → Nat} {s : Etcd.Store} {us fs : List UInt64} (h : Fresh t us fs)
    (hm : Etcd.Models ρ t s) (hnew : s.newest) :
    s.restart.nextUserID = t.nextUserID ∧ s.restart.nextFunctionID = t.nextFunctionID := by
  obtain ⟨hone, hle, hall⟩ := hm.restart_users h.oneUser fun u hu => h.user u (h.users u hu)
  obtain ⟨hone', hle', hall'⟩ := hm.restart_functions h.oneFunction
    fun u f hf => h.function f (h.functions u f hf)
  obtain ⟨huser, hfunction⟩ := hnew
  rw [hm.nextUserID] at huser
  rw [hm.nextFunctionID] at hfunction
  refine ⟨eq_of_pred_lt hone hle (huser.imp_right fun hsome => hall _ ?_),
    eq_of_pred_lt hone' hle' (hfunction.imp_right ?_)⟩
  · rw [← hm.users, hm.shaped.userAt_isSome]
    exact hsome
  · rintro ⟨u, hsome⟩
    refine hall' u _ ?_
    rw [← hm.functions, hm.shaped.functionAt_isSome]
    exact hsome

theorem rule_fresh : Rule Fresh fun m n op => op.below m n :=
  fun _ _ _ _ hi hop => hi.step hop

theorem memory_fresh {h : History Memory.Store}
    (hw : memoryMachine.ReachesWhile belowMemory h) : TracksMemory Fresh h := by
  refine hw.invariant ?_ ?_
  · rintro _ rfl
    exact ⟨_, ⟨keyed_empty, fresh_empty⟩, models_new⟩
  · intro h a h' ht hok hstep
    cases a with
    | call op =>
      cases hstep
      exact ht.call rule_fresh hok
    | restart => cases hstep

theorem etcd_fresh {h : History Etcd.Store}
    (hw : etcdMachine.ReachesWhile belowEtcd h) : TracksEtcd Fresh h := by
  refine hw.invariant ?_ ?_
  · rintro _ ⟨root, rfl⟩
    exact ⟨_, _, ⟨keyed_empty, fresh_empty⟩, models_empty root⟩
  · intro h a h' ht hok hstep
    cases a with
    | call op =>
      cases hstep
      exact ht.call rule_fresh hok fun _ _ _ _ => rfl
    | restart =>
      cases hstep
      obtain ⟨ρ, t, ⟨hk, hi⟩, hm⟩ := ht
      have hm' := hm.restart
      obtain ⟨hu, hf⟩ := hi.restart hm hok
      rw [hu, hf] at hm'
      exact ⟨ρ, t, ⟨hk, hi⟩, hm'⟩

/-- A creation without an id is not refused for its id, and the id is a new one. A
function's user may be missing. -/
def Allocates {S : Type} (step : S → Op → Result × S × List FunctionEvent) (h : History S) : Prop :=
  (∀ user : UserSpec, user.userId = 0 → user.name ≠ "" →
    ∃ id, (step h.store (.createUser (some user))).1 = .ok (.user { user with userId := id }) ∧
      id ≠ 0 ∧ id ∉ h.users) ∧
  ∀ function : FunctionSpec, function.functionId = 0 → function.valid = true →
    (∃ id, (step h.store (.createFunction (some function))).1 =
        .ok (.function { function with functionId := id }) ∧ id ≠ 0 ∧ id ∉ h.functions) ∨
      ∃ e e', (step h.store (.getUser function.userId)).1 = .error e ∧
        (step h.store (.createFunction (some function))).1 = .error e' ∧ e'.code = .notFound

/-- From the tables to a backend that shows them. -/
theorem Fresh.allocates {S : Type} {step : S → Op → Result × S × List FunctionEvent} {h : History S}
    (hf : Fresh t h.users h.functions)
    (hshow : ∀ op, ∃ ρ, (∀ cfg n, op ≠ .putPlatformConfig cfg n) →
      visible (step h.store op).1 = (t.step op).1.map (Reply.rename ρ)) : Allocates step h := by
  refine ⟨fun user hzero hname => ?_, fun fn hzero hvalid => ?_⟩
  · obtain ⟨hok, hne, hnot⟩ := hf.createUser hzero hname
    obtain ⟨ρ, hρ⟩ := hshow (.createUser (some user))
    have hvis := hρ nofun
    rw [show t.step (.createUser (some user)) = t.createUser user from rfl, hok] at hvis
    exact ⟨t.nextUserID, ok_of_visible rfl hvis, hne, hnot⟩
  · obtain ⟨ρ, hρ⟩ := hshow (.createFunction (some fn))
    have hvis := hρ nofun
    rw [show t.step (.createFunction (some fn)) = t.createFunction fn from rfl] at hvis
    cases huser : t.users fn.userId with
    | some x =>
      obtain ⟨hok, hne, hnot⟩ := hf.createFunction hzero hvalid (by simp [huser])
      rw [hok] at hvis
      exact .inl ⟨t.nextFunctionID, ok_of_visible rfl hvis, hne, hnot⟩
    | none =>
      have hmissing : (t.createFunction fn).1 = .error .notFound := by
        unfold Tables.createFunction
        rw [if_neg (by simp [hvalid]), if_pos (by simp [huser])]
        rfl
      rw [hmissing] at hvis
      obtain ⟨e', he', hcode⟩ := error_of_visible hvis
      obtain ⟨ρ', hρ'⟩ := hshow (.getUser fn.userId)
      have hget := hρ' nofun
      rw [show (t.step (.getUser fn.userId)).1 = .error .notFound by
        simp [Tables.step, huser, Tables.answer, Tables.fail]] at hget
      obtain ⟨e, he, -⟩ := error_of_visible hget
      exact .inr ⟨e, e', he, he', hcode⟩

/-- **Automatic ids.** -/
theorem automatic_ids_fresh (m : History Memory.Store) (e : History Etcd.Store) :
    (memoryMachine.ReachesWhile belowMemory m → Allocates Memory.Store.step m) ∧
      (etcdMachine.ReachesWhile belowEtcd e → Allocates Etcd.Store.step e) := by
  constructor
  · intro hw
    obtain ⟨t, ⟨hk, hf⟩, hm⟩ := memory_fresh hw
    exact hf.allocates fun op => ⟨id, fun _ => (hm.step hk op).1.result⟩
  · intro hw
    obtain ⟨ρ, t, ⟨hk, hf⟩, hm⟩ := etcd_fresh hw
    refine hf.allocates fun op => ?_
    obtain ⟨ρ', op', hsame, hshow, -⟩ := hm.step_any hk op
    refine ⟨ρ', fun hne => ?_⟩
    rcases hsame with rfl | ⟨cfg, n, m, rfl, -⟩
    · exact hshow.result
    · exact absurd rfl (hne cfg m)

/-- A user and a function with automatic ids, an explicit id below the counter that was
free, and a restart. -/
theorem automatic_ids_fresh_restarted :
    (∃ h, memoryMachine.ReachesWhile belowMemory h ∧ h.users = [1, 2, 1] ∧
        Allocates Memory.Store.step h) ∧
      ∃ h, etcdMachine.ReachesWhile belowEtcd h ∧ h.users = [1, 2, 1] ∧
        Allocates Etcd.Store.step h := by
  constructor
  · obtain ⟨h, hw, hu⟩ := memoryMachine.exists_while_of_run (P := belowMemory)
      (Q := fun h => h.users = [1, 2, 1]) (.begin .new)
      [.call (.createUser (some ⟨0, "a"⟩)), .call (.createUser (some ⟨0, "b"⟩)),
        .call (.deleteUser 1), .call (.createUser (some ⟨1, "c"⟩))] rfl (by decide +kernel)
    exact ⟨h, hw, hu, (automatic_ids_fresh h (.begin (.empty []))).1 hw⟩
  · obtain ⟨h, hw, hu⟩ := etcdMachine.exists_while_of_runTest (P := belowEtcd)
      (Q := fun h => h.users = [1, 2, 1])
      (k := fun h a => match a with
        | .call op => op.below h.store.nextUserID h.store.nextFunctionID
        | .restart => (h.store.etcd.get
            (Etcd.userKey h.store.root (h.store.nextUserID - 1))).isSome &&
            decide (h.store.nextFunctionID = 1))
      (by rintro h (op | _) hk
          · exact hk
          · rw [Bool.and_eq_true] at hk
            exact ⟨.inr hk.1, .inl (of_decide_eq_true hk.2)⟩)
      (.begin (.empty []))
      [.call (.createUser (some ⟨0, "a"⟩)), .call (.createUser (some ⟨0, "b"⟩)), .restart,
        .call (.deleteUser 1), .call (.createUser (some ⟨1, "c"⟩))] ⟨[], rfl⟩ (by decide +kernel)
    exact ⟨h, hw, hu, (automatic_ids_fresh (.begin .new) h).2 hw⟩

/-- In memory, an explicit id meets the counter; in etcd, the id of a deleted user is
given again after a restart. -/
theorem explicit_id_taken :
    (∃ h, memoryMachine.Reachable h ∧ ∃ e,
        (h.store.step (.createUser (some ⟨0, "b"⟩))).1 = .error e ∧ e.code = .alreadyExists) ∧
      ∃ h, etcdMachine.Reachable h ∧
        (h.store.step (.createUser (some ⟨0, "b"⟩))).1 = .ok (.user ⟨1, "b"⟩) ∧
          1 ∈ h.users := by
  constructor
  · obtain ⟨h, hw, ht⟩ := memoryMachine.exists_of_run
      (Q := fun h => visible (h.store.step (.createUser (some ⟨0, "b"⟩))).1 = .error .alreadyExists)
      (.begin .new) [.call (.createUser (some ⟨1, "a"⟩))] rfl (by decide +kernel)
    have hvis : visible (h.store.step (.createUser (some ⟨0, "b"⟩))).1 =
        (Except.error .alreadyExists).map (Reply.rename id) := ht
    exact ⟨h, hw, error_of_visible hvis⟩
  · exact etcdMachine.exists_of_run (.begin (.empty []))
      [.call (.createUser (some ⟨0, "a"⟩)), .call (.deleteUser 1), .restart]
      ⟨[], rfl⟩ (by decide +kernel)

/-! ## One owner -/

def automaticMemory (h : History Memory.Store) : Event → Prop
  | .call op => op.automatic h.store.nextFunctionID = true
  | .restart => True

def automaticEtcd (h : History Etcd.Store) : Event → Prop
  | .call op => op.automatic h.store.nextFunctionID = true
  | .restart => True

instance (h : History Memory.Store) : ∀ a, Decidable (automaticMemory h a)
  | .call _ => inferInstanceAs (Decidable (_ = true))
  | .restart => .isTrue trivial

instance (h : History Etcd.Store) : ∀ a, Decidable (automaticEtcd h a)
  | .call _ => inferInstanceAs (Decidable (_ = true))
  | .restart => .isTrue trivial

theorem Owned.restart {ρ : Nat → Nat} {s : Etcd.Store} (h : Owned t) (hm : Etcd.Models ρ t s) :
    Owned { t with
      nextUserID := s.restart.nextUserID
      nextFunctionID := s.restart.nextFunctionID } := by
  obtain ⟨hone, -, hall⟩ := hm.restart_functions h.one h.below
  exact ⟨hone, hall, h.unique⟩

theorem rule_owned : Rule (fun t _ _ => Owned t) fun _ n op => op.automatic n :=
  fun _ _ _ _ hi hop => hi.step hop

theorem memory_owned {h : History Memory.Store}
    (hw : memoryMachine.ReachesWhile automaticMemory h) :
    TracksMemory (fun t _ _ => Owned t) h := by
  refine hw.invariant ?_ ?_
  · rintro _ rfl
    exact ⟨_, ⟨keyed_empty, owned_empty⟩, models_new⟩
  · intro h a h' ht hok hstep
    cases a with
    | call op =>
      cases hstep
      exact ht.call rule_owned hok
    | restart => cases hstep

theorem etcd_owned {h : History Etcd.Store}
    (hw : etcdMachine.ReachesWhile automaticEtcd h) : TracksEtcd (fun t _ _ => Owned t) h := by
  refine hw.invariant ?_ ?_
  · rintro _ ⟨root, rfl⟩
    exact ⟨_, _, ⟨keyed_empty, owned_empty⟩, models_empty root⟩
  · intro h a h' ht hok hstep
    cases a with
    | call op =>
      cases hstep
      exact ht.call rule_owned hok fun _ _ _ _ => rfl
    | restart =>
      cases hstep
      obtain ⟨ρ, t, ⟨hk, hi⟩, hm⟩ := ht
      exact ⟨ρ, { t with
        nextUserID := h.store.restart.nextUserID
        nextFunctionID := h.store.restart.nextFunctionID },
        ⟨⟨hk.user, hk.function, hk.document⟩, hi.restart hm⟩, hm.restart⟩

/-- A function id stands for one function: whoever knows the id alone knows the function. -/
def Identifies {S : Type} (step : S → Op → Result × S × List FunctionEvent) (s : S) : Prop :=
  ∀ u u' f x x', (step s (.getFunction u f)).1 = .ok (.function x) →
    (step s (.getFunction u' f)).1 = .ok (.function x') → u = u' ∧ x = x'

theorem Owned.identifies {S : Type} {step : S → Op → Result × S × List FunctionEvent} {s : S}
    (ht : Owned t)
    (hget : ∀ u f x, (step s (.getFunction u f)).1 = .ok (.function x) → t.functions u f = some x) :
    Identifies step s := by
  intro u u' f x x' hx hx'
  have hx := hget u f x hx
  have hx' := hget u' f x' hx'
  have hu : u = u' := ht.unique u u' f (by simp [hx]) (by simp [hx'])
  subst hu
  exact ⟨rfl, Option.some.inj (hx.symm.trans hx')⟩

/-- **Function ids.** -/
theorem function_ids_unique (m : History Memory.Store) (e : History Etcd.Store) :
    (memoryMachine.ReachesWhile automaticMemory m → Identifies Memory.Store.step m.store) ∧
      (etcdMachine.ReachesWhile automaticEtcd e → Identifies Etcd.Store.step e.store) := by
  constructor
  · intro hw
    obtain ⟨t, ⟨-, ht⟩, hm⟩ := memory_owned hw
    refine ht.identifies fun u f x hx => ?_
    rw [← hm.functions]
    simp only [Memory.Store.step, Memory.Store.getFunction] at hx
    split at hx
    · cases hx
    · rename_i hlook
      cases hx
      exact hlook
  · intro hw
    obtain ⟨ρ, t, ⟨-, ht⟩, hm⟩ := etcd_owned hw
    refine ht.identifies fun u f x hx => ?_
    rw [← hm.functions]
    simp only [Etcd.Store.step, Etcd.Store.getFunction] at hx
    split at hx
    · cases hx
    rename_i kv hkv
    obtain ⟨fn, hvalue, -, -, hat⟩ := hm.shaped.function hkv
    simp only [hvalue, decodeFunction] at hx
    cases hx
    exact hat

/-- Two users with a function each, and a restart between them. -/
theorem function_ids_unique_two :
    (∃ h, memoryMachine.ReachesWhile automaticMemory h ∧ h.functions = [2, 1] ∧
        Identifies Memory.Store.step h.store) ∧
      ∃ h, etcdMachine.ReachesWhile automaticEtcd h ∧ h.functions = [2, 1] ∧
        Identifies Etcd.Store.step h.store := by
  constructor
  · obtain ⟨h, hw, hf⟩ := memoryMachine.exists_while_of_run (P := automaticMemory)
      (Q := fun h => h.functions = [2, 1]) (.begin .new)
      [.call (.createUser (some ⟨0, "a"⟩)), .call (.createUser (some ⟨0, "b"⟩)),
        .call (.createFunction (some ⟨1, 0, some someRuntime, ""⟩)),
        .call (.createFunction (some ⟨2, 0, some someRuntime, ""⟩))] rfl (by decide +kernel)
    exact ⟨h, hw, hf, (function_ids_unique h (.begin (.empty []))).1 hw⟩
  · obtain ⟨h, hw, hf⟩ := etcdMachine.exists_while_of_run (P := automaticEtcd)
      (Q := fun h => h.functions = [2, 1]) (.begin (.empty []))
      [.call (.createUser (some ⟨0, "a"⟩)), .call (.createUser (some ⟨0, "b"⟩)),
        .call (.createFunction (some ⟨1, 0, some someRuntime, ""⟩)), .restart,
        .call (.createFunction (some ⟨2, 0, some someRuntime, ""⟩))] ⟨[], rfl⟩ (by decide +kernel)
    exact ⟨h, hw, hf, (function_ids_unique (.begin .new) h).2 hw⟩

/-- Two users create a function under one explicit id. -/
def twoOwners : List Event :=
  [.call (.createUser (some ⟨1, "a"⟩)), .call (.createUser (some ⟨2, "b"⟩)),
    .call (.createFunction (some ⟨1, 5, some someRuntime, ""⟩)),
    .call (.createFunction (some ⟨2, 5, some someRuntime, ""⟩))]

/-- Two users each name their function 5. -/
theorem shared_function_id :
    (∃ h, memoryMachine.Reachable h ∧ ¬ Identifies Memory.Store.step h.store) ∧
      ∃ h, etcdMachine.Reachable h ∧ ¬ Identifies Etcd.Store.step h.store := by
  constructor
  · obtain ⟨h, hw, hx, hx'⟩ := memoryMachine.exists_of_run
      (Q := fun h =>
        (h.store.step (.getFunction 1 5)).1 = .ok (.function ⟨1, 5, some someRuntime, ""⟩) ∧
          (h.store.step (.getFunction 2 5)).1 = .ok (.function ⟨2, 5, some someRuntime, ""⟩))
      (.begin .new) twoOwners rfl (by decide +kernel)
    exact ⟨h, hw, fun hone => absurd (hone 1 2 5 _ _ hx hx').1 (by decide)⟩
  · obtain ⟨h, hw, hx, hx'⟩ := etcdMachine.exists_of_run
      (Q := fun h =>
        (h.store.step (.getFunction 1 5)).1 = .ok (.function ⟨1, 5, some someRuntime, ""⟩) ∧
          (h.store.step (.getFunction 2 5)).1 = .ok (.function ⟨2, 5, some someRuntime, ""⟩))
      (.begin (.empty [])) twoOwners ⟨[], rfl⟩ (by decide +kernel)
    exact ⟨h, hw, fun hone => absurd (hone 1 2 5 _ _ hx hx').1 (by decide)⟩

end HyperFaaS.ControlPlane
