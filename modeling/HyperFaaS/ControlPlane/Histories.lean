import HyperFaaS.ControlPlane.MemoryTables
import HyperFaaS.ControlPlane.EtcdTables
import HyperFaaS.Lib.Machine

/-!
Histories of calls on one store, at both backends, with the ids that users and functions
have carried, and with restarts of the control plane over the keys in etcd.

A rule of the tables for one call holds along the histories of both backends
(`TracksMemory.call`, `TracksEtcd.call`).
-/

namespace HyperFaaS.ControlPlane

/-! ## Counters -/

variable {n m : UInt64}

theorem lt_succ_of_ne (h : n + 1 ≠ 0) : n < n + 1 := by
  have hne : (n + 1).toNat ≠ 0 := fun hz => h (UInt64.toNat_inj.mp hz)
  have hlt := n.toNat_lt
  rw [UInt64.lt_iff_toNat_lt, UInt64.toNat_add] at *
  simp only [UInt64.reduceToNat] at *
  omega

theorem succ_le_of_lt (h : m < n) : m + 1 ≤ n := by
  have hlt := n.toNat_lt
  rw [UInt64.lt_iff_toNat_lt] at h
  rw [UInt64.le_iff_toNat_le, UInt64.toNat_add]
  simp only [UInt64.reduceToNat]
  omega

theorem lt_succ_of_lt (h : m < n) : m < m + 1 := by
  refine lt_succ_of_ne fun hz => ?_
  have hlt := n.toNat_lt
  have hz : (m + 1).toNat = 0 := by rw [hz]; rfl
  rw [UInt64.lt_iff_toNat_lt] at h
  rw [UInt64.toNat_add] at hz
  simp only [UInt64.reduceToNat] at hz
  omega

/-- A rebuilt counter lies above every id, and no higher than it has to. -/
theorem advanceCounter_bounds {bound next : UInt64} {l : List (Option UInt64)}
    (hnext : next ≤ bound) (hl : ∀ id, some id ∈ l → id < bound) :
    next ≤ Etcd.advanceCounter next l ∧ Etcd.advanceCounter next l ≤ bound ∧
      ∀ id, some id ∈ l → id < Etcd.advanceCounter next l := by
  induction l generalizing next with
  | nil => exact ⟨UInt64.le_refl _, hnext, nofun⟩
  | cons x l ih =>
    have hrest : ∀ id, some id ∈ l → id < bound := fun id h => hl id (.tail _ h)
    cases x with
    | none =>
      obtain ⟨hge, hle, hall⟩ := ih hnext hrest
      refine ⟨hge, hle, fun id h => ?_⟩
      rcases List.mem_cons.mp h with h | h
      · cases h
      · exact hall id h
    | some x =>
      have hx : x < bound := hl x (.head _)
      have hstep : next ≤ (if next ≤ x then x + 1 else next) ∧
          (if next ≤ x then x + 1 else next) ≤ bound ∧
          x < (if next ≤ x then x + 1 else next) := by
        split
        · rename_i hle
          exact ⟨UInt64.le_trans hle (UInt64.le_of_lt (lt_succ_of_lt hx)), succ_le_of_lt hx,
            lt_succ_of_lt hx⟩
        · rename_i hle
          exact ⟨UInt64.le_refl _, hnext, UInt64.not_le.mp hle⟩
      obtain ⟨hge, hle, hall⟩ := ih hstep.2.1 hrest
      refine ⟨UInt64.le_trans hstep.1 hge, hle, fun id h => ?_⟩
      rcases List.mem_cons.mp h with h | h
      · cases h
        exact UInt64.lt_of_lt_of_le hstep.2.2 hge
      · exact hall id h

namespace Etcd.Models

variable {ρ : Nat → Nat} {t : Tables} {s : Store}

/-- After a restart the keys are the same; the counters are those of `New`. -/
theorem restart (h : Models ρ t s) :
    Models ρ { t with
      nextUserID := s.restart.nextUserID
      nextFunctionID := s.restart.nextFunctionID } s.restart :=
  { h with
    nextUserID := rfl
    nextFunctionID := rfl }

theorem restart_users (h : Models ρ t s) {bound : UInt64} (hone : 1 ≤ bound)
    (hbound : ∀ u, (t.users u).isSome = true → u < bound) :
    1 ≤ s.restart.nextUserID ∧ s.restart.nextUserID ≤ bound ∧
      ∀ u, (t.users u).isSome = true → u < s.restart.nextUserID := by
  have hmem : ∀ u, some u ∈ (s.etcd.getPrefixed (usersPrefix s.root)).map
      (fun x => parseTrailingID x.1) ↔ (t.users u).isSome = true := by
    intro u
    rw [List.mem_map]
    constructor
    · rintro ⟨⟨key, kv⟩, hmem, hid⟩
      obtain ⟨user, rfl, -, hat⟩ := h.shaped.mem_users hmem
      rw [parseTrailingID_userKey] at hid
      rw [← Option.some.inj hid, ← h.users, hat]
      rfl
    · intro hsome
      obtain ⟨x, hx⟩ := Option.isSome_iff_exists.mp hsome
      obtain ⟨kv, hkv, -⟩ := h.shaped.get_of_userAt ((h.users u).trans hx)
      exact ⟨(userKey s.root u, kv), mem_range.mpr ⟨hkv, usersPrefix_userKey⟩,
        parseTrailingID_userKey⟩
  obtain ⟨hge, hle, hall⟩ := advanceCounter_bounds hone fun u hu => hbound u ((hmem u).mp hu)
  exact ⟨hge, hle, fun u hu => hall u ((hmem u).mpr hu)⟩

theorem restart_functions (h : Models ρ t s) {bound : UInt64} (hone : 1 ≤ bound)
    (hbound : ∀ u f, (t.functions u f).isSome = true → f < bound) :
    1 ≤ s.restart.nextFunctionID ∧ s.restart.nextFunctionID ≤ bound ∧
      ∀ u f, (t.functions u f).isSome = true → f < s.restart.nextFunctionID := by
  have hmem : ∀ f, some f ∈ (s.etcd.getPrefixed (functionsPrefix s.root)).map
      (fun x => (parseFunctionKey x.1 s.root).map Prod.snd) ↔
        ∃ u, (t.functions u f).isSome = true := by
    intro f
    rw [List.mem_map]
    constructor
    · rintro ⟨⟨key, kv⟩, hmem, hid⟩
      obtain ⟨hget, hp⟩ := mem_range.mp hmem
      have hentry := h.shaped.entry key kv hget
      generalize hvalue : kv.value = value at hentry
      cases hentry with
      | user user => simp [functionsPrefix_userKey] at hp
      | config cfg => simp [functionsPrefix_config] at hp
      | function fn =>
        simp only [parseFunctionKey_functionKey, Option.map_some, Option.some.injEq] at hid
        refine ⟨fn.userId, ?_⟩
        rw [← hid, ← h.functions, h.shaped.functionAt_isSome, hget]
        rfl
    · rintro ⟨u, hsome⟩
      obtain ⟨x, hx⟩ := Option.isSome_iff_exists.mp hsome
      obtain ⟨kv, hkv, -⟩ := h.shaped.get_of_functionAt ((h.functions u f).trans hx)
      refine ⟨(functionKey s.root u f, kv), mem_range.mpr ⟨hkv, functionsPrefix_functionKey⟩, ?_⟩
      simp [parseFunctionKey_functionKey]
  obtain ⟨hge, hle, hall⟩ := advanceCounter_bounds hone fun f hf => by
    obtain ⟨u, hu⟩ := (hmem f).mp hf
    exact hbound u f hu
  exact ⟨hge, hle, fun u f hu => hall f ((hmem f).mpr ⟨u, hu⟩)⟩

/-- A call with any expected version does what some call does to the tables. -/
theorem step_any (h : Models ρ t s) (hk : t.Keyed) (op : Op) :
    ∃ ρ' op', (op' = op ∨ ∃ cfg n m, op = .putPlatformConfig cfg m ∧
      op' = .putPlatformConfig cfg n) ∧ Follows ρ' op' (t.step op') (s.step op) := by
  cases op with
  | putPlatformConfig cfg m =>
    cases cfg with
    | none => exact ⟨ρ, _, .inl rfl, h.fail rfl⟩
    | some cfg =>
      by_cases hm : m = 0 ∨ ρ t.writes = m
      · -- as with no expected version
        obtain ⟨ρ', -, hfollows⟩ := h.step hk (.putPlatformConfig (some cfg) 0)
        refine ⟨ρ', .putPlatformConfig (some cfg) 0, .inr ⟨_, 0, m, rfl, rfl⟩, ?_⟩
        have hsame : s.step (Op.rename ρ (.putPlatformConfig (some cfg) 0)) =
            s.step (.putPlatformConfig (some cfg) m) := by
          show s.putPlatformConfig (some cfg) (ρ 0) = s.putPlatformConfig (some cfg) m
          rw [h.putPlatformConfig_eq hk, h.putPlatformConfig_eq hk, if_pos (.inl h.zero),
            if_pos hm]
        rw [← hsame]
        exact hfollows
      · -- as with a version that is still to come
        refine ⟨ρ, .putPlatformConfig (some cfg) (t.writes + 1),
          .inr ⟨_, t.writes + 1, m, rfl, rfl⟩, ?_⟩
        have hrefused : t.step (.putPlatformConfig (some cfg) (t.writes + 1)) =
            t.fail .aborted := by
          show t.putPlatformConfig cfg (t.writes + 1) = _
          simp [Tables.putPlatformConfig]
        have hrefused' : s.step (.putPlatformConfig (some cfg) m) = s.fail ⟨.aborted,
            "platform config version changed: expected " ++ toString m⟩ := by
          show s.putPlatformConfig (some cfg) m = _
          rw [h.putPlatformConfig_eq hk, if_neg hm]
        rw [hrefused, hrefused']
        exact h.fail rfl
  | _ =>
    obtain ⟨ρ', -, hfollows⟩ := h.step hk _
    exact ⟨ρ', _, .inl rfl, hfollows⟩

end Etcd.Models

/-! ## Histories -/

inductive Fault
  | disabled
  deriving DecidableEq, Repr

inductive Event
  | call (op : Op)
  | restart

/-- The ids carried after a call with the given result. -/
def usersAfter (us : List UInt64) (op : Op) (r : Except Code Reply) : List UInt64 :=
  match op, r with
  | .createUser _, .ok (.user user) => user.userId :: us
  | _, _ => us

def functionsAfter (fs : List UInt64) (op : Op) (r : Except Code Reply) : List UInt64 :=
  match op, r with
  | .createFunction _, .ok (.function function) => function.functionId :: fs
  | _, _ => fs

/-- A store with the ids that users and functions have carried. -/
structure History (S : Type) where
  store : S
  users : List UInt64
  functions : List UInt64

namespace History

variable {S : Type}

def begin (s : S) : History S := ⟨s, [], []⟩

def record (h : History S) (op : Op) (r : Result × S × List FunctionEvent) : History S where
  store := r.2.1
  users := usersAfter h.users op (visible r.1)
  functions := functionsAfter h.functions op (visible r.1)

/-- The store in memory is lost when its process ends. -/
def stepMemory (h : History Memory.Store) : Event → Except Fault (History Memory.Store)
  | .call op => .ok (h.record op (h.store.step op))
  | .restart => .error .disabled

def stepEtcd (h : History Etcd.Store) : Event → Except Fault (History Etcd.Store)
  | .call op => .ok (h.record op (h.store.step op))
  | .restart => .ok { h with store := h.store.restart }

end History

def memoryMachine : Lib.Machine (History Memory.Store) Event Fault where
  start := fun h => h = .begin .new
  step := History.stepMemory

def etcdMachine : Lib.Machine (History Etcd.Store) Event Fault where
  start := fun h => ∃ root, h = .begin (.empty root)
  step := History.stepEtcd

def someRuntime : RuntimeSpec := ⟨"image", "http", ""⟩

/-! ## Runs -/

/-- What a history of either backend keeps, given a rule of the tables for one call. -/
structure Kept (I : Tables → List UInt64 → List UInt64 → Prop) (t : Tables) (us fs : List UInt64) :
    Prop where
  keyed : t.Keyed
  holds : I t us fs

def TracksMemory (I : Tables → List UInt64 → List UInt64 → Prop) (h : History Memory.Store) : Prop :=
  ∃ t, Kept I t h.users h.functions ∧ Memory.Models t h.store

def TracksEtcd (I : Tables → List UInt64 → List UInt64 → Prop) (h : History Etcd.Store) : Prop :=
  ∃ ρ t, Kept I t h.users h.functions ∧ Etcd.Models ρ t h.store

/-- A call keeps `I` if the two counters allow it. -/
def Rule (I : Tables → List UInt64 → List UInt64 → Prop) (ok : UInt64 → UInt64 → Op → Bool) : Prop :=
  ∀ t us fs op, I t us fs → ok t.nextUserID t.nextFunctionID op = true →
    I (t.step op).2.1 (usersAfter us op (t.step op).1) (functionsAfter fs op (t.step op).1)

theorem usersAfter_rename (us : List UInt64) (op : Op) (a : Except Code Reply) (ρ : Nat → Nat) :
    usersAfter us op (a.map (Reply.rename ρ)) = usersAfter us op a := by
  cases a with
  | error c => rfl
  | ok r => cases r <;> cases op <;> rfl

theorem functionsAfter_rename (fs : List UInt64) (op : Op) (a : Except Code Reply) (ρ : Nat → Nat) :
    functionsAfter fs op (a.map (Reply.rename ρ)) = functionsAfter fs op a := by
  cases a with
  | error c => rfl
  | ok r => cases r <;> cases op <;> rfl

section Runs

variable {I : Tables → List UInt64 → List UInt64 → Prop} {ok : UInt64 → UInt64 → Op → Bool}

theorem TracksMemory.call {h : History Memory.Store} (hI : Rule I ok) (ht : TracksMemory I h)
    {op : Op} (hop : ok h.store.nextUserID h.store.nextFunctionID op = true) :
    TracksMemory I (h.record op (h.store.step op)) := by
  obtain ⟨t, ⟨hk, hi⟩, hm⟩ := ht
  obtain ⟨hshow, hm'⟩ := hm.step hk op
  rw [hm.nextUserID, hm.nextFunctionID] at hop
  refine ⟨_, ⟨hk.step op, ?_⟩, hm'⟩
  show I _ (usersAfter h.users op (visible _)) (functionsAfter h.functions op (visible _))
  rw [hshow.result, usersAfter_rename, functionsAfter_rename]
  exact hI t h.users h.functions op hi hop

theorem TracksEtcd.call {h : History Etcd.Store} (hI : Rule I ok) (ht : TracksEtcd I h)
    {op : Op} (hop : ok h.store.nextUserID h.store.nextFunctionID op = true)
    (hconfig : ∀ m n cfg n', ok m n (.putPlatformConfig cfg n') = true) :
    TracksEtcd I (h.record op (h.store.step op)) := by
  obtain ⟨ρ, t, ⟨hk, hi⟩, hm⟩ := ht
  obtain ⟨ρ', op', hsame, hshow, hm'⟩ := hm.step_any hk op
  rw [hm.nextUserID, hm.nextFunctionID] at hop
  have hop' : ok t.nextUserID t.nextFunctionID op' = true := by
    rcases hsame with rfl | ⟨cfg, n, m, -, rfl⟩
    · exact hop
    · exact hconfig _ _ cfg n
  have hafter : ∀ us a, usersAfter us op a = usersAfter us op' a := by
    rcases hsame with rfl | ⟨cfg, n, m, rfl, rfl⟩ <;> exact fun _ _ => rfl
  have hafter' : ∀ fs a, functionsAfter fs op a = functionsAfter fs op' a := by
    rcases hsame with rfl | ⟨cfg, n, m, rfl, rfl⟩ <;> exact fun _ _ => rfl
  refine ⟨ρ', _, ⟨hk.step op', ?_⟩, hm'⟩
  show I _ (usersAfter h.users op (visible _)) (functionsAfter h.functions op (visible _))
  rw [hafter, hafter', hshow.result, usersAfter_rename, functionsAfter_rename]
  exact hI t h.users h.functions op' hi hop'

end Runs

end HyperFaaS.ControlPlane
