import HyperFaaS.ControlPlane.EtcdStore
import HyperFaaS.Lib.Machine

/-!
Concurrent calls on the store in etcd, by any number of control planes. A call is a
thread with a place in its code; a step is one etcd operation or one section under a
control plane's lock, so the runs are all interleavings of these.

Proved here (`referential_integrity`): every stored function has a stored user, if no
`CreateFunction` overlaps with a `DeleteUser` of its user. The check of the user and the
write of the function are two operations, and so are the listing of the functions and
their deletion; `orphaned_function` is a run where the user goes in between.
-/

namespace HyperFaaS.ControlPlane.Etcd

open Function Store

inductive Fault
  | disabled
  deriving DecidableEq, Repr

/-- Where a call stands: the operation it makes next. -/
inductive PC
  | idle
  | allocateUser (user : UserSpec)
  | createUser (user : UserSpec)
  | updateUser (user : UserSpec)
  | listFunctions (userID : UInt64)
  | deleteUser (userID : UInt64) (functions : List (Key × KeyValue))
  | getUser (function : FunctionSpec)
  | allocateFunction (function : FunctionSpec)
  | createFunction (function : FunctionSpec)
  | updateFunction (function : FunctionSpec)
  | deleteFunction (userID functionID : UInt64)
  | writeConfig (cfg : PlatformConfig) (expectedVersion : Nat)
  | readVersion (cfg : PlatformConfig)
  | done (result : Result)
  deriving DecidableEq

/-- `next` has the two counters of each control plane. `written` is history: the
document that each revision of the config key stored, and the call that wrote it. -/
structure World where
  root : Key
  etcd : KV
  next : Nat → UInt64 × UInt64
  ncalls : Nat
  plane : Nat → Nat
  pc : Nat → PC
  written : Nat → Option (PlatformConfig × Nat)

inductive Action
  | enter (plane : Nat) (op : Op)
  | step (i : Nat)
  | restart (plane : Nat)

/-- The checks at the head of a call. Reads are no part of the model. -/
def entry : Op → Option PC
  | .createUser none => some (.done (.error (invalid "user.name is required")))
  | .createUser (some user) =>
      if user.name = "" then some (.done (.error (invalid "user.name is required")))
      else some (.allocateUser user)
  | .updateUser none =>
      some (.done (.error (invalid "user.user_id and user.name are required")))
  | .updateUser (some user) =>
      if user.userId = 0 ∨ user.name = "" then
        some (.done (.error (invalid "user.user_id and user.name are required")))
      else some (.updateUser user)
  | .deleteUser userID =>
      if userID = 0 then some (.done (.error (invalid "user_id is required")))
      else some (.listFunctions userID)
  | .createFunction function =>
      match validateFunction function with
      | .error e => some (.done (.error e))
      | .ok function => some (.getUser function)
  | .updateFunction function =>
      match validateFunction function with
      | .error e => some (.done (.error e))
      | .ok function =>
          if function.functionId = 0 then
            some (.done (.error (invalid "function.function_id is required")))
          else some (.updateFunction function)
  | .deleteFunction userID functionID =>
      if userID = 0 ∨ functionID = 0 then
        some (.done (.error (invalid "user_id and function_id are required")))
      else some (.deleteFunction userID functionID)
  | .putPlatformConfig none _ => some (.done (.error (invalid "platform config is required")))
  | .putPlatformConfig (some cfg) expectedVersion => some (.writeConfig cfg expectedVersion)
  | .getUser _ | .listUsers | .getFunction _ _ | .listFunctions _ | .getPlatformConfig => none

/-- The places a call can begin at. -/
def PC.first : PC → Bool
  | .allocateUser _ | .updateUser _ | .listFunctions _ | .getUser _ | .updateFunction _
  | .deleteFunction _ _ | .writeConfig _ _ | .done (.error _) => true
  | _ => false

theorem entry_first {op : Op} {x : PC} (h : entry op = some x) : x.first = true := by
  unfold entry at h
  split at h <;> (repeat' split at h) <;> cases h <;> rfl

namespace World

/-- The store that call `i` is made on. -/
def store (w : World) (i : Nat) : Store :=
  ⟨w.root, w.etcd, (w.next (w.plane i)).1, (w.next (w.plane i)).2⟩

def go (w : World) (i : Nat) (x : PC) : World := { w with pc := update w.pc i x }

def setStore (w : World) (i : Nat) (s : Store) : World :=
  { w with
    etcd := s.etcd
    next := update w.next (w.plane i) (s.nextUserID, s.nextFunctionID) }

/-- The last operation of a call. -/
def finish (w : World) (i : Nat) (r : Result × Store × List FunctionEvent) : World :=
  (w.setStore i r.2.1).go i (.done r.1)

def advance (w : World) (i : Nat) : Except Fault World :=
  let s := w.store i
  match w.pc i with
  | .allocateUser user =>
      let (user, s) := s.allocateUser user
      .ok ((w.setStore i s).go i (.createUser user))
  | .createUser user =>
      .ok (w.finish i (s.putIfAbsent (userKey s.root user.userId) (.user user) (.user user)))
  | .updateUser user =>
      .ok (w.finish i (s.putIfExists (userKey s.root user.userId) (.user user) .done))
  | .listFunctions userID =>
      .ok (w.go i (.deleteUser userID (s.etcd.getPrefixed (functionPrefix s.root userID))))
  | .deleteUser userID functions =>
      .ok (w.finish i (s.txn (decide (s.etcd.createRevision (userKey s.root userID) > 0))
        (deletions s.root userID functions) .done (userNotFound userID)))
  | .getUser function =>
      match s.readUser function.userId with
      | .error e => .ok (w.go i (.done (.error e)))
      | .ok _ => .ok (w.go i (.allocateFunction function))
  | .allocateFunction function =>
      let (function, s) := s.allocateFunction function
      .ok ((w.setStore i s).go i (.createFunction function))
  | .createFunction function =>
      .ok (w.finish i (s.putIfAbsent (functionKey s.root function.userId function.functionId)
        (.function function) (.function function)))
  | .updateFunction function =>
      .ok (w.finish i (s.putIfExists (functionKey s.root function.userId function.functionId)
        (.function function) .done))
  | .deleteFunction userID functionID =>
      .ok (w.finish i (s.txn
        (decide (s.etcd.createRevision (functionKey s.root userID functionID) > 0))
        [.delete (functionKey s.root userID functionID)] .done
        (functionNotFound userID functionID)))
  | .writeConfig cfg expectedVersion =>
      match s.writeConfig cfg expectedVersion with
      | .error e => .ok (w.go i (.done (.error e)))
      | .ok s =>
          .ok ({ w.setStore i s with
            written := update w.written s.etcd.revision (some (cfg, i)) }.go i
              (.readVersion cfg))
  | .readVersion cfg =>
      match s.readVersion cfg with
      | .error e => .ok (w.go i (.done (.error e)))
      | .ok stored => .ok (w.go i (.done (.ok (.config stored))))
  | .idle | .done _ => .error .disabled

def enter (w : World) (plane : Nat) (op : Op) : Except Fault World :=
  match entry op with
  | none => .error .disabled
  | some x =>
      .ok { w with
        ncalls := w.ncalls + 1
        plane := update w.plane w.ncalls plane
        pc := update w.pc w.ncalls x }

/-- A control plane is started again over the keys that are there. -/
def restart (w : World) (plane : Nat) : World :=
  let s := new w.root w.etcd
  { w with next := update w.next plane (s.nextUserID, s.nextFunctionID) }

def step (w : World) : Action → Except Fault World
  | .enter plane op => w.enter plane op
  | .step i => w.advance i
  | .restart plane => .ok (w.restart plane)

def init (root : Key) : World where
  root := root
  etcd := ⟨1, ∅⟩
  next := fun _ => (1, 1)
  ncalls := 0
  plane := fun _ => 0
  pc := fun _ => .idle
  written := fun _ => none

end World

def machine : Lib.Machine World Action Fault where
  start := fun w => ∃ root, w = World.init root
  step := World.step

/-! ## Steps -/

namespace World

variable {w w' : World} {i : Nat}

/-- What a step of call `i` does to the keys: nothing, or one transaction that the
place of the call says. -/
inductive Writes (w : World) (i : Nat) : List Write → Prop
  | putUser (user : UserSpec) : w.pc i = .createUser user ∨ w.pc i = .updateUser user →
      Writes w i [.put (userKey w.root user.userId) (.user user)]
  | deleteUser (userID : UInt64) (functions : List (Key × KeyValue)) :
      w.pc i = .deleteUser userID functions → Writes w i (deletions w.root userID functions)
  | createFunction (fn : FunctionSpec) : w.pc i = .createFunction fn →
      Writes w i [.put (functionKey w.root fn.userId fn.functionId) (.function fn)]
  | updateFunction (fn : FunctionSpec) : w.pc i = .updateFunction fn →
      (w.etcd.get (functionKey w.root fn.userId fn.functionId)).isSome = true →
      Writes w i [.put (functionKey w.root fn.userId fn.functionId) (.function fn)]
  | deleteFunction (userID functionID : UInt64) : w.pc i = .deleteFunction userID functionID →
      Writes w i [.delete (functionKey w.root userID functionID)]
  | config (cfg : PlatformConfig) (expectedVersion : Nat) :
      w.pc i = .writeConfig cfg expectedVersion →
      Writes w i [.put (platformConfigKey w.root) (.config cfg)]

/-- How a call moves on, apart from its end. -/
inductive Moves (w : World) (i : Nat) : PC → Prop
  | allocatedUser (user : UserSpec) : Moves w i (.createUser user)
  | listed (userID : UInt64) : w.pc i = .listFunctions userID → Moves w i
      (.deleteUser userID (w.etcd.getPrefixed (functionPrefix w.root userID)))
  | found (fn : FunctionSpec) : w.pc i = .getUser fn →
      (w.etcd.get (userKey w.root fn.userId)).isSome = true → Moves w i (.allocateFunction fn)
  | allocated (fn fn' : FunctionSpec) : w.pc i = .allocateFunction fn → fn'.userId = fn.userId →
      Moves w i (.createFunction fn')
  | written (cfg : PlatformConfig) (expectedVersion : Nat) :
      w.pc i = .writeConfig cfg expectedVersion → Moves w i (.readVersion cfg)
  | read (cfg : PlatformConfig) (kv : KeyValue) : w.pc i = .readVersion cfg →
      w.etcd.get (platformConfigKey w.root) = some kv →
      Moves w i (.done (.ok (.config { cfg with version := kv.modRevision })))
  | done (result : Result) : (∀ cfg, result ≠ .ok (.config cfg)) → Moves w i (.done result)

/-- A `PutPlatformConfig` has written. -/
structure Wrote (w : World) (i : Nat) (cfg : PlatformConfig) (expectedVersion : Nat)
    (w' : World) : Prop where
  place : w.pc i = .writeConfig cfg expectedVersion
  expected : expectedVersion = 0 ∨
    w.etcd.modRevision (platformConfigKey w.root) = expectedVersion
  etcd : w'.etcd = (w.etcd.commit [.put (platformConfigKey w.root) (.config cfg)]).1
  written : w'.written = update w.written w'.etcd.revision (some (cfg, i))

/-- A step of call `i`. -/
structure Steps (w : World) (i : Nat) (w' : World) : Prop where
  running : w.pc i ≠ .idle
  root : w'.root = w.root
  ncalls : w'.ncalls = w.ncalls
  other : ∀ j, j ≠ i → w'.pc j = w.pc j
  moves : Moves w i (w'.pc i)
  keys : w'.etcd = w.etcd ∨ ∃ xs, Writes w i xs ∧ w'.etcd = (w.etcd.commit xs).1
  config : w'.written = w.written ∧ (∀ cfg, w'.pc i ≠ .readVersion cfg) ∧
      w'.etcd.get (platformConfigKey w.root) = w.etcd.get (platformConfigKey w.root) ∨
    ∃ cfg expectedVersion, w'.pc i = .readVersion cfg ∧ Wrote w i cfg expectedVersion w'

theorem Steps.reads (h : Steps w i w')
    (hpc : (∃ u, w.pc i = .listFunctions u) ∨ ∃ fn, w.pc i = .getUser fn) : w'.etcd = w.etcd := by
  rcases h.keys with he | ⟨xs, hx, -⟩
  · exact he
  · rcases hpc with ⟨u, hpc⟩ | ⟨fn, hpc⟩ <;> cases hx <;> simp_all

theorem go_steps {x : PC} (hrun : w.pc i ≠ .idle) (hx : Moves w i x)
    (hplace : ∀ cfg, x ≠ .readVersion cfg) (s : Store)
    (hs : s.etcd = w.etcd ∨ ∃ xs, Writes w i xs ∧ s.etcd = (w.etcd.commit xs).1)
    (hconfig : s.etcd.get (platformConfigKey w.root) = w.etcd.get (platformConfigKey w.root)) :
    Steps w i ((w.setStore i s).go i x) where
  running := hrun
  root := rfl
  ncalls := rfl
  other := fun j hj => update_of_ne hj _ _
  moves := by
    show Moves w i (update w.pc i x i)
    rw [update_self]
    exact hx
  keys := hs
  config := by
    refine .inl ⟨rfl, fun cfg => ?_, hconfig⟩
    show update w.pc i x i ≠ _
    rw [update_self]
    exact hplace cfg

theorem idle_steps {x : PC} (hrun : w.pc i ≠ .idle) (hx : Moves w i x)
    (hplace : ∀ cfg, x ≠ .readVersion cfg) : Steps w i (w.go i x) := by
  have h := go_steps hrun hx hplace (w.store i) (.inl rfl) rfl
  have hsame : w.setStore i (w.store i) = w := by
    have hnext : update w.next (w.plane i)
        ((w.store i).nextUserID, (w.store i).nextFunctionID) = w.next := Function.update_eq_self _ _
    unfold setStore
    rw [hnext]
    rfl
  rw [hsame] at h
  exact h

variable {xs : List Write} {plane : Nat} {op : Op}

theorem txn_steps (hrun : w.pc i ≠ .idle) {condition : Bool} {reply : Reply} {e : Status}
    (hreply : ∀ cfg, reply ≠ .config cfg) (hxs : condition = true → Writes w i xs)
    (hconfig : (w.etcd.commit xs).1.get (platformConfigKey w.root) =
      w.etcd.get (platformConfigKey w.root)) :
    Steps w i (w.finish i ((w.store i).txn condition xs reply e)) := by
  unfold txn
  split
  · rename_i hc
    refine go_steps hrun (.done (.ok reply) fun cfg he => ?_) nofun
      { w.store i with etcd := (w.etcd.commit xs).1 } (.inr ⟨xs, hxs hc, rfl⟩) hconfig
    exact hreply cfg (Except.ok.inj he)
  · exact go_steps hrun (.done (.error e) nofun) nofun
      (w.store i) (.inl rfl) rfl

theorem get_config_put {e : KV} {root key : Key} {value : Value}
    (hkey : platformConfigKey root ≠ key) :
    (e.commit [.put key value]).1.get (platformConfigKey root) =
      e.get (platformConfigKey root) := by
  rw [KV.get_put, if_neg hkey]

theorem advance_steps (hshaped : Shaped w.root w.etcd)
    (hrange : ∀ u functions, w.pc i = .deleteUser u functions →
      platformConfigKey w.root ∉ functions.map Prod.fst)
    (h : w.advance i = .ok w') : Steps w i w' := by
  unfold advance at h
  cases hpc : w.pc i with
  | idle => simp [hpc] at h
  | done result => simp [hpc] at h
  | allocateUser user =>
    simp only [hpc] at h
    cases h
    have hetcd : ((w.store i).allocateUser user).2.etcd = w.etcd := by
      unfold allocateUser
      split <;> rfl
    exact go_steps (by simp [hpc]) (.allocatedUser _) nofun _ (.inl hetcd)
      (by rw [hetcd])
  | createUser user =>
    simp only [hpc] at h
    cases h
    exact txn_steps (by simp [hpc]) nofun (fun _ => .putUser user (.inl hpc))
      (get_config_put (Ne.symm userKey_ne_config))
  | updateUser user =>
    simp only [hpc] at h
    cases h
    exact txn_steps (by simp [hpc]) nofun (fun _ => .putUser user (.inr hpc))
      (get_config_put (Ne.symm userKey_ne_config))
  | listFunctions userID =>
    simp only [hpc] at h
    cases h
    exact idle_steps (by simp [hpc]) (.listed userID hpc) nofun
  | deleteUser userID functions =>
    simp only [hpc] at h
    cases h
    refine txn_steps (by simp [hpc]) nofun
      (fun _ => .deleteUser userID functions hpc) ?_
    have hget := KV.get_deletes w.etcd (userKey w.root userID :: functions.map Prod.fst)
      (platformConfigKey w.root)
    simp only [List.map_cons, List.map_map] at hget
    refine hget.trans (if_neg fun hmem => ?_)
    rcases List.mem_cons.mp hmem with hk | hk
    · exact userKey_ne_config hk.symm
    · exact hrange userID functions hpc hk
  | getUser fn =>
    simp only [hpc] at h
    split at h
    · cases h
      exact idle_steps (by simp [hpc]) (.done _ nofun) nofun
    · rename_i user hread
      cases h
      refine idle_steps (by simp [hpc]) (.found fn hpc ?_) nofun
      unfold readUser at hread
      split at hread
      · cases hread
      · rename_i kv hkv
        have hkv : w.etcd.get (userKey w.root fn.userId) = some kv := hkv
        simp [hkv]
  | allocateFunction fn =>
    simp only [hpc] at h
    cases h
    have hetcd : ((w.store i).allocateFunction fn).2.etcd = w.etcd := by
      unfold allocateFunction
      split <;> rfl
    refine go_steps (by simp [hpc]) (.allocated fn _ hpc ?_) nofun _
      (.inl hetcd) (by rw [hetcd])
    unfold allocateFunction
    split <;> rfl
  | createFunction fn =>
    simp only [hpc] at h
    cases h
    exact txn_steps (by simp [hpc]) nofun (fun _ => .createFunction fn hpc)
      (get_config_put (Ne.symm functionKey_ne_config))
  | updateFunction fn =>
    simp only [hpc] at h
    cases h
    refine txn_steps (by simp [hpc]) nofun
      (fun hc => .updateFunction fn hpc ?_) (get_config_put (Ne.symm functionKey_ne_config))
    exact (hshaped.createRevision_pos _).mp (of_decide_eq_true hc)
  | deleteFunction userID functionID =>
    simp only [hpc] at h
    cases h
    refine txn_steps (by simp [hpc]) nofun
      (fun _ => .deleteFunction userID functionID hpc) ?_
    have hget := KV.get_deletes w.etcd [functionKey w.root userID functionID]
      (platformConfigKey w.root)
    refine hget.trans (if_neg fun hmem => ?_)
    exact functionKey_ne_config (List.mem_singleton.mp hmem).symm
  | writeConfig cfg expectedVersion =>
    simp only [hpc] at h
    split at h
    · cases h
      exact idle_steps (by simp [hpc]) (.done _ nofun) nofun
    · rename_i s hs
      cases h
      unfold writeConfig at hs
      split at hs
      · rename_i hexpected
        cases hs
        have hself : update w.pc i (.readVersion cfg) i = .readVersion cfg :=
          update_self _ _ _
        constructor
        case running => simp [hpc]
        case root => rfl
        case ncalls => rfl
        case other => exact fun j hj => update_of_ne hj _ _
        case moves =>
          show Moves w i (update w.pc i (.readVersion cfg) i)
          rw [hself]
          exact .written cfg expectedVersion hpc
        case keys => exact .inr ⟨_, .config cfg expectedVersion hpc, rfl⟩
        case config =>
          exact .inr ⟨cfg, expectedVersion, hself, hpc, hexpected, rfl, rfl⟩
      · cases hs
  | readVersion cfg =>
    simp only [hpc] at h
    split at h
    · cases h
      exact idle_steps (by simp [hpc]) (.done _ nofun) nofun
    · rename_i stored hread
      cases h
      unfold readVersion at hread
      split at hread
      · cases hread
      · rename_i kv hkv
        cases hread
        exact idle_steps (by simp [hpc]) (.read cfg kv hpc hkv) nofun

/-! ## The keys in every run -/

theorem Writes.shaped (hx : Writes w i xs) (h : Shaped w.root w.etcd) :
    Shaped w.root (w.etcd.commit xs).1 := by
  cases hx with
  | putUser user _ => exact h.put (.user user)
  | deleteUser userID functions _ =>
    have hdelete := h.delete (userKey w.root userID :: functions.map Prod.fst)
    simp only [List.map_cons, List.map_map] at hdelete
    exact hdelete
  | createFunction fn _ => exact h.put (.function fn)
  | updateFunction fn _ _ => exact h.put (.function fn)
  | deleteFunction userID functionID _ => exact h.delete [functionKey w.root userID functionID]
  | config cfg _ _ => exact h.put (.config cfg)

/-- What holds in every run: the shape of the keys, and that a `DeleteUser` has listed
function keys of its user. -/
structure Formed (w : World) : Prop where
  shaped : Shaped w.root w.etcd
  fresh : ∀ j, w.ncalls ≤ j → w.pc j = .idle
  range : ∀ j u functions, w.pc j = .deleteUser u functions → ∀ key ∈ functions.map Prod.fst,
    (functionPrefix w.root u).isPrefixOf key = true

theorem mem_getPrefixed {e : KV} {p key : Key} (h : key ∈ (e.getPrefixed p).map Prod.fst) :
    p.isPrefixOf key = true := by
  obtain ⟨x, hx, rfl⟩ := List.mem_map.mp h
  obtain ⟨y, hy, rfl⟩ := List.mem_map.mp hx
  exact (List.mem_filter.mp hy).2

theorem Formed.steps (h : Formed w) (hs : w.advance i = .ok w') : Steps w i w' := by
  refine advance_steps h.shaped (fun u functions hpc hmem => ?_) hs
  have hp := h.range i u functions hpc _ hmem
  rw [functionPrefix_config] at hp
  cases hp

theorem Formed.advance (h : Formed w) (hs : Steps w i w') : Formed w' where
  shaped := by
    rw [hs.root]
    rcases hs.keys with he | ⟨xs, hx, he⟩
    · exact he ▸ h.shaped
    · exact he ▸ hx.shaped h.shaped
  fresh := by
    intro j hj
    have hlt : i < w.ncalls := by
      by_contra hge
      exact hs.running (h.fresh i (by omega))
    rw [hs.ncalls] at hj
    rw [hs.other j (by omega)]
    exact h.fresh j hj
  range := by
    intro j u functions hj
    rw [hs.root]
    by_cases hji : j = i
    · subst hji
      have hmoves := hs.moves
      rw [hj] at hmoves
      cases hmoves with
      | listed _ _ => exact fun key hkey => mem_getPrefixed hkey
    · rw [hs.other j hji] at hj
      exact h.range j u functions hj

theorem enter_ok (hs : w.enter plane op = .ok w') : ∃ x, x.first = true ∧ w' = { w with
      ncalls := w.ncalls + 1
      plane := update w.plane w.ncalls plane
      pc := update w.pc w.ncalls x } := by
  unfold enter at hs
  split at hs
  · cases hs
  · rename_i x hx
    exact ⟨x, entry_first hx, (Except.ok.inj hs).symm⟩

theorem update_cases (pc : Nat → PC) (n j : Nat) (x : PC) :
    update pc n x j = pc j ∨ update pc n x j = x := by
  by_cases hj : j = n
  · exact .inr (by rw [hj, update_self])
  · exact .inl (update_of_ne hj _ _)

theorem Formed.enter (h : Formed w) (hs : w.enter plane op = .ok w') : Formed w' := by
  obtain ⟨x, hx, rfl⟩ := enter_ok hs
  constructor
  case shaped => exact h.shaped
  case fresh =>
    intro j hj
    have hj : w.ncalls + 1 ≤ j := hj
    exact (update_of_ne (by omega) _ _).trans (h.fresh j (by omega))
  case range =>
    intro j u functions hj
    rcases update_cases w.pc w.ncalls j x with he | he
    · exact h.range j u functions (he.symm.trans hj)
    · rw [he.symm.trans hj] at hx
      cases hx

theorem Formed.step (h : Formed w) {a : Action} (hs : w.step a = .ok w') : Formed w' := by
  cases a with
  | enter plane op => exact h.enter hs
  | step i => exact h.advance (h.steps hs)
  | restart plane =>
    cases hs
    exact ⟨h.shaped, h.fresh, h.range⟩

theorem init_formed (root : Key) : Formed (init root) :=
  ⟨shaped_empty root, fun _ _ => rfl, nofun⟩

/-! ## Every function has its user -/

/-- A `CreateFunction` of user `u` that has found the user. -/
def adds (u : UInt64) : PC → Bool
  | .allocateFunction fn | .createFunction fn => fn.userId == u
  | _ => false

/-- A `DeleteUser` of `u` that has listed the functions. -/
def removes (u : UInt64) : PC → Bool
  | .deleteUser userID _ => userID == u
  | _ => false

/-- No user is deleted while a function is being created for it, and no function is
created while its user is being deleted. -/
def apart (w : World) : Action → Bool
  | .step i =>
      match w.pc i with
      | .deleteUser userID _ => (List.range w.ncalls).all fun j => !adds userID (w.pc j)
      | .createFunction fn => (List.range w.ncalls).all fun j => !removes fn.userId (w.pc j)
      | _ => true
  | _ => true

structure Refers (w : World) : Prop extends Formed w where
  owner : ∀ u f, (w.etcd.get (functionKey w.root u f)).isSome = true →
    (w.etcd.get (userKey w.root u)).isSome = true
  checked : ∀ j u, adds u (w.pc j) = true → (w.etcd.get (userKey w.root u)).isSome = true
  listed : ∀ j u functions, w.pc j = .deleteUser u functions → ∀ f,
    (w.etcd.get (functionKey w.root u f)).isSome = true →
    functionKey w.root u f ∈ functions.map Prod.fst

theorem Formed.quiet (h : Formed w) {q : PC → Bool} (hq : q .idle = false)
    (hall : ((List.range w.ncalls).all fun j => !q (w.pc j)) = true) (j : Nat) :
    q (w.pc j) = false := by
  by_cases hj : j < w.ncalls
  · simpa using List.all_eq_true.mp hall j (List.mem_range.mpr hj)
  · rw [h.fresh j (by omega)]
    exact hq

theorem mem_listing {e : KV} {root key : Key} {u : UInt64} (hget : (e.get key).isSome = true)
    (hp : (functionPrefix root u).isPrefixOf key = true) :
    key ∈ (e.getPrefixed (functionPrefix root u)).map Prod.fst := by
  obtain ⟨kv, hkv⟩ := Option.isSome_iff_exists.mp hget
  have hmem : (⟨key, kv⟩ : Sigma fun _ : Key => KeyValue) ∈ e.kvs.entries :=
    AList.mem_lookup_iff.mp hkv
  refine List.mem_map.mpr ⟨(key, kv), List.mem_map.mpr ⟨⟨key, kv⟩, ?_, rfl⟩, rfl⟩
  exact List.mem_filter.mpr ⟨hmem, hp⟩

/-- What a transaction of a call means for the keys of users and functions. -/
structure Keeps (w : World) (e : KV) : Prop where
  owner : ∀ u f, (e.get (functionKey w.root u f)).isSome = true →
    (e.get (userKey w.root u)).isSome = true
  user : ∀ j u, adds u (w.pc j) = true → (e.get (userKey w.root u)).isSome = true
  function : ∀ j u functions, w.pc j = .deleteUser u functions → ∀ f,
    (e.get (functionKey w.root u f)).isSome = true →
    functionKey w.root u f ∈ functions.map Prod.fst

/-- A transaction that deletes no user and adds no function. -/
theorem Refers.keeps_of (h : Refers w) {e : KV}
    (huser : ∀ u, (w.etcd.get (userKey w.root u)).isSome = true →
      (e.get (userKey w.root u)).isSome = true)
    (hfunction : ∀ u f, (e.get (functionKey w.root u f)).isSome = true →
      (w.etcd.get (functionKey w.root u f)).isSome = true) : Keeps w e where
  owner := fun u f hf => huser u (h.owner u f (hfunction u f hf))
  user := fun j u hj => huser u (h.checked j u hj)
  function := fun j u functions hj f hf => h.listed j u functions hj f (hfunction u f hf)

theorem Refers.keeps (h : Refers w) (hx : Writes w i xs) (hok : w.apart (.step i) = true) :
    Keeps w (w.etcd.commit xs).1 := by
  cases hx with
  | putUser user _ =>
    refine h.keeps_of (fun u hu => ?_) fun u f hf => ?_
    · rw [KV.get_put]
      split
      · rfl
      · exact hu
    · rwa [KV.get_put, if_neg (Ne.symm userKey_ne_functionKey)] at hf
  | config cfg expectedVersion _ =>
    refine h.keeps_of (fun u hu => ?_) fun u f hf => ?_
    · rwa [KV.get_put, if_neg userKey_ne_config]
    · rwa [KV.get_put, if_neg functionKey_ne_config] at hf
  | deleteFunction userID functionID _ =>
    have hget := KV.get_deletes w.etcd [functionKey w.root userID functionID]
    simp only [List.map_cons, List.map_nil, List.mem_singleton] at hget
    refine h.keeps_of (fun u hu => ?_) fun u f hf => ?_
    · rwa [hget, if_neg userKey_ne_functionKey]
    · rw [hget] at hf
      split at hf
      · cases hf
      · exact hf
  | updateFunction fn _ hsome =>
    have hkey : ∀ k, ((w.etcd.commit [.put (functionKey w.root fn.userId fn.functionId)
        (.function fn)]).1.get k).isSome = (w.etcd.get k).isSome := by
      intro k
      rw [KV.get_put]
      split
      · rename_i hk
        rw [hk, hsome]
        rfl
      · rfl
    exact h.keeps_of (fun u hu => (hkey _).trans hu) fun u f hf => (hkey _).symm.trans hf
  | createFunction fn hpc =>
    -- its user was found, and nobody is deleting it
    have huser : ∀ u, (w.etcd.commit [.put (functionKey w.root fn.userId fn.functionId)
        (.function fn)]).1.get (userKey w.root u) = w.etcd.get (userKey w.root u) := by
      intro u
      rw [KV.get_put, if_neg userKey_ne_functionKey]
    simp only [apart, hpc] at hok
    have hnone := h.toFormed.quiet rfl hok
    refine ⟨fun u f hf => ?_, fun j u hj => ?_,
      fun j u functions hj f hf => ?_⟩
    · rw [huser]
      rw [KV.get_put] at hf
      split at hf
      · rename_i hk
        obtain ⟨rfl, -⟩ := functionKey_inj.mp hk
        exact h.checked i fn.userId (by simp [adds, hpc])
      · exact h.owner u f hf
    · rw [huser]
      exact h.checked j u hj
    · rw [KV.get_put] at hf
      split at hf
      · rename_i hk
        obtain ⟨rfl, -⟩ := functionKey_inj.mp hk
        have hremoves := hnone j
        simp [removes, hj] at hremoves
      · exact h.listed j u functions hj f hf
  | deleteUser userID functions hpc =>
    -- all functions of the user are in the list, and none is being created
    have hget := KV.get_deletes w.etcd (userKey w.root userID :: functions.map Prod.fst)
    simp only [List.map_cons, List.map_map] at hget
    have hcommit : ∀ k, (w.etcd.commit (deletions w.root userID functions)).1.get k =
        if k ∈ userKey w.root userID :: functions.map Prod.fst then none else w.etcd.get k :=
      fun k => hget k
    simp only [apart, hpc] at hok
    have hnone := h.toFormed.quiet rfl hok
    have hlisted := h.listed i userID functions hpc
    have hrange := h.range i userID functions hpc
    have huser : ∀ u, u ≠ userID →
        (w.etcd.commit (deletions w.root userID functions)).1.get (userKey w.root u) =
          w.etcd.get (userKey w.root u) := by
      intro u hu
      rw [hcommit, if_neg]
      intro hmem
      rcases List.mem_cons.mp hmem with hk | hk
      · exact hu (userKey_inj.mp hk)
      · have hp := hrange _ hk
        rw [functionPrefix_userKey] at hp
        cases hp
    have hfunction : ∀ u f, ((w.etcd.commit (deletions w.root userID functions)).1.get
        (functionKey w.root u f)).isSome = true →
        (w.etcd.get (functionKey w.root u f)).isSome = true ∧ u ≠ userID := by
      intro u f hf
      rw [hcommit] at hf
      split at hf
      · cases hf
      · rename_i hout
        refine ⟨hf, ?_⟩
        rintro rfl
        exact hout (List.mem_cons_of_mem _ (hlisted f hf))
    refine ⟨fun u f hf => ?_, fun j u hj => ?_, fun j u functions' hj f hf => ?_⟩
    · obtain ⟨hold, hu⟩ := hfunction u f hf
      rw [huser u hu]
      exact h.owner u f hold
    · have hu : u ≠ userID := by
        rintro rfl
        have hadds := hnone j
        rw [hj] at hadds
        cases hadds
      rw [huser u hu]
      exact h.checked j u hj
    · exact h.listed j u functions' hj f (hfunction u f hf).1

/-- The call that has just moved on knows what it has read. -/
theorem Refers.advance (h : Refers w) (hok : w.apart (.step i) = true) (hs : Steps w i w') :
    Refers w' := by
  have hkeeps : Keeps w w'.etcd := by
    rcases hs.keys with he | ⟨xs, hx, he⟩
    · rw [he]
      exact ⟨h.owner, h.checked, h.listed⟩
    · rw [he]
      exact h.keeps hx hok
  constructor
  case toFormed => exact h.toFormed.advance hs
  case owner =>
    rw [hs.root]
    exact hkeeps.owner
  case checked =>
    intro j u hj
    rw [hs.root]
    by_cases hji : j = i
    · subst hji
      have hmoves := hs.moves
      cases hm : w'.pc j <;> rw [hm] at hj <;> simp [adds] at hj <;> rw [hm] at hmoves
      · cases hmoves with
        | found _ hpc hfound =>
          rw [hs.reads (.inr ⟨_, hpc⟩), ← hj]
          exact hfound
      · cases hmoves with
        | allocated fn _ hpc hfn => exact hkeeps.user j u (by simp [adds, hpc, ← hfn, hj])
    · rw [hs.other j hji] at hj
      exact hkeeps.user j u hj
  case listed =>
    intro j u functions hj f hf
    rw [hs.root] at hf ⊢
    by_cases hji : j = i
    · subst hji
      have hmoves := hs.moves
      rw [hj] at hmoves
      cases hmoves with
      | listed _ hpc =>
        rw [hs.reads (.inl ⟨_, hpc⟩)] at hf
        exact mem_listing hf (functionPrefix_functionKey.mpr rfl)
    · rw [hs.other j hji] at hj
      exact hkeeps.function j u functions hj f hf

theorem Refers.enter (h : Refers w) (hs : w.enter plane op = .ok w') : Refers w' := by
  have hformed := h.toFormed.enter hs
  obtain ⟨x, hx, rfl⟩ := enter_ok hs
  have hadds : ∀ u, adds u x = false := fun u => by cases x <;> first | rfl | cases hx
  refine ⟨hformed, h.owner, fun j u hj => ?_, fun j u functions hj => ?_⟩
  · have hj : adds u (update w.pc w.ncalls x j) = true := hj
    rcases update_cases w.pc w.ncalls j x with he | he <;> rw [he] at hj
    · exact h.checked j u hj
    · rw [hadds u] at hj
      cases hj
  · rcases update_cases w.pc w.ncalls j x with he | he
    · exact h.listed j u functions (he.symm.trans hj)
    · rw [he.symm.trans hj] at hx
      cases hx

theorem Refers.step (h : Refers w) {a : Action} (hok : w.apart a = true)
    (hs : w.step a = .ok w') : Refers w' := by
  cases a with
  | enter plane op => exact h.enter hs
  | step i => exact h.advance hok (h.toFormed.steps hs)
  | restart plane =>
    have hformed := h.toFormed.step hs
    cases hs
    exact ⟨hformed, h.owner, h.checked, h.listed⟩

theorem init_refers (root : Key) : Refers (init root) := by
  refine ⟨init_formed root, fun u f hf => ?_, fun j u hj => ?_, fun _ _ _ hj => ?_⟩
  · simp [init, KV.get] at hf
  · cases hj
  · cases hj

/-- In every run where no `CreateFunction` and no `DeleteUser` of one user overlap, every
stored function has a stored user. -/
theorem referential_integrity (hw : machine.ReachesWhile (fun s a => s.apart a = true) w)
    (u f : UInt64) (hf : (w.etcd.get (functionKey w.root u f)).isSome = true) :
    (w.etcd.get (userKey w.root u)).isSome = true := by
  have h : Refers w := by
    refine hw.invariant (I := Refers) ?_ ?_
    · rintro _ ⟨root, rfl⟩
      exact init_refers root
    · exact fun s a t hs hok hstep => hs.step hok hstep
  exact h.owner u f hf

def oneUser : List Action :=
  [.enter 0 (.createUser (some ⟨1, "a"⟩)), .step 0, .step 0]

def aFunction : FunctionSpec := ⟨1, 5, some ⟨"image", "http", ""⟩, ""⟩

/-- A user with a function. -/
theorem referential_integrity_one :
    ∃ w : World, (w.etcd.get (functionKey w.root 1 5)).isSome = true ∧
      (w.etcd.get (userKey w.root 1)).isSome = true := by
  obtain ⟨w, hw, ht⟩ := machine.exists_while_of_run (P := fun s a => s.apart a = true)
    (Q := fun w => (w.etcd.get (functionKey w.root 1 5)).isSome = true) (init [])
    (oneUser ++ [.enter 0 (.createFunction (some aFunction)), .step 1, .step 1, .step 1])
    ⟨_, rfl⟩ (by decide +kernel)
  exact ⟨w, ht, referential_integrity hw 1 5 ht⟩

/-- A user is found, then deleted, and then the function is written. -/
theorem orphaned_function :
    ∃ w : World, machine.Reachable w ∧ (w.etcd.get (functionKey w.root 1 5)).isSome = true ∧
      (w.etcd.get (userKey w.root 1)).isSome = false := by
  exact machine.exists_of_run (init [])
    (oneUser ++ [.enter 0 (.createFunction (some aFunction)), .step 1,
      .enter 1 (.deleteUser 1), .step 2, .step 2, .step 1, .step 1]) ⟨_, rfl⟩ (by decide +kernel)

end World

end HyperFaaS.ControlPlane.Etcd
