import HyperFaaS.ControlPlane.Memory
import HyperFaaS.ControlPlane.Tables

/-!
The store in memory keeps the tables (`Models.step`): a call on the maps shows what the
call on the tables shows, with the same versions, and the maps hold the new tables.
-/

namespace HyperFaaS.ControlPlane.Memory

open FunctionSpec Tables

/-! ## Maps -/

section Maps

variable {α : Type} {m : AList fun _ : UInt64 => α} {key : α → UInt64}

theorem mem_values {x : α} :
    x ∈ m.entries.map (fun e => e.2) ↔ ∃ id, m.lookup id = some x := by
  rw [List.mem_map]
  constructor
  · rintro ⟨⟨id, y⟩, hmem, rfl⟩
    exact ⟨id, AList.mem_lookup_iff.mpr hmem⟩
  · rintro ⟨id, hid⟩
    exact ⟨⟨id, x⟩, AList.mem_lookup_iff.mp hid, rfl⟩

theorem values_nodup (hkey : ∀ id x, m.lookup id = some x → key x = id) :
    (m.entries.map fun e => e.2).Nodup := by
  refine List.Nodup.of_map key ?_
  have hkeys : (m.entries.map fun e => e.2).map key = m.keys := by
    rw [List.map_map]
    refine List.map_congr_left fun e he => ?_
    exact hkey e.1 e.2 (AList.mem_lookup_iff.mpr he)
  rw [hkeys]
  exact m.keys_nodup

theorem mem_keys {id : UInt64} : id ∈ m.keys ↔ ∃ x, m.lookup id = some x := by
  rw [← AList.mem_keys, ← AList.lookup_isSome, Option.isSome_iff_exists]

theorem lookup_insert_eq {id id' : UInt64} {x : α} :
    (m.insert id x).lookup id' = if id' = id then some x else m.lookup id' := by
  rcases eq_or_ne id' id with rfl | hne
  · rw [if_pos rfl, AList.lookup_insert]
  · rw [if_neg hne, AList.lookup_insert_ne hne]

theorem lookup_erase_eq {id id' : UInt64} :
    (m.erase id).lookup id' = if id' = id then none else m.lookup id' := by
  rcases eq_or_ne id' id with rfl | hne
  · rw [if_pos rfl, AList.lookup_erase]
  · rw [if_neg hne, AList.lookup_erase_ne hne]

theorem lookup_of_isEmpty (h : m.entries.isEmpty = true) (id : UInt64) : m.lookup id = none := by
  cases hx : m.lookup id with
  | none => rfl
  | some x =>
    have hmem := AList.mem_lookup_iff.mp hx
    rw [List.isEmpty_iff.mp h] at hmem
    cases hmem

end Maps

namespace Store

variable {s : Store} {u u' : UInt64} {fs : Functions}

theorem functionsOf_insert (s : Store) :
    { s with functions := s.functions.insert u fs }.functionsOf u' =
      if u' = u then fs else s.functionsOf u' := by
  rcases eq_or_ne u' u with rfl | hne
  · simp [functionsOf]
  · simp [functionsOf, hne]

theorem functionsOf_erase (s : Store) :
    { s with functions := s.functions.erase u }.functionsOf u' =
      if u' = u then ∅ else s.functionsOf u' := by
  rcases eq_or_ne u' u with rfl | hne
  · simp [functionsOf]
  · simp [functionsOf, hne]

theorem functionsOf_of_lookup (h : s.functions.lookup u = some fs) : s.functionsOf u = fs := by
  simp [functionsOf, h]

theorem functionsOf_of_none (h : s.functions.lookup u = none) : s.functionsOf u = ∅ := by
  simp [functionsOf, h]

/-- The store after a user's id is taken. -/
def takeUserID (s : Store) (user : UserSpec) : Store :=
  if user.userId = 0 then { s with nextUserID := s.nextUserID + 1 } else s

@[simp] theorem takeUserID_users (s : Store) (user : UserSpec) :
    (s.takeUserID user).users = s.users := by
  unfold takeUserID
  split <;> rfl

theorem createUser_eq {user : UserSpec} {id : UInt64} (hopen : s.closed = false)
    (hname : user.name ≠ "")
    (hid : (if user.userId = 0 then s.nextUserID else user.userId) = id) :
    s.createUser (some user) = if ((s.takeUserID user).users.lookup id).isSome then
        (s.takeUserID user).fail ⟨.alreadyExists, "user " ++ toString id ++ " already exists"⟩
      else (.ok (.user { user with userId := id }),
        { s.takeUserID user with
          users := (s.takeUserID user).users.insert id { user with userId := id } }, []) := by
  have hclosed : ¬ s.closed = true := by simp [hopen]
  rw [createUser, if_neg hname, if_neg hclosed, hid]
  rfl

/-- The store after a function's id is taken; the map of its user is there. -/
def takeFunctionID (s : Store) (fn : FunctionSpec) : Store :=
  if fn.functionId = 0 then { s with nextFunctionID := s.nextFunctionID + 1 } else s

@[simp] theorem takeFunctionID_functionsOf (s : Store) (fn : FunctionSpec) (u : UInt64) :
    (s.takeFunctionID fn).functionsOf u = s.functionsOf u := by
  unfold takeFunctionID
  split <;> rfl

def touch (s : Store) (u : UInt64) : Store :=
  { s with functions := s.functions.insert u (s.functionsOf u) }

theorem touch_functionsOf (s : Store) (u u' : UInt64) :
    (s.touch u).functionsOf u' = s.functionsOf u' := by
  unfold touch
  rw [functionsOf_insert]
  split
  · rename_i hu
    rw [hu]
  · rfl

theorem createFunction_eq {fn : FunctionSpec} {id : UInt64} (hopen : s.closed = false)
    (hvalid : validateFunction (some fn) = .ok fn) (huser : (s.users.lookup fn.userId).isSome)
    (hid : (if fn.functionId = 0 then s.nextFunctionID else fn.functionId) = id) :
    s.createFunction (some fn) =
      if (((s.takeFunctionID fn).functionsOf fn.userId).lookup id).isSome then
        ((s.takeFunctionID fn).touch fn.userId).fail ⟨.alreadyExists,
          "function " ++ toString fn.userId ++ "/" ++ toString id ++ " already exists"⟩
      else (.ok (.function { fn with functionId := id }),
        { (s.takeFunctionID fn).touch fn.userId with
          functions := ((s.takeFunctionID fn).touch fn.userId).functions.insert fn.userId
            (((s.takeFunctionID fn).functionsOf fn.userId).insert id
              { fn with functionId := id }) },
        [⟨.created, { fn with functionId := id }⟩]) := by
  have hclosed : ¬ s.closed = true := by simp [hopen]
  have hnone : ¬ (s.users.lookup fn.userId).isNone = true := by
    cases h : s.users.lookup fn.userId with
    | none => simp [h] at huser
    | some x => simp
  subst hid
  rw [createFunction, hvalid]
  show (if s.closed = true then _ else if (s.users.lookup fn.userId).isNone = true then _ else _) = _
  rw [if_neg hclosed, if_neg hnone]
  rfl

/-- A function is accepted as the tables say; a missing runtime has a text of its own. -/
theorem validateFunction_some (fn : FunctionSpec) :
    fn.valid = true ∧ validateFunction (some fn) = .ok fn ∨
      fn.valid = false ∧
        ∃ e, validateFunction (some fn) = .error e ∧ e.code = .invalidArgument := by
  by_cases hu : fn.userId = 0
  · exact .inr ⟨by simp [valid, hu], invalid "function.user_id is required",
      by simp [validateFunction, hu], rfl⟩
  cases hr : fn.runtime with
  | none =>
    exact .inr ⟨by simp [valid, hr], invalid "function.runtime is required",
      by simp [validateFunction, hu, hr], rfl⟩
  | some runtime =>
    by_cases hi : runtime.image = ""
    · exact .inr ⟨by simp [valid, hr, hi],
        invalid "function.runtime.image is required",
        by simp [validateFunction, hu, hr, hi], rfl⟩
    by_cases hp : runtime.protocol = "http" ∨ runtime.protocol = "grpc"
    · refine .inl ⟨by simp [valid, hu, hr, hi, hp], ?_⟩
      have hp' : ¬ (runtime.protocol ≠ "http" ∧ runtime.protocol ≠ "grpc") := by tauto
      simp [validateFunction, hu, hr, hi, hp']
    · have hp' : runtime.protocol ≠ "http" ∧ runtime.protocol ≠ "grpc" := not_or.mp hp
      exact .inr ⟨by simp [valid, hr, hp'], badProtocol runtime.protocol,
        by simp [validateFunction, hu, hr, hi, hp'], rfl⟩

end Store

/-! ## The maps hold the tables -/

structure Models (t : Tables) (s : Store) : Prop where
  nextUserID : s.nextUserID = t.nextUserID
  nextFunctionID : s.nextFunctionID = t.nextFunctionID
  users : ∀ u, s.users.lookup u = t.users u
  functions : ∀ u f, (s.functionsOf u).lookup f = t.functions u f
  running : s.closed = false
  writes : s.configVersion = t.writes
  config : s.platformConfig = t.document.map fun document => ⟨t.writes, document⟩

theorem models_new : Models .empty .new where
  nextUserID := rfl
  nextFunctionID := rfl
  users := fun _ => rfl
  functions := fun _ _ => rfl
  running := rfl
  writes := rfl
  config := rfl

/-- The call on the maps does what the call on the tables does. -/
def Follows (op : Op) (a : Outcome) (r : Result × Store × List FunctionEvent) : Prop :=
  Shows id op a.1 a.2.2 r.1 r.2.2 ∧ Models a.2.1 r.2.1

namespace Models

variable {t : Tables} {s : Store}

theorem not_closed (h : Models t s) : ¬ s.closed = true := by simp [h.running]

theorem setUser (h : Models t s) (x : UserSpec) :
    Models (t.setUser x.userId (some x)) { s with users := s.users.insert x.userId x } :=
  { h with
    users := by
      intro u
      rw [lookup_insert_eq]
      show _ = Function.update t.users x.userId (some x) u
      rw [Function.update_apply, h.users u] }

theorem takeUserID (h : Models t s) (x : UserSpec) :
    Models (t.takeUserID x) (s.takeUserID x) := by
  unfold Tables.takeUserID Store.takeUserID
  split
  · exact { h with nextUserID := by rw [← h.nextUserID] }
  · exact h

theorem takeFunctionID (h : Models t s) (x : FunctionSpec) :
    Models (t.takeFunctionID x) (s.takeFunctionID x) := by
  unfold Tables.takeFunctionID Store.takeFunctionID
  split
  · exact { h with nextFunctionID := by rw [← h.nextFunctionID] }
  · exact h

theorem setFunctions (h : Models t s) {u f : UInt64} {x : Option FunctionSpec} {s' : Store}
    (hrest : s' = { s with functions := s'.functions })
    (hfs : ∀ u' f', (s'.functionsOf u').lookup f' =
      if u' = u ∧ f' = f then x else (s.functionsOf u').lookup f') :
    Models (t.setFunction u f x) s' := by
  rw [hrest] at hfs ⊢
  exact { h with
    functions := by
      intro u' f'
      rw [functions_setFunction, hfs, h.functions] }

theorem insertFunction (h : Models t s) (x : FunctionSpec) :
    Models (t.setFunction x.userId x.functionId (some x))
      { s with
        functions :=
          s.functions.insert x.userId ((s.functionsOf x.userId).insert x.functionId x) } := by
  refine h.setFunctions rfl fun u f => ?_
  rw [Store.functionsOf_insert]
  rcases eq_or_ne u x.userId with rfl | hne
  · simp [lookup_insert_eq]
  · simp [hne]

/-- An entry for the empty map of a user says nothing. -/
theorem touch (h : Models t s) (u : UInt64) : Models t (s.touch u) :=
  { h with
    functions := by
      intro u' f
      rw [Store.touch_functionsOf, h.functions] }

theorem fail (h : Models t s) {op : Op} {e : Status} {code : Code} (he : e.code = code) :
    Follows op (t.fail code) (s.fail e) :=
  ⟨⟨by rw [← he]; rfl, .refl _, fun _ => rfl⟩, h⟩

theorem reply (h : Models t s) {op : Op} (reply : Reply) (es : List FunctionEvent) :
    Follows op (.ok reply, t, es) (.ok reply, s, es) := by
  refine ⟨⟨?_, .refl _, fun _ => rfl⟩, h⟩
  cases reply <;> rfl

theorem createUser (h : Models t s) (user : UserSpec) :
    Follows (.createUser (some user)) (t.createUser user) (s.createUser (some user)) := by
  have hid : (if user.userId = 0 then s.nextUserID else user.userId) = t.userID user := by
    rw [h.nextUserID]
    rfl
  have htake := h.takeUserID user
  simp only [Tables.createUser]
  by_cases hn : user.name = ""
  · simp only [Store.createUser, hn, if_true]
    exact h.fail rfl
  rw [Store.createUser_eq h.running hn hid, if_neg hn, ← h.users, ← Store.takeUserID_users s user]
  split
  · exact htake.fail rfl
  · exact (htake.setUser { user with userId := t.userID user }).reply _ _

theorem updateUser (h : Models t s) (user : UserSpec) :
    Follows (.updateUser (some user)) (t.updateUser user) (s.updateUser (some user)) := by
  simp only [Tables.updateUser, Store.updateUser]
  by_cases hu : user.userId = 0
  · simp only [hu, true_or, if_true]
    exact h.fail rfl
  by_cases hn : user.name = ""
  · simp only [hu, hn, false_or, if_true, if_false]
    exact h.fail rfl
  simp only [hu, hn, false_or, if_false, if_neg h.not_closed, h.users]
  split
  · exact h.fail rfl
  · exact (h.setUser user).reply _ _

theorem keys_perm (h : Models t s) (hk : t.Keyed) (u : UInt64) :
    (s.functionsOf u).keys.Perm ((listing (t.functions u)).map functionId) := by
  have hkey : ∀ f x, t.functions u f = some x → x.functionId = f :=
    fun f x hx => (hk.function u f x hx).2
  have hnodup : ((listing (t.functions u)).map functionId).Nodup := by
    unfold List.Nodup
    rw [List.pairwise_map]
    refine (listing_pairwise hkey).imp fun hlt he => ?_
    rw [he] at hlt
    exact absurd hlt (UInt64.lt_irrefl _)
  refine (List.perm_ext_iff_of_nodup (AList.keys_nodup _) hnodup).mpr fun f => ?_
  simp only [mem_keys, h.functions, List.mem_map, mem_listing]
  constructor
  · rintro ⟨x, hx⟩
    exact ⟨x, ⟨f, hx⟩, hkey f x hx⟩
  · rintro ⟨x, ⟨f', hx⟩, hf⟩
    rw [hkey f' x hx] at hf
    exact ⟨x, hf ▸ hx⟩

theorem deleteUser (h : Models t s) (hk : t.Keyed) (u : UInt64) :
    Follows (.deleteUser u) (t.deleteUser u) (s.deleteUser u) := by
  unfold Tables.deleteUser Store.deleteUser
  by_cases hu : u = 0
  · simp only [hu, if_true]
    exact h.fail rfl
  simp only [hu, if_neg h.not_closed, if_false, h.users]
  split
  · exact h.fail rfl
  refine ⟨⟨rfl, ?_, fun hne => absurd rfl (hne u)⟩, { h with users := ?_, functions := ?_ }⟩
  · have hperm := (h.keys_perm hk u).map fun f =>
      (⟨.deleted, .deleted u f⟩ : FunctionEvent)
    rw [List.map_map] at hperm
    exact hperm
  · intro u'
    show (s.users.erase u).lookup u' = Function.update t.users u none u'
    rw [lookup_erase_eq, Function.update_apply, h.users]
  · intro u' f
    show ({ s with functions := s.functions.erase u }.functionsOf u').lookup f =
      Function.update t.functions u (fun _ => none) u' f
    rw [Store.functionsOf_erase, Function.update_apply]
    split
    · rfl
    · exact h.functions u' f

theorem createFunction (h : Models t s) (fn : FunctionSpec) :
    Follows (.createFunction (some fn)) (t.createFunction fn) (s.createFunction (some fn)) := by
  have hid : (if fn.functionId = 0 then s.nextFunctionID else fn.functionId) =
      t.functionID fn := by
    rw [h.nextFunctionID]
    rfl
  have htake := h.takeFunctionID fn
  unfold Tables.createFunction
  rcases Store.validateFunction_some fn with ⟨hv, hok⟩ | ⟨hv, e, he, hcode⟩
  · rw [if_neg (by simp [hv]), ← h.users]
    cases hu : s.users.lookup fn.userId with
    | none =>
      simp only [Store.createFunction, hok, if_neg h.not_closed, hu]
      exact h.fail rfl
    | some x =>
      rw [Store.createFunction_eq h.running hok (by simp [hu]) hid, if_neg (by simp),
        ← h.functions, Store.takeFunctionID_functionsOf]
      split
      · exact (htake.touch fn.userId).fail rfl
      · have hset := (htake.touch fn.userId).insertFunction
          { fn with functionId := t.functionID fn }
        rw [Store.touch_functionsOf, Store.takeFunctionID_functionsOf] at hset
        exact hset.reply _ _
  · simp only [Store.createFunction, hv, he, if_true]
    exact h.fail hcode

theorem updateFunction (h : Models t s) (fn : FunctionSpec) :
    Follows (.updateFunction (some fn)) (t.updateFunction fn) (s.updateFunction (some fn)) := by
  unfold Tables.updateFunction Store.updateFunction
  rcases Store.validateFunction_some fn with ⟨hv, hok⟩ | ⟨hv, e, he, hcode⟩
  · simp only [hv, hok, Bool.true_eq_false, false_or, if_neg h.not_closed]
    split
    · exact h.fail rfl
    rw [← h.functions]
    cases hl : s.functions.lookup fn.userId with
    | none =>
      simp only [Store.functionsOf_of_none hl, AList.lookup_empty, Option.isNone_none, if_true]
      exact h.fail rfl
    | some fs =>
      have hfs := Store.functionsOf_of_lookup hl
      rw [hfs]
      simp only
      split
      · exact h.fail rfl
      · have hset := h.insertFunction fn
        rw [hfs] at hset
        exact hset.reply _ _
  · simp only [hv, he, true_or, if_true]
    exact h.fail hcode

theorem deleteFunction (h : Models t s) (u f : UInt64) :
    Follows (.deleteFunction u f) (t.deleteFunction u f) (s.deleteFunction u f) := by
  unfold Tables.deleteFunction Store.deleteFunction
  by_cases hzero : u = 0 ∨ f = 0
  · simp only [hzero, if_true]
    exact h.fail rfl
  simp only [hzero, if_neg h.not_closed, if_false]
  rw [← h.functions]
  cases hl : s.functions.lookup u with
  | none =>
    simp only [Store.functionsOf_of_none hl, AList.lookup_empty, Option.isNone_none, if_true]
    exact h.fail rfl
  | some fs =>
    have hfs := Store.functionsOf_of_lookup hl
    rw [hfs]
    simp only
    split
    · exact h.fail rfl
    refine Models.reply (h.setFunctions rfl fun u' f' => ?_) _ _
    -- whether the map is dropped or kept, its lookups are those without `f`
    have hone : { s with
        functions := if (fs.erase f).entries.isEmpty then s.functions.erase u
          else s.functions.insert u (fs.erase f) }.functionsOf u' =
          if u' = u then (if (fs.erase f).entries.isEmpty = true then ∅ else fs.erase f)
          else s.functionsOf u' := by
      by_cases he : (fs.erase f).entries.isEmpty = true
      · simp only [he, if_true]
        exact Store.functionsOf_erase s
      · simp only [he]
        exact Store.functionsOf_insert s
    rw [hone]
    rcases eq_or_ne u' u with rfl | hne
    · rw [if_pos rfl, hfs]
      have hlook : (if (fs.erase f).entries.isEmpty = true then ∅ else fs.erase f).lookup f' =
          (fs.erase f).lookup f' := by
        split
        · rename_i he
          rw [lookup_of_isEmpty he]
          rfl
        · rfl
      rw [hlook, lookup_erase_eq]
      simp
    · simp [hne]

theorem putPlatformConfig (h : Models t s) (cfg : PlatformConfig) (n : Nat) :
    Follows (.putPlatformConfig (some cfg) n) (t.putPlatformConfig cfg n)
      (s.putPlatformConfig (some cfg) n) := by
  unfold Tables.putPlatformConfig Store.putPlatformConfig
  simp only [if_neg h.not_closed, h.writes]
  by_cases hn : n = 0 ∨ t.writes = n
  · have hn' : ¬ (n ≠ 0 ∧ n ≠ t.writes) := by
      rintro ⟨hzero, hne⟩
      rcases hn with hn | hn
      · exact hzero hn
      · exact hne hn.symm
    rw [if_pos hn, if_neg hn']
    exact ⟨⟨rfl, .refl _, fun _ => rfl⟩, { h with writes := rfl, config := rfl }⟩
  · have hn' : n ≠ 0 ∧ n ≠ t.writes := ⟨fun h => hn (.inl h), fun h => hn (.inr h.symm)⟩
    rw [if_neg hn, if_pos hn']
    exact h.fail rfl

/-- **The maps follow the tables.** -/
theorem step (h : Models t s) (hk : t.Keyed) (op : Op) :
    Follows op (t.step op) (s.step op) := by
  cases op with
  | createUser user =>
    cases user with
    | none => exact h.fail rfl
    | some user => exact h.createUser user
  | updateUser user =>
    cases user with
    | none => exact h.fail rfl
    | some user => exact h.updateUser user
  | deleteUser u => exact h.deleteUser hk u
  | getUser u =>
    simp only [Tables.step, Store.step, Store.getUser, ← h.users]
    cases s.users.lookup u with
    | none => exact h.fail rfl
    | some x => exact h.reply _ _
  | listUsers =>
    have hlist : (s.users.entries.map fun e => e.2).insertionSort byUserId = listing t.users :=
      insertionSort_eq_listing (fun x y => Iff.rfl) hk.user
        (values_nodup fun id x hx => hk.user id x (h.users id ▸ hx))
        (fun x => by simp only [mem_values, h.users])
    simp only [Tables.step, Store.step, Store.listUsers, hlist]
    exact h.reply _ _
  | createFunction fn =>
    cases fn with
    | none => exact h.fail rfl
    | some fn => exact h.createFunction fn
  | updateFunction fn =>
    cases fn with
    | none => exact h.fail rfl
    | some fn => exact h.updateFunction fn
  | deleteFunction u f => exact h.deleteFunction u f
  | getFunction u f =>
    simp only [Tables.step, Store.step, Store.getFunction, ← h.functions]
    cases (s.functionsOf u).lookup f with
    | none => exact h.fail rfl
    | some x => exact h.reply _ _
  | listFunctions u =>
    have hkey : ∀ f x, t.functions u f = some x → x.functionId = f :=
      fun f x hx => (hk.function u f x hx).2
    have hlist : ((s.functionsOf u).entries.map fun e => e.2).insertionSort byFunctionId =
        listing (t.functions u) :=
      insertionSort_eq_listing (fun x y => Iff.rfl) hkey
        (values_nodup fun f x hx => hkey f x (h.functions u f ▸ hx))
        (fun x => by simp only [mem_values, h.functions])
    simp only [Tables.step, Store.step, Store.listFunctions, hlist]
    exact h.reply _ _
  | getPlatformConfig =>
    simp only [Tables.step, Store.step, Store.getPlatformConfig, Tables.getPlatformConfig, h.config]
    cases t.document with
    | none => exact h.fail rfl
    | some document => exact h.reply _ _
  | putPlatformConfig cfg n =>
    cases cfg with
    | none => exact h.fail rfl
    | some cfg => exact h.putPlatformConfig cfg n

end Models

end HyperFaaS.ControlPlane.Memory
