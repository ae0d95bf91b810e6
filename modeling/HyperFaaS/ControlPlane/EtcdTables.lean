import HyperFaaS.ControlPlane.EtcdStore
import HyperFaaS.ControlPlane.Tables
import Mathlib.Order.Monotone.Basic

/-!
The store in etcd keeps the tables (`Models.step`): a call on the keys shows what the
call on the tables shows, and the keys hold the new tables. A version is the revision of
its write, so the renaming of versions grows with every write of the document.
-/

namespace HyperFaaS.ControlPlane.Etcd

open Function KV Tables Store

/-! ## Ranges -/

section Ranges

variable {root : Key} {e : KV}
variable {kv : KeyValue} {u : UInt64}

theorem mem_range {p key : Key} :
    (key, kv) ∈ e.getPrefixed p ↔ e.get key = some kv ∧ p.isPrefixOf key = true := by
  unfold KV.getPrefixed KV.get
  rw [List.mem_map]
  constructor
  · rintro ⟨⟨k, v⟩, hmem, heq⟩
    obtain ⟨rfl, rfl⟩ := Prod.mk.inj heq
    obtain ⟨hmem, hp⟩ := List.mem_filter.mp hmem
    exact ⟨AList.mem_lookup_iff.mpr hmem, hp⟩
  · rintro ⟨hget, hp⟩
    exact ⟨⟨key, kv⟩, List.mem_filter.mpr ⟨AList.mem_lookup_iff.mp hget, hp⟩, rfl⟩

theorem range_nodup (e : KV) (p : Key) : ((e.getPrefixed p).map Prod.fst).Nodup := by
  unfold getPrefixed
  rw [List.map_map]
  exact e.kvs.keys_nodup.sublist (List.filter_sublist.map _)

theorem Shaped.mem_users (h : Shaped root e) {key : Key}
    (hmem : (key, kv) ∈ e.getPrefixed (usersPrefix root)) :
    ∃ user, key = userKey root user.userId ∧ kv.value = .user user ∧
      userAt root e user.userId = some user := by
  obtain ⟨hget, hp⟩ := mem_range.mp hmem
  have hentry := h.entry key kv hget
  generalize hvalue : kv.value = value at hentry
  cases hentry with
  | user user => exact ⟨user, rfl, rfl, by simp [userAt, hget, hvalue, userOf]⟩
  | function fn => simp [usersPrefix_functionKey] at hp
  | config cfg => simp [usersPrefix_config] at hp

theorem Shaped.mem_functions (h : Shaped root e) {key : Key}
    (hmem : (key, kv) ∈ e.getPrefixed (functionPrefix root u)) :
    ∃ fn, fn.userId = u ∧ key = functionKey root u fn.functionId ∧ kv.value = .function fn ∧
      functionAt root e u fn.functionId = some fn := by
  obtain ⟨hget, hp⟩ := mem_range.mp hmem
  have hentry := h.entry key kv hget
  generalize hvalue : kv.value = value at hentry
  cases hentry with
  | user user => simp [functionPrefix_userKey] at hp
  | function fn =>
    have hu := functionPrefix_functionKey.mp hp
    subst hu
    exact ⟨fn, rfl, rfl, rfl, by simp [functionAt, hget, hvalue, functionOf]⟩
  | config cfg => simp [functionPrefix_config] at hp

theorem Shaped.get_of_userAt (h : Shaped root e) {x : UserSpec} (hx : userAt root e u = some x) :
    ∃ kv, e.get (userKey root u) = some kv ∧ kv.value = .user x ∧ x.userId = u := by
  obtain ⟨kv, hkv⟩ := Option.isSome_iff_exists.mp (by
    rw [← h.userAt_isSome, hx]
    rfl)
  obtain ⟨y, hval, hid, hat⟩ := h.user hkv
  have hxy : x = y := Option.some.inj (hx.symm.trans hat)
  subst hxy
  exact ⟨kv, hkv, hval, hid⟩

theorem Shaped.get_of_functionAt (h : Shaped root e) {f : UInt64} {x : FunctionSpec}
    (hx : functionAt root e u f = some x) :
    ∃ kv, e.get (functionKey root u f) = some kv ∧ kv.value = .function x ∧
      x.userId = u ∧ x.functionId = f := by
  obtain ⟨kv, hkv⟩ := Option.isSome_iff_exists.mp (by
    rw [← h.functionAt_isSome, hx]
    rfl)
  obtain ⟨y, hval, hu, hf, hat⟩ := h.function hkv
  have hxy : x = y := Option.some.inj (hx.symm.trans hat)
  subst hxy
  exact ⟨kv, hkv, hval, hu, hf⟩

/-- A range whose entries are the values of `m`, each under a key of its own, decoded
and sorted. -/
theorem decoded_listing {α : Type} (decode : Value → Except Status α) (value : Value → Option α)
    (key : α → Key) {r : α → α → Prop} [DecidableRel r] {n : α → UInt64} {m : UInt64 → Option α}
    {l : List (Key × KeyValue)} (hr : ∀ x y, r x y ↔ n x ≤ n y) (hn : ∀ i x, m i = some x → n x = i)
    (hl : (l.map Prod.fst).Nodup)
    (hin : ∀ e ∈ l, ∃ x, decode e.2.value = .ok x ∧ value e.2.value = some x ∧ e.1 = key x ∧
      ∃ i, m i = some x)
    (hout : ∀ i x, m i = some x → ∃ e ∈ l, value e.2.value = some x) :
    ∃ ys, (l.mapM fun e => decode e.2.value) = .ok ys ∧ ys.insertionSort r = listing m := by
  refine ⟨l.filterMap fun e => value e.2.value, ?_, insertionSort_eq_listing hr hn ?_ fun x => ?_⟩
  · clear hl hout
    induction l with
    | nil => rfl
    | cons e l ih =>
      obtain ⟨x, hx, hv, -⟩ := hin e (.head _)
      rw [List.mapM_cons, hx, ih fun e he => hin e (.tail _ he), List.filterMap_cons, hv]
      rfl
  · -- two entries with one value would have one key
    refine List.pairwise_filterMap.mpr ((List.pairwise_map.mp hl).imp_of_mem ?_)
    rintro e e' he he' hne x hx _ hx' rfl
    obtain ⟨y, -, hy, hk, -⟩ := hin e he
    obtain ⟨y', -, hy', hk', -⟩ := hin e' he'
    cases hx.symm.trans hy
    cases hx'.symm.trans hy'
    exact hne (hk.trans hk'.symm)
  · rw [List.mem_filterMap]
    constructor
    · rintro ⟨e, he, hx⟩
      obtain ⟨y, -, hy, -, hi⟩ := hin e he
      cases hx.symm.trans hy
      exact hi
    · rintro ⟨i, hi⟩
      exact hout i x hi

end Ranges

/-! ## The keys hold the tables -/

/-- The document and its version. -/
def configAt (root : Key) (e : KV) : Option (String × Nat) :=
  (e.get (platformConfigKey root)).bind fun kv =>
    match kv.value with
    | .config cfg => some (cfg.document, kv.modRevision)
    | _ => none

structure Models (ρ : Nat → Nat) (t : Tables) (s : Store) : Prop where
  shaped : Shaped s.root s.etcd
  nextUserID : s.nextUserID = t.nextUserID
  nextFunctionID : s.nextFunctionID = t.nextFunctionID
  users : ∀ u, userAt s.root s.etcd u = t.users u
  functions : ∀ u f, functionAt s.root s.etcd u f = t.functions u f
  config : configAt s.root s.etcd = t.document.map fun document => (document, ρ t.writes)
  current : ρ t.writes ≤ s.etcd.revision
  mono : StrictMono ρ
  zero : ρ 0 = 0

/-- The call on the keys does what the call on the tables does. -/
def Follows (ρ : Nat → Nat) (op : Op) (a : Outcome)
    (r : Result × Store × List FunctionEvent) : Prop :=
  Shows ρ op a.1 a.2.2 r.1 r.2.2 ∧ Models ρ a.2.1 r.2.1

theorem models_empty (root : Key) : Models id .empty (.empty root) where
  shaped := shaped_empty root
  nextUserID := rfl
  nextFunctionID := rfl
  users := fun _ => rfl
  functions := fun _ _ => rfl
  config := rfl
  current := Nat.zero_le _
  mono := strictMono_id
  zero := rfl

section Frames

variable {root : Key} {e e' : KV}

theorem userAt_congr {u : UInt64} (h : e'.get (userKey root u) = e.get (userKey root u)) :
    userAt root e' u = userAt root e u := by
  rw [userAt, h, userAt]

theorem functionAt_congr {u f : UInt64}
    (h : e'.get (functionKey root u f) = e.get (functionKey root u f)) :
    functionAt root e' u f = functionAt root e u f := by
  rw [functionAt, h, functionAt]

theorem configAt_congr (h : e'.get (platformConfigKey root) = e.get (platformConfigKey root)) :
    configAt root e' = configAt root e := by
  rw [configAt, h, configAt]

end Frames

namespace Models

variable {ρ : Nat → Nat} {t : Tables} {s : Store} {op : Op}

theorem present_user (h : Models ρ t s) (u : UInt64) :
    decide (s.etcd.createRevision (userKey s.root u) > 0) = (t.users u).isSome := by
  rw [← h.users, h.shaped.userAt_isSome, Bool.decide_congr (h.shaped.createRevision_pos _),
    Bool.decide_eq_true]

theorem present_function (h : Models ρ t s) (u f : UInt64) :
    decide (s.etcd.createRevision (functionKey s.root u f) > 0) = (t.functions u f).isSome := by
  rw [← h.functions, h.shaped.functionAt_isSome, Bool.decide_congr (h.shaped.createRevision_pos _),
    Bool.decide_eq_true]

theorem absent (_ : Models ρ t s) (key : Key) :
    (s.etcd.createRevision key == 0) = !decide (s.etcd.createRevision key > 0) := by
  cases s.etcd.createRevision key <;> simp

theorem fail (h : Models ρ t s) {e : Status} {code : Code} (he : e.code = code) :
    Follows ρ op (t.fail code) (s.fail e) :=
  ⟨⟨by rw [← he]; rfl, .refl _, fun _ => rfl⟩, h⟩

theorem reply (h : Models ρ t s) (reply : Reply) (hreply : reply.rename ρ = reply)
    {es es' : List FunctionEvent} (hes : es' = es) :
    Follows ρ op (.ok reply, t, es) (.ok reply, s, es') := by
  subst hes
  refine ⟨⟨?_, .refl _, fun _ => rfl⟩, h⟩
  show Except.ok reply = Except.ok (reply.rename ρ)
  rw [hreply]

/-! ### Writes -/

theorem commit (h : Models ρ t s) {xs : List Write} {t' : Tables}
    (hrest : t' = { t with users := t'.users, functions := t'.functions })
    (hshaped : Shaped s.root (s.etcd.commit xs).1)
    (husers : ∀ u, userAt s.root (s.etcd.commit xs).1 u = t'.users u)
    (hfunctions : ∀ u f, functionAt s.root (s.etcd.commit xs).1 u f = t'.functions u f)
    (hconfig : (s.etcd.commit xs).1.get (platformConfigKey s.root) =
      s.etcd.get (platformConfigKey s.root)) :
    Models ρ t' { s with etcd := (s.etcd.commit xs).1 } := by
  rw [hrest]
  exact {
    shaped := hshaped
    nextUserID := h.nextUserID
    nextFunctionID := h.nextFunctionID
    users := husers
    functions := hfunctions
    config := (configAt_congr hconfig).trans h.config
    current := h.current.trans (revision_le_commit _ _)
    mono := h.mono
    zero := h.zero }

theorem putUser (h : Models ρ t s) (x : UserSpec) :
    Models ρ (t.setUser x.userId (some x))
      { s with etcd := (s.etcd.commit [.put (userKey s.root x.userId) (.user x)]).1 } := by
  refine h.commit rfl (h.shaped.put (.user x)) (fun u => ?_) (fun u f => ?_) ?_
  · show userAt s.root _ u = update t.users x.userId (some x) u
    rcases eq_or_ne u x.userId with rfl | hne
    · rw [update_self, userAt, get_put, if_pos rfl]
      rfl
    · rw [update_of_ne hne, ← h.users]
      refine userAt_congr ?_
      rw [get_put, if_neg fun hk => hne (userKey_inj.mp hk)]
  · refine (functionAt_congr ?_).trans (h.functions u f)
    rw [get_put, if_neg fun hk => userKey_ne_functionKey hk.symm]
  · rw [get_put, if_neg fun hk => userKey_ne_config hk.symm]

theorem putFunction (h : Models ρ t s) (x : FunctionSpec) :
    Models ρ (t.setFunction x.userId x.functionId (some x))
      { s with
        etcd := (s.etcd.commit
          [.put (functionKey s.root x.userId x.functionId) (.function x)]).1 } := by
  refine h.commit rfl (h.shaped.put (.function x)) (fun u => ?_) (fun u f => ?_) ?_
  · refine (userAt_congr ?_).trans (h.users u)
    rw [get_put, if_neg userKey_ne_functionKey]
  · rw [functions_setFunction]
    split
    · rename_i hsame
      rw [hsame.1, hsame.2]
      show functionAt s.root _ x.userId x.functionId = some x
      rw [functionAt, get_put, if_pos rfl]
      rfl
    · rename_i hne
      refine (functionAt_congr ?_).trans (h.functions u f)
      rw [get_put, if_neg fun hk => hne (functionKey_inj.mp hk)]
  · rw [get_put, if_neg fun hk => functionKey_ne_config hk.symm]

theorem putConfig (h : Models ρ t s) (hnext : ρ (t.writes + 1) = s.etcd.revision + 1)
    (cfg : PlatformConfig) :
    Models ρ { t with writes := t.writes + 1, document := some cfg.document }
      { s with etcd := (s.etcd.commit [.put (platformConfigKey s.root) (.config cfg)]).1 } where
  shaped := h.shaped.put (.config cfg)
  nextUserID := h.nextUserID
  nextFunctionID := h.nextFunctionID
  users := by
    intro u
    refine (userAt_congr ?_).trans (h.users u)
    rw [get_put, if_neg userKey_ne_config]
  functions := by
    intro u f
    refine (functionAt_congr ?_).trans (h.functions u f)
    rw [get_put, if_neg functionKey_ne_config]
  config := by
    show configAt s.root _ = some (cfg.document, ρ (t.writes + 1))
    rw [configAt, get_put, if_pos rfl, hnext]
    rfl
  current := by
    show ρ (t.writes + 1) ≤ s.etcd.revision + 1
    rw [hnext]
  mono := h.mono
  zero := h.zero

/-! ### Deletions -/

theorem deleteKeys (h : Models ρ t s) (ks : List Key) {t' : Tables}
    (hrest : t' = { t with users := t'.users, functions := t'.functions })
    (husers : ∀ u, t'.users u = if userKey s.root u ∈ ks then none else t.users u)
    (hfunctions : ∀ u f, t'.functions u f =
      if functionKey s.root u f ∈ ks then none else t.functions u f)
    (hconfig : platformConfigKey s.root ∉ ks) :
    Models ρ t' { s with etcd := (s.etcd.commit (ks.map .delete)).1 } := by
  refine h.commit hrest (h.shaped.delete ks) (fun u => ?_) (fun u f => ?_) ?_
  · rw [husers, userAt, get_deletes, ← h.users, userAt]
    split <;> rfl
  · rw [hfunctions, functionAt, get_deletes, ← h.functions, functionAt]
    split <;> rfl
  · rw [get_deletes, if_neg hconfig]

end Models

/-! ## Watch events -/

section Events

variable {root : Key} {e : KV}

theorem functionEvents_userKey (u : UInt64) (kv : KeyValue) :
    functionEvents root [.put (userKey root u) kv] = [] := by
  simp [functionEvents, functionsPrefix_userKey]

theorem functionEvents_functionKey {x : FunctionSpec} {kv : KeyValue}
    (hvalue : kv.value = .function x) :
    functionEvents root [.put (functionKey root x.userId x.functionId) kv] =
      [⟨if kv.createRevision = kv.modRevision then .created else .updated, x⟩] := by
  simp [functionEvents, functionsPrefix_functionKey, functionEvent, parseFunctionKey_functionKey,
    hvalue, decodeFunction]

/-- The event of a deleted key. -/
def deletedEvent (root key : Key) : Option FunctionEvent :=
  (parseFunctionKey key root).map fun p => ⟨.deleted, .deleted p.1 p.2⟩

theorem deletedEvent_functionKey (u f : UInt64) :
    deletedEvent root (functionKey root u f) = some ⟨.deleted, .deleted u f⟩ := by
  simp [deletedEvent, parseFunctionKey_functionKey]

theorem functionEvents_deletes {ks : List Key}
    (h : ∀ k ∈ ks, (functionsPrefix root).isPrefixOf k = true) :
    functionEvents root (ks.map .delete) = ks.filterMap (deletedEvent root) := by
  induction ks with
  | nil => rfl
  | cons k ks ih =>
    have hk := h k (.head _)
    have hrest := ih fun k hk => h k (.tail _ hk)
    have hevent : functionEvent root (.delete k) = deletedEvent root k := by
      simp only [functionEvent, deletedEvent]
      cases parseFunctionKey k root with
      | none => rfl
      | some p => rfl
    simp only [functionEvents, List.map_cons, List.filter_cons, hk, if_true,
      List.filterMap_cons, hevent] at hrest ⊢
    rw [hrest]

theorem functionEvents_userKey_delete (u : UInt64) (es : List Event) :
    functionEvents root (.delete (userKey root u) :: es) = functionEvents root es := by
  simp [functionEvents, functionsPrefix_userKey]

theorem commit_deletes_events {ks : List Key} (hnodup : ks.Nodup)
    (hthere : ∀ k ∈ ks, (e.get k).isSome = true) :
    (e.commit (ks.map .delete)).2 = ks.map .delete := by
  have hes : (writes (e.revision + 1) e.kvs (ks.map .delete)).2 = ks.map .delete := by
    rw [deletes_events _ _ _ hnodup]
    exact congrArg _ (List.filter_eq_self.mpr hthere)
  simp only [commit]
  split
  · rename_i hempty
    rw [← hes]
    exact (List.isEmpty_iff.mp hempty).symm
  · exact hes

end Events

/-! ## The calls -/

namespace Models

variable {ρ : Nat → Nat} {t : Tables} {s : Store} {op : Op}

theorem txn_true (s : Store) (xs : List Write) (reply : Reply) (e : Status) :
    s.txn true xs reply e = (.ok reply, { s with etcd := (s.etcd.commit xs).1 },
      functionEvents s.root (s.etcd.commit xs).2) := rfl

theorem allocateUser (h : Models ρ t s) (user : UserSpec) :
    (s.allocateUser user).1 = { user with userId := t.userID user } ∧
      Models ρ (t.takeUserID user) (s.allocateUser user).2 := by
  unfold Store.allocateUser Tables.userID Tables.takeUserID
  split
  · rw [h.nextUserID]
    exact ⟨rfl, { h with nextUserID := rfl }⟩
  · exact ⟨rfl, h⟩

theorem allocateFunction (h : Models ρ t s) (fn : FunctionSpec) :
    (s.allocateFunction fn).1 = { fn with functionId := t.functionID fn } ∧
      Models ρ (t.takeFunctionID fn) (s.allocateFunction fn).2 := by
  unfold Store.allocateFunction Tables.functionID Tables.takeFunctionID
  split
  · rw [h.nextFunctionID]
    exact ⟨rfl, { h with nextFunctionID := rfl }⟩
  · exact ⟨rfl, h⟩

theorem createUser (h : Models ρ t s) (user : UserSpec) :
    Follows ρ op (t.createUser user) (s.createUser (some user)) := by
  unfold Tables.createUser
  by_cases hn : user.name = ""
  · simp only [Store.createUser, hn, if_true]
    exact h.fail rfl
  obtain ⟨hx, h'⟩ := h.allocateUser user
  have husers : (t.takeUserID user).users = t.users := by
    unfold Tables.takeUserID
    split <;> rfl
  simp only [Store.createUser, hn, if_false, hx, Store.putIfAbsent, h'.absent, h'.present_user,
    husers]
  cases hsome : (t.users (t.userID user)).isSome with
  | true => exact h'.fail rfl
  | false =>
    exact (h'.putUser { user with userId := t.userID user }).reply
      (.user { user with userId := t.userID user }) rfl (functionEvents_userKey _ _)

theorem updateUser (h : Models ρ t s) (user : UserSpec) :
    Follows ρ op (t.updateUser user) (s.updateUser (some user)) := by
  unfold Tables.updateUser
  by_cases hvalid : user.userId = 0 ∨ user.name = ""
  · simp only [Store.updateUser, hvalid, if_true]
    exact h.fail rfl
  simp only [Store.updateUser, hvalid, if_false, Store.putIfExists, h.present_user]
  cases hx : t.users user.userId with
  | none => exact h.fail rfl
  | some x => exact (h.putUser user).reply .done rfl (functionEvents_userKey _ _)

theorem readUser (h : Models ρ t s) (u : UInt64) :
    s.readUser u = match t.users u with
      | none => .error (userNotFound u)
      | some x => .ok x := by
  unfold Store.readUser
  cases hx : t.users u with
  | none =>
    have hnone : (s.etcd.get (userKey s.root u)).isSome = false := by
      rw [← h.shaped.userAt_isSome, h.users, hx]
      rfl
    rw [Option.isSome_eq_false_iff, Option.isNone_iff_eq_none] at hnone
    rw [hnone]
  | some x =>
    obtain ⟨kv, hkv, hvalue, -⟩ := h.shaped.get_of_userAt ((h.users u).trans hx)
    rw [hkv]
    simp only [hvalue, decodeUser]

theorem getUser (h : Models ρ t s) (u : UInt64) :
    Follows ρ op (t.answer ((t.users u).map .user)) (s.getUser u) := by
  unfold Store.getUser
  rw [h.readUser]
  cases t.users u with
  | none => exact h.fail rfl
  | some x => exact h.reply (.user x) rfl rfl

theorem range_perm (h : Models ρ t s) (hk : t.Keyed) (u : UInt64) :
    ((s.etcd.getPrefixed (functionPrefix s.root u)).map Prod.fst).Perm
      ((listing (t.functions u)).map fun fn => functionKey s.root u fn.functionId) := by
  have hnodup : ((listing (t.functions u)).map fun fn =>
      functionKey s.root u fn.functionId).Nodup := by
    unfold List.Nodup
    rw [List.pairwise_map]
    refine (listing_pairwise fun f x hx => (hk.function u f x hx).2).imp fun hlt he => ?_
    rw [(functionKey_inj.mp he).2] at hlt
    exact absurd hlt (UInt64.lt_irrefl _)
  refine (List.perm_ext_iff_of_nodup (range_nodup _ _) hnodup).mpr fun key => ?_
  simp only [List.mem_map, mem_listing]
  constructor
  · rintro ⟨⟨key', kv⟩, hmem, rfl⟩
    obtain ⟨fn, -, hkey, -, hat⟩ := h.shaped.mem_functions hmem
    exact ⟨fn, ⟨fn.functionId, (h.functions u _).symm.trans hat⟩, hkey.symm⟩
  · rintro ⟨fn, ⟨f, hf⟩, rfl⟩
    obtain ⟨kv, hkv, -, -, hid⟩ := h.shaped.get_of_functionAt ((h.functions u f).trans hf)
    rw [hid]
    exact ⟨(functionKey s.root u f, kv), mem_range.mpr ⟨hkv, functionPrefix_functionKey.mpr rfl⟩,
      rfl⟩

theorem mem_range_keys (h : Models ρ t s) (hk : t.Keyed) {u : UInt64} {key : Key} :
    key ∈ (s.etcd.getPrefixed (functionPrefix s.root u)).map Prod.fst ↔
      ∃ f, (t.functions u f).isSome = true ∧ key = functionKey s.root u f := by
  rw [(h.range_perm hk u).mem_iff, List.mem_map]
  constructor
  · rintro ⟨fn, hmem, rfl⟩
    obtain ⟨f, hf⟩ := mem_listing.mp hmem
    exact ⟨f, by simp [hf], by rw [(hk.function u f fn hf).2]⟩
  · rintro ⟨f, hsome, rfl⟩
    obtain ⟨fn, hf⟩ := Option.isSome_iff_exists.mp hsome
    exact ⟨fn, mem_listing.mpr ⟨f, hf⟩, by rw [(hk.function u f fn hf).2]⟩

theorem deleteUser (h : Models ρ t s) (hk : t.Keyed) (u : UInt64) :
    Follows ρ (.deleteUser u) (t.deleteUser u) (s.deleteUser u) := by
  unfold Tables.deleteUser
  by_cases hu : u = 0
  · simp only [Store.deleteUser, hu, if_true]
    exact h.fail rfl
  simp only [Store.deleteUser, hu, if_false, h.present_user]
  cases hx : t.users u with
  | none => exact h.fail rfl
  | some x =>
    let ks := (s.etcd.getPrefixed (functionPrefix s.root u)).map Prod.fst
    have hks : ∀ key, key ∈ ks ↔ ∃ f, (t.functions u f).isSome = true ∧
        key = functionKey s.root u f := fun key => h.mem_range_keys hk
    have hwrites : Store.deletions s.root u (s.etcd.getPrefixed (functionPrefix s.root u)) =
        (userKey s.root u :: ks).map .delete := by
      simp [Store.deletions, ks, List.map_map, Function.comp_def]
    have hnew : Models ρ
        { t.setUser u none with functions := update t.functions u fun _ => none }
        { s with etcd := (s.etcd.commit ((userKey s.root u :: ks).map .delete)).1 } := by
      refine h.deleteKeys _ rfl ?_ ?_ ?_
      · intro u'
        show update t.users u none u' = _
        have hmem : userKey s.root u' ∈ userKey s.root u :: ks ↔ u' = u := by
          rw [List.mem_cons, userKey_inj, hks]
          refine or_iff_left ?_
          rintro ⟨f, -, hkey⟩
          exact userKey_ne_functionKey hkey
        rw [update_apply, if_congr hmem rfl rfl]
      · intro u' f
        show update t.functions u (fun _ => none) u' f = _
        have hmem : functionKey s.root u' f ∈ userKey s.root u :: ks ↔
            u' = u ∧ (t.functions u f).isSome = true := by
          rw [List.mem_cons, hks, or_iff_right fun hkey => userKey_ne_functionKey hkey.symm]
          constructor
          · rintro ⟨f', hsome, hkey⟩
            obtain ⟨hu', hf⟩ := functionKey_inj.mp hkey
            exact ⟨hu', hf ▸ hsome⟩
          · rintro ⟨rfl, hsome⟩
            exact ⟨f, hsome, rfl⟩
        rw [if_congr hmem rfl rfl]
        rcases eq_or_ne u' u with rfl | hne
        · rw [update_self]
          cases hf : t.functions u' f <;> simp
        · rw [update_of_ne hne, if_neg fun hsame => hne hsame.1]
      · rw [List.mem_cons, hks, not_or]
        refine ⟨fun hkey => userKey_ne_config hkey.symm, ?_⟩
        rintro ⟨f, -, hkey⟩
        exact functionKey_ne_config hkey.symm
    -- the user's key and the function keys were all there, and only the latter show
    have hnodup : (userKey s.root u :: ks).Nodup := by
      refine List.nodup_cons.mpr ⟨fun hmem => ?_, range_nodup _ _⟩
      obtain ⟨f, -, hkey⟩ := (hks _).mp hmem
      exact userKey_ne_functionKey hkey
    have hthere : ∀ k ∈ userKey s.root u :: ks, (s.etcd.get k).isSome = true := by
      intro k hmem
      rcases List.mem_cons.mp hmem with rfl | hmem
      · rw [← h.shaped.userAt_isSome, h.users, hx]
        rfl
      · obtain ⟨f, hsome, rfl⟩ := (hks k).mp hmem
        rw [← h.shaped.functionAt_isSome, h.functions]
        exact hsome
    have hevents : functionEvents s.root
        (s.etcd.commit ((userKey s.root u :: ks).map .delete)).2 =
          ks.filterMap (deletedEvent s.root) := by
      rw [commit_deletes_events hnodup hthere, List.map_cons, functionEvents_userKey_delete]
      refine functionEvents_deletes fun k hmem => ?_
      obtain ⟨f, -, rfl⟩ := (hks k).mp hmem
      exact functionsPrefix_functionKey
    have hlisted : ((listing (t.functions u)).map fun fn =>
        functionKey s.root u fn.functionId).filterMap (deletedEvent s.root) =
          (listing (t.functions u)).map fun fn =>
            (⟨.deleted, .deleted u fn.functionId⟩ : FunctionEvent) := by
      rw [List.filterMap_map, ← List.filterMap_eq_map]
      refine List.filterMap_congr fun fn _ => ?_
      exact deletedEvent_functionKey u fn.functionId
    have hperm := (h.range_perm hk u).filterMap (deletedEvent s.root)
    rw [hlisted, ← hevents] at hperm
    rw [hwrites, Option.isSome_some, txn_true, if_neg (by simp)]
    exact ⟨⟨rfl, hperm, fun hne => absurd rfl (hne u)⟩, hnew⟩

theorem listUsers (h : Models ρ t s) (hk : t.Keyed) :
    Follows ρ op (t.answer (some (.users (listing t.users)))) s.listUsers := by
  obtain ⟨ys, hys, hlist⟩ := decoded_listing decodeUser userOf (fun x => userKey s.root x.userId)
    (r := byUserId) (m := t.users) (fun _ _ => Iff.rfl) hk.user
    (range_nodup s.etcd (usersPrefix s.root))
    (by
      rintro ⟨key, kv⟩ hmem
      obtain ⟨user, hkey, hvalue, hat⟩ := h.shaped.mem_users hmem
      rw [hvalue]
      exact ⟨user, rfl, rfl, hkey, _, (h.users _).symm.trans hat⟩)
    (by
      intro u x hx
      obtain ⟨kv, hkv, hvalue, -⟩ := h.shaped.get_of_userAt ((h.users u).trans hx)
      exact ⟨(_, kv), mem_range.mpr ⟨hkv, usersPrefix_userKey⟩, by rw [hvalue]; rfl⟩)
  unfold Store.listUsers
  rw [hys]
  simp only [hlist]
  exact h.reply (.users _) rfl rfl

theorem listFunctions (h : Models ρ t s) (hk : t.Keyed) (u : UInt64) :
    Follows ρ op (t.answer (some (.functions (listing (t.functions u))))) (s.listFunctions u) := by
  obtain ⟨ys, hys, hlist⟩ := decoded_listing decodeFunction functionOf
    (fun x => functionKey s.root u x.functionId) (r := byFunctionId) (m := t.functions u)
    (fun _ _ => Iff.rfl) (fun f x hx => (hk.function u f x hx).2)
    (range_nodup s.etcd (functionPrefix s.root u))
    (by
      rintro ⟨key, kv⟩ hmem
      obtain ⟨fn, -, hkey, hvalue, hat⟩ := h.shaped.mem_functions hmem
      rw [hvalue]
      exact ⟨fn, rfl, rfl, hkey, _, (h.functions u _).symm.trans hat⟩)
    (by
      intro f x hx
      obtain ⟨kv, hkv, hvalue, -⟩ := h.shaped.get_of_functionAt ((h.functions u f).trans hx)
      exact ⟨(_, kv), mem_range.mpr ⟨hkv, functionPrefix_functionKey.mpr rfl⟩, by rw [hvalue]; rfl⟩)
  unfold Store.listFunctions
  rw [hys]
  simp only [hlist]
  exact h.reply (.functions _) rfl rfl

theorem validateFunction_some (fn : FunctionSpec) :
    fn.valid = true ∧ validateFunction (some fn) = .ok fn ∨
      fn.valid = false ∧
        ∃ e, validateFunction (some fn) = .error e ∧ e.code = .invalidArgument := by
  by_cases hu : fn.userId = 0
  · exact .inr ⟨by simp [FunctionSpec.valid, hu], invalid "function.user_id is required",
      by simp [validateFunction, hu], rfl⟩
  cases hr : fn.runtime with
  | none =>
    exact .inr ⟨by simp [FunctionSpec.valid, hr], invalid "function.runtime.image is required",
      by simp [validateFunction, hu, hr], rfl⟩
  | some runtime =>
    by_cases hi : runtime.image = ""
    · exact .inr ⟨by simp [FunctionSpec.valid, hr, hi],
        invalid "function.runtime.image is required",
        by simp [validateFunction, hu, hr, hi], rfl⟩
    by_cases hp : runtime.protocol = "http" ∨ runtime.protocol = "grpc"
    · refine .inl ⟨by simp [FunctionSpec.valid, hu, hr, hi, hp], ?_⟩
      have hp' : ¬ (runtime.protocol ≠ "http" ∧ runtime.protocol ≠ "grpc") := by tauto
      simp [validateFunction, hu, hr, hi, hp']
    · have hp' : runtime.protocol ≠ "http" ∧ runtime.protocol ≠ "grpc" := not_or.mp hp
      exact .inr ⟨by simp [FunctionSpec.valid, hr, hp'], badProtocol runtime.protocol,
        by simp [validateFunction, hu, hr, hi, hp'], rfl⟩

/-- A new key is a creation: its two revisions are the same. -/
theorem events_created (h : Models ρ t s) (x : FunctionSpec)
    (hx : (t.functions x.userId x.functionId).isSome = false) :
    functionEvents s.root (s.etcd.commit
      [.put (functionKey s.root x.userId x.functionId) (.function x)]).2 = [⟨.created, x⟩] := by
  have hnone : s.etcd.get (functionKey s.root x.userId x.functionId) = none := by
    rw [← h.functions, h.shaped.functionAt_isSome, Option.isSome_eq_false_iff,
      Option.isNone_iff_eq_none] at hx
    exact hx
  rw [commit_put, functionEvents_functionKey (by rfl)]
  simp [putEntry, hnone]

/-- A key that was there was created at an earlier revision. -/
theorem events_updated (h : Models ρ t s) (x : FunctionSpec)
    (hx : (t.functions x.userId x.functionId).isSome = true) :
    functionEvents s.root (s.etcd.commit
      [.put (functionKey s.root x.userId x.functionId) (.function x)]).2 = [⟨.updated, x⟩] := by
  rw [← h.functions, h.shaped.functionAt_isSome] at hx
  obtain ⟨kv, hkv⟩ := Option.isSome_iff_exists.mp hx
  have hle := h.shaped.modified _ _ hkv
  have hne : kv.createRevision ≠ s.etcd.revision + 1 := by omega
  rw [commit_put, functionEvents_functionKey (by rfl)]
  simp [putEntry, hkv, hne]

theorem createFunction (h : Models ρ t s) (fn : FunctionSpec) :
    Follows ρ op (t.createFunction fn) (s.createFunction (some fn)) := by
  unfold Tables.createFunction Store.createFunction
  rcases validateFunction_some fn with ⟨hv, hok⟩ | ⟨hv, e, he, hcode⟩
  · rw [if_neg (by simp [hv]), hok]
    simp only [h.readUser]
    cases hu : t.users fn.userId with
    | none => exact h.fail rfl
    | some user =>
      obtain ⟨hx, h'⟩ := h.allocateFunction fn
      have hfunctions : (t.takeFunctionID fn).functions = t.functions := by
        unfold takeFunctionID
        split <;> rfl
      simp only [hx, putIfAbsent, h'.absent, h'.present_function, hfunctions,
        Option.isNone_some, Bool.false_eq_true, if_false]
      cases hsome : (t.functions fn.userId (t.functionID fn)).isSome with
      | true => exact h'.fail rfl
      | false =>
        have hnew : ((t.takeFunctionID fn).functions fn.userId (t.functionID fn)).isSome = false := by
          rw [hfunctions]
          exact hsome
        exact (h'.putFunction { fn with functionId := t.functionID fn }).reply
          (.function { fn with functionId := t.functionID fn }) rfl
          (h'.events_created { fn with functionId := t.functionID fn } hnew)
  · rw [if_pos hv, he]
    exact h.fail hcode

theorem updateFunction (h : Models ρ t s) (fn : FunctionSpec) :
    Follows ρ op (t.updateFunction fn) (s.updateFunction (some fn)) := by
  unfold Tables.updateFunction Store.updateFunction
  rcases validateFunction_some fn with ⟨hv, hok⟩ | ⟨hv, e, he, hcode⟩
  · simp only [hv, hok, Bool.true_eq_false, false_or]
    by_cases hf : fn.functionId = 0
    · simp only [hf, if_true]
      exact h.fail rfl
    simp only [hf, if_false, putIfExists, h.present_function]
    cases hx : t.functions fn.userId fn.functionId with
    | none => exact h.fail rfl
    | some x => exact (h.putFunction fn).reply .done rfl (h.events_updated fn (by simp [hx]))
  · simp only [hv, he, true_or, if_true]
    exact h.fail hcode

theorem deleteFunction (h : Models ρ t s) (u f : UInt64) :
    Follows ρ op (t.deleteFunction u f) (s.deleteFunction u f) := by
  unfold Tables.deleteFunction Store.deleteFunction
  by_cases hzero : u = 0 ∨ f = 0
  · simp only [hzero, if_true]
    exact h.fail rfl
  simp only [hzero, if_false, h.present_function]
  cases hx : t.functions u f with
  | none => exact h.fail rfl
  | some x =>
    have hnew : Models ρ (t.setFunction u f none)
        { s with etcd := (s.etcd.commit ([functionKey s.root u f].map .delete)).1 } := by
      refine h.deleteKeys _ rfl ?_ ?_ ?_
      · intro u'
        exact (if_neg fun hmem => userKey_ne_functionKey (List.mem_singleton.mp hmem)).symm
      · intro u' f'
        rw [functions_setFunction]
        exact if_congr (functionKey_inj.symm.trans List.mem_singleton.symm) rfl rfl
      · rw [List.mem_singleton]
        exact fun hkey => functionKey_ne_config hkey.symm
    have hthere : ∀ k ∈ [functionKey s.root u f], (s.etcd.get k).isSome = true := by
      intro k hk
      rw [List.mem_singleton.mp hk, ← h.shaped.functionAt_isSome, h.functions, hx]
      rfl
    have hcommit : (s.etcd.commit [.delete (functionKey s.root u f)]).2 =
        [.delete (functionKey s.root u f)] :=
      commit_deletes_events (List.nodup_singleton _) hthere
    have hevents : functionEvents s.root (s.etcd.commit [.delete (functionKey s.root u f)]).2 =
        [⟨.deleted, .deleted u f⟩] := by
      have hks : functionEvents s.root ([functionKey s.root u f].map .delete) =
          [functionKey s.root u f].filterMap (deletedEvent s.root) :=
        functionEvents_deletes fun k hk => by
          rw [List.mem_singleton.mp hk]
          exact functionsPrefix_functionKey
      rw [List.filterMap_cons, deletedEvent_functionKey] at hks
      rw [hcommit]
      exact hks
    exact hnew.reply .done rfl hevents

theorem getFunction (h : Models ρ t s) (u f : UInt64) :
    Follows ρ op (t.answer ((t.functions u f).map .function)) (s.getFunction u f) := by
  unfold Store.getFunction
  cases hx : t.functions u f with
  | none =>
    have hnone : (s.etcd.get (functionKey s.root u f)).isSome = false := by
      rw [← h.shaped.functionAt_isSome, h.functions, hx]
      rfl
    rw [Option.isSome_eq_false_iff, Option.isNone_iff_eq_none] at hnone
    rw [hnone]
    exact h.fail rfl
  | some x =>
    obtain ⟨kv, hkv, hvalue, -⟩ := h.shaped.get_of_functionAt ((h.functions u f).trans hx)
    rw [hkv]
    simp only [hvalue, decodeFunction]
    exact h.reply (.function x) rfl rfl

/-! ### The document -/

/-- A renaming that is kept up to `n` and goes on from `v`. -/
def extend (ρ : Nat → Nat) (n v : Nat) : Nat → Nat :=
  fun k => if k ≤ n then ρ k else v + (k - (n + 1))

theorem extend_of_le {n v k : Nat} (hk : k ≤ n) : extend ρ n v k = ρ k := if_pos hk

theorem extend_next (ρ : Nat → Nat) (n v : Nat) : extend ρ n v (n + 1) = v := by
  simp [extend]

theorem extend_strictMono {n v : Nat} (hρ : StrictMono ρ) (hv : ρ n < v) :
    StrictMono (extend ρ n v) := by
  intro i j hij
  unfold extend
  split
  · rename_i hi
    split
    · exact hρ hij
    · have := hρ.monotone hi
      omega
  · rename_i hi
    rw [if_neg (by omega)]
    omega

theorem extended (h : Models ρ t s) : Models (extend ρ t.writes (s.etcd.revision + 1)) t s :=
  { h with
    config := by rw [extend_of_le le_rfl, h.config]
    current := by
      rw [extend_of_le le_rfl]
      exact h.current
    mono := extend_strictMono h.mono (Nat.lt_succ_of_le h.current)
    zero := by rw [extend_of_le (Nat.zero_le _), h.zero] }

theorem modRevision (h : Models ρ t s) (hk : t.Keyed) :
    s.etcd.modRevision (platformConfigKey s.root) = ρ t.writes := by
  have hconfig := h.config
  unfold configAt at hconfig
  unfold KV.modRevision
  cases hkv : s.etcd.get (platformConfigKey s.root) with
  | none =>
    rw [hkv] at hconfig
    have hnone : t.document = none := by
      cases hd : t.document with
      | none => rfl
      | some d => simp [hd] at hconfig
    rw [hk.document hnone, h.zero]
    rfl
  | some kv =>
    obtain ⟨cfg, hcfg⟩ := h.shaped.config hkv
    cases hd : t.document with
    | none => simp [hkv, hcfg, hd] at hconfig
    | some d =>
      simp only [hkv, Option.bind_some, hcfg, hd, Option.map_some, Option.some.injEq,
        Prod.mk.injEq] at hconfig
      simpa using hconfig.2

theorem getPlatformConfig (h : Models ρ t s) :
    Follows ρ op t.getPlatformConfig s.getPlatformConfig := by
  have hconfig := h.config
  unfold configAt at hconfig
  unfold Tables.getPlatformConfig Store.getPlatformConfig
  cases hkv : s.etcd.get (platformConfigKey s.root) with
  | none =>
    cases hd : t.document with
    | none => exact h.fail rfl
    | some d => simp [hkv, hd] at hconfig
  | some kv =>
    obtain ⟨cfg, hcfg⟩ := h.shaped.config hkv
    cases hd : t.document with
    | none => simp [hkv, hcfg, hd] at hconfig
    | some d =>
      simp only [hkv, Option.bind_some, hcfg, hd, Option.map_some, Option.some.injEq,
        Prod.mk.injEq] at hconfig
      simp only [hcfg, decodePlatformConfig]
      refine ⟨⟨?_, .refl _, fun _ => rfl⟩, h⟩
      show Except.ok (Reply.config ⟨kv.modRevision, cfg.document⟩) =
        Except.ok (Reply.config ⟨ρ t.writes, d⟩)
      rw [hconfig.1, hconfig.2]

/-- The write and the read after it, made as one call. -/
theorem putPlatformConfig_eq (h : Models ρ t s) (hk : t.Keyed) (cfg : PlatformConfig) (m : Nat) :
    s.putPlatformConfig (some cfg) m = if m = 0 ∨ ρ t.writes = m then
        (.ok (.config ⟨s.etcd.revision + 1, cfg.document⟩),
          { s with etcd := (s.etcd.commit [.put (platformConfigKey s.root) (.config cfg)]).1 }, [])
      else s.fail ⟨.aborted, "platform config version changed: expected " ++ toString m⟩ := by
  simp only [Store.putPlatformConfig, Store.writeConfig, h.modRevision hk]
  by_cases hm : m = 0 ∨ ρ t.writes = m
  · simp only [hm, if_true, readVersion, get_put]
    rfl
  · simp only [hm, if_false]

theorem putPlatformConfig (h : Models ρ t s) (hk : t.Keyed) (cfg : PlatformConfig) (n : Nat) :
    ∃ ρ', (∀ k ≤ t.writes, ρ' k = ρ k) ∧
      Follows ρ' op (t.putPlatformConfig cfg n) (s.putPlatformConfig (some cfg) (ρ n)) := by
  have hinj : Function.Injective ρ := h.mono.injective
  have hzero : ρ n = 0 ↔ n = 0 :=
    ⟨fun hn => hinj (hn.trans h.zero.symm), fun hn => hn ▸ h.zero⟩
  simp only [h.putPlatformConfig_eq hk, hzero, hinj.eq_iff]
  unfold Tables.putPlatformConfig
  split
  · -- the new version is the next revision
    refine ⟨_, fun k hle => extend_of_le hle,
      ⟨?_, .refl _, fun _ => rfl⟩, h.extended.putConfig (extend_next _ _ _) cfg⟩
    show Except.ok (Reply.config ⟨s.etcd.revision + 1, cfg.document⟩) =
      Except.ok (Reply.config ⟨extend ρ t.writes (s.etcd.revision + 1) (t.writes + 1), _⟩)
    rw [extend_next]
  · exact ⟨ρ, fun _ _ => rfl, h.fail rfl⟩

/-- **The keys follow the tables.** The renaming is kept for the versions there are. -/
theorem step (h : Models ρ t s) (hk : t.Keyed) (op : Op) :
    ∃ ρ', (∀ k ≤ t.writes, ρ' k = ρ k) ∧ Follows ρ' op (t.step op) (s.step (op.rename ρ)) := by
  cases op with
  | createUser user =>
    cases user with
    | none => exact ⟨ρ, fun _ _ => rfl, h.fail rfl⟩
    | some user => exact ⟨ρ, fun _ _ => rfl, h.createUser user⟩
  | updateUser user =>
    cases user with
    | none => exact ⟨ρ, fun _ _ => rfl, h.fail rfl⟩
    | some user => exact ⟨ρ, fun _ _ => rfl, h.updateUser user⟩
  | deleteUser u => exact ⟨ρ, fun _ _ => rfl, h.deleteUser hk u⟩
  | getUser u => exact ⟨ρ, fun _ _ => rfl, h.getUser u⟩
  | listUsers => exact ⟨ρ, fun _ _ => rfl, h.listUsers hk⟩
  | createFunction fn =>
    cases fn with
    | none => exact ⟨ρ, fun _ _ => rfl, h.fail rfl⟩
    | some fn => exact ⟨ρ, fun _ _ => rfl, h.createFunction fn⟩
  | updateFunction fn =>
    cases fn with
    | none => exact ⟨ρ, fun _ _ => rfl, h.fail rfl⟩
    | some fn => exact ⟨ρ, fun _ _ => rfl, h.updateFunction fn⟩
  | deleteFunction u f => exact ⟨ρ, fun _ _ => rfl, h.deleteFunction u f⟩
  | getFunction u f => exact ⟨ρ, fun _ _ => rfl, h.getFunction u f⟩
  | listFunctions u => exact ⟨ρ, fun _ _ => rfl, h.listFunctions hk u⟩
  | getPlatformConfig => exact ⟨ρ, fun _ _ => rfl, h.getPlatformConfig⟩
  | putPlatformConfig cfg n =>
    cases cfg with
    | none => exact ⟨ρ, fun _ _ => rfl, h.fail rfl⟩
    | some cfg => exact h.putPlatformConfig hk cfg n

end Models

end HyperFaaS.ControlPlane.Etcd
