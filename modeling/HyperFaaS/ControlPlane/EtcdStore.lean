import HyperFaaS.ControlPlane.EtcdKeys

/-!
What transactions do to the keys, and the shape of the keys that the store writes:
each key holds a message of its kind with the ids of the key (`Shaped`), so users,
functions and the platform configuration can be read off as tables.
-/

namespace HyperFaaS.ControlPlane.Etcd

def Write.key : Write → Key
  | .put key _ => key
  | .delete key => key

namespace KV

variable {e : KV} {key k : Key} {value : Value} {ks : List Key}

/-! ## Transactions -/

/-- The entry that a put leaves. -/
def putEntry (e : KV) (key : Key) (value : Value) : KeyValue :=
  ⟨value, ((e.get key).map KeyValue.createRevision).getD (e.revision + 1), e.revision + 1⟩

theorem commit_put (e : KV) (key : Key) (value : Value) : e.commit [.put key value] =
    (⟨e.revision + 1, e.kvs.insert key (e.putEntry key value)⟩,
      [.put key (e.putEntry key value)]) := rfl

theorem get_put (e : KV) (key k : Key) (value : Value) : (e.commit [.put key value]).1.get k =
    if k = key then some (e.putEntry key value) else e.get k := by
  rw [commit_put]
  by_cases hk : k = key
  · subst hk
    simp [get]
  · simp [get, hk]

theorem writes_deletes (r : Nat) (kvs : AList fun _ : Key => KeyValue) (ks : List Key) (k : Key) :
    (writes r kvs (ks.map .delete)).1.lookup k = if k ∈ ks then none else kvs.lookup k := by
  induction ks generalizing kvs with
  | nil => rfl
  | cons key ks ih =>
    simp only [List.map_cons, writes, write]
    split
    · rw [ih]
      by_cases hk : k = key
      · subst hk
        simp
      · simp [hk]
    · rename_i hnone
      rw [ih]
      by_cases hk : k = key
      · subst hk
        have hnone : kvs.lookup k = none := by simpa using hnone
        simp [hnone]
      · simp [hk]

theorem deletes_nothing (r : Nat) (kvs : AList fun _ : Key => KeyValue) (ks : List Key)
    (h : (writes r kvs (ks.map .delete)).2 = []) (k : Key) (hk : k ∈ ks) :
    kvs.lookup k = none := by
  induction ks generalizing kvs with
  | nil => cases hk
  | cons key ks ih =>
    simp only [List.map_cons, writes, write] at h
    split at h
    · simp at h
    · rename_i hnone
      rcases List.mem_cons.mp hk with rfl | hk
      · simpa using hnone
      · exact ih kvs h hk

theorem deletes_events (r : Nat) (kvs : AList fun _ : Key => KeyValue) (ks : List Key)
    (hnodup : ks.Nodup) :
    (writes r kvs (ks.map .delete)).2 =
      (ks.filter fun k => (kvs.lookup k).isSome).map .delete := by
  induction ks generalizing kvs with
  | nil => rfl
  | cons key ks ih =>
    obtain ⟨hkey, hnodup⟩ := List.nodup_cons.mp hnodup
    simp only [List.map_cons, writes, write]
    split
    · rename_i hsome
      rw [ih _ hnodup, List.filter_cons, if_pos hsome]
      have hrest : (ks.filter fun k => ((kvs.erase key).lookup k).isSome) =
          ks.filter fun k => (kvs.lookup k).isSome := by
        refine List.filter_congr fun k hk => ?_
        have hne : k ≠ key := fun he => hkey (he ▸ hk)
        rw [AList.lookup_erase_ne hne]
      rw [hrest]
      rfl
    · rename_i hnone
      rw [ih _ hnodup, List.filter_cons, if_neg hnone]
      rfl

theorem get_deletes (e : KV) (ks : List Key) (k : Key) :
    (e.commit (ks.map .delete)).1.get k = if k ∈ ks then none else e.get k := by
  simp only [commit]
  split
  · rename_i hempty
    split
    · rename_i hk
      exact deletes_nothing (e.revision + 1) e.kvs ks (List.isEmpty_iff.mp hempty) k hk
    · rfl
  · exact writes_deletes (e.revision + 1) e.kvs ks k

theorem write_lookup_ne (r : Nat) (kvs : AList fun _ : Key => KeyValue) {x : Write}
    (hne : x.key ≠ k) : (write r kvs x).1.lookup k = kvs.lookup k := by
  cases x with
  | put key value => exact AList.lookup_insert_ne hne.symm
  | delete key =>
    simp only [write]
    split
    · exact AList.lookup_erase_ne hne.symm
    · rfl

/-- What a write leaves at its key. -/
def written (r : Nat) (kvs : AList fun _ : Key => KeyValue) : Write → Option KeyValue
  | .put key value => some ⟨value, ((kvs.lookup key).map KeyValue.createRevision).getD r, r⟩
  | .delete _ => none

theorem write_lookup (r : Nat) (kvs : AList fun _ : Key => KeyValue) (x : Write) (k : Key) :
    (write r kvs x).1.lookup k = if x.key = k then written r kvs x else kvs.lookup k := by
  split
  · rename_i hk
    subst hk
    cases x with
    | put key value => exact AList.lookup_insert kvs
    | delete key =>
      simp only [write, written, Write.key]
      split
      · exact AList.lookup_erase key kvs
      · rename_i hin
        simpa using hin
  · rename_i hk
    exact write_lookup_ne r kvs hk

theorem writes_lookup_ne (r : Nat) (kvs : AList fun _ : Key => KeyValue) {xs : List Write}
    (hne : ∀ x ∈ xs, x.key ≠ k) : (writes r kvs xs).1.lookup k = kvs.lookup k := by
  induction xs generalizing kvs with
  | nil => rfl
  | cons x xs ih =>
    calc (writes r kvs (x :: xs)).1.lookup k
        = (writes r (write r kvs x).1 xs).1.lookup k := rfl
      _ = (write r kvs x).1.lookup k := ih _ fun y hy => hne y (.tail _ hy)
      _ = kvs.lookup k := write_lookup_ne r kvs (hne x (.head _))

theorem get_commit_ne (e : KV) {xs : List Write} (hne : ∀ x ∈ xs, x.key ≠ k) :
    (e.commit xs).1.get k = e.get k := by
  simp only [commit]
  split
  · rfl
  · exact writes_lookup_ne (e.revision + 1) e.kvs hne

theorem revision_le_commit (e : KV) (xs : List Write) : e.revision ≤ (e.commit xs).1.revision := by
  simp only [commit]
  split
  · exact le_rfl
  · exact Nat.le_succ _

end KV

/-! ## The shape of the keys -/

inductive Entry (root : Key) : Key → Value → Prop
  | user (user : UserSpec) : Entry root (userKey root user.userId) (.user user)
  | function (function : FunctionSpec) :
      Entry root (functionKey root function.userId function.functionId) (.function function)
  | config (cfg : PlatformConfig) : Entry root (platformConfigKey root) (.config cfg)

structure Shaped (root : Key) (e : KV) : Prop where
  entry : ∀ key kv, e.get key = some kv → Entry root key kv.value
  created : ∀ key kv, e.get key = some kv → 0 < kv.createRevision
  modified : ∀ key kv, e.get key = some kv →
    kv.createRevision ≤ kv.modRevision ∧ kv.modRevision ≤ e.revision

variable {root : Key} {e : KV}

theorem shaped_empty (root : Key) : Shaped root ⟨1, ∅⟩ := by
  constructor <;> intro key kv h <;> simp [KV.get] at h

theorem Shaped.put (h : Shaped root e) {key : Key} {value : Value} (hv : Entry root key value) :
    Shaped root (e.commit [.put key value]).1 where
  entry := by
    intro k kv hk
    rw [KV.get_put] at hk
    split at hk
    · rename_i heq
      cases hk
      exact heq ▸ hv
    · exact h.entry k kv hk
  created := by
    intro k kv hk
    rw [KV.get_put] at hk
    split at hk
    · cases hk
      cases hold : e.get key with
      | none => simp [KV.putEntry, hold]
      | some old => simpa [KV.putEntry, hold] using h.created key old hold
    · exact h.created k kv hk
  modified := by
    intro k kv hk
    rw [KV.get_put] at hk
    split at hk
    · cases hk
      refine ⟨?_, le_rfl⟩
      cases hold : e.get key with
      | none => simp [KV.putEntry, hold]
      | some old =>
        have hle := h.modified key old hold
        simp only [KV.putEntry, hold, Option.map_some, Option.getD_some]
        omega
    · have hle := h.modified k kv hk
      exact ⟨hle.1, Nat.le_succ_of_le hle.2⟩

theorem Shaped.delete (h : Shaped root e) (ks : List Key) :
    Shaped root (e.commit (ks.map .delete)).1 := by
  have hold : ∀ k kv, (e.commit (ks.map .delete)).1.get k = some kv → e.get k = some kv := by
    intro k kv hk
    rw [KV.get_deletes e ks] at hk
    split at hk
    · cases hk
    · exact hk
  constructor
  case entry => exact fun k kv hk => h.entry k kv (hold k kv hk)
  case created => exact fun k kv hk => h.created k kv (hold k kv hk)
  case modified =>
    intro k kv hk
    have hle := h.modified k kv (hold k kv hk)
    exact ⟨hle.1, hle.2.trans (KV.revision_le_commit e _)⟩

/-! ## The keys as tables -/

def userOf (value : Value) : Option UserSpec :=
  match value with
  | .user user => some user
  | _ => none

def functionOf (value : Value) : Option FunctionSpec :=
  match value with
  | .function function => some function
  | _ => none

def userAt (root : Key) (e : KV) (userID : UInt64) : Option UserSpec :=
  (e.get (userKey root userID)).bind fun kv => userOf kv.value

def functionAt (root : Key) (e : KV) (userID functionID : UInt64) : Option FunctionSpec :=
  (e.get (functionKey root userID functionID)).bind fun kv => functionOf kv.value

variable {kv : KeyValue}

theorem Shaped.user (h : Shaped root e) {u : UInt64} (hget : e.get (userKey root u) = some kv) :
    ∃ user, kv.value = .user user ∧ user.userId = u ∧ userAt root e u = some user := by
  have hentry := h.entry _ _ hget
  generalize hkey : userKey root u = key at hentry
  generalize hvalue : kv.value = value at hentry
  cases hentry with
  | user user =>
    exact ⟨user, rfl, (userKey_inj.mp hkey).symm, by simp [userAt, hget, hvalue, userOf]⟩
  | function function => exact absurd hkey userKey_ne_functionKey
  | config cfg => exact absurd hkey userKey_ne_config

theorem Shaped.function (h : Shaped root e) {u f : UInt64}
    (hget : e.get (functionKey root u f) = some kv) :
    ∃ fn, kv.value = .function fn ∧ fn.userId = u ∧ fn.functionId = f ∧
      functionAt root e u f = some fn := by
  have hentry := h.entry _ _ hget
  generalize hkey : functionKey root u f = key at hentry
  generalize hvalue : kv.value = value at hentry
  cases hentry with
  | user user => exact absurd hkey.symm userKey_ne_functionKey
  | function function =>
    obtain ⟨hu, hf⟩ := functionKey_inj.mp hkey
    exact ⟨function, rfl, hu.symm, hf.symm, by simp [functionAt, hget, hvalue, functionOf]⟩
  | config cfg => exact absurd hkey functionKey_ne_config

theorem Shaped.config (h : Shaped root e) (hget : e.get (platformConfigKey root) = some kv) :
    ∃ cfg, kv.value = .config cfg := by
  have hentry := h.entry _ _ hget
  generalize hkey : platformConfigKey root = key at hentry
  generalize hvalue : kv.value = value at hentry
  cases hentry with
  | user user => exact absurd hkey.symm userKey_ne_config
  | function function => exact absurd hkey.symm functionKey_ne_config
  | config cfg => exact ⟨cfg, rfl⟩

/-- The test of a create revision asks whether the key is there. -/
theorem Shaped.createRevision_pos (h : Shaped root e) (key : Key) :
    0 < e.createRevision key ↔ (e.get key).isSome = true := by
  cases hget : e.get key with
  | none => simp [KV.createRevision, hget]
  | some kv => simpa [KV.createRevision, hget] using h.created key kv hget

theorem Shaped.userAt_isSome (h : Shaped root e) (u : UInt64) :
    (userAt root e u).isSome = (e.get (userKey root u)).isSome := by
  cases hget : e.get (userKey root u) with
  | none => simp [userAt, hget]
  | some kv =>
    obtain ⟨user, -, -, hat⟩ := h.user hget
    simp [hat]

theorem Shaped.functionAt_isSome (h : Shaped root e) (u f : UInt64) :
    (functionAt root e u f).isSome = (e.get (functionKey root u f)).isSome := by
  cases hget : e.get (functionKey root u f) with
  | none => simp [functionAt, hget]
  | some kv =>
    obtain ⟨fn, -, -, -, hat⟩ := h.function hget
    simp [hat]

end HyperFaaS.ControlPlane.Etcd
