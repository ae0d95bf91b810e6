import HyperFaaS.ControlPlane.EtcdStore
import HyperFaaS.Lib.Machine

/-!
The watch of the platform configuration in etcd (`WatchPlatformConfig`, etcd.go): a read of
the document, its emission, and a watch from the revision after that of the read. Any
transactions on any keys are made in between, and the consumer takes at its own pace from a
channel of eight places.

etcd keeps the events of every transaction with its revision. A watch from revision `r`
delivers those of its key with revision at least `r`, in order, in responses of any size.
As in etcd, a transaction writes a key once.

Proved here (`config_watch_gap_free`): what is emitted is an initial part of the document
at the read, if there was one, and then every later put of the key, with the revisions of
the puts as versions, strictly increasing; and the watch can always come to emit all of it.
-/

namespace HyperFaaS.ControlPlane.Etcd.ConfigWatch

open Event KV

inductive Fault
  | disabled
  deriving DecidableEq, Repr

/-- An event with the revision of its transaction. -/
abbrev Revised := Nat × Event

/-- The places of the goroutine. `seen` counts the events of the watch received so far. -/
inductive PC
  | get
  | first (cfg : PlatformConfig) (startRev : Nat)
  | watch (startRev : Nat)
  | receive (startRev seen : Nat)
  | events (startRev seen : Nat) (rest : List Revised)
  | send (startRev seen : Nat) (cfg : PlatformConfig) (rest : List Revised)
  | ended (err : Option Status)
  deriving DecidableEq, Repr

/-- `emitted`: all documents sent into the channel; the consumer has taken `taken` of them.
`read`: the revision of the read. -/
structure World where
  root : Key
  etcd : KV
  history : List Revised
  pc : PC
  emitted : List PlatformConfig
  taken : Nat
  read : Option Nat

inductive Action
  | write (xs : List Write)
  | go
  | respond (n : Nat)
  | cancel
  | fail (err : Status)
  | take

/-- The key of the configuration holds documents. -/
def documents (root : Key) : Write → Bool
  | .put key value => key ≠ platformConfigKey root || (decodePlatformConfig value).isOk
  | .delete _ => true

def Event.key : Event → Key
  | .put key _ => key
  | .delete key => key

/-- The events that a watch of the key from `startRev` has. -/
def watched (root : Key) (history : List Revised) (startRev : Nat) : List Revised :=
  history.filter fun x => startRev ≤ x.1 ∧ Event.key x.2 = platformConfigKey root

namespace World

def capacity : Nat := 8

def emit (w : World) (cfg : PlatformConfig) (next : PC) : Except Fault World :=
  if w.emitted.length - w.taken < capacity then
    .ok { w with emitted := w.emitted ++ [cfg], pc := next }
  else .error .disabled

/-- The read: the document, and the revision of the response's header. -/
def readConfig (w : World) : World :=
  match w.etcd.get (platformConfigKey w.root) with
  | none => { w with pc := .watch (w.etcd.revision + 1), read := some w.etcd.revision }
  | some kv =>
      match decodePlatformConfig kv.value with
      | .error e => { w with pc := .ended (some e), read := some w.etcd.revision }
      | .ok cfg =>
          { w with
            pc := .first { cfg with version := kv.modRevision } (w.etcd.revision + 1)
            read := some w.etcd.revision }

/-- One round of the loop over the events of a response. -/
def handle (startRev seen : Nat) : List Revised → PC
  | [] => .receive startRev seen
  | (_, .delete _) :: rest => .events startRev seen rest
  | (_, .put _ kv) :: rest =>
      match decodePlatformConfig kv.value with
      | .error e => .ended (some e)
      | .ok cfg => .send startRev seen { cfg with version := kv.modRevision } rest

def goroutine (w : World) : Except Fault World :=
  match w.pc with
  | .get => .ok w.readConfig
  | .first cfg startRev => w.emit cfg (.watch startRev)
  | .watch startRev => .ok { w with pc := .receive startRev 0 }
  | .events startRev seen rest => .ok { w with pc := handle startRev seen rest }
  | .send startRev seen cfg rest => w.emit cfg (.events startRev seen rest)
  | _ => .error .disabled

def step (w : World) : Action → Except Fault World
  | .write xs =>
      if (xs.map Write.key).Nodup ∧ xs.all (documents w.root) = true then
        .ok { w with
          etcd := (w.etcd.commit xs).1
          history := w.history ++
            (w.etcd.commit xs).2.map fun ev => ((w.etcd.commit xs).1.revision, ev) }
      else .error .disabled
  | .go => w.goroutine
  | .respond n =>
      match w.pc with
      | .receive startRev seen =>
          if 0 < n ∧ seen + n ≤ (watched w.root w.history startRev).length then
            let response := ((watched w.root w.history startRev).drop seen).take n
            .ok { w with pc := .events startRev (seen + n) response }
          else .error .disabled
      | _ => .error .disabled
  | .cancel =>
      match w.pc with
      | .first _ _ | .receive _ _ | .send _ _ _ _ => .ok { w with pc := .ended none }
      | _ => .error .disabled
  | .fail err =>
      match w.pc with
      | .get | .receive _ _ => .ok { w with pc := .ended (some err) }
      | _ => .error .disabled
  | .take =>
      if w.taken < w.emitted.length then .ok { w with taken := w.taken + 1 }
      else .error .disabled

def init (root : Key) : World where
  root := root
  etcd := ⟨1, ∅⟩
  history := []
  pc := .get
  emitted := []
  taken := 0
  read := none

end World

def machine : Lib.Machine World Action Fault where
  start := fun w => ∃ root, w = World.init root
  step := World.step

/-! ## What a watch should emit -/

/-- The document of a put of the key, under the revision of the put. -/
def document (root : Key) : Revised → Option PlatformConfig
  | (r, .put key ⟨.config cfg, _, _⟩) =>
      if key = platformConfigKey root then some { cfg with version := r } else none
  | _ => none

def puts (root : Key) (xs : List Revised) : List PlatformConfig := xs.filterMap (document root)

/-- The document after an event. -/
def replace (root : Key) (cur : Option PlatformConfig) (x : Revised) : Option PlatformConfig :=
  if Event.key x.2 = platformConfigKey root then document root x else cur

def current (root : Key) (xs : List Revised) : Option PlatformConfig :=
  xs.foldl (replace root) none

/-- The document at revision `r`, and the puts after it. -/
def expected (root : Key) (history : List Revised) (r : Nat) : List PlatformConfig :=
  (current root (history.filter fun x => x.1 ≤ r)).toList ++
    puts root (history.filter fun x => r < x.1)

variable {root : Key} {xs ys : List Revised} {r : Nat}

theorem puts_append (root : Key) (xs ys : List Revised) :
    puts root (xs ++ ys) = puts root xs ++ puts root ys := List.filterMap_append

theorem current_append (root : Key) (xs ys : List Revised) :
    current root (xs ++ ys) = ys.foldl (replace root) (current root xs) := List.foldl_append

variable {cfg : PlatformConfig} {cur : Option PlatformConfig}

theorem document_key {x : Revised} (h : document root x = some cfg) :
    Event.key x.2 = platformConfigKey root ∧ cfg.version = x.1 := by
  unfold document at h
  split at h
  · split at h
    · rename_i hkey
      cases h
      exact ⟨hkey, rfl⟩
    · cases h
  · cases h

theorem mem_puts (h : cfg ∈ puts root xs) :
    ∃ x ∈ xs, document root x = some cfg := List.mem_filterMap.mp h

/-- What other keys hold is not watched. -/
theorem puts_watched (root : Key) (xs : List Revised) (s : Nat) :
    puts root (watched root xs s) = puts root (xs.filter fun x => s ≤ x.1) := by
  induction xs with
  | nil => rfl
  | cons x xs ih =>
    unfold watched puts at ih ⊢
    by_cases hs : s ≤ x.1
    · by_cases hkey : Event.key x.2 = platformConfigKey root
      · simp only [List.filter_cons, hs, hkey, and_self, decide_true, if_true,
          List.filterMap_cons, ih]
      · have hnone : document root x = none := by
          cases hd : document root x with
          | none => rfl
          | some cfg => exact absurd (document_key hd).1 hkey
        simp only [List.filter_cons, hs, hkey, and_false, decide_false, decide_true,
          Bool.false_eq_true, if_false, if_true, List.filterMap_cons, hnone, ih]
    · simp only [List.filter_cons, hs, false_and, decide_false, Bool.false_eq_true, if_false, ih]

theorem replace_of_key (ev : Event) (h : Event.key ev = platformConfigKey root) :
    replace root cur (r, ev) = document root (r, ev) :=
  if_pos h

theorem replace_of_ne (ev : Event) (h : Event.key ev ≠ platformConfigKey root) :
    replace root cur (r, ev) = cur := if_neg h

theorem foldl_replace_mem (h : xs.foldl (replace root) cur = some cfg) :
    cfg ∈ puts root xs ∨ cur = some cfg := by
  induction xs generalizing cur with
  | nil => exact .inr h
  | cons x xs ih =>
    have hcons : puts root (x :: xs) = puts root [x] ++ puts root xs := puts_append root [x] xs
    rw [hcons, List.mem_append]
    rcases ih h with hmem | hcur
    · exact .inl (.inr hmem)
    · unfold replace at hcur
      split at hcur
      · exact .inl (.inl (List.mem_filterMap.mpr ⟨x, .head _, hcur⟩))
      · exact .inr hcur

theorem current_mem (h : current root xs = some cfg) : cfg ∈ puts root xs := by
  rcases foldl_replace_mem h with hmem | hcur
  · exact hmem
  · cases hcur

/-! ## The events of a transaction -/

section Events

variable (r : Nat) (kvs : AList fun _ : Key => KeyValue)

theorem events_keys (xs : List Write) :
    ((KV.writes r kvs xs).2.map Event.key).Sublist (xs.map Write.key) := by
  induction xs generalizing kvs with
  | nil => exact .slnil
  | cons x xs ih =>
    have hrest := ih (KV.write r kvs x).1
    cases x with
    | put key value => exact hrest.cons_cons key
    | delete key =>
      simp only [KV.writes, KV.write] at hrest ⊢
      split
      · rename_i hin
        rw [if_pos hin] at hrest
        exact hrest.cons_cons key
      · rename_i hin
        rw [if_neg hin] at hrest
        exact hrest.cons key

theorem events_put (xs : List Write) {key : Key} {kv : KeyValue}
    (h : .put key kv ∈ (writes r kvs xs).2) :
    kv.modRevision = r ∧ .put key kv.value ∈ xs := by
  induction xs generalizing kvs with
  | nil => cases h
  | cons x xs ih =>
    rcases List.mem_append.mp h with h | h
    · cases x with
      | put k value =>
        cases List.mem_singleton.mp h
        exact ⟨rfl, .head _⟩
      | delete k =>
        change put key kv ∈
          (if (kvs.lookup k).isSome then (kvs.erase k, [delete k]) else (kvs, [])).2 at h
        split at h
        · cases List.mem_singleton.mp h
        · cases h
    · obtain ⟨hr, hmem⟩ := ih _ h
      exact ⟨hr, .tail _ hmem⟩

/-- The document that the key holds. -/
def stored (root : Key) (kvs : AList fun _ : Key => KeyValue) : Option PlatformConfig :=
  (kvs.lookup (platformConfigKey root)).bind fun kv =>
    match kv.value with
    | .config cfg => some { cfg with version := kv.modRevision }
    | _ => none

theorem write_current (root : Key) (x : Write) :
    ((KV.write r kvs x).2.map fun ev => (r, ev)).foldl (replace root) (stored root kvs) =
      stored root (KV.write r kvs x).1 := by
  unfold stored
  rw [KV.write_lookup]
  cases x with
  | put key value =>
    by_cases hkey : key = platformConfigKey root
    · cases value <;> simp [KV.write, KV.written, Write.key, replace, Event.key, document, hkey]
    · simp [KV.write, Write.key, replace, Event.key, hkey]
  | delete key =>
    by_cases hin : (kvs.lookup key).isSome
    · by_cases hkey : key = platformConfigKey root
      · subst hkey
        simp [KV.write, KV.written, Write.key, replace, Event.key, document, hin]
      · simp [KV.write, Write.key, replace, Event.key, hkey, hin]
    · -- nothing was there
      have hnone : kvs.lookup key = none := by simpa using hin
      by_cases hkey : key = platformConfigKey root
      · subst hkey
        simp [KV.write, KV.written, Write.key, hnone]
      · simp [KV.write, Write.key, hkey, hnone]

theorem events_current (root : Key) (xs : List Write) :
    ((writes r kvs xs).2.map fun ev => (r, ev)).foldl (replace root) (stored root kvs) =
      stored root (writes r kvs xs).1 := by
  induction xs generalizing kvs with
  | nil => rfl
  | cons x xs ih =>
    calc ((writes r kvs (x :: xs)).2.map fun ev => (r, ev)).foldl (replace root)
          (stored root kvs)
        = ((writes r (write r kvs x).1 xs).2.map fun ev => (r, ev)).foldl (replace root)
            (((write r kvs x).2.map fun ev => (r, ev)).foldl (replace root)
              (stored root kvs)) := by
          simp only [writes, List.map_append, List.foldl_append]
      _ = ((writes r (write r kvs x).1 xs).2.map fun ev => (r, ev)).foldl (replace root)
            (stored root (write r kvs x).1) := by rw [write_current]
      _ = stored root (writes r kvs (x :: xs)).1 := ih _

end Events

theorem puts_length_le (root : Key) (xs : List Revised)
    (h : (xs.map fun x => Event.key x.2).Nodup) : (puts root xs).length ≤ 1 := by
  have hcount : (puts root xs).length ≤
      (xs.map fun x => Event.key x.2).count (platformConfigKey root) := by
    clear h
    induction xs with
    | nil => exact le_rfl
    | cons x xs ih =>
      unfold puts at ih ⊢
      rw [List.filterMap_cons, List.map_cons, List.count_cons]
      split
      · omega
      · rename_i cfg hd
        rw [if_pos (beq_iff_eq.mpr (document_key hd).1), List.length_cons]
        omega
  exact hcount.trans (List.nodup_iff_count_le_one.mp h _)

/-! ## The history -/

namespace World

variable {w w' : World}

/-- What the history says of the key. -/
structure Recorded (w : World) : Prop where
  past : ∀ x ∈ w.history, x.1 ≤ w.etcd.revision
  revised : ∀ r key kv, (r, .put key kv) ∈ w.history → kv.modRevision = r ∧
    (key = platformConfigKey w.root → ∃ cfg, kv.value = .config cfg)
  latest : current w.root w.history = stored w.root w.etcd.kvs
  decodes : ∀ kv, w.etcd.get (platformConfigKey w.root) = some kv → ∃ cfg, kv.value = .config cfg
  ordered : ((puts w.root w.history).map PlatformConfig.version).Pairwise (· < ·)

theorem commit_cases (e : KV) (xs : List Write) : e.commit xs = (e, []) ∨
    e.commit xs = (⟨e.revision + 1, (writes (e.revision + 1) e.kvs xs).1⟩,
      (writes (e.revision + 1) e.kvs xs).2) := by
  simp only [commit]
  split
  · exact .inl rfl
  · exact .inr rfl

theorem documents_put {xs : List Write} (h : xs.all (documents root) = true) {value : Value}
    (hmem : .put (platformConfigKey root) value ∈ xs) : ∃ cfg, value = .config cfg := by
  have hone := List.all_eq_true.mp h _ hmem
  cases value with
  | config cfg => exact ⟨cfg, rfl⟩
  | user user => simp [documents, decodePlatformConfig, Except.isOk, Except.toBool] at hone
  | function function =>
    simp [documents, decodePlatformConfig, Except.isOk, Except.toBool] at hone

theorem writes_decodes (r : Nat) (kvs : AList fun _ : Key => KeyValue) {xs : List Write} {k : Key}
    (hxs : ∀ value, .put k value ∈ xs → ∃ cfg, value = .config cfg)
    (hkvs : ∀ kv, kvs.lookup k = some kv → ∃ cfg, kv.value = .config cfg) :
    ∀ kv, (writes r kvs xs).1.lookup k = some kv → ∃ cfg, kv.value = .config cfg := by
  induction xs generalizing kvs with
  | nil => exact hkvs
  | cons x xs ih =>
    refine ih (write r kvs x).1 (fun value hv => hxs value (.tail _ hv)) fun kv hkv => ?_
    rw [write_lookup] at hkv
    split at hkv
    · rename_i hkey
      cases x with
      | put key value =>
        cases hkv
        exact hxs value (by rw [← hkey]; exact .head _)
      | delete key => cases hkv
    · exact hkvs kv hkv

theorem Recorded.version_le (h : Recorded w) {cfg : PlatformConfig}
    (hmem : cfg ∈ puts w.root w.history) : cfg.version ≤ w.etcd.revision := by
  obtain ⟨x, hx, hd⟩ := mem_puts hmem
  rw [(document_key hd).2]
  exact h.past x hx

theorem Recorded.write (h : Recorded w) {xs : List Write} (hnodup : (xs.map Write.key).Nodup)
    (hdocs : xs.all (documents w.root) = true) :
    Recorded { w with
      etcd := ⟨w.etcd.revision + 1, (KV.writes (w.etcd.revision + 1) w.etcd.kvs xs).1⟩
      history := w.history ++ (KV.writes (w.etcd.revision + 1) w.etcd.kvs xs).2.map
        fun ev => (w.etcd.revision + 1, ev) } where
  past := by
    intro x hx
    rcases List.mem_append.mp hx with hx | hx
    · exact (h.past x hx).trans (Nat.le_succ _)
    · obtain ⟨ev, _, rfl⟩ := List.mem_map.mp hx
      exact le_rfl
  revised := by
    intro r key kv hx
    rcases List.mem_append.mp hx with hx | hx
    · exact h.revised r key kv hx
    · obtain ⟨ev, hev, he⟩ := List.mem_map.mp hx
      cases he
      obtain ⟨hr, hmem⟩ := events_put _ _ xs hev
      refine ⟨hr, fun hkey => documents_put hdocs ?_⟩
      exact hkey ▸ hmem
  latest := by
    change current w.root (w.history ++ _) = _
    rw [current_append, h.latest]
    exact events_current _ _ _ xs
  decodes := writes_decodes _ _ (fun _ hmem => documents_put hdocs hmem) h.decodes
  ordered := by
    change ((puts w.root (w.history ++ _)).map PlatformConfig.version).Pairwise (· < ·)
    rw [puts_append, List.map_append, List.pairwise_append]
    refine ⟨h.ordered, ?_, ?_⟩
    · have hone := puts_length_le w.root
        ((KV.writes (w.etcd.revision + 1) w.etcd.kvs xs).2.map fun ev => (w.etcd.revision + 1, ev))
        (by
          rw [List.map_map]
          exact (events_keys _ _ xs).nodup hnodup)
      match hp : puts w.root _, hone with
      | [], _ => exact .nil
      | [cfg], _ => exact List.pairwise_singleton _ _
    · intro a ha b hb
      obtain ⟨x, hx, rfl⟩ := List.mem_map.mp ha
      obtain ⟨y, hy, rfl⟩ := List.mem_map.mp hb
      obtain ⟨z, hz, hd⟩ := mem_puts hy
      obtain ⟨ev, _, rfl⟩ := List.mem_map.mp hz
      have hle := h.version_le hx
      have heq := (document_key hd).2
      simp only at heq
      omega

/-! ## What is emitted -/

end World

/-- The start of the watch, and how many of its events were received. -/
def PC.watching : PC → Option (Nat × Nat)
  | .first _ startRev => some (startRev, 0)
  | .watch startRev => some (startRev, 0)
  | .receive startRev seen => some (startRev, seen)
  | .events startRev seen _ => some (startRev, seen)
  | .send startRev seen _ _ => some (startRev, seen)
  | .get | .ended _ => none

/-- Events received and not handled. -/
def PC.rest : PC → List Revised
  | .events _ _ rest => rest
  | .send _ _ _ rest => rest
  | _ => []

/-- Documents received and not emitted. -/
def PC.held (root : Key) : PC → List PlatformConfig
  | .first cfg _ => [cfg]
  | .events _ _ rest => puts root rest
  | .send _ _ cfg rest => cfg :: puts root rest
  | _ => []

namespace World

variable {w w' : World} {r : Nat}

def remaining (w : World) (startRev seen : Nat) : List PlatformConfig :=
  puts w.root ((watched w.root w.history startRev).drop seen)

structure Flows (w : World) (r : Nat) : Prop where
  bound : r ≤ w.etcd.revision
  emits : w.emitted <+: expected w.root w.history r
  follows : ∀ s n, w.pc.watching = some (s, n) → s = r + 1 ∧
    n ≤ (watched w.root w.history s).length ∧
    w.emitted ++ (w.pc.held w.root ++ w.remaining s n) = expected w.root w.history r

structure Streams (w : World) : Prop extends Recorded w where
  unread : w.pc = .get → w.emitted = [] ∧ w.read = none
  rest : ∀ x ∈ w.pc.rest, x ∈ w.history ∧ Event.key x.2 = platformConfigKey w.root
  flows : ∀ r, w.read = some r → Flows w r

theorem Flows.move (h : Flows w r) {pc : PC}
    (hpc : ∀ s n, pc.watching = some (s, n) → n ≤ (watched w.root w.history s).length ∧
      ∃ m, w.pc.watching = some (s, m) ∧
        pc.held w.root ++ w.remaining s n = w.pc.held w.root ++ w.remaining s m) :
    Flows { w with pc := pc } r where
  bound := h.bound
  emits := h.emits
  follows := by
    intro s n hs
    obtain ⟨hn, m, hw, heq⟩ := hpc s n hs
    obtain ⟨hsr, _, hall⟩ := h.follows s m hw
    refine ⟨hsr, hn, ?_⟩
    rw [← hall]
    exact congrArg _ heq

theorem Flows.ended (h : Flows w r) (err : Option Status) :
    Flows { w with pc := .ended err } r :=
  h.move nofun

variable {s n : Nat} {a : Action}

theorem Flows.emit (h : Flows w r) {cfg : PlatformConfig} {pc : PC}
    (hw : w.pc.watching = some (s, n)) (hheld : w.pc.held w.root = cfg :: pc.held w.root)
    (hpc : pc.watching = some (s, n)) :
    Flows { w with emitted := w.emitted ++ [cfg], pc := pc } r := by
  obtain ⟨hsr, hn, hall⟩ := h.follows s n hw
  have hnext : (w.emitted ++ [cfg]) ++ (pc.held w.root ++ w.remaining s n) =
      expected w.root w.history r := by
    rw [← hall, hheld]
    simp
  refine ⟨h.bound, ⟨_, hnext⟩, fun s' n' hs' => ?_⟩
  rw [hpc] at hs'
  cases hs'
  exact ⟨hsr, hn, hnext⟩

theorem expected_append {history new : List Revised} (hnew : ∀ x ∈ new, r < x.1) :
    expected root (history ++ new) r = expected root history r ++ puts root new := by
  have hold : new.filter (fun x => x.1 ≤ r) = [] :=
    List.filter_eq_nil_iff.mpr fun x hx => by simpa using hnew x hx
  have hall : new.filter (fun x => r < x.1) = new :=
    List.filter_eq_self.mpr fun x hx => by simpa using hnew x hx
  unfold expected
  rw [List.filter_append, List.filter_append, hold, hall, List.append_nil, puts_append,
    List.append_assoc]

/-- The watch has what a transaction after the read puts. -/
theorem Flows.write (h : Flows w r) {e : KV} {new : List Revised} (he : r ≤ e.revision)
    (hnew : ∀ x ∈ new, r < x.1) :
    Flows { w with etcd := e, history := w.history ++ new } r where
  bound := he
  emits := by
    change w.emitted <+: expected w.root (w.history ++ new) r
    rw [expected_append hnew]
    exact h.emits.trans (List.prefix_append _ _)
  follows := by
    intro s n hs
    obtain ⟨hsr, hn, hall⟩ := h.follows s n hs
    have hwatched : watched w.root (w.history ++ new) s =
        watched w.root w.history s ++ watched w.root new s := List.filter_append ..
    have hputs : puts w.root (watched w.root new s) = puts w.root new := by
      have hself : new.filter (fun x => s ≤ x.1) = new :=
        List.filter_eq_self.mpr fun x hx => by
          have hlt := hnew x hx
          simp only [decide_eq_true_eq]
          omega
      rw [puts_watched, hself]
    refine ⟨hsr, ?_, ?_⟩
    · change n ≤ (watched w.root (w.history ++ new) s).length
      rw [hwatched, List.length_append]
      omega
    · change w.emitted ++ (w.pc.held w.root ++
        puts w.root ((watched w.root (w.history ++ new) s).drop n)) =
          expected w.root (w.history ++ new) r
      rw [expected_append hnew, ← hall, hwatched, List.drop_append_of_le_length hn, puts_append,
        hputs]
      simp only [remaining, List.append_assoc]

theorem Recorded.expected_now (h : Recorded w) :
    expected w.root w.history w.etcd.revision = (stored w.root w.etcd.kvs).toList := by
  have hold : w.history.filter (fun x => x.1 ≤ w.etcd.revision) = w.history :=
    List.filter_eq_self.mpr fun x hx => by simpa using h.past x hx
  have hnone : w.history.filter (fun x => w.etcd.revision < x.1) = [] :=
    List.filter_eq_nil_iff.mpr fun x hx => by simpa using h.past x hx
  unfold expected
  rw [hold, hnone, h.latest]
  exact List.append_nil _

theorem Recorded.watched_now (h : Recorded w) :
    watched w.root w.history (w.etcd.revision + 1) = [] :=
  List.filter_eq_nil_iff.mpr fun x hx => by
    have hle := h.past x hx
    simp only [decide_eq_true_eq, not_and]
    omega

theorem Streams.go (h : Streams w) {pc : PC} {emitted : List PlatformConfig} {read : Option Nat}
    (hget : pc ≠ .get)
    (hrest : ∀ x ∈ pc.rest, x ∈ w.history ∧ Event.key x.2 = platformConfigKey w.root)
    (hflows : ∀ r, read = some r →
      Flows { w with pc := pc, emitted := emitted, read := read } r) :
    Streams { w with pc := pc, emitted := emitted, read := read } where
  past := h.past
  revised := h.revised
  latest := h.latest
  decodes := h.decodes
  ordered := h.ordered
  unread hpc := absurd hpc hget
  rest := hrest
  flows := hflows

theorem Streams.starts (h : Streams w) (hpc : w.pc = .get) {pc : PC}
    (hwatching : pc.watching = some (w.etcd.revision + 1, 0)) (hrest : pc.rest = [])
    (hheld : pc.held w.root = (stored w.root w.etcd.kvs).toList) :
    Streams { w with pc := pc, read := some w.etcd.revision } := by
  have hall : w.emitted ++ (pc.held w.root ++ w.remaining (w.etcd.revision + 1) 0) =
      expected w.root w.history w.etcd.revision := by
    rw [(h.unread hpc).1, h.expected_now, hheld, remaining, h.watched_now]
    exact List.append_nil _
  refine h.go (fun he => by rw [he] at hwatching; cases hwatching)
    (fun x hx => by rw [hrest] at hx; cases hx) fun r hr => ?_
  cases hr
  refine ⟨le_rfl, ⟨_, hall⟩, fun s n hs => ?_⟩
  cases hwatching.symm.trans hs
  exact ⟨rfl, Nat.zero_le _, hall⟩

theorem Streams.readConfig (h : Streams w) (hpc : w.pc = .get) :
    Streams w.readConfig ∧ ∃ x, w.readConfig.pc.watching = some x := by
  unfold World.readConfig
  cases hget : w.etcd.get (platformConfigKey w.root) with
  | none =>
    refine ⟨h.starts hpc rfl rfl ?_, _, rfl⟩
    rw [stored, show w.etcd.kvs.lookup _ = _ from hget]
    rfl
  | some kv =>
    obtain ⟨cfg, hcfg⟩ := h.decodes kv hget
    have hdecode : decodePlatformConfig kv.value = .ok cfg := by rw [hcfg]; rfl
    simp only [hdecode]
    refine ⟨h.starts hpc rfl rfl ?_, _, rfl⟩
    rw [stored, show w.etcd.kvs.lookup _ = _ from hget, Option.bind_some, hcfg]
    rfl

/-- One round of the loop keeps what is held, and does not fail to decode. -/
theorem Streams.handle (h : Streams w) {rest : List Revised} (hpc : w.pc = .events s n rest) :
    (World.handle s n rest).watching = some (s, n) ∧
      (World.handle s n rest).held w.root = w.pc.held w.root ∧
      ∀ x ∈ (World.handle s n rest).rest, x ∈ rest := by
  rw [hpc]
  match rest, hpc with
  | [], _ => exact ⟨rfl, rfl, nofun⟩
  | (_, .delete key) :: rest, _ => exact ⟨rfl, rfl, fun x hx => .tail _ hx⟩
  | (v, .put key kv) :: rest, hpc =>
    obtain ⟨hmem, hkey⟩ := h.rest (v, .put key kv) (by rw [hpc]; exact .head _)
    obtain ⟨hv, hvalue⟩ := h.revised v key kv hmem
    obtain ⟨cfg, hcfg⟩ := hvalue hkey
    obtain ⟨value, created, modified⟩ := kv
    cases hcfg
    cases hv
    refine ⟨rfl, ?_, fun x hx => .tail _ hx⟩
    have hd : document w.root (modified, .put key ⟨.config cfg, created, modified⟩) =
        some { cfg with version := modified } := if_pos hkey
    change _ = List.filterMap (document w.root) (_ :: rest)
    rw [List.filterMap_cons, hd]
    rfl

/-! ## Steps -/

/-- The steps of the goroutine, with the responses it gets, and of the consumer. -/
def own : Action → Bool
  | .go | .respond _ | .take => true
  | _ => false

/-- What a step does. -/
inductive Moves (w : World) : Action → World → Prop
  | write {xs : List Write} (hnodup : (xs.map Write.key).Nodup)
      (hdocs : xs.all (documents w.root) = true) :
      Moves w (.write xs) { w with
        etcd := (w.etcd.commit xs).1
        history := w.history ++
          (w.etcd.commit xs).2.map fun ev => ((w.etcd.commit xs).1.revision, ev) }
  | read (hpc : w.pc = .get) : Moves w .go w.readConfig
  | emit {cfg : PlatformConfig} {pc : PC} {x : Nat × Nat} (hw : w.pc.watching = some x)
      (hpc : pc.watching = some x) (hheld : w.pc.held w.root = cfg :: pc.held w.root)
      (hrest : pc.rest = w.pc.rest) :
      Moves w .go { w with emitted := w.emitted ++ [cfg], pc := pc }
  | watch {s : Nat} (hpc : w.pc = .watch s) : Moves w .go { w with pc := .receive s 0 }
  | handle {s n : Nat} {rest : List Revised} (hpc : w.pc = .events s n rest) :
      Moves w .go { w with pc := handle s n rest }
  | respond {s n k : Nat} (hpc : w.pc = .receive s n)
      (hk : n + k ≤ (watched w.root w.history s).length) :
      Moves w (.respond k) { w with
        pc := .events s (n + k) (((watched w.root w.history s).drop n).take k) }
  | ended {a : Action} {err : Option Status} (ha : own a = false) :
      Moves w a { w with pc := .ended err }
  | take : Moves w .take { w with taken := w.taken + 1 }

theorem emit_moves {cfg : PlatformConfig} {pc : PC} {x : Nat × Nat}
    (hs : w.emit cfg pc = .ok w') (hw : w.pc.watching = some x) (hpc : pc.watching = some x)
    (hheld : w.pc.held w.root = cfg :: pc.held w.root) (hrest : pc.rest = w.pc.rest) :
    Moves w .go w' := by
  unfold emit at hs
  split at hs
  · cases hs
    exact .emit hw hpc hheld hrest
  · cases hs

theorem goroutine_moves (hs : w.goroutine = .ok w') : Moves w .go w' := by
  unfold goroutine at hs
  split at hs
  case h_1 hpc =>
    cases hs
    exact .read hpc
  case h_2 hpc => exact emit_moves hs (by rw [hpc]; rfl) rfl (by rw [hpc]; rfl) (by rw [hpc]; rfl)
  case h_3 hpc =>
    cases hs
    exact .watch hpc
  case h_4 hpc =>
    cases hs
    exact .handle hpc
  case h_5 hpc => exact emit_moves hs (by rw [hpc]; rfl) rfl (by rw [hpc]; rfl) (by rw [hpc]; rfl)
  case h_6 => cases hs

theorem step_moves (hs : w.step a = .ok w') : Moves w a w' := by
  cases a with
  | go => exact goroutine_moves hs
  | write xs =>
    simp only [step] at hs
    split at hs
    · rename_i hguard
      cases hs
      exact .write hguard.1 hguard.2
    · cases hs
  | respond k =>
    simp only [step] at hs
    split at hs
    · rename_i s n hpc
      split at hs
      · rename_i hk
        cases hs
        exact .respond hpc hk.2
      · cases hs
    · cases hs
  | cancel | fail err =>
    simp only [step] at hs
    split at hs <;> cases hs <;> exact .ended rfl
  | take =>
    simp only [step] at hs
    split at hs <;> cases hs
    exact .take

theorem Streams.respond (h : Streams w) {k : Nat} (hpc : w.pc = .receive s n)
    (hk : n + k ≤ (watched w.root w.history s).length) : Streams { w with
      pc := .events s (n + k) (((watched w.root w.history s).drop n).take k) } := by
  refine h.go nofun (fun x hx => ?_) fun r hr => ?_
  · have hmem : x ∈ watched w.root w.history s := List.mem_of_mem_drop (List.mem_of_mem_take hx)
    obtain ⟨hin, hcond⟩ := List.mem_filter.mp hmem
    exact ⟨hin, (of_decide_eq_true hcond).2⟩
  · refine (h.flows r hr).move fun s' n' hs' => ?_
    cases hs'
    refine ⟨hk, n, by rw [hpc]; rfl, ?_⟩
    rw [hpc]
    change puts w.root (((watched w.root w.history s).drop n).take k) ++
      puts w.root ((watched w.root w.history s).drop (n + k)) =
        [] ++ puts w.root ((watched w.root w.history s).drop n)
    rw [← puts_append, ← List.drop_drop, List.take_append_drop, List.nil_append]

theorem Streams.write (h : Streams w) {xs : List Write} (hnodup : (xs.map Write.key).Nodup)
    (hdocs : xs.all (documents w.root) = true) :
    Streams { w with
      etcd := (w.etcd.commit xs).1
      history := w.history ++
        (w.etcd.commit xs).2.map fun ev => ((w.etcd.commit xs).1.revision, ev) } := by
  rcases commit_cases w.etcd xs with hc | hc
  · rw [hc]
    simpa using h
  · rw [hc]
    refine ⟨h.toRecorded.write hnodup hdocs, h.unread, fun x hx => ?_, fun r hr => ?_⟩
    · obtain ⟨hin, hkey⟩ := h.rest x hx
      exact ⟨List.mem_append_left _ hin, hkey⟩
    · have hbound := (h.flows r hr).bound
      refine (h.flows r hr).write (hbound.trans (Nat.le_succ _)) fun x hx => ?_
      obtain ⟨ev, _, rfl⟩ := List.mem_map.mp hx
      exact Nat.lt_succ_of_le hbound

theorem watching_ne {pc : PC} {x : Nat × Nat} (h : pc.watching = some x) :
    pc ≠ .get ∧ ∀ e, pc ≠ .ended e := by
  cases pc with
  | get | ended => cases h
  | _ => exact ⟨nofun, nofun⟩

theorem Moves.streams (hm : Moves w a w') (h : Streams w) : Streams w' := by
  cases hm with
  | write hnodup hdocs => exact h.write hnodup hdocs
  | read hpc => exact (h.readConfig hpc).1
  | emit hw hpc hheld hrest =>
    exact h.go (watching_ne hpc).1 (by rw [hrest]; exact h.rest)
      fun r hr => (h.flows r hr).emit hw hheld hpc
  | watch hpc =>
    refine h.go nofun nofun fun r hr => (h.flows r hr).move fun s' n hs' => ?_
    cases hs'
    exact ⟨Nat.zero_le _, 0, by rw [hpc]; rfl, by rw [hpc]; rfl⟩
  | @handle s n rest hpc =>
    obtain ⟨hwatching, hheld, hsub⟩ := h.handle hpc
    have hw : w.pc.watching = some (s, n) := by rw [hpc]; rfl
    refine h.go (watching_ne hwatching).1
      (fun x hx => h.rest x (by rw [hpc]; exact hsub x hx)) fun r hr => ?_
    refine (h.flows r hr).move fun s' n' hs' => ?_
    cases hwatching.symm.trans hs'
    exact ⟨((h.flows r hr).follows s n hw).2.1, n, hw, by rw [hheld]⟩
  | respond hpc hk => exact h.respond hpc hk
  | ended => exact h.go nofun nofun fun r hr => (h.flows r hr).ended _
  | take =>
    exact ⟨⟨h.past, h.revised, h.latest, h.decodes, h.ordered⟩, h.unread, h.rest,
      fun r hr => ⟨(h.flows r hr).bound, (h.flows r hr).emits, (h.flows r hr).follows⟩⟩

/-- The goroutine and the consumer do not end the watch. -/
theorem Moves.live (hm : Moves w a w') (h : Streams w) (hown : own a = true) :
    a = .take ∧ w'.pc = w.pc ∨ w'.pc ≠ .get ∧ ∀ e, w'.pc ≠ .ended e := by
  cases hm with
  | write => cases hown
  | ended ha =>
    rw [ha] at hown
    cases hown
  | take => exact .inl ⟨rfl, rfl⟩
  | read hpc =>
    obtain ⟨x, hx⟩ := (h.readConfig hpc).2
    exact .inr (watching_ne hx)
  | emit _ hpc => exact .inr (watching_ne hpc)
  | handle hpc => exact .inr (watching_ne (h.handle hpc).1)
  | watch | respond => exact .inr ⟨nofun, nofun⟩

theorem init_streams (root : Key) : Streams (init root) where
  past x hx := by cases hx
  revised r key kv hx := by cases hx
  latest := rfl
  decodes kv hkv := by
    have hkv : (∅ : AList fun _ : Key => KeyValue).lookup _ = some kv := hkv
    simp at hkv
  ordered := .nil
  unread _ := ⟨rfl, rfl⟩
  rest x hx := by cases hx
  flows r hr := by cases hr

theorem Recorded.increasing (h : Recorded w) (r : Nat) :
    ((expected w.root w.history r).map PlatformConfig.version).Pairwise (· < ·) := by
  unfold expected
  rw [List.map_append, List.pairwise_append]
  have hsub : (puts w.root (w.history.filter fun x => r < x.1)).Sublist
      (puts w.root w.history) := List.Sublist.filterMap _ List.filter_sublist
  refine ⟨?_, h.ordered.sublist (hsub.map _), fun a ha b hb => ?_⟩
  · cases current w.root (w.history.filter fun x => x.1 ≤ r) with
    | none => exact .nil
    | some cfg => exact List.pairwise_singleton _ _
  · obtain ⟨cfg, hcfg, rfl⟩ := List.mem_map.mp ha
    obtain ⟨cfg', hcfg', rfl⟩ := List.mem_map.mp hb
    obtain ⟨x, hx, hd⟩ := mem_puts (current_mem (Option.mem_toList.mp hcfg))
    obtain ⟨y, hy, hd'⟩ := mem_puts hcfg'
    have hxr := of_decide_eq_true (List.mem_filter.mp hx).2
    have hyr := of_decide_eq_true (List.mem_filter.mp hy).2
    rw [(document_key hd).2, (document_key hd').2]
    omega

/-! ## All of it is emitted -/

def rank (w : World) : Nat :=
  match w.pc with
  | .first _ s => 4 * (watched w.root w.history s).length + 2
  | .watch s => 4 * (watched w.root w.history s).length + 1
  | .receive s n => 4 * ((watched w.root w.history s).length - n)
  | .events s n rest => 4 * ((watched w.root w.history s).length - n) + 2 * rest.length + 1
  | .send s n _ rest => 4 * ((watched w.root w.history s).length - n) + 2 * rest.length + 2
  | .get | .ended _ => 0

/-- A full channel is emptied by one, else the goroutine goes on. -/
def work (w : World) : Nat := 10 * w.rank + (w.emitted.length - w.taken)

/-- `w'` is nearer to the end of the same history. -/
structure Nearer (w w' : World) : Prop where
  root : w'.root = w.root
  history : w'.history = w.history
  read : w'.read = w.read
  less : w'.work < w.work

theorem emit_nearer (cfg : PlatformConfig) (pc : PC) (hgo : w.goroutine = w.emit cfg pc)
    (hrank : ({ w with emitted := w.emitted ++ [cfg], pc := pc } : World).rank < w.rank) :
    ∃ a w', own a = true ∧ w.step a = .ok w' ∧ Nearer w w' := by
  by_cases hroom : w.emitted.length - w.taken < capacity
  · refine ⟨.go, _, rfl, (hgo.trans (if_pos hroom)), rfl, rfl, rfl, ?_⟩
    simp only [work, List.length_append, List.length_singleton] at hrank ⊢
    omega
  · have htake : w.taken < w.emitted.length := by
      simp only [capacity] at hroom
      omega
    refine ⟨.take, _, rfl, if_pos htake, rfl, rfl, rfl, ?_⟩
    simp only [work, rank]
    omega

theorem Streams.nearer (h : Streams w) (hr : w.read = some r) (hlive : ∀ e, w.pc ≠ .ended e)
    (hget : w.pc ≠ .get)
    (hmore : ∀ s n, w.pc = .receive s n → n ≠ (watched w.root w.history s).length) :
    ∃ a w', own a = true ∧ w.step a = .ok w' ∧ Nearer w w' := by
  cases hpc : w.pc with
  | get => exact absurd hpc hget
  | ended e => exact absurd hpc (hlive e)
  | first cfg s =>
    refine emit_nearer cfg (.watch s) (by simp only [World.goroutine, hpc]) ?_
    simp only [rank, hpc]
    omega
  | watch s =>
    refine ⟨.go, { w with pc := .receive s 0 }, rfl, by simp only [World.step, World.goroutine, hpc],
      rfl, rfl, rfl, ?_⟩
    simp only [work, rank, hpc]
    omega
  | receive s n =>
    have hle := ((h.flows r hr).follows s n (by rw [hpc]; rfl)).2.1
    have hne := hmore s n hpc
    have hk : 0 < 1 ∧ n + 1 ≤ (watched w.root w.history s).length := ⟨Nat.one_pos, by omega⟩
    have hstep : w.step (.respond 1) = .ok { w with
        pc := .events s (n + 1) (((watched w.root w.history s).drop n).take 1) } := by
      simp only [World.step, hpc]
      exact if_pos hk
    refine ⟨.respond 1, _, rfl, hstep, rfl, rfl, rfl, ?_⟩
    simp only [work, rank, hpc, List.length_take, List.length_drop]
    omega
  | events s n rest =>
    refine ⟨.go, { w with pc := World.handle s n rest }, rfl,
      by simp only [World.step, World.goroutine, hpc], rfl, rfl, rfl, ?_⟩
    have hwatching := (h.handle hpc).1
    match rest with
    | [] =>
      simp only [work, rank, hpc, World.handle, List.length_nil]
      omega
    | (_, .delete _) :: rest =>
      simp only [work, rank, hpc, World.handle, List.length_cons]
      omega
    | (_, .put _ kv) :: rest =>
      cases hd : decodePlatformConfig kv.value with
      | error e =>
        simp only [World.handle, hd] at hwatching
        cases hwatching
      | ok cfg =>
        simp only [work, rank, hpc, World.handle, hd, List.length_cons]
        omega
  | send s n cfg rest =>
    refine emit_nearer cfg (.events s n rest)
      (by simp only [World.goroutine, hpc]) ?_
    simp only [rank, hpc]
    omega

/-- The goroutine and the consumer alone get to the end of the history. -/
theorem Streams.drains (h : Streams w) (hr : w.read = some r) (hlive : ∀ e, w.pc ≠ .ended e)
    (hget : w.pc ≠ .get) :
    ∃ as w', machine.run (fun _ a => own a) w as = some w' ∧ w'.history = w.history ∧
      w'.emitted = expected w.root w.history r := by
  induction hm : w.work using Nat.strong_induction_on generalizing w with
  | _ m ih =>
    by_cases hend : ∃ s n, w.pc = .receive s n ∧ n = (watched w.root w.history s).length
    · obtain ⟨s, n, hpc, hn⟩ := hend
      obtain ⟨_, _, hall⟩ := (h.flows r hr).follows s n (by rw [hpc]; rfl)
      have hnone : w.remaining s n = [] := by
        unfold remaining
        rw [hn, List.drop_length]
        rfl
      have hheld : w.pc.held w.root = [] := by rw [hpc]; rfl
      rw [hnone, hheld, List.append_nil, List.append_nil] at hall
      exact ⟨[], w, rfl, rfl, hall⟩
    · obtain ⟨a, w₁, hown, hstep, hnear⟩ := h.nearer hr hlive hget
        fun s n hpc hn => hend ⟨s, n, hpc, hn⟩
      have hmoves := step_moves hstep
      have hplace : w₁.pc ≠ .get ∧ ∀ e, w₁.pc ≠ .ended e := by
        rcases hmoves.live h hown with ⟨-, hpc⟩ | hplace
        · rw [hpc]
          exact ⟨hget, hlive⟩
        · exact hplace
      obtain ⟨as, w', hrun, hhist, hemit⟩ := ih w₁.work (hm ▸ hnear.less) (hmoves.streams h)
        (hnear.read.trans hr) hplace.2 hplace.1 rfl
      refine ⟨a :: as, w', ?_, hhist.trans hnear.history, ?_⟩
      · have hmstep : machine.step w a = .ok w₁ := hstep
        simp only [Lib.Machine.run, hown, if_true, hmstep]
        exact hrun
      · rw [hemit, hnear.root, hnear.history]

end World

/-- **No gap and no duplicate.** A step of the goroutine does not end the watch: only the
context and an error of etcd do. -/
theorem config_watch_gap_free {w : World} (hw : machine.Reachable w) :
    (∀ w' e, w.step .go = .ok w' → w'.pc ≠ .ended e) ∧
    ∀ r, w.read = some r →
      w.emitted <+: expected w.root w.history r ∧
      ((expected w.root w.history r).map PlatformConfig.version).Pairwise (· < ·) ∧
      ((∀ e, w.pc ≠ .ended e) → ∃ as w',
        machine.run (fun _ a => World.own a) w as = some w' ∧ w'.history = w.history ∧
          w'.emitted = expected w.root w.history r) := by
  have h : w.Streams := by
    refine hw.invariant (I := World.Streams) ?_ fun _ _ _ hi hs => (World.step_moves hs).streams hi
    rintro _ ⟨root, rfl⟩
    exact World.init_streams root
  refine ⟨fun w' e hs => ?_, fun r hr => ⟨(h.flows r hr).emits, h.toRecorded.increasing r,
    fun hlive => h.drains hr hlive fun hpc => ?_⟩⟩
  · rcases (World.step_moves hs).live h rfl with ⟨ha, -⟩ | hplace
    · cases ha
    · exact hplace.2 e
  · rw [(h.unread hpc).2] at hr
    cases hr

/-- A put between the read and the watch, and a deletion after it. -/
theorem config_watch_gap_free_between :
    ∃ w, machine.Reachable w ∧ w.emitted = [⟨2, "a"⟩, ⟨3, "b"⟩] ∧
      w.emitted <+: expected w.root w.history 2 := by
  obtain ⟨w, hw, hemitted, hread⟩ := machine.exists_of_run
    (Q := fun w => w.emitted = [⟨2, "a"⟩, ⟨3, "b"⟩] ∧ w.read = some 2) (.init [])
    [.write [.put (platformConfigKey []) (.config ⟨0, "a"⟩)], .go,
      .write [.put (platformConfigKey []) (.config ⟨0, "b"⟩)],
      .write [.delete (platformConfigKey [])], .go, .go, .respond 2, .go, .go, .go] ⟨[], rfl⟩
    (by decide +kernel)
  exact ⟨w, hw, hemitted, ((config_watch_gap_free hw).2 2 hread).1⟩

end HyperFaaS.ControlPlane.Etcd.ConfigWatch
