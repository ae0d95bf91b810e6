import HyperFaaS.ControlPlane.EtcdStore
import HyperFaaS.Lib.Machine

/-!
The default platform configuration. Every replica of the control plane seeds it when it
starts (`seedPlatformConfig`, server.go): it reads the document, and writes the default
when there is none. Any number of replicas start while clients write documents through
`PutPlatformConfig` and other calls write other keys. A call may fail at every point.

Proved here (`seeding_keeps`): a client's document is not replaced by a default, if no
client writes while a replica has found no document and has not written. The write of the
default is not conditional on what was read, so otherwise it is (`default_replaces`).
-/

namespace HyperFaaS.ControlPlane.Etcd.Seeding

inductive Fault
  | disabled
  deriving DecidableEq, Repr

inductive Writer
  | replica
  | client
  deriving DecidableEq, Repr

/-- The operation on etcd that comes next. -/
inductive PC
  | idle
  | get
  | write (writer : Writer) (cfg : PlatformConfig) (expectedVersion : Nat)
  | read (cfg : PlatformConfig)
  | done (err : Option Status)
  deriving DecidableEq, Repr

/-- `log`: who wrote the documents, the newest first. -/
structure World where
  root : Key
  defaultConfig : PlatformConfig
  etcd : KV
  ncalls : Nat
  pc : Nat → PC
  log : List Writer

inductive Action
  | start
  | put (cfg : PlatformConfig) (expectedVersion : Nat)
  | other (xs : List Write)
  | step (i : Nat)
  | fail (i : Nat) (err : Status)

namespace World

/-- The configuration calls do not use the counters. -/
def store (w : World) : Store := ⟨w.root, w.etcd, 1, 1⟩

def go (w : World) (i : Nat) (x : PC) : World := { w with pc := Function.update w.pc i x }

def enter (w : World) (x : PC) : World := { w.go w.ncalls x with ncalls := w.ncalls + 1 }

/-- What `seedPlatformConfig` does with the reply of `GetPlatformConfig`. -/
def seed (w : World) : PC :=
  match w.store.getPlatformConfig.1 with
  | .ok _ => .done none
  | .error e => if e.code = .notFound then .write .replica w.defaultConfig 0 else .done (some e)

def advance (w : World) (i : Nat) : Except Fault World :=
  match w.pc i with
  | .get => .ok (w.go i w.seed)
  | .write writer cfg expectedVersion =>
      match w.store.writeConfig cfg expectedVersion with
      | .error e => .ok (w.go i (.done (some e)))
      | .ok s => .ok { w.go i (.read cfg) with etcd := s.etcd, log := writer :: w.log }
  | .read cfg =>
      match w.store.readVersion cfg with
      | .error e => .ok (w.go i (.done (some e)))
      | .ok _ => .ok (w.go i (.done none))
  | _ => .error .disabled

def step (w : World) : Action → Except Fault World
  | .start => .ok (w.enter .get)
  | .put cfg expectedVersion => .ok (w.enter (.write .client cfg expectedVersion))
  | .other xs =>
      if ∀ x ∈ xs, x.key ≠ platformConfigKey w.root then
        .ok { w with etcd := (w.etcd.commit xs).1 }
      else .error .disabled
  | .step i => w.advance i
  | .fail i err =>
      match w.pc i with
      | .idle | .done _ => .error .disabled
      | _ => .ok (w.go i (.done (some err)))

def init (root : Key) (defaultConfig : PlatformConfig) : World where
  root := root
  defaultConfig := defaultConfig
  etcd := ⟨1, ∅⟩
  ncalls := 0
  pc := fun _ => .idle
  log := []

/-- A replica that is about to write its default. -/
def seeding : PC → Bool
  | .write .replica _ _ => true
  | _ => false

/-- No client writes while a replica is about to write. -/
def apart (w : World) : Action → Bool
  | .step i =>
      match w.pc i with
      | .write .client _ _ => (List.range w.ncalls).all fun j => !seeding (w.pc j)
      | _ => true
  | _ => true

end World

def machine : Lib.Machine World Action Fault where
  start := fun w => ∃ root cfg, w = World.init root cfg
  step := World.step

/-- A default stands right after a client's document. -/
def Replaced (log : List Writer) : Prop :=
  ∃ newer older, log = newer ++ .replica :: .client :: older

theorem replaced_cons {x : Writer} {log : List Writer} (h : Replaced (x :: log)) :
    Replaced log ∨ x = .replica ∧ .client ∈ log := by
  obtain ⟨newer, older, he⟩ := h
  cases newer with
  | nil =>
    cases he
    exact .inr ⟨rfl, .head _⟩
  | cons y newer =>
    cases he
    exact .inl ⟨newer, older, rfl⟩

/-! ## Seeding -/

namespace World

variable {w w' : World} {i : Nat}

/-- `kept` is the result; a document that is there stops every later replica. -/
structure Seeded (w : World) : Prop where
  bounded : ∀ j, w.ncalls ≤ j → w.pc j = .idle
  stored : w.log ≠ [] → (w.etcd.get (platformConfigKey w.root)).isSome = true
  quiet : .client ∈ w.log → ∀ j, seeding (w.pc j) = false
  kept : ¬ Replaced w.log

theorem Seeded.go (h : Seeded w) {x : PC} (hi : w.pc i ≠ .idle)
    (hx : .client ∈ w.log → seeding x = false) : Seeded (w.go i x) where
  bounded := by
    intro j hj
    have hji : j ≠ i := by
      rintro rfl
      exact hi (h.bounded j hj)
    exact (Function.update_of_ne hji _ _).trans (h.bounded j hj)
  stored := h.stored
  quiet := by
    intro hc j
    by_cases hji : j = i
    · subst hji
      simpa [World.go] using hx hc
    · simpa [World.go, Function.update_of_ne hji] using h.quiet hc j
  kept := h.kept

theorem Seeded.enter (h : Seeded w) {x : PC} (hx : seeding x = false) : Seeded (w.enter x) where
  bounded := by
    intro j hj
    have hj : w.ncalls + 1 ≤ j := hj
    exact (Function.update_of_ne (by omega) _ _).trans (h.bounded j (by omega))
  stored := h.stored
  quiet := by
    intro hc j
    by_cases hji : j = w.ncalls
    · subst hji
      simpa [World.enter, World.go] using hx
    · simpa [World.enter, World.go, Function.update_of_ne hji] using h.quiet hc j
  kept := h.kept

/-- After a document was written no replica finds the key missing. -/
theorem Seeded.seed (h : Seeded w) (hc : .client ∈ w.log) : seeding w.seed = false := by
  obtain ⟨kv, hkv⟩ := Option.isSome_iff_exists.mp (h.stored (List.ne_nil_of_mem hc))
  have hget : w.store.etcd.get (platformConfigKey w.store.root) = some kv := hkv
  simp only [World.seed, Store.getPlatformConfig, hget]
  cases kv.value with
  | config cfg => rfl
  | user user => rfl
  | function function => rfl

theorem writeConfig_etcd {cfg : PlatformConfig} {v : Nat} {s s' : Store}
    (hs : s.writeConfig cfg v = .ok s') :
    s'.etcd = (s.etcd.commit [.put (platformConfigKey s.root) (.config cfg)]).1 := by
  unfold Store.writeConfig at hs
  split at hs
  · cases hs
    rfl
  · cases hs

theorem Seeded.write (h : Seeded w) {writer : Writer} {cfg : PlatformConfig} {v : Nat} {s : Store}
    (hpc : w.pc i = .write writer cfg v) (hok : w.apart (.step i) = true)
    (hs : w.store.writeConfig cfg v = .ok s) :
    Seeded { w.go i (.read cfg) with etcd := s.etcd, log := writer :: w.log } := by
  have hgo : Seeded (w.go i (.read cfg)) := h.go (by rw [hpc]; exact PC.noConfusion) fun _ => rfl
  refine ⟨hgo.bounded, fun _ => ?_, fun hc j => ?_, fun hr => ?_⟩
  · have hget : s.etcd.get (platformConfigKey w.root)
        = some (w.etcd.putEntry (platformConfigKey w.root) (.config cfg)) := by
      rw [writeConfig_etcd hs]
      exact (KV.get_put _ _ _ _).trans (if_pos rfl)
    exact (congrArg Option.isSome hget).trans rfl
  · -- a client that writes now found no replica about to write
    rcases List.mem_cons.mp hc with hwriter | hc
    · subst hwriter
      simp only [apart, hpc, List.all_eq_true, List.mem_range, Bool.not_eq_true'] at hok
      by_cases hji : j = i
      · subst hji
        simp [World.go, seeding]
      · have hj : seeding (w.pc j) = false := by
          by_cases hlt : j < w.ncalls
          · exact hok j hlt
          · rw [h.bounded j (Nat.le_of_not_lt hlt)]
            rfl
        simpa [World.go, Function.update_of_ne hji] using hj
    · exact hgo.quiet hc j
  · rcases replaced_cons hr with hr | ⟨rfl, hc⟩
    · exact h.kept hr
    · have hquiet := h.quiet hc i
      rw [hpc] at hquiet
      cases hquiet

theorem Seeded.advance (h : Seeded w) (hok : w.apart (.step i) = true)
    (hs : w.advance i = .ok w') : Seeded w' := by
  unfold World.advance at hs
  split at hs
  · rename_i hpc
    cases hs
    exact h.go (by rw [hpc]; exact PC.noConfusion) h.seed
  · rename_i writer cfg v hpc
    split at hs
    · cases hs
      exact h.go (by rw [hpc]; exact PC.noConfusion) fun _ => rfl
    · rename_i s hwrite
      cases hs
      exact h.write hpc hok hwrite
  · rename_i cfg hpc
    split at hs
    · cases hs
      exact h.go (by rw [hpc]; exact PC.noConfusion) fun _ => rfl
    · cases hs
      exact h.go (by rw [hpc]; exact PC.noConfusion) fun _ => rfl
  · cases hs

theorem Seeded.step (h : Seeded w) {a : Action} (hok : w.apart a = true)
    (hs : w.step a = .ok w') : Seeded w' := by
  cases a with
  | start =>
    cases hs
    exact h.enter rfl
  | put cfg v =>
    cases hs
    exact h.enter rfl
  | other xs =>
    simp only [World.step] at hs
    split at hs
    · rename_i hne
      cases hs
      refine ⟨h.bounded, fun hl => ?_, h.quiet, h.kept⟩
      exact (congrArg Option.isSome (KV.get_commit_ne _ hne)).trans (h.stored hl)
    · cases hs
  | step i => exact h.advance hok hs
  | fail i err =>
    simp only [World.step] at hs
    split at hs
    · cases hs
    · cases hs
    · rename_i hidle hdone
      cases hs
      exact h.go (fun he => hidle he) fun _ => rfl

theorem init_seeded (root : Key) (cfg : PlatformConfig) : Seeded (init root cfg) where
  bounded _ _ := rfl
  stored h := absurd rfl h
  quiet h := by cases h
  kept := by
    rintro ⟨newer, older, he⟩
    cases newer <;> cases he

end World

/-- **No default replaces a client's document.** -/
theorem seeding_keeps {w : World} (hw : machine.ReachesWhile (fun w a => w.apart a = true) w) :
    ¬ Replaced w.log := by
  have hseeded : w.Seeded := by
    refine hw.invariant ?_ fun _ _ _ hi hok hs => World.Seeded.step hi hok hs
    rintro _ ⟨root, cfg, rfl⟩
    exact World.init_seeded root cfg
  exact hseeded.kept

/-- A replica seeds, a client writes, and a second replica starts. -/
theorem seeding_keeps_restarted :
    ∃ w, machine.ReachesWhile (fun w a => w.apart a = true) w ∧
      w.log = [.client, .replica] ∧ w.pc 2 = .done none ∧ ¬ Replaced w.log := by
  obtain ⟨w, hw, hlog, hpc⟩ := machine.exists_while_of_run (P := fun w a => w.apart a = true)
    (Q := fun w => w.log = [.client, .replica] ∧ w.pc 2 = .done none) (.init [] ⟨0, "default"⟩)
    [.start, .step 0, .step 0, .step 0, .put ⟨0, "client"⟩ 0, .step 1, .step 1, .start, .step 2]
    ⟨[], _, rfl⟩ (by decide +kernel)
  exact ⟨w, hw, hlog, hpc, seeding_keeps hw⟩

/-- A client's call returns between the replica's read and its write. -/
theorem default_replaces :
    ∃ w, machine.Reachable w ∧ w.pc 1 = .done none ∧ Replaced w.log ∧
      (w.etcd.get (platformConfigKey w.root)).map KeyValue.value =
        some (.config w.defaultConfig) := by
  obtain ⟨w, hw, hpc, hlog, hget⟩ := machine.exists_of_run
    (Q := fun w => w.pc 1 = .done none ∧ w.log = [.replica, .client] ∧
      (w.etcd.get (platformConfigKey w.root)).map KeyValue.value =
        some (.config w.defaultConfig)) (.init [] ⟨0, "default"⟩)
    [.start, .step 0, .put ⟨0, "client"⟩ 0, .step 1, .step 1, .step 0] ⟨[], _, rfl⟩
    (by decide +kernel)
  exact ⟨w, hw, hpc, ⟨[], [], hlog⟩, hget⟩

end HyperFaaS.ControlPlane.Etcd.Seeding
