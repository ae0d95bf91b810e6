import HyperFaaS.ControlPlane.EtcdCalls

/-!
The version that `PutPlatformConfig` returns. The call writes the document, and then
reads the key again to learn the revision of its write.

Proved here (`config_write_version`): the returned version is that of the call's own
write, and a write that expects a returned version replaces the document of the call
that returned it, if no document is written while another call is between its write
and its read. Otherwise a call returns the version of somebody else's document, and
its client's next write replaces that document (`foreign_version`). Of the writes that
expect one version at most one is stored (`one_write_per_version`).
-/

namespace HyperFaaS.ControlPlane.Etcd

namespace World

variable {w w' : World} {i : Nat}

/-- A `PutPlatformConfig` that has written and not read. -/
def reading : PC → Bool
  | .readVersion _ => true
  | _ => false

/-- No document is written while another call has its version still to read. -/
def settled (w : World) : Action → Bool
  | .step i =>
      match w.pc i with
      | .writeConfig _ _ => (List.range w.ncalls).all fun j => !reading (w.pc j)
      | _ => true
  | _ => true

structure Versions (w : World) : Prop extends Formed w where
  /-- the key holds the newest of the documents written -/
  latest : ∀ kv, w.etcd.get (platformConfigKey w.root) = some kv →
    ∃ cfg j, w.written kv.modRevision = some (cfg, j)
  newest : ∀ r x, w.written r = some x →
    ∃ kv, w.etcd.get (platformConfigKey w.root) = some kv ∧ r ≤ kv.modRevision
  reads : ∀ j cfg, w.pc j = .readVersion cfg →
    ∃ kv, w.etcd.get (platformConfigKey w.root) = some kv ∧
      w.written kv.modRevision = some (cfg, j)
  returned : ∀ j cfg, w.pc j = .done (.ok (.config cfg)) →
    0 < cfg.version ∧
      ∃ c, w.written cfg.version = some (c, j) ∧ cfg = { c with version := cfg.version }

theorem Wrote.get {cfg : PlatformConfig} {v : Nat} (h : Wrote w i cfg v w') :
    ∃ kv, w'.etcd.get (platformConfigKey w.root) = some kv ∧ kv.modRevision = w.etcd.revision + 1 ∧
      w'.etcd.revision = w.etcd.revision + 1 := by
  refine ⟨w.etcd.putEntry (platformConfigKey w.root) (.config cfg), ?_, rfl, ?_⟩
  · rw [h.etcd, KV.get_put, if_pos rfl]
  · rw [h.etcd, KV.commit_put]

theorem Versions.fresh_revision (h : Versions w) {r : Nat} {x : PlatformConfig × Nat}
    (hr : w.written r = some x) : r ≠ w.etcd.revision + 1 := by
  obtain ⟨kv, hkv, hle⟩ := h.newest r x hr
  have hmod := (h.shaped.modified _ _ hkv).2
  omega

theorem Versions.advance (h : Versions w) (hok : w.settled (.step i) = true)
    (hs : Steps w i w') : Versions w' := by
  have hformed := h.toFormed.advance hs
  rcases hs.config with ⟨hwritten, hplace, hget⟩ | ⟨cfg, v, hplace, hwrote⟩
  · -- the key and the history stay
    refine ⟨hformed, ?_, ?_, fun j cfg hj => ?_, fun j cfg hj => ?_⟩
    · rw [hs.root, hget, hwritten]
      exact h.latest
    · rw [hs.root, hget, hwritten]
      exact h.newest
    · have hji : j ≠ i := by
        rintro rfl
        exact hplace cfg hj
      rw [hs.root, hget, hwritten]
      exact h.reads j cfg (hs.other j hji ▸ hj)
    · rw [hwritten]
      by_cases hji : j = i
      · subst hji
        have hmoves := hs.moves
        rw [hj] at hmoves
        generalize hcfg : cfg = stored at hmoves
        cases hmoves with
        | read c kv hpc hkv =>
          obtain ⟨kv', hkv', hown⟩ := h.reads j c hpc
          rw [hkv] at hkv'
          cases hkv'
          have hcreated := h.shaped.created _ _ hkv
          have hmod := (h.shaped.modified _ _ hkv).1
          exact ⟨by simp only; omega, c, hown, rfl⟩
        | done _ hnot => exact absurd rfl (hnot stored)
      · exact h.returned j cfg (hs.other j hji ▸ hj)
  · -- a document is written, and nobody else is reading
    obtain ⟨kv, hkv, hmod, hrev⟩ := hwrote.get
    simp only [settled, hwrote.place] at hok
    have hnone := h.toFormed.quiet rfl hok
    have hwritten : ∀ r x, w.written r = some x → w'.written r = some x := by
      intro r x hr
      rw [hwrote.written, hrev, Function.update_of_ne (h.fresh_revision hr)]
      exact hr
    have hown : w'.written kv.modRevision = some (cfg, i) := by
      rw [hwrote.written, hrev, hmod, Function.update_self]
    refine ⟨hformed, fun kv' hkv' => ?_, fun r x hr => ?_, fun j c hj => ?_, fun j c hj => ?_⟩
    · rw [hs.root, hkv] at hkv'
      cases hkv'
      exact ⟨cfg, i, hown⟩
    · refine ⟨kv, by rw [hs.root, hkv], ?_⟩
      rw [hwrote.written, hrev] at hr
      by_cases he : r = w.etcd.revision + 1
      · omega
      · rw [Function.update_of_ne he] at hr
        obtain ⟨kv', hkv', hle⟩ := h.newest r x hr
        have hle' := (h.shaped.modified _ _ hkv').2
        omega
    · by_cases hji : j = i
      · subst hji
        rw [hplace] at hj
        cases hj
        exact ⟨kv, by rw [hs.root, hkv], hown⟩
      · have hreading := hnone j
        rw [← hs.other j hji, hj] at hreading
        cases hreading
    · have hji : j ≠ i := by
        rintro rfl
        rw [hplace] at hj
        cases hj
      obtain ⟨hpos, c', hc', he⟩ := h.returned j c (hs.other j hji ▸ hj)
      exact ⟨hpos, c', hwritten _ _ hc', he⟩

theorem Versions.step (h : Versions w) {a : Action} (hok : w.settled a = true)
    (hs : w.step a = .ok w') : Versions w' := by
  cases a with
  | enter plane op =>
    have hformed := h.toFormed.enter hs
    obtain ⟨x, hx, rfl⟩ := enter_ok hs
    refine ⟨hformed, h.latest, h.newest, fun j cfg hj => ?_, fun j cfg hj => ?_⟩
    · rcases update_cases w.pc w.ncalls j x with he | he
      · exact h.reads j cfg (he.symm.trans hj)
      · rw [he.symm.trans hj] at hx
        cases hx
    · rcases update_cases w.pc w.ncalls j x with he | he
      · exact h.returned j cfg (he.symm.trans hj)
      · rw [he.symm.trans hj] at hx
        cases hx
  | step i => exact h.advance hok (h.toFormed.steps hs)
  | restart plane =>
    have hformed := h.toFormed.step hs
    cases hs
    exact ⟨hformed, h.latest, h.newest, h.reads, h.returned⟩

theorem init_versions (root : Key) : Versions (init root) := by
  refine ⟨init_formed root, fun kv hkv => ?_, fun r x hr => ?_, fun j cfg hj => ?_,
    fun j cfg hj => ?_⟩
  · simp [init, KV.get] at hkv
  · cases hr
  · cases hj
  · cases hj

/-- In every run where no document is written while another call has its version still
to read: a call that returns a document with a version has stored that document at that
version; and a write that expects a version returned by call `i` succeeds only if no
document was stored after the one of call `i`. -/
theorem config_write_version (hw : machine.ReachesWhile (fun s a => s.settled a = true) w) :
    (∀ i cfg, w.pc i = .done (.ok (.config cfg)) →
      ∃ c, w.written cfg.version = some (c, i) ∧ cfg = { c with version := cfg.version }) ∧
    ∀ i j cfg c w', w.pc i = .done (.ok (.config cfg)) → w.pc j = .writeConfig c cfg.version →
      machine.step w (.step j) = .ok w' → w'.pc j = .readVersion c →
      (∃ d, w.written cfg.version = some (d, i)) ∧
        ∀ r x, w.written r = some x → r ≤ cfg.version := by
  have h : Versions w := by
    refine hw.invariant (I := Versions) ?_ ?_
    · rintro _ ⟨root, rfl⟩
      exact init_versions root
    · exact fun s a t hs hok hstep => hs.step hok hstep
  refine ⟨fun i cfg hi => (h.returned i cfg hi).2, fun i j cfg c w' hi hj hstep hread => ?_⟩
  obtain ⟨hpos, d, hd, -⟩ := h.returned i cfg hi
  refine ⟨⟨d, hd⟩, fun r x hr => ?_⟩
  rcases (h.toFormed.steps hstep).config with ⟨-, hplace, -⟩ | ⟨c', v, hplace, hwrote⟩
  · exact absurd hread (hplace c)
  · have hv : v = cfg.version := by
      have hplace := hwrote.place
      rw [hj] at hplace
      injection hplace with _ hv
      exact hv.symm
    obtain ⟨kv, hkv, hle⟩ := h.newest r x hr
    have hmod := hwrote.expected
    simp only [KV.modRevision, hkv, Option.map_some, Option.getD_some] at hmod
    omega

def document (i : Nat) : List Action := [.enter 0 (.putPlatformConfig (some ⟨0, "a"⟩) 0), .step i]

/-- A client writes, and writes again over what it has written. -/
theorem config_write_version_twice :
    ∃ w w' : World, w.pc 0 = .done (.ok (.config ⟨2, "a"⟩)) ∧ w.written 2 = some (⟨0, "a"⟩, 0) ∧
      machine.step w (.step 1) = .ok w' ∧ w'.pc 1 = .readVersion ⟨0, "b"⟩ ∧
      ∀ r x, w.written r = some x → r ≤ 2 := by
  obtain ⟨w, hw, hdone, hwritten, hplace, w', hstep, hread⟩ := machine.exists_while_of_run
    (P := fun s a => s.settled a = true)
    (Q := fun w => w.pc 0 = .done (.ok (.config ⟨2, "a"⟩)) ∧ w.written 2 = some (⟨0, "a"⟩, 0) ∧
      w.pc 1 = .writeConfig ⟨0, "b"⟩ 2 ∧
      ∃ w', machine.step w (.step 1) = .ok w' ∧ w'.pc 1 = .readVersion ⟨0, "b"⟩) (init [])
    (document 0 ++ [.step 0, .enter 0 (.putPlatformConfig (some ⟨0, "b"⟩) 2)])
    ⟨_, rfl⟩ (by decide +kernel)
  exact ⟨w, w', hdone, hwritten, hstep, hread,
    ((config_write_version hw).2 0 1 ⟨2, "a"⟩ ⟨0, "b"⟩ w' hdone hplace hstep hread).2⟩

/-- Call 0 writes `a`, call 1 of another client writes `b`, and call 0 reads the version
of `b`. The next write of its client expects that version and replaces `b`. -/
theorem foreign_version :
    ∃ w w' : World, machine.Reachable w ∧ w.pc 0 = .done (.ok (.config ⟨3, "a"⟩)) ∧
      w.written 3 = some (⟨0, "b"⟩, 1) ∧ w.written 2 = some (⟨0, "a"⟩, 0) ∧
      w.pc 2 = .writeConfig ⟨0, "c"⟩ 3 ∧ machine.step w (.step 2) = .ok w' ∧
      w'.pc 2 = .readVersion ⟨0, "c"⟩ ∧ w'.written 4 = some (⟨0, "c"⟩, 2) := by
  obtain ⟨w, hw, hdone, hthree, htwo, hplace, w', hlast⟩ := machine.exists_of_run
    (Q := fun w => w.pc 0 = .done (.ok (.config ⟨3, "a"⟩)) ∧ w.written 3 = some (⟨0, "b"⟩, 1) ∧
      w.written 2 = some (⟨0, "a"⟩, 0) ∧ w.pc 2 = .writeConfig ⟨0, "c"⟩ 3 ∧
      ∃ w', machine.step w (.step 2) = .ok w' ∧ w'.pc 2 = .readVersion ⟨0, "c"⟩ ∧
        w'.written 4 = some (⟨0, "c"⟩, 2)) (init [])
    (document 0 ++ [.enter 1 (.putPlatformConfig (some ⟨0, "b"⟩) 0), .step 1, .step 1, .step 0,
      .enter 0 (.putPlatformConfig (some ⟨0, "c"⟩) 3)]) ⟨_, rfl⟩ (by decide +kernel)
  exact ⟨w, w', hw, hdone, hthree, htwo, hplace, hlast⟩

/-! ## One write for each version -/

/-- The document of version `v` has been replaced. -/
structure Superseded (v : Nat) (w : World) : Prop extends Formed w where
  replaced : ∃ kv, w.etcd.get (platformConfigKey w.root) = some kv ∧ v < kv.modRevision

theorem Wrote.superseded {cfg : PlatformConfig} {n v : Nat} (h : Formed w) (hs : Steps w i w')
    (hwrote : Wrote w i cfg n w') (hv : v ≤ w.etcd.revision) : Superseded v w' := by
  obtain ⟨kv, hkv, hmod, -⟩ := hwrote.get
  exact ⟨h.advance hs, kv, by rw [hs.root, hkv], by omega⟩

theorem Superseded.step {v : Nat} (h : Superseded v w) {a : Action} (hs : w.step a = .ok w') :
    Superseded v w' := by
  obtain ⟨kv, hkv, hlt⟩ := h.replaced
  have hformed := h.toFormed.step hs
  cases a with
  | enter plane op =>
    obtain ⟨x, -, rfl⟩ := enter_ok hs
    exact ⟨hformed, kv, hkv, hlt⟩
  | restart plane =>
    cases hs
    exact ⟨hformed, kv, hkv, hlt⟩
  | step i =>
    have hstep := h.toFormed.steps hs
    rcases hstep.config with ⟨-, -, hget⟩ | ⟨cfg, n, -, hwrote⟩
    · exact ⟨hformed, kv, by rw [hstep.root, hget, hkv], hlt⟩
    · have hmod := (h.shaped.modified _ _ hkv).2
      exact hwrote.superseded h.toFormed hstep (by omega)

theorem formed_of_run (hw : machine.Reachable w) : Formed w := by
  refine hw.invariant (I := Formed) ?_ fun _ _ _ h hs => h.step hs
  rintro _ ⟨root, rfl⟩
  exact init_formed root

/-- **No update is lost.** After a write that expected version `v`, whatever is called and
restarted, every other write that expects `v` is refused and stores nothing. -/
theorem one_write_per_version {w₁ w₂ w₃ : World} {cfg c : PlatformConfig} {v i j : Nat}
    {l : List (World × Action)} (hw : machine.Reachable w₁) (hv : v ≠ 0)
    (hi : w₁.pc i = .writeConfig cfg v) (hwrite : machine.step w₁ (.step i) = .ok w₂)
    (hstored : w₂.pc i = .readVersion cfg) (hpath : machine.Path (fun _ _ => True) w₂ l w₃)
    (hj : w₃.pc j = .writeConfig c v) :
    machine.step w₃ (.step j) = .ok (w₃.go j (.done (.error
      ⟨.aborted, "platform config version changed: expected " ++ toString v⟩))) := by
  have hformed := formed_of_run hw
  have hsteps := hformed.steps hwrite
  have hsuper : Superseded v w₂ := by
    rcases hsteps.config with ⟨-, hplace, -⟩ | ⟨cfg', n, -, hwrote⟩
    · exact absurd hstored (hplace cfg)
    · cases hi.symm.trans hwrote.place
      refine hwrote.superseded hformed hsteps ?_
      -- the version that was there is no later than the store
      have hmod := hwrote.expected
      cases hkv : w₁.etcd.get (platformConfigKey w₁.root) with
      | none =>
        simp only [KV.modRevision, hkv, Option.map_none, Option.getD_none] at hmod
        omega
      | some kv =>
        simp only [KV.modRevision, hkv, Option.map_some, Option.getD_some] at hmod
        have hle := (hformed.shaped.modified _ _ hkv).2
        omega
  have hlater : Superseded v w₃ := hpath.invariant (fun _ _ _ h _ hs => h.step hs) hsuper
  obtain ⟨kv, hkv, hlt⟩ := hlater.replaced
  have hrefused : ¬ (v = 0 ∨ w₃.etcd.modRevision (platformConfigKey w₃.root) = v) := by
    simp only [KV.modRevision, hkv, Option.map_some, Option.getD_some]
    omega
  have hwriteConfig : (w₃.store j).writeConfig c v = .error
      ⟨.aborted, "platform config version changed: expected " ++ toString v⟩ := if_neg hrefused
  simp only [machine, World.step, World.advance, hj, hwriteConfig]

/-- Two clients that have read version 2. -/
theorem one_write_per_version_two : ∃ w₁ w₂ : World, machine.step w₁ (.step 1) = .ok w₂ ∧
    machine.step w₂ (.step 2) = .ok (w₂.go 2 (.done (.error
      ⟨.aborted, "platform config version changed: expected 2"⟩))) := by
  obtain ⟨w, hw, hplace, w₂, hstep, hread, hlast⟩ := machine.exists_of_run
    (Q := fun w => w.pc 1 = .writeConfig ⟨0, "b"⟩ 2 ∧ ∃ w₂, machine.step w (.step 1) = .ok w₂ ∧
      w₂.pc 1 = .readVersion ⟨0, "b"⟩ ∧ w₂.pc 2 = .writeConfig ⟨0, "c"⟩ 2) (init [])
    (document 0 ++ [.enter 0 (.putPlatformConfig (some ⟨0, "b"⟩) 2),
      .enter 1 (.putPlatformConfig (some ⟨0, "c"⟩) 2)]) ⟨_, rfl⟩ (by decide +kernel)
  exact ⟨w, w₂, hstep, one_write_per_version hw (by decide) hplace hstep hread (.nil w₂) hlast⟩

end World

end HyperFaaS.ControlPlane.Etcd
