import HyperFaaS.ControlPlane.MemoryTables
import HyperFaaS.ControlPlane.EtcdTables

/-!
The two backends are the same store (`backend_equivalence`): over every history of calls
they return the same codes, users, functions and ids, and show the same events. Their
config versions differ, by a renaming that is strictly increasing.

Both follow the tables, so the argument is one induction over the history. A call that
expects a version names the earlier call that returned it, since the two backends
returned different numbers.
-/

namespace HyperFaaS.ControlPlane

/-! ## Histories -/

/-- The version that a call has returned; zero if it returned none. -/
def returned : Option Result → Nat
  | some (.ok (.config cfg)) => cfg.version
  | _ => 0

/-- In a history an expected version is zero, or `k + 1` for the version that call `k`
has returned. -/
def resolve (results : List Result) : Op → Op
  | .putPlatformConfig cfg (k + 1) => .putPlatformConfig cfg (returned results[k]?)
  | op => op

/-- What a store returns and shows, call by call; `results` are those before. -/
def replay {S : Type} (step : S → Op → Result × S × List FunctionEvent) :
    S → List Result → List Op → List (Op × Result × List FunctionEvent)
  | _, _, [] => []
  | s, results, op :: ops =>
      let r := step s (resolve results op)
      (op, r.1, r.2.2) :: replay step r.2.1 (results ++ [r.1]) ops

/-- One call at the two backends. -/
structure Same (ρ : Nat → Nat) (x y : Op × Result × List FunctionEvent) : Prop where
  op : y.1 = x.1
  result : visible y.2.1 = (visible x.2.1).map (Reply.rename ρ)
  events : y.2.2.Perm x.2.2
  order : (∀ u, x.1 ≠ .deleteUser u) → y.2.2 = x.2.2

/-! ## Versions -/

theorem Reply.rename_id (r : Reply) : r.rename id = r := by cases r <;> rfl

theorem map_rename_id (a : Except Code Reply) : a.map (Reply.rename id) = a := by
  cases a with
  | error c => rfl
  | ok r => exact congrArg Except.ok r.rename_id

/-- A version in a result is at most `n`. -/
def Bounded (n : Nat) (a : Except Code Reply) : Prop := ∀ cfg, a = .ok (.config cfg) → cfg.version ≤ n

theorem Bounded.mono {n n' : Nat} {a : Except Code Reply} (h : Bounded n a) (hle : n ≤ n') :
    Bounded n' a :=
  fun cfg hcfg => (h cfg hcfg).trans hle

theorem Bounded.map_rename {n : Nat} {a : Except Code Reply} {ρ ρ' : Nat → Nat} (h : Bounded n a)
    (hρ : ∀ k ≤ n, ρ' k = ρ k) : a.map (Reply.rename ρ') = a.map (Reply.rename ρ) := by
  cases a with
  | error c => rfl
  | ok r =>
    cases r with
    | config cfg =>
      show Except.ok (Reply.config ⟨ρ' cfg.version, _⟩) = Except.ok (Reply.config ⟨ρ cfg.version, _⟩)
      rw [hρ _ (h cfg rfl)]
    | _ => rfl

/-- Writes are counted, and a call returns no version that is still to come. -/
theorem Tables.step_versions (t : Tables) (op : Op) :
    t.writes ≤ (t.step op).2.1.writes ∧ Bounded (t.step op).2.1.writes (t.step op).1 := by
  have hm := t.step_moves op
  generalize t.step op = r at hm ⊢
  cases hm with
  | read _ _ hc => exact ⟨le_rfl, fun cfg h => (hc cfg (Except.ok.inj h)).le⟩
  | @userTaken x | @createUser x => exact ⟨(t.takeUserID_tables x).2.2.ge, nofun⟩
  | @functionTaken x | @createFunction x => exact ⟨(t.takeFunctionID_tables x).2.2.ge, nofun⟩
  | putPlatformConfig => exact ⟨Nat.le_succ _, by rintro _ ⟨⟩; exact le_rfl⟩
  | _ => exact ⟨le_rfl, nofun⟩

/-! ## The two stores side by side -/

/-- What the two stores have returned so far. -/
def Recalls (ρ : Nat → Nat) (n : Nat) : List Result → List Result → Prop :=
  List.Forall₂ fun r r' => visible r' = (visible r).map (Reply.rename ρ) ∧ Bounded n (visible r)

theorem returned_visible (r : Result) :
    returned (some r) = match visible r with
      | .ok (.config cfg) => cfg.version
      | _ => 0 := by
  cases r with
  | error e => rfl
  | ok reply => cases reply <;> rfl

theorem returned_rename {ρ : Nat → Nat} (hzero : ρ 0 = 0) {r r' : Result}
    (h : visible r' = (visible r).map (Reply.rename ρ)) :
    returned (some r') = ρ (returned (some r)) := by
  rw [returned_visible, returned_visible, h]
  cases hv : visible r with
  | error c => exact hzero.symm
  | ok reply =>
    cases reply with
    | config cfg => rfl
    | _ => exact hzero.symm

variable {ρ : Nat → Nat} {n : Nat} {rs rs' : List Result}

theorem Recalls.returned (h : Recalls ρ n rs rs') (hzero : ρ 0 = 0) (k : Nat) :
    returned rs'[k]? = ρ (returned rs[k]?) := by
  induction h generalizing k with
  | nil => exact hzero.symm
  | cons hr _ ih =>
    cases k with
    | zero => exact returned_rename hzero hr.1
    | succ k => exact ih k

theorem Recalls.resolve (h : Recalls ρ n rs rs') (hzero : ρ 0 = 0) (op : Op) :
    resolve rs' op = (ControlPlane.resolve rs op).rename ρ := by
  cases op with
  | putPlatformConfig cfg m =>
    cases m with
    | zero =>
      show Op.putPlatformConfig cfg 0 = .putPlatformConfig cfg (ρ 0)
      rw [hzero]
    | succ k =>
      show Op.putPlatformConfig cfg _ = .putPlatformConfig cfg (ρ _)
      rw [h.returned hzero]
  | _ => rfl

theorem Recalls.extend {ρ' : Nat → Nat} {n' : Nat} (h : Recalls ρ n rs rs') (hle : n ≤ n')
    (hρ : ∀ k ≤ n, ρ' k = ρ k) : Recalls ρ' n' rs rs' := by
  refine h.imp ?_
  rintro r r' ⟨hr, hb⟩
  exact ⟨hr.trans (hb.map_rename hρ).symm, hb.mono hle⟩

theorem Recalls.append {r r' : Result} (h : Recalls ρ n rs rs')
    (hr : visible r' = (visible r).map (Reply.rename ρ)) (hb : Bounded n (visible r)) :
    Recalls ρ n (rs ++ [r]) (rs' ++ [r']) :=
  List.rel_append h (.cons ⟨hr, hb⟩ .nil)

theorem resolve_deleteUser (rs : List Result) {op : Op} (h : ∀ u, op ≠ .deleteUser u) (u : UInt64) :
    resolve rs op ≠ .deleteUser u := by
  cases op with
  | putPlatformConfig cfg m => cases m <;> exact nofun
  | deleteUser u' => exact absurd rfl (h u')
  | _ => exact nofun

/-- The induction over a history, from stores that hold the same tables. -/
theorem replay_same {t : Tables} {m : Memory.Store} {e : Etcd.Store} (hk : t.Keyed)
    (hm : Memory.Models t m) (he : Etcd.Models ρ t e) (hrs : Recalls ρ t.writes rs rs')
    (ops : List Op) :
    ∃ ρ', StrictMono ρ' ∧ ρ' 0 = 0 ∧ (∀ k ≤ t.writes, ρ' k = ρ k) ∧
      List.Forall₂ (Same ρ') (replay Memory.Store.step m rs ops)
        (replay Etcd.Store.step e rs' ops) := by
  induction ops generalizing t m e ρ rs rs' with
  | nil => exact ⟨ρ, he.mono, he.zero, fun _ _ => rfl, .nil⟩
  | cons op ops ih =>
    obtain ⟨hmshow, hm'⟩ := hm.step hk (resolve rs op)
    obtain ⟨ρ₁, hρ₁, heshow, he'⟩ := he.step hk (resolve rs op)
    obtain ⟨hle, hbound⟩ := t.step_versions (resolve rs op)
    rw [← hrs.resolve he.zero op] at heshow he'
    -- both results are that of the tables
    have hresult : visible (m.step (resolve rs op)).1 = (t.step (resolve rs op)).1 :=
      hmshow.result.trans (map_rename_id _)
    have hboth : visible (e.step (resolve rs' op)).1 =
        (visible (m.step (resolve rs op)).1).map (Reply.rename ρ₁) := by
      rw [hresult]
      exact heshow.result
    have hrs' := (hrs.extend hle hρ₁).append hboth (by rw [hresult]; exact hbound)
    obtain ⟨ρ', hmono, hzero, hρ', hrest⟩ := ih (hk.step _) hm' he' hrs'
    refine ⟨ρ', hmono, hzero, fun k hk => ?_, .cons ⟨rfl, ?_, ?_, ?_⟩ hrest⟩
    · rw [hρ' k (hk.trans hle), hρ₁ k hk]
    · rw [hresult] at hboth ⊢
      exact hboth.trans (hbound.map_rename hρ').symm
    · exact heshow.events.trans hmshow.events.symm
    · intro hne
      have hne' := resolve_deleteUser rs hne
      exact (heshow.order hne').trans (hmshow.order hne').symm

/-- **The backends agree.** -/
theorem backend_equivalence (root : Etcd.Key) (ops : List Op) :
    ∃ ρ : Nat → Nat, StrictMono ρ ∧ ρ 0 = 0 ∧
      List.Forall₂ (Same ρ) (replay Memory.Store.step .new [] ops)
        (replay Etcd.Store.step (.empty root) [] ops) := by
  obtain ⟨ρ, hmono, hzero, -, hsame⟩ := replay_same Tables.keyed_empty Memory.models_new
    (Etcd.models_empty root) .nil ops
  exact ⟨ρ, hmono, hzero, hsame⟩

end HyperFaaS.ControlPlane
