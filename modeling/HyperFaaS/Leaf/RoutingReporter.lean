import HyperFaaS.Ingress.CapacityUpdates

/-!
The capacity entries a leaf puts into its routing frames (`pkg/leaf/state`). Maps
are lists with one entry for each key; the order in which a map is walked is left
open. Proved here: a full frame says what the snapshot holds (`live_full`), and a
delta takes the view it was computed against to the snapshot (`live_delta`).
-/

namespace HyperFaaS.Leaf

open HyperFaaS.Ingress FunctionCapacity

/-- The result of `CapacitySnapshot`: one entry for each function, none deleted. -/
structure Snapshot where
  entries : List FunctionCapacity
  keyed : (entries.map functionId).Nodup
  present : ∀ c ∈ entries, c.deleted = false

def capacityEqual (a b : FunctionCapacity) : Bool :=
  a.readyInstances == b.readyInstances && a.availableConcurrency == b.availableConcurrency &&
    a.inFlight == b.inFlight && a.deleted == b.deleted && a.status == b.status

def tombstone (fn : UInt64) : FunctionCapacity := ⟨fn, 0, 0, 0, .unknown, true⟩

/-- `m[fn]` -/
def entry (l : List FunctionCapacity) (fn : UInt64) : Option FunctionCapacity :=
  l.find? fun c => c.functionId == fn

def changed (sent current : List FunctionCapacity) : List FunctionCapacity :=
  current.filter fun c => !(entry sent c.functionId).any fun prev => capacityEqual prev c

def gone (sent current : List FunctionCapacity) : List FunctionCapacity :=
  sent.filter fun prev => (entry current prev.functionId).isNone && !prev.deleted

def diffCapacities (sent current : List FunctionCapacity) : List FunctionCapacity :=
  changed sent current ++ (gone sent current).map fun prev => tombstone prev.functionId

/-! ## Lists with one entry for each key -/

section Keyed

variable {l : List FunctionCapacity} {c : FunctionCapacity} {fn : UInt64}

theorem entry_some (h : entry l fn = some c) : c ∈ l ∧ c.functionId = fn :=
  ⟨List.mem_of_find?_eq_some h, by simpa using List.find?_some h⟩

theorem entry_none (h : entry l fn = none) : ∀ c ∈ l, c.functionId ≠ fn := by
  intro c hc
  simpa using List.find?_eq_none.mp h c hc

theorem eq_of_keyed (hk : (l.map functionId).Nodup) {d : FunctionCapacity}
    (hc : c ∈ l) (hd : d ∈ l) (h : c.functionId = d.functionId) : c = d :=
  List.inj_on_of_nodup_map hk hc hd h

theorem live_none (h : ∀ c ∈ l, c.functionId ≠ fn) : live l fn = none := by
  induction l with
  | nil => rfl
  | cons d rest ih =>
    rw [live, ih fun c hc => h c (List.mem_cons_of_mem _ hc),
      if_neg fun hd => h d List.mem_cons_self hd.2]
    rfl

theorem live_some (hk : (l.map functionId).Nodup) (hc : c ∈ l)
    (hd : c.deleted = false) : live l c.functionId = some c.availableConcurrency := by
  induction l with
  | nil => cases hc
  | cons d rest ih =>
    obtain ⟨hnot, hrest⟩ := List.nodup_cons.mp hk
    rw [live]
    rcases List.mem_cons.mp hc with rfl | hc
    · have hother : ∀ x ∈ rest, x.functionId ≠ c.functionId := by
        intro x hx he
        exact hnot (he ▸ List.mem_map_of_mem hx)
      rw [live_none hother, if_pos ⟨hd, rfl⟩]
      rfl
    · rw [ih hrest hc]
      rfl

/-- Entries edit a map; each key has one entry, so the order does not matter. -/
theorem foldl_other (g : UInt64 → Option Nat) (h : ∀ c ∈ l, c.functionId ≠ fn) :
    l.foldl (fun a c => Function.update a c.functionId c.advertises) g fn = g fn := by
  induction l generalizing g with
  | nil => rfl
  | cons d rest ih =>
    rw [List.foldl_cons, ih _ fun c hc => h c (List.mem_cons_of_mem _ hc),
      Function.update_of_ne (h d List.mem_cons_self).symm]

theorem foldl_entry (g : UInt64 → Option Nat) (hk : (l.map functionId).Nodup)
    (hc : c ∈ l) :
    l.foldl (fun a c => Function.update a c.functionId c.advertises) g c.functionId =
      c.advertises := by
  induction l generalizing g with
  | nil => cases hc
  | cons d rest ih =>
    obtain ⟨hnot, hrest⟩ := List.nodup_cons.mp hk
    rw [List.foldl_cons]
    rcases List.mem_cons.mp hc with rfl | hc
    · have hother : ∀ x ∈ rest, x.functionId ≠ c.functionId := by
        intro x hx he
        exact hnot (he ▸ List.mem_map_of_mem hx)
      rw [foldl_other _ hother, Function.update_self]
    · exact ih _ hrest hc

end Keyed

/-! ## Frames against snapshots -/

namespace Snapshot

/-- The pairs of function and available concurrency. -/
def Has (s : Snapshot) (fn : UInt64) (available : Nat) : Prop :=
  ∃ c ∈ s.entries, c.functionId = fn ∧ c.availableConcurrency = available

theorem live_iff (s : Snapshot) (fn : UInt64) (available : Nat) :
    live s.entries fn = some available ↔ s.Has fn available := by
  constructor
  · intro h
    cases he : entry s.entries fn with
    | none =>
      rw [live_none (entry_none he)] at h
      cases h
    | some c =>
      obtain ⟨hc, rfl⟩ := entry_some he
      rw [live_some s.keyed hc (s.present c hc)] at h
      exact ⟨c, hc, rfl, Option.some.inj h⟩
  · rintro ⟨c, hc, rfl, rfl⟩
    exact live_some s.keyed hc (s.present c hc)

end Snapshot

/-- **A full frame**, in whatever order the map was walked. -/
theorem live_full (s : Snapshot) {caps : List FunctionCapacity} (h : caps.Perm s.entries) :
    live caps = live s.entries := by
  have hk : (caps.map functionId).Nodup :=
    (h.map functionId).nodup_iff.mpr s.keyed
  funext fn
  cases he : entry s.entries fn with
  | none =>
    rw [live_none (entry_none he), live_none fun c hc => entry_none he c (h.mem_iff.mp hc)]
  | some c =>
    obtain ⟨hc, rfl⟩ := entry_some he
    have hd := s.present c hc
    rw [live_some s.keyed hc hd, live_some hk (h.mem_iff.mpr hc) hd]

theorem mem_diff {sent current : List FunctionCapacity} {d : FunctionCapacity}
    (h : d ∈ diffCapacities sent current) :
    d ∈ changed sent current ∨
      ∃ prev ∈ gone sent current, d = tombstone prev.functionId := by
  rcases List.mem_append.mp h with h | h
  · exact .inl h
  · obtain ⟨prev, hp, rfl⟩ := List.mem_map.mp h
    exact .inr ⟨prev, hp, rfl⟩

theorem mem_gone {sent current : List FunctionCapacity} {prev : FunctionCapacity} :
    prev ∈ gone sent current ↔
      prev ∈ sent ∧ entry current prev.functionId = none ∧ prev.deleted = false := by
  simp [gone]

theorem diff_keyed (sent current : Snapshot) :
    ((diffCapacities sent.entries current.entries).map functionId).Nodup := by
  rw [diffCapacities, List.map_append, List.map_map]
  have htomb : functionId ∘ (fun prev => tombstone prev.functionId) =
      functionId := rfl
  rw [htomb]
  refine List.Nodup.append ?_ ?_ ?_
  · exact current.keyed.sublist (List.filter_sublist.map _)
  · exact sent.keyed.sublist (List.filter_sublist.map _)
  · -- a tombstone is for a function that the snapshot lacks
    intro fn hchanged hgone
    obtain ⟨c, hc, rfl⟩ := List.mem_map.mp hchanged
    obtain ⟨prev, hprev, he⟩ := List.mem_map.mp hgone
    obtain ⟨-, hnone, -⟩ := mem_gone.mp hprev
    exact entry_none hnone c (List.mem_filter.mp hc).1 he.symm

/-- **A delta** takes the view that was sent last to the snapshot. -/
theorem live_delta (sent current : Snapshot) {caps : List FunctionCapacity}
    (h : caps.Perm (diffCapacities sent.entries current.entries)) :
    caps.foldl (fun a c => Function.update a c.functionId c.advertises) (live sent.entries) =
      live current.entries := by
  have hk : (caps.map functionId).Nodup :=
    (h.map functionId).nodup_iff.mpr (diff_keyed sent current)
  funext fn
  cases hcur : entry current.entries fn with
  | some c =>
    obtain ⟨hc, rfl⟩ := entry_some hcur
    have hd := current.present c hc
    rw [live_some current.keyed hc hd]
    by_cases hch : c ∈ changed sent.entries current.entries
    · have hmem := h.mem_iff.mpr (List.mem_append_left _ hch)
      rw [foldl_entry _ hk hmem, advertises, hd]
      rfl
    · -- unchanged: the last view has an equal entry, and the delta none
      obtain ⟨prev, hprev, heq⟩ : ∃ prev, entry sent.entries c.functionId = some prev ∧
          capacityEqual prev c = true := by
        simpa [changed, hc, Option.any_eq_true] using hch
      obtain ⟨hp, hid⟩ := entry_some hprev
      have hother : ∀ d ∈ caps, d.functionId ≠ c.functionId := by
        intro d hd' he
        rcases mem_diff (h.mem_iff.mp hd') with hd' | ⟨q, hq, rfl⟩
        · have := eq_of_keyed current.keyed (List.mem_filter.mp hd').1 hc he
          exact hch (this ▸ hd')
        · exact entry_none (mem_gone.mp hq).2.1 c hc he.symm
      rw [foldl_other _ hother, ← hid, live_some sent.keyed hp (sent.present prev hp)]
      simp only [capacityEqual, Bool.and_eq_true, beq_iff_eq] at heq
      rw [heq.1.1.1.2]
  | none =>
    rw [live_none (entry_none hcur)]
    cases hsent : entry sent.entries fn with
    | some prev =>
      obtain ⟨hp, rfl⟩ := entry_some hsent
      have hg := mem_gone.mpr ⟨hp, hcur, sent.present prev hp⟩
      have hmem : tombstone prev.functionId ∈ caps :=
        h.mem_iff.mpr (List.mem_append_right _ (List.mem_map.mpr ⟨prev, hg, rfl⟩))
      exact foldl_entry _ hk hmem
    | none =>
      have hother : ∀ d ∈ caps, d.functionId ≠ fn := by
        intro d hd he
        rcases mem_diff (h.mem_iff.mp hd) with hd | ⟨q, hq, rfl⟩
        · exact entry_none hcur d (List.mem_filter.mp hd).1 he
        · exact entry_none hsent q (mem_gone.mp hq).1 he
      rw [foldl_other _ hother, live_none (entry_none hsent)]

end HyperFaaS.Leaf
