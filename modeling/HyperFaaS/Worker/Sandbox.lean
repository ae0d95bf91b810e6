import HyperFaaS.Leaf.World

/-!
The sandbox service of a worker (`pkg/worker/sandbox.go`): the map of its
sandboxes, and the revision counter that goes up with every change of the map.
Each definition is one critical section.
-/

namespace HyperFaaS.Worker

open Leaf (InstanceState)

structure SandboxRemoval where
  instanceID : Nat
  functionID : Nat
  revision : Nat
  deriving DecidableEq, Repr

/-- `instances` has one record for each key, the state of the sandbox. -/
structure Sandbox where
  instances : List (Nat × InstanceState)
  stateRevision : Nat
  deriving DecidableEq, Repr

namespace Sandbox

def newSandbox : Sandbox := ⟨[], 0⟩

/-- The keys of the map. -/
def ids (s : Sandbox) : List Nat := s.instances.map Prod.fst

def delete (s : Sandbox) (instanceID : Nat) : List (Nat × InstanceState) :=
  s.instances.filter fun r => r.1 != instanceID

/-- The section of `CreateSandbox`, after `runtime.Start` has returned `state`. -/
def enter (s : Sandbox) (instanceID : Nat) (state : InstanceState) : Sandbox × InstanceState :=
  let state := { state with workerStateRevision := s.stateRevision + 1 }
  (⟨(instanceID, state) :: s.delete instanceID, s.stateRevision + 1⟩, state)

/-- The map after the removal and what is broadcast. -/
def removeInstanceInternal (s : Sandbox) (instanceID : Nat) (notify : Bool) :
    Sandbox × Option SandboxRemoval :=
  match s.instances.find? (fun r => r.1 == instanceID) with
  | none => (s, none)
  | some (_, state) =>
      (⟨s.delete instanceID, s.stateRevision + 1⟩,
        if notify then some ⟨instanceID, state.functionId, s.stateRevision + 1⟩ else none)

def removeInstance (s : Sandbox) (instanceID : Nat) : Sandbox :=
  (s.removeInstanceInternal instanceID false).1

def removeInstanceAndNotify (s : Sandbox) (instanceID : Nat) : Sandbox × Option SandboxRemoval :=
  s.removeInstanceInternal instanceID true

def sandboxStateSnapshot (s : Sandbox) : List InstanceState × Nat :=
  (s.instances.map Prod.snd, s.stateRevision)

variable {s : Sandbox} {id i : Nat}

theorem mem_ids : i ∈ s.ids ↔ ∃ r ∈ s.instances, r.1 = i := List.mem_map

theorem mem_delete {r : Nat × InstanceState} : r ∈ s.delete id ↔ r ∈ s.instances ∧ r.1 ≠ id := by
  simp [delete]

theorem mem_enter {state : InstanceState} {r : Nat × InstanceState} :
    r ∈ (s.enter id state).1.instances ↔
      r = (id, (s.enter id state).2) ∨ r ∈ s.instances ∧ r.1 ≠ id := by
  simp [enter, mem_delete]

theorem ids_enter {state : InstanceState} :
    i ∈ (s.enter id state).1.ids ↔ i = id ∨ i ∈ s.ids := by
  simp only [mem_ids, mem_enter]
  constructor
  · rintro ⟨r, rfl | ⟨hr, -⟩, rfl⟩
    · exact .inl rfl
    · exact .inr ⟨r, hr, rfl⟩
  · rintro (rfl | ⟨r, hr, rfl⟩)
    · exact ⟨_, .inl rfl, rfl⟩
    · by_cases hi : r.1 = id
      · exact ⟨_, .inl rfl, hi.symm⟩
      · exact ⟨r, .inr ⟨hr, hi⟩, rfl⟩

/-- A removal leaves the other records, and counts unless there was nothing to
remove. What it broadcasts is about a record it has removed. -/
theorem removeInstanceInternal_spec (s : Sandbox) (id : Nat) (notify : Bool) :
    (∀ r, r ∈ (s.removeInstanceInternal id notify).1.instances ↔ r ∈ s.instances ∧ r.1 ≠ id) ∧
      s.stateRevision ≤ (s.removeInstanceInternal id notify).1.stateRevision ∧
      ∀ e, (s.removeInstanceInternal id notify).2 = some e →
        ∃ state, (id, state) ∈ s.instances ∧
          e = ⟨id, state.functionId, s.stateRevision + 1⟩ := by
  unfold removeInstanceInternal
  cases hf : s.instances.find? (fun r => r.1 == id) with
  | none =>
    have hno : ∀ r ∈ s.instances, r.1 ≠ id := by simpa using List.find?_eq_none.mp hf
    refine ⟨fun r => ⟨fun hr => ⟨hr, hno r hr⟩, And.left⟩, Nat.le_refl _, ?_⟩
    intro e he
    cases he
  | some r =>
    obtain ⟨key, state⟩ := r
    have hkey : key = id := by simpa using List.find?_some hf
    subst hkey
    refine ⟨fun r => mem_delete, Nat.le_succ _, ?_⟩
    intro e he
    cases notify with
    | false => cases he
    | true => exact ⟨state, List.mem_of_find?_eq_some hf, (Option.some.inj he).symm⟩

theorem ids_remove {notify : Bool} :
    i ∈ (s.removeInstanceInternal id notify).1.ids ↔ i ∈ s.ids ∧ i ≠ id := by
  simp only [mem_ids, (removeInstanceInternal_spec s id notify).1]
  constructor
  · rintro ⟨r, ⟨hr, hne⟩, rfl⟩
    exact ⟨⟨r, hr, rfl⟩, hne⟩
  · rintro ⟨⟨r, hr, rfl⟩, hne⟩
    exact ⟨r, ⟨hr, hne⟩, rfl⟩

end Sandbox

end HyperFaaS.Worker
