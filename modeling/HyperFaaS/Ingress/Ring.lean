import HyperFaaS.Ingress.Topology
import HyperFaaS.Lib.Search

/-!
The consistent-hashing ring of `pkg/chbl`. The source's loads are `float64`s; the
functions that compare loads take any type with the comparisons.

Proved here: the home of a function, the next node and the node a request is
forwarded to are members of the ring.
-/

namespace HyperFaaS.Ingress

structure RingNode where
  position : UInt64
  id : Nat
  deriving DecidableEq, Repr

structure Ring where
  nodes : List RingNode
  ids : List Nat
  /-- the index of the first node of each id -/
  first : Nat → Option Nat

def mixHash (x : UInt64) : UInt64 := hashFunctionID x

/-- FNV-1a, 64 bits. -/
def fnv64a (bytes : List UInt8) : UInt64 :=
  bytes.foldl (fun h b => (h ^^^ b.toUInt64) * 1099511628211) 14695981039346656037

def hashString (s : String) : UInt64 := mixHash (fnv64a s.toUTF8.toList)

/-- The eight bytes of the id, the lowest first. -/
def functionPosition (functionID : UInt64) : UInt64 :=
  mixHash (fnv64a ((List.range 8).map fun i => (functionID >>> (8 * i).toUInt64).toUInt8))

def ringReplicas : Nat := 128

namespace Ring

def nodeLe (x y : RingNode) : Prop :=
  x.position < y.position ∨ x.position = y.position ∧ x.id ≤ y.id

instance (x y : RingNode) : Decidable (nodeLe x y) := inferInstanceAs (Decidable (_ ∨ _ ∧ _))

/-- The virtual nodes of one id, placed by `hash`. -/
def replicas (hash : Nat → Nat → UInt64) (id : Nat) : List RingNode :=
  (List.range ringReplicas).map fun i => ⟨hash id i, id⟩

/-- Enters `i` for an id that has no entry. -/
def noteFirst (first : Nat → Option Nat) (id i : Nat) : Nat → Option Nat :=
  if first id = none then Function.update first id (some i) else first

/-- The table of first nodes, for nodes that stand at `i` and after. -/
def firstFrom : Nat → List RingNode → (Nat → Option Nat) → Nat → Option Nat
  | _, [], first => first
  | i, x :: rest, first => firstFrom (i + 1) rest (noteFirst first x.id i)

/-- `NewRing`, with the hash of the virtual nodes as a parameter. -/
def newRingBy (hash : Nat → Nat → UInt64) (ids : List Nat) : Ring :=
  let uniq := ids.insertionSort (· ≤ ·)
  let nodes := (uniq.flatMap (replicas hash)).insertionSort nodeLe
  ⟨nodes, uniq, firstFrom 0 nodes fun _ => none⟩

def virtualNode (id i : Nat) : UInt64 := hashString (toString id ++ ":" ++ toString i)

def newRing (ids : List Nat) : Ring := newRingBy virtualNode ids

/-- The loop over the nodes in `Subset`: it keeps the healthy ones and notes where
each id comes first among those. -/
def subsetLoop (healthy : Nat → Bool) :
    List RingNode → List RingNode → (Nat → Option Nat) → List RingNode × (Nat → Option Nat)
  | [], nodes, first => (nodes, first)
  | x :: rest, nodes, first =>
      if healthy x.id then
        subsetLoop healthy rest (nodes ++ [x]) (noteFirst first x.id nodes.length)
      else subsetLoop healthy rest nodes first

def subset (h : Ring) (healthy : Nat → Bool) : Ring :=
  if h.ids.all healthy then h
  else
    let (nodes, first) := subsetLoop healthy h.nodes [] fun _ => none
    ⟨nodes, h.ids.filter healthy, first⟩

/-- The first node clockwise from a position; 0 on an empty ring. -/
def homeAt (h : Ring) (position : UInt64) : Nat :=
  let idx := Lib.search h.nodes.length fun i =>
    (h.nodes[i]?).any fun x => decide (x.position ≥ position)
  let idx := if idx = h.nodes.length then 0 else idx
  match h.nodes[idx]? with
  | some x => x.id
  | none => 0

def home (h : Ring) (functionID : UInt64) : Nat := h.homeAt (functionPosition functionID)

/-- The next distinct node clockwise from the first position of `id`. -/
def next (h : Ring) (id : Nat) : Nat :=
  match h.first id with
  | none => id
  | some idx =>
      ((List.range h.nodes.length).findSome? fun i =>
        match h.nodes[(idx + (i + 1)) % h.nodes.length]? with
        | some node => if node.id ≠ id then some node.id else none
        | none => none).getD id

end Ring

section Loads

variable {β : Type} [LT β] [LE β] [BEq β] [DecidableLT β] [DecidableLE β] [OfNat β 0] [OfNat β 1]

def normalizeBound (bound : β) : β := if bound ≤ 0 then 1 else bound

def normalizeMaxChainLen (maxChainLen : Int) : Nat :=
  if maxChainLen ≤ 0 then 3 else maxChainLen.toNat

inductive ForwardReason
  | home
  | forwarded
  | leastLoaded
  deriving DecidableEq, Repr

/-- The scan for the lowest load; ties go to the lowest id. An entry is an id, or
an id with its load slot. -/
def leastFrom {α : Type} (id : α → Nat) (load : α → β) : List α → α → Nat
  | [], best => id best
  | x :: rest, best =>
      if load x < load best ∨ (load x == load best) = true ∧ id x < id best then
        leastFrom id load rest x
      else leastFrom id load rest best

/-- The walk of `ForwardBy` from `id`, with `n` more steps after this one. -/
def forwardWalk (ring : Ring) (load : Nat → β) (bound : β) : Nat → Nat → Option Nat
  | 0, id => if load id < bound then some id else none
  | n + 1, id => if load id < bound then some id else forwardWalk ring load bound n (ring.next id)

/-- `least` is the scan of the caller's slots. -/
def forwardBy (ring : Ring) (load : Nat → β) (least : Nat) (bound : β) (maxChainLen : Int)
    (home : Nat) : Nat × ForwardReason :=
  if ring.ids = [] then (home, .home)
  else if load home < normalizeBound bound then (home, .home)
  else
    match forwardWalk ring load (normalizeBound bound) (normalizeMaxChainLen maxChainLen - 1)
        (ring.next home) with
    | some id => (id, .forwarded)
    | none => (least, .leastLoaded)

end Loads

/-! ## The members of a ring -/

/-- The ring is over the ids of `S`, each with a node. -/
structure Ring.Over (r : Ring) (S : Nat → Prop) : Prop where
  ids : ∀ id, id ∈ r.ids ↔ S id
  nodes : ∀ x ∈ r.nodes, S x.id
  full : ∀ id, S id → ∃ x ∈ r.nodes, x.id = id

namespace Ring

variable {r : Ring} {S : Nat → Prop}

theorem newRingBy_over (hash : Nat → Nat → UInt64) (ids : List Nat) :
    (newRingBy hash ids).Over (· ∈ ids) where
  ids := fun id => List.mem_insertionSort _
  nodes := by
    intro x hx
    obtain ⟨id, hid, hx⟩ := List.mem_flatMap.mp ((List.mem_insertionSort _).mp hx)
    obtain ⟨i, -, rfl⟩ := List.mem_map.mp hx
    exact (List.mem_insertionSort _).mp hid
  full := by
    intro id hid
    have hrep : (⟨hash id 0, id⟩ : RingNode) ∈ replicas hash id :=
      List.mem_map.mpr ⟨0, List.mem_range.mpr (by decide), rfl⟩
    have hid' := (List.mem_insertionSort (· ≤ ·)).mpr hid
    exact ⟨_, (List.mem_insertionSort _).mpr (List.mem_flatMap.mpr ⟨id, hid', hrep⟩), rfl⟩

theorem subsetLoop_eq (healthy : Nat → Bool) (l nodes : List RingNode)
    (first : Nat → Option Nat) :
    subsetLoop healthy l nodes first =
      (nodes ++ l.filter (fun x => healthy x.id),
        firstFrom nodes.length (l.filter fun x => healthy x.id) first) := by
  induction l generalizing nodes first with
  | nil => simp [subsetLoop, firstFrom]
  | cons x rest ih =>
    rw [subsetLoop]
    by_cases hx : healthy x.id = true
    · simp [hx, ih, firstFrom]
    · simp [hx, ih]

theorem subset_eq (h : Ring) (healthy : Nat → Bool) (hall : ¬ h.ids.all healthy = true) :
    h.subset healthy = ⟨h.nodes.filter fun x => healthy x.id, h.ids.filter healthy,
      firstFrom 0 (h.nodes.filter fun x => healthy x.id) fun _ => none⟩ := by
  rw [subset, if_neg hall, subsetLoop_eq]
  rfl

theorem Over.subset (h : r.Over S) (healthy : Nat → Bool) :
    (r.subset healthy).Over fun id => S id ∧ healthy id = true := by
  by_cases hall : r.ids.all healthy = true
  · rw [Ring.subset, if_pos hall]
    have hh : ∀ id, S id → healthy id = true :=
      fun id hid => List.all_eq_true.mp hall id ((h.ids id).mpr hid)
    exact ⟨fun id => ⟨fun hid => ⟨(h.ids id).mp hid, hh id ((h.ids id).mp hid)⟩,
        fun hid => (h.ids id).mpr hid.1⟩,
      fun x hx => ⟨h.nodes x hx, hh _ (h.nodes x hx)⟩, fun id hid => h.full id hid.1⟩
  · rw [subset_eq r healthy hall]
    refine ⟨fun id => ?_, fun x hx => ?_, fun id hid => ?_⟩
    · rw [List.mem_filter, h.ids id]
    · obtain ⟨hx, hh⟩ := List.mem_filter.mp hx
      exact ⟨h.nodes x hx, hh⟩
    · obtain ⟨x, hx, rfl⟩ := h.full id hid.1
      exact ⟨x, List.mem_filter.mpr ⟨hx, hid.2⟩, rfl⟩

theorem Over.homeAt (h : r.Over S) {id : Nat} (hid : S id) (position : UInt64) :
    S (r.homeAt position) := by
  obtain ⟨x, hx, -⟩ := h.full id hid
  have hpos := List.length_pos_of_mem hx
  have hle := Lib.search_le r.nodes.length fun i =>
    (r.nodes[i]?).any fun x => decide (x.position ≥ position)
  unfold Ring.homeAt
  dsimp only
  split
  · rename_i y hy
    exact h.nodes y (List.mem_of_getElem? hy)
  · rename_i hnone
    have hlen := List.getElem?_eq_none_iff.mp hnone
    split_ifs at hlen <;> omega

theorem Over.home (h : r.Over S) {id : Nat} (hid : S id) (fn : UInt64) : S (r.home fn) :=
  h.homeAt hid _

theorem next_mem (h : ∀ x ∈ r.nodes, S x.id) {id : Nat} (hid : S id) : S (r.next id) := by
  unfold Ring.next
  split
  · exact hid
  · rename_i idx hidx
    cases hfind : (List.range r.nodes.length).findSome? fun i =>
        match r.nodes[(idx + (i + 1)) % r.nodes.length]? with
        | some node => if node.id ≠ id then some node.id else none
        | none => none with
    | none => exact hid
    | some nid =>
      obtain ⟨i, -, hi⟩ := List.exists_of_findSome?_eq_some hfind
      split at hi
      · rename_i node hnode
        split_ifs at hi
        cases hi
        exact h node (List.mem_of_getElem? hnode)
      · cases hi

theorem Over.next (h : r.Over S) {id : Nat} (hid : S id) : S (r.next id) :=
  next_mem h.nodes hid

end Ring

section Loads

variable {β : Type} [LT β] [DecidableLT β]

theorem leastFrom_mem {α : Type} [BEq β] (id : α → Nat) (load : α → β) (l : List α) (best : α) :
    ∃ x ∈ best :: l, leastFrom id load l best = id x := by
  induction l generalizing best with
  | nil => exact ⟨best, List.mem_cons_self, rfl⟩
  | cons y rest ih =>
    rw [leastFrom]
    split
    · obtain ⟨x, hx, he⟩ := ih y
      exact ⟨x, List.mem_cons_of_mem _ hx, he⟩
    · obtain ⟨x, hx, he⟩ := ih best
      rcases List.mem_cons.mp hx with rfl | hx
      · exact ⟨x, List.mem_cons_self, he⟩
      · exact ⟨x, List.mem_cons_of_mem _ (List.mem_cons_of_mem _ hx), he⟩

theorem forwardWalk_mem {ring : Ring} {S : Nat → Prop} (h : ring.Over S) (load : Nat → β)
    (bound : β) (n : Nat) {id found : Nat} (hid : S id)
    (hf : forwardWalk ring load bound n id = some found) : S found ∧ load found < bound := by
  induction n generalizing id with
  | zero =>
    rw [forwardWalk] at hf
    split_ifs at hf with hlt
    cases hf
    exact ⟨hid, hlt⟩
  | succ n ih =>
    rw [forwardWalk] at hf
    split_ifs at hf with hlt
    · cases hf
      exact ⟨hid, hlt⟩
    · exact ih (h.next hid) hf

theorem forwardBy_mem [LE β] [DecidableLE β] [OfNat β 0] [OfNat β 1] {ring : Ring}
    {S : Nat → Prop} (h : ring.Over S) (load : Nat → β) {least home : Nat} (bound : β)
    (maxChainLen : Int) (hl : S least) (hh : S home) :
    S (forwardBy ring load least bound maxChainLen home).1 := by
  unfold forwardBy
  split_ifs
  · exact hh
  · exact hh
  · split
    · rename_i id hid
      exact (forwardWalk_mem h load _ _ (h.next hh) hid).1
    · exact hl

end Loads

end HyperFaaS.Ingress
