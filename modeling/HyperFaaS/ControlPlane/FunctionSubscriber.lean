import HyperFaaS.ControlPlane.Histories
import Mathlib.Data.Finset.Basic
import Mathlib.Data.Finset.Insert

/-!
A leaf that follows the functions of the control plane (`FunctionSubscriber` in
functions.go, `handleFunctionEvent` in the leaf's runtime.go). A session lists the users,
lists the functions of each, replays them as creations, and then opens a watch and passes
its events on; it may fail anywhere, and the next session begins anew. The watch loses
nothing from the moment it is opened. The leaf keeps functions by their id.

Proved here (`functions_converge`): when the watch is open and everything is handled, the
leaf has the functions of the store, if no function changes between a session's listing
of users and its watch, and no deletion is missed: none of a function the leaf knows
while no session is there, and none that is still on its way when a session fails.
Without these the leaf can be wrong for good (`missed_creation`): the listings and the
watch are not tied together, and a listing says nothing of what is gone.
-/

namespace HyperFaaS.ControlPlane.Subscription

open Function Memory Memory.Store

/-! ## The model -/

inductive Phase
  | idle
  | listing (users : List UserSpec) (functions : List FunctionSpec)
  | watching (queue : List FunctionEvent) (received : Option FunctionEvent)
  deriving DecidableEq

/-- `events` is the channel from the subscriber to the leaf, of 32 places, and
`functions` what the leaf has applied. -/
structure World where
  store : Store
  phase : Phase
  seen : Finset UInt64
  events : List FunctionEvent
  functions : UInt64 → Option FunctionSpec

inductive Action
  | call (op : Op)
  | listUsers
  | listFunctions
  | replay
  | watchFunctions
  | receive
  | forward
  | handle
  | fail

/-- `validateFunction` of the leaf. -/
def accepts (fn : FunctionSpec) : Bool :=
  decide (fn.functionId ≠ 0) &&
    match fn.runtime with
    | none => false
    | some runtime =>
        decide (runtime.image ≠ "" ∧ (runtime.protocol = "http" ∨ runtime.protocol = "grpc"))

/-- `handleFunctionEvent`: `ApplyFunction` or `DeleteFunction`. -/
def apply (m : UInt64 → Option FunctionSpec) (ev : FunctionEvent) : UInt64 → Option FunctionSpec :=
  match ev.type with
  | .created | .updated =>
      if accepts ev.function then update m ev.function.functionId (some ev.function)
      else m
  | .deleted => update m ev.function.functionId none

/-- A creation that the session knows of already. -/
def duplicate (seen : Finset UInt64) (ev : FunctionEvent) : Bool :=
  decide (ev.type = .created ∧ ev.function.functionId ∈ seen)

def note (seen : Finset UInt64) (ev : FunctionEvent) : Finset UInt64 :=
  match ev.type with
  | .created => insert ev.function.functionId seen
  | .deleted => seen.erase ev.function.functionId
  | .updated => seen

def created (fn : FunctionSpec) : FunctionEvent := ⟨.created, fn⟩

namespace World

/-- A call on the store; an open watch gets its events. -/
def call (w : World) (op : Op) : World :=
  let r := w.store.step op
  { w with
    store := r.2.1
    phase := match w.phase with
      | .watching queue received => .watching (queue ++ r.2.2) received
      | phase => phase }

def step (w : World) : Action → Except Fault World
  | .call op => .ok (w.call op)
  | .listUsers =>
      match w.phase, (w.store.step .listUsers).1 with
      | .idle, .ok (.users users) => .ok { w with phase := .listing users [], seen := ∅ }
      | _, _ => .error .disabled
  | .listFunctions =>
      match w.phase with
      | .listing (user :: users) [] =>
          match (w.store.step (.listFunctions user.userId)).1 with
          | .ok (.functions functions) => .ok { w with phase := .listing users functions }
          | _ => .error .disabled
      | _ => .error .disabled
  | .replay =>
      match w.phase with
      | .listing users (fn :: functions) =>
          if w.events.length < 32 then
            .ok { w with
              phase := .listing users functions
              seen := insert fn.functionId w.seen
              events := w.events ++ [created fn] }
          else .error .disabled
      | _ => .error .disabled
  | .watchFunctions =>
      match w.phase with
      | .listing [] [] => .ok { w with phase := .watching [] none }
      | _ => .error .disabled
  | .receive =>
      match w.phase with
      | .watching (ev :: queue) none =>
          if duplicate w.seen ev then .ok { w with phase := .watching queue none }
          else .ok { w with phase := .watching queue (some ev), seen := note w.seen ev }
      | _ => .error .disabled
  | .forward =>
      match w.phase with
      | .watching queue (some ev) =>
          if w.events.length < 32 then
            .ok { w with phase := .watching queue none, events := w.events ++ [ev] }
          else .error .disabled
      | _ => .error .disabled
  | .handle =>
      match w.events with
      | [] => .error .disabled
      | ev :: events => .ok { w with events := events, functions := apply w.functions ev }
  | .fail => .ok { w with phase := .idle }

def init : World where
  store := .new
  phase := .idle
  seen := ∅
  events := []
  functions := fun _ => none

/-- What the leaf has when it has handled its channel. -/
def told (w : World) : UInt64 → Option FunctionSpec := w.events.foldl apply w.functions

end World

def machine : Lib.Machine World Action Fault where
  start := fun w => w = World.init
  step := World.step

/-- The id that a creation takes is not zero and not that of another user's function. -/
def fresh (s : Store) : Op → Bool
  | .createFunction (some fn) =>
      let id := if fn.functionId = 0 then s.nextFunctionID else fn.functionId
      decide (id ≠ 0) &&
        s.functions.entries.all fun e => decide (e.1 = fn.userId) || (e.2.lookup id).isNone
  | _ => true

/-- Function ids are globally unique. -/
def uniqueIds (w : World) : Action → Bool
  | .call op => fresh w.store op
  | _ => true

/-- Ids are unique, and no change is missed. -/
def steady (w : World) : Action → Bool
  | .call op =>
      fresh w.store op &&
        match w.phase with
        | .idle => (w.store.step op).2.2.all fun ev =>
            decide (ev.type ≠ .deleted) || (w.told ev.function.functionId).isNone
        | .listing _ _ => (w.store.step op).2.2.isEmpty
        | .watching _ _ => true
  | .fail =>
      match w.phase with
      | .watching queue received =>
          (received.toList ++ queue).all fun ev => decide (ev.type ≠ .deleted)
      | _ => true
  | _ => true

/-! ## Folds of events -/

section Folds

variable {m : UInt64 → Option FunctionSpec} {f : UInt64} {es : List FunctionEvent}

theorem apply_created {x : FunctionSpec} (hx : accepts x = true) :
    apply m (created x) = update m x.functionId (some x) := if_pos hx

theorem fold_created_of_notMem {xs : List FunctionSpec} (hxs : ∀ x ∈ xs, accepts x = true)
    (hf : ∀ x ∈ xs, x.functionId ≠ f) : (xs.map created).foldl apply m f = m f := by
  induction xs generalizing m with
  | nil => rfl
  | cons y ys ih =>
    rw [List.map_cons, List.foldl_cons, ih (fun x hx => hxs x (.tail _ hx))
      (fun x hx => hf x (.tail _ hx)), apply_created (hxs y (.head _)),
      update_of_ne (hf y (.head _)).symm]

theorem fold_created_of_mem {xs : List FunctionSpec} (hxs : ∀ x ∈ xs, accepts x = true)
    {x : FunctionSpec} (hx : x ∈ xs) (hone : ∀ y ∈ xs, y.functionId = x.functionId → y = x) :
    (xs.map created).foldl apply m x.functionId = some x := by
  induction xs generalizing m with
  | nil => cases hx
  | cons y ys ih =>
    have hys : ∀ x ∈ ys, accepts x = true := fun z hz => hxs z (.tail _ hz)
    have hone' : ∀ z ∈ ys, z.functionId = x.functionId → z = x := fun z hz => hone z (.tail _ hz)
    rw [List.map_cons, List.foldl_cons]
    by_cases hmem : x ∈ ys
    · exact ih hys hmem hone'
    · rcases List.mem_cons.mp hx with rfl | hx
      · have hnot : ∀ z ∈ ys, z.functionId ≠ x.functionId := fun z hz he =>
          hmem (hone' z hz he ▸ hz)
        rw [fold_created_of_notMem hys hnot, apply_created (hxs x (.head _)), update_self]
      · exact absurd hx hmem

theorem fold_deleted (hes : ∀ ev ∈ es, ev.type = .deleted) :
    es.foldl apply m f = if ∃ ev ∈ es, ev.function.functionId = f then none else m f := by
  induction es generalizing m with
  | nil => simp
  | cons ev es ih =>
    have happly : apply m ev = update m ev.function.functionId none := by
      simp [apply, hes ev (.head _)]
    rw [List.foldl_cons, ih fun e he => hes e (.tail _ he), happly]
    by_cases hid : ev.function.functionId = f
    · simp [hid]
    · simp [hid, update_of_ne (Ne.symm hid)]

theorem fold_isSome (hes : ∀ ev ∈ es, ev.type ≠ .deleted) (hm : (m f).isSome = true) :
    (es.foldl apply m f).isSome = true := by
  induction es generalizing m with
  | nil => exact hm
  | cons ev es ih =>
    refine ih (fun e he => hes e (.tail _ he)) ?_
    have hev := hes ev (.head _)
    have hput : (update m ev.function.functionId (some ev.function) f).isSome = true := by
      rw [update_apply]
      split
      · rfl
      · exact hm
    cases htype : ev.type with
    | deleted => exact absurd htype hev
    | created | updated =>
      simp only [apply, htype]
      split
      · exact hput
      · exact hm

end Folds

/-! ## The filter of a session -/

/-- What becomes of the events of a watch, and the ids that are then known. -/
def drain (seen : Finset UInt64) : List FunctionEvent → List FunctionEvent × Finset UInt64
  | [] => ([], seen)
  | ev :: queue =>
      if duplicate seen ev then drain seen queue
      else (ev :: (drain (note seen ev) queue).1, (drain (note seen ev) queue).2)

section Drain

variable {seen : Finset UInt64} {es : List FunctionEvent}

theorem drain_append (seen : Finset UInt64) (queue es : List FunctionEvent) :
    drain seen (queue ++ es) = ((drain seen queue).1 ++ (drain (drain seen queue).2 es).1,
      (drain (drain seen queue).2 es).2) := by
  induction queue generalizing seen with
  | nil => rfl
  | cons ev queue ih =>
    rw [List.cons_append, drain, drain]
    split
    · exact ih seen
    · rw [ih]
      rfl

theorem drain_sublist (seen : Finset UInt64) (queue : List FunctionEvent) :
    (drain seen queue).1.Sublist queue := by
  induction queue generalizing seen with
  | nil => exact .slnil
  | cons ev queue ih =>
    rw [drain]
    split
    · exact (ih seen).cons ev
    · exact (ih _).cons_cons ev

theorem drain_deleted (seen : Finset UInt64) (hes : ∀ ev ∈ es, ev.type = .deleted) :
    (drain seen es).1 = es ∧ ∀ f, f ∈ (drain seen es).2 ↔
      f ∈ seen ∧ ∀ ev ∈ es, ev.function.functionId ≠ f := by
  induction es generalizing seen with
  | nil => simp [drain]
  | cons ev es ih =>
    have hev := hes ev (.head _)
    have hnote : note seen ev = seen.erase ev.function.functionId := by simp [note, hev]
    obtain ⟨hall, hmem⟩ := ih (note seen ev) fun e he => hes e (.tail _ he)
    rw [drain, if_neg (by simp [duplicate, hev])]
    refine ⟨by rw [hall], fun f => ?_⟩
    rw [hmem, hnote, Finset.mem_erase, List.forall_mem_cons, ne_comm]
    tauto

end Drain

/-! ## What a call changes -/

def present (t : Tables) (f : UInt64) : Prop := ∃ u, (t.functions u f).isSome = true

/-- The leaf's functions are the store's. -/
def Agrees (m : UInt64 → Option FunctionSpec) (t : Tables) : Prop :=
  ∀ f x, m f = some x ↔ ∃ u, t.functions u f = some x

/-- The leaf knows no function that is gone; what it knows may be old. -/
def Within (m : UInt64 → Option FunctionSpec) (t : Tables) : Prop :=
  ∀ f, (m f).isSome = true → present t f

/-- The tables when ids are unique. -/
structure Sane (t : Tables) : Prop where
  keyed : t.Keyed
  unique : ∀ u u' f, (t.functions u f).isSome = true → (t.functions u' f).isSome = true → u = u'
  accepted : ∀ u f x, t.functions u f = some x → accepts x = true
  user : ∀ u f, (t.functions u f).isSome = true → (t.users u).isSome = true

/-- The functions before and after a call, and its events. -/
inductive Changes (t t' : Tables) : List FunctionEvent → Prop
  | quiet : t'.functions = t.functions → Changes t t' []
  | put (type : FunctionEventType) (x : FunctionSpec) (hx : accepts x = true)
      (htype : type = .created ∧ ¬ present t x.functionId ∨
        type = .updated ∧ present t x.functionId)
      (howner : ∀ u, (t.functions u x.functionId).isSome = true → u = x.userId)
      (h : ∀ u f, t'.functions u f =
        if u = x.userId ∧ f = x.functionId then some x else t.functions u f) :
      Changes t t' [⟨type, x⟩]
  | deleted (u : UInt64) (es : List FunctionEvent)
      (hes : ∀ ev ∈ es, ∃ f, ev = ⟨.deleted, .deleted u f⟩ ∧ (t.functions u f).isSome = true)
      (h : ∀ u' f, t'.functions u' f =
        if u' = u ∧ ∃ ev ∈ es, ev.function.functionId = f then none else t.functions u' f) :
      Changes t t' es

theorem accepts_of_valid {x : FunctionSpec} (hv : x.valid = true) (hid : x.functionId ≠ 0) :
    accepts x = true := by
  unfold FunctionSpec.valid at hv
  unfold accepts
  rw [Bool.and_eq_true] at hv ⊢
  exact ⟨decide_eq_true hid, hv.2⟩

/-- A creation takes an id that no other user's function has. -/
def Free (t : Tables) : Op → Prop
  | .createFunction (some x) =>
      t.functionID x ≠ 0 ∧ ∀ u, u ≠ x.userId → t.functions u (t.functionID x) = none
  | _ => True

section Calls

variable {t : Tables}

theorem deleteUser_changes (hk : t.Keyed) {t' : Tables} {u : UInt64}
    (h : t'.functions = update t.functions u fun _ => none) :
    Changes t t' ((listing (t.functions u)).map fun fn =>
      ⟨.deleted, .deleted u fn.functionId⟩) := by
  refine .deleted u _ ?_ fun u' f => ?_
  · intro ev hev
    obtain ⟨x, hx, rfl⟩ := List.mem_map.mp hev
    obtain ⟨f, hf⟩ := mem_listing.mp hx
    refine ⟨x.functionId, rfl, ?_⟩
    rw [(hk.function u f x hf).2, hf]
    rfl
  · rw [h]
    rcases eq_or_ne u' u with rfl | hne
    · rw [update_self]
      cases hf : t.functions u' f with
      | none => simp
      | some x =>
        refine (if_pos ⟨rfl, _, List.mem_map.mpr ⟨x, mem_listing.mpr ⟨f, hf⟩, rfl⟩, ?_⟩).symm
        exact (hk.function u' f x hf).2
    · rw [update_of_ne hne, if_neg fun h => hne h.1]

/-- Every call on the tables; the functions that are there then have their users. -/
theorem step_changes (hs : Sane t) {op : Op} (hfree : Free t op) :
    Changes t (t.step op).2.1 (t.step op).2.2 ∧ ∀ u f,
      ((t.step op).2.1.functions u f).isSome = true → ((t.step op).2.1.users u).isSome = true := by
  have hm := t.step_moves op
  have huser := hs.user
  generalize t.step op = r at hm ⊢
  cases hm with
  | refused | read _ _ _ => exact ⟨.quiet rfl, huser⟩
  | putPlatformConfig => exact ⟨.quiet rfl, huser⟩
  | @userTaken x =>
    obtain ⟨hfunctions, husers, -⟩ := t.takeUserID_tables x
    simp only [Tables.fail]
    exact ⟨.quiet hfunctions, by rwa [hfunctions, husers]⟩
  | @createUser x =>
    obtain ⟨hfunctions, husers, -⟩ := t.takeUserID_tables x
    refine ⟨.quiet hfunctions, fun u f hf => ?_⟩
    simp only [Tables.setUser, hfunctions, husers] at hf ⊢
    grind [update_apply]
  | updateUser _ =>
    refine ⟨.quiet rfl, fun u f hf => ?_⟩
    simp only [Tables.setUser] at hf ⊢
    grind [update_apply]
  | @deleteUser v =>
    refine ⟨deleteUser_changes hs.keyed rfl, fun u f hf => ?_⟩
    simp only [Tables.setUser] at hf ⊢
    rw [Tables.functions_deleteUser] at hf
    grind [update_apply]
  | @functionTaken x =>
    obtain ⟨hfunctions, husers, -⟩ := t.takeFunctionID_tables x
    simp only [Tables.fail]
    exact ⟨.quiet hfunctions, by rwa [hfunctions, husers]⟩
  | @createFunction x hv hu hnone =>
    obtain ⟨hfunctions, husers, -⟩ := t.takeFunctionID_tables x
    obtain ⟨hne, hother⟩ := hfree
    have hput := (t.takeFunctionID x).functions_setFunction x.userId (t.functionID x)
    simp only [hfunctions] at hput
    have husers' : ∀ y, ((t.takeFunctionID x).setFunction x.userId (t.functionID x) y).users =
        t.users := fun _ => husers
    have howner : ∀ u, (t.functions u (t.functionID x)).isSome = true → u = x.userId := by grind
    refine ⟨.put _ _ (accepts_of_valid (x := { x with functionId := t.functionID x }) hv hne)
      (.inl ⟨rfl, ?_⟩) howner fun u f => hput u f _, by grind⟩
    rintro ⟨u, hu⟩
    rw [howner u hu, hnone] at hu
    cases hu
  | @updateFunction x hv hid hsome =>
    have hput := t.functions_setFunction x.userId x.functionId
    have husers : ∀ y, (t.setFunction x.userId x.functionId y).users = t.users := fun _ => rfl
    exact ⟨.put _ x (accepts_of_valid hv hid) (.inr ⟨rfl, x.userId, hsome⟩)
      (fun u hu => hs.unique u x.userId _ hu hsome) fun u f => hput u f _, by grind⟩
  | @deleteFunction u f hsome =>
    have hput := t.functions_setFunction u f
    have husers : ∀ y, (t.setFunction u f y).users = t.users := fun _ => rfl
    refine ⟨.deleted u _ ?_ fun u' f' => ?_, by grind⟩
    · intro ev hev
      rw [List.mem_singleton.mp hev]
      exact ⟨f, rfl, hsome⟩
    · rw [hput]
      refine if_congr (and_congr_right fun _ => ?_) rfl rfl
      simp [FunctionSpec.deleted, eq_comm]

end Calls

namespace Changes

variable {t t' : Tables} {es es' : List FunctionEvent} {m : UInt64 → Option FunctionSpec}

/-- The order of the events of one call does not matter. -/
theorem perm (h : Changes t t' es) (hp : es'.Perm es) : Changes t t' es' := by
  cases h with
  | quiet h =>
    rw [List.perm_nil.mp hp]
    exact .quiet h
  | put type x hx htype howner h =>
    rw [List.perm_singleton.mp hp]
    exact .put type x hx htype howner h
  | deleted u _ hes h =>
    refine .deleted u es' (fun ev hev => hes ev (hp.mem_iff.mp hev)) fun u' f => ?_
    rw [h]
    exact if_congr (and_congr_right fun _ => by simp only [hp.mem_iff]) rfl rfl

theorem nil (h : Changes t t' []) : t'.functions = t.functions := by
  cases h with
  | quiet h => exact h
  | deleted u _ _ h =>
    funext u' f
    rw [h]
    exact if_neg fun hex => by
      obtain ⟨-, ev, hev, -⟩ := hex
      cases hev

/-- A deletion takes away the functions it names, and no other has their ids. -/
theorem deleted_present (hs : Sane t) {u : UInt64}
    (hes : ∀ ev ∈ es, ∃ f, ev = ⟨.deleted, .deleted u f⟩ ∧ (t.functions u f).isSome = true)
    (h : ∀ u' f, t'.functions u' f =
      if u' = u ∧ ∃ ev ∈ es, ev.function.functionId = f then none else t.functions u' f)
    {u' f : UInt64} {x : FunctionSpec} : t'.functions u' f = some x ↔
      t.functions u' f = some x ∧ ∀ ev ∈ es, ev.function.functionId ≠ f := by
  rw [h]
  constructor
  · intro hx
    split at hx
    · cases hx
    rename_i hnot
    refine ⟨hx, fun ev hev hid => hnot ⟨?_, ev, hev, hid⟩⟩
    obtain ⟨f', rfl, hsome⟩ := hes ev hev
    have hff : f' = f := hid
    subst hff
    exact hs.unique u' u f' (by rw [hx]; rfl) hsome
  · rintro ⟨hx, hnone⟩
    rw [if_neg fun hex => ?_]
    · exact hx
    · obtain ⟨-, ev, hev, hid⟩ := hex
      exact hnone ev hev hid

theorem all_deleted {u : UInt64}
    (hes : ∀ ev ∈ es, ∃ f, ev = ⟨.deleted, .deleted u f⟩ ∧ (t.functions u f).isSome = true) :
    ∀ ev ∈ es, ev.type = .deleted := by
  intro ev hev
  obtain ⟨f, rfl, -⟩ := hes ev hev
  rfl

theorem put_present {x : FunctionSpec} (h : ∀ u f, t'.functions u f =
      if u = x.userId ∧ f = x.functionId then some x else t.functions u f) (f : UInt64) :
    present t' f ↔ f = x.functionId ∨ present t f := by
  constructor
  · rintro ⟨u, hu⟩
    rw [h] at hu
    split at hu
    · rename_i hsame
      exact .inl hsame.2
    · exact .inr ⟨u, hu⟩
  · rintro (rfl | ⟨u, hu⟩)
    · exact ⟨x.userId, by simp [h]⟩
    · exact ⟨u, by grind⟩

/-- A leaf that follows the events stays with the store. -/
theorem agrees (hs : Sane t) (h : Changes t t' es) (ha : Agrees m t) :
    Agrees (es.foldl apply m) t' := by
  intro f y
  cases h with
  | quiet h =>
    rw [h]
    exact ha f y
  | put type x hx htype howner h =>
    have happly : [(⟨type, x⟩ : FunctionEvent)].foldl apply m =
        update m x.functionId (some x) := by
      rcases htype with ⟨rfl, -⟩ | ⟨rfl, -⟩ <;> exact if_pos hx
    rw [happly]
    rcases eq_or_ne f x.functionId with rfl | hne
    · rw [update_self]
      exact ⟨fun hy => ⟨x.userId, by simp [h, hy]⟩, fun ⟨u, hu⟩ => by grind⟩
    · rw [update_of_ne hne, ha f y]
      exact exists_congr fun u => by rw [h, if_neg fun hsame => hne hsame.2]
  | deleted u _ hes h =>
    simp only [deleted_present hs hes h, exists_and_right, ← ha f y]
    rw [fold_deleted (all_deleted hes)]
    split
    · rename_i hex
      obtain ⟨ev, hev, hid⟩ := hex
      exact ⟨fun hx => (nomatch hx), fun hx => absurd hid (hx.2 ev hev)⟩
    · rename_i hex
      exact ⟨fun hx => ⟨hx, fun ev hev hid => hex ⟨ev, hev, hid⟩⟩, fun hx => hx.1⟩

/-- A session that knows the ids there are drops nothing of it. -/
theorem drain (hs : Sane t) (h : Changes t t' es) {seen : Finset UInt64}
    (hseen : ∀ f, f ∈ seen ↔ present t f) :
    (Subscription.drain seen es).1 = es ∧
      ∀ f, f ∈ (Subscription.drain seen es).2 ↔ present t' f := by
  cases h with
  | quiet h =>
    refine ⟨rfl, fun f => (hseen f).trans ?_⟩
    unfold present
    rw [h]
  | put type x hx htype _ h =>
    have hdup : duplicate seen ⟨type, x⟩ = false := by
      rcases htype with ⟨rfl, hnot⟩ | ⟨rfl, -⟩
      · simp [duplicate, hseen, hnot]
      · simp [duplicate]
    simp only [Subscription.drain, hdup, Bool.false_eq_true, if_false, true_and]
    intro f
    rw [put_present h, ← hseen]
    rcases htype with ⟨rfl, -⟩ | ⟨rfl, hsome⟩
    · exact Finset.mem_insert
    · rw [← hseen] at hsome
      exact ⟨.inr, fun hf => hf.elim (fun he => he ▸ hsome) id⟩
  | deleted u _ hes h =>
    obtain ⟨hall, hmem⟩ := drain_deleted seen (all_deleted hes)
    refine ⟨hall, fun f => ?_⟩
    rw [hmem, hseen]
    simp only [present, Option.isSome_iff_exists, deleted_present hs hes h]
    constructor
    · rintro ⟨⟨u', x, hx⟩, hnone⟩
      exact ⟨u', x, hx, hnone⟩
    · rintro ⟨u', x, hx, hnone⟩
      exact ⟨⟨u', x, hx⟩, hnone⟩

theorem present_of (hs : Sane t) (h : Changes t t' es) {f : UInt64} (hf : present t f)
    (hnone : ∀ ev ∈ es, ev.type = .deleted → ev.function.functionId ≠ f) : present t' f := by
  cases h with
  | quiet h =>
    unfold present
    rw [h]
    exact hf
  | put _ x _ _ _ h => exact (put_present h f).mpr (.inr hf)
  | deleted u _ hes h =>
    obtain ⟨u', hu⟩ := hf
    obtain ⟨x, hx⟩ := Option.isSome_iff_exists.mp hu
    refine ⟨u', ?_⟩
    rw [(deleted_present hs hes h).mpr ⟨hx, fun ev hev =>
      hnone ev hev (all_deleted hes ev hev)⟩]
    rfl

end Changes

theorem sane_empty : Sane .empty where
  keyed := Tables.keyed_empty
  unique := nofun
  accepted := nofun
  user := nofun

variable {t : Tables}

theorem Sane.step (hs : Sane t) {op : Op} (hfree : Free t op) : Sane (t.step op).2.1 := by
  obtain ⟨hc, huser⟩ := step_changes hs hfree
  generalize (t.step op).2.2 = es at hc
  have hunique := hs.unique
  have haccepted := hs.accepted
  cases hc with
  | quiet h => exact ⟨hs.keyed.step op, by rwa [h], by rwa [h], huser⟩
  | put _ x hx _ howner h => exact ⟨hs.keyed.step op, by grind, by grind, huser⟩
  | deleted _ _ hes h =>
    have hsub : ∀ u f x, (t.step op).2.1.functions u f = some x → t.functions u f = some x :=
      fun u f x hx => ((Changes.deleted_present hs hes h).mp hx).1
    simp only [Option.isSome_iff_exists] at hunique
    refine ⟨hs.keyed.step op, ?_, fun u f x hx => haccepted u f x (hsub u f x hx), huser⟩
    simp only [Option.isSome_iff_exists]
    rintro u u' f ⟨x, hx⟩ ⟨x', hx'⟩
    exact hunique u u' f ⟨x, hsub _ _ _ hx⟩ ⟨x', hsub _ _ _ hx'⟩

/-! ## Runs -/

/-- What a session is still to replay: the rest of one listing, and those to come. -/
def planned (t : Tables) (users : List UserSpec) (functions : List FunctionSpec) :
    List FunctionSpec :=
  functions ++ users.flatMap fun user => listing (t.functions user.userId)

/-- What the leaf is to know in the end. -/
def Synced (w : World) (t : Tables) : Prop :=
  match w.phase with
  | .idle => Within w.told t
  | .listing users functions =>
      Agrees (((planned t users functions).map created).foldl apply w.told) t ∧
        ∀ f, (f ∈ w.seen ∨ ∃ x ∈ planned t users functions, x.functionId = f) ↔ present t f
  | .watching queue received =>
      Agrees ((received.toList ++ (drain w.seen queue).1).foldl apply w.told) t ∧
        ∀ f, f ∈ (drain w.seen queue).2 ↔ present t f

def Inv (w : World) : Prop := ∃ t, Sane t ∧ Models t w.store ∧ Synced w t

theorem free_of_fresh {s : Store} (hm : Models t s) {op : Op}
    (hop : fresh s op = true) : Free t op := by
  cases op with
  | createFunction fn =>
    cases fn with
    | none => trivial
    | some x =>
      have hid : (if x.functionId = 0 then s.nextFunctionID else x.functionId) =
          t.functionID x := by
        rw [hm.nextFunctionID]
        rfl
      simp only [fresh, Bool.and_eq_true, List.all_eq_true, Bool.or_eq_true] at hop
      rw [hid] at hop
      refine ⟨of_decide_eq_true hop.1, fun u hu => ?_⟩
      rw [← hm.functions]
      cases hl : s.functions.lookup u with
      | none => rw [functionsOf_of_none hl, AList.lookup_empty]
      | some fs =>
        rw [functionsOf_of_lookup hl]
        rcases hop.2 _ (AList.mem_lookup_iff.mp hl) with he | hnone
        · exact absurd (of_decide_eq_true he) hu
        · exact Option.isNone_iff_eq_none.mp hnone
  | _ => trivial

namespace World

variable {w w' : World} {t : Tables}

theorem inv_init : Inv init :=
  ⟨.empty, sane_empty, models_new, nofun⟩

theorem call_idle {t' : Tables} {es : List FunctionEvent} (hs : Sane t) (hc : Changes t t' es)
    (hw : Within w.told t)
    (hes : ∀ ev ∈ es, ev.type = .deleted → (w.told ev.function.functionId).isNone = true) :
    Within w.told t' := by
  intro f hf
  refine hc.present_of hs (hw f hf) fun ev hev hdel hid => ?_
  have hnone := hes ev hev hdel
  rw [hid, Option.isNone_iff_eq_none] at hnone
  rw [hnone] at hf
  cases hf

theorem call_inv (h : Inv w) {op : Op} (hok : steady w (.call op) = true) : Inv (w.call op) := by
  obtain ⟨t, hs, hm, hsync⟩ := h
  simp only [steady, Bool.and_eq_true] at hok
  obtain ⟨hfresh, hphase⟩ := hok
  have hfree := free_of_fresh hm hfresh
  obtain ⟨hshow, hm'⟩ := hm.step hs.keyed op
  have hc := (step_changes hs hfree).1.perm hshow.events
  refine ⟨(t.step op).2.1, hs.step hfree, hm', ?_⟩
  generalize (t.step op).2.1 = t' at hc
  unfold Synced at hsync ⊢
  cases hp : w.phase with
  | idle =>
    simp only [hp] at hsync hphase
    simp only [call, hp]
    refine call_idle hs hc hsync fun ev hev hdel => ?_
    have hev := List.all_eq_true.mp hphase ev hev
    rw [Bool.or_eq_true] at hev
    exact hev.resolve_left fun hne => of_decide_eq_true hne hdel
  | listing users functions =>
    simp only [hp] at hsync hphase
    simp only [call, hp]
    rw [List.isEmpty_iff.mp hphase] at hc
    have hsame := hc.nil
    have hplan : planned t' users functions = planned t users functions := by
      unfold planned
      rw [hsame]
    refine ⟨fun f x => ?_, fun f => ?_⟩
    · rw [hplan, hsame]
      exact hsync.1 f x
    · rw [hplan]
      refine (hsync.2 f).trans ?_
      unfold present
      rw [hsame]
  | watching queue received =>
    simp only [hp] at hsync
    simp only [call, hp]
    obtain ⟨hall, hseen⟩ := hc.drain hs hsync.2
    rw [drain_append, hall]
    refine ⟨?_, hseen⟩
    show Agrees ((received.toList ++ ((drain w.seen queue).1 ++ _)).foldl apply w.told) t'
    rw [← List.append_assoc, List.foldl_append]
    exact hc.agrees hs hsync.1

theorem told_append (w : World) (ev : FunctionEvent) :
    (w.events ++ [ev]).foldl apply w.functions = apply w.told ev := by
  rw [List.foldl_append]
  rfl

/-- The replay of all functions brings a leaf up to date that knows none that is gone. -/
theorem replay_agrees {m : UInt64 → Option FunctionSpec} {xs : List FunctionSpec} (hs : Sane t)
    (hw : Within m t) (hmem : ∀ x, x ∈ xs ↔ ∃ u f, t.functions u f = some x) :
    Agrees ((xs.map created).foldl apply m) t ∧
      ∀ f, (∃ x ∈ xs, x.functionId = f) ↔ present t f := by
  have haccepts : ∀ x ∈ xs, accepts x = true := by
    intro x hx
    obtain ⟨u, f, hf⟩ := (hmem x).mp hx
    exact hs.accepted u f x hf
  have hone : ∀ x ∈ xs, ∀ y ∈ xs, y.functionId = x.functionId → y = x := by
    intro x hx y hy hid
    obtain ⟨u, f, hf⟩ := (hmem x).mp hx
    obtain ⟨u', f', hf'⟩ := (hmem y).mp hy
    have hff : f' = f := by
      rw [← (hs.keyed.function u f x hf).2, ← (hs.keyed.function u' f' y hf').2, hid]
    subst hff
    have huu := hs.unique u u' f' (by rw [hf]; rfl) (by rw [hf']; rfl)
    subst huu
    exact Option.some.inj (hf'.symm.trans hf)
  have hid : ∀ f, (∃ x ∈ xs, x.functionId = f) ↔ present t f := by
    intro f
    constructor
    · rintro ⟨x, hx, rfl⟩
      obtain ⟨u, f, hf⟩ := (hmem x).mp hx
      rw [(hs.keyed.function u f x hf).2]
      exact ⟨u, by rw [hf]; rfl⟩
    · rintro ⟨u, hu⟩
      obtain ⟨x, hx⟩ := Option.isSome_iff_exists.mp hu
      exact ⟨x, (hmem x).mpr ⟨u, f, hx⟩, (hs.keyed.function u f x hx).2⟩
  refine ⟨fun f x => ?_, hid⟩
  by_cases hex : ∃ y ∈ xs, y.functionId = f
  · obtain ⟨y, hy, rfl⟩ := hex
    rw [fold_created_of_mem haccepts hy (hone y hy)]
    constructor
    · intro hxy
      obtain ⟨u, f, hf⟩ := (hmem y).mp hy
      rw [(hs.keyed.function u f y hf).2]
      exact ⟨u, hxy ▸ hf⟩
    · rintro ⟨u, hu⟩
      have hx := (hmem x).mpr ⟨u, _, hu⟩
      rw [hone y hy x hx (hs.keyed.function u _ x hu).2]
  · -- an id that is not there the leaf does not know either
    have hnot : ¬ present t f := fun hp => hex ((hid f).mpr hp)
    rw [fold_created_of_notMem haccepts fun y hy he => hex ⟨y, hy, he⟩]
    constructor
    · intro hx
      exact absurd (hw f (by rw [hx]; rfl)) hnot
    · rintro ⟨u, hu⟩
      exact absurd ⟨u, by rw [hu]; rfl⟩ hnot

theorem mem_planned (hs : Sane t) (x : FunctionSpec) :
    x ∈ planned t (listing t.users) [] ↔ ∃ u f, t.functions u f = some x := by
  rw [planned, List.nil_append, List.mem_flatMap]
  constructor
  · rintro ⟨user, -, hx⟩
    obtain ⟨f, hf⟩ := mem_listing.mp hx
    exact ⟨user.userId, f, hf⟩
  · rintro ⟨u, f, hf⟩
    have hsome : (t.functions u f).isSome = true := Option.isSome_of_eq_some hf
    obtain ⟨user, huser⟩ := Option.isSome_iff_exists.mp (hs.user u f hsome)
    have hid : user.userId = u := hs.keyed.user u user huser
    refine ⟨user, mem_listing.mpr ⟨u, huser⟩, mem_listing.mpr ⟨f, ?_⟩⟩
    rw [hid]
    exact hf

theorem listUsers_synced (hs : Sane t) (hw : Within w.told t) :
    Synced { w with phase := .listing (listing t.users) [], seen := ∅ } t := by
  obtain ⟨hagrees, hid⟩ := replay_agrees hs hw (mem_planned hs)
  refine ⟨hagrees, fun f => ?_⟩
  rw [or_iff_right (Finset.notMem_empty f)]
  exact hid f

theorem listUsers_eq (hm : Models t w.store) (hk : t.Keyed) :
    (w.store.step .listUsers).1 = .ok (.users (listing t.users)) :=
  ok_of_visible rfl (hm.step hk .listUsers).1.result

theorem listFunctions_eq (hm : Models t w.store) (hk : t.Keyed) (u : UInt64) :
    (w.store.step (.listFunctions u)).1 = .ok (.functions (listing (t.functions u))) :=
  ok_of_visible rfl (hm.step hk (.listFunctions u)).1.result

/-- A session that fails while nothing of a deletion is on its way. -/
theorem fail_inv (h : Inv w) (hok : steady w .fail = true) :
    Inv { w with phase := .idle } := by
  obtain ⟨t, hs, hm, hsync⟩ := h
  refine ⟨t, hs, hm, ?_⟩
  show Within w.told t
  have hknown : ∀ es : List FunctionEvent, (∀ ev ∈ es, ev.type ≠ .deleted) →
      Agrees (es.foldl apply w.told) t → Within w.told t := by
    intro es hes hagrees f hf
    obtain ⟨x, hx⟩ := Option.isSome_iff_exists.mp (fold_isSome hes hf)
    obtain ⟨u, hu⟩ := (hagrees f x).mp hx
    exact ⟨u, by rw [hu]; rfl⟩
  unfold Synced at hsync
  cases hp : w.phase with
  | idle =>
    simp only [hp] at hsync
    exact hsync
  | listing users functions =>
    simp only [hp] at hsync
    refine hknown _ (fun ev hev => ?_) hsync.1
    obtain ⟨x, -, rfl⟩ := List.mem_map.mp hev
    exact nofun
  | watching queue received =>
    simp only [hp] at hsync
    simp only [steady, hp] at hok
    refine hknown _ (fun ev hev => ?_) hsync.1
    have hmem : ev ∈ received.toList ++ queue := by
      rcases List.mem_append.mp hev with hev | hev
      · exact List.mem_append_left _ hev
      · exact List.mem_append_right _ ((drain_sublist w.seen queue).subset hev)
    exact of_decide_eq_true (List.all_eq_true.mp hok ev hmem)

/-- The listing of one user's functions; they were planned already. -/
theorem planned_next (t : Tables) (user : UserSpec) (users : List UserSpec) :
    planned t users (listing (t.functions user.userId)) = planned t (user :: users) [] := by
  rw [planned, planned, List.nil_append, List.flatMap_cons]

theorem replay_inv {users : List UserSpec} {fn : FunctionSpec} {fns : List FunctionSpec}
    (hp : w.phase = .listing users (fn :: fns)) (hsync : Synced w t) :
    Synced { w with
      phase := .listing users fns
      seen := insert fn.functionId w.seen
      events := w.events ++ [created fn] } t := by
  have hplan : planned t users (fn :: fns) = fn :: planned t users fns := rfl
  unfold Synced at hsync
  simp only [hp, hplan] at hsync
  obtain ⟨hagrees, hseen⟩ := hsync
  refine ⟨?_, fun f => ?_⟩
  · show Agrees (((planned t users fns).map created).foldl apply
      ((w.events ++ [created fn]).foldl apply w.functions)) t
    rw [told_append]
    exact hagrees
  · rw [← hseen f]
    simp only [Finset.mem_insert, List.mem_cons, exists_eq_or_imp]
    tauto

variable {ev : FunctionEvent}

theorem receive_inv {queue : List FunctionEvent} (hp : w.phase = .watching (ev :: queue) none)
    (hsync : Synced w t) :
    Synced (if duplicate w.seen ev then { w with phase := .watching queue none }
      else { w with phase := .watching queue (some ev), seen := note w.seen ev }) t := by
  unfold Synced at hsync
  rw [hp] at hsync
  simp only [drain] at hsync
  split
  · rename_i hdup
    simp only [hdup, if_true] at hsync
    exact hsync
  · rename_i hdup
    simp only [hdup] at hsync
    exact hsync

theorem forward_inv {queue : List FunctionEvent} (hp : w.phase = .watching queue (some ev))
    (hsync : Synced w t) :
    Synced { w with phase := .watching queue none, events := w.events ++ [ev] } t := by
  unfold Synced at hsync
  rw [hp] at hsync
  refine ⟨?_, hsync.2⟩
  show Agrees ((drain w.seen queue).1.foldl apply
    ((w.events ++ [ev]).foldl apply w.functions)) t
  rw [told_append]
  exact hsync.1

theorem handle_inv {events : List FunctionEvent} (he : w.events = ev :: events)
    (hsync : Synced w t) :
    Synced { w with events := events, functions := apply w.functions ev } t := by
  have htold : ({ w with events := events, functions := apply w.functions ev } : World).told =
      w.told := by
    unfold told
    rw [he]
    rfl
  unfold Synced at hsync ⊢
  rw [htold]
  exact hsync

theorem step_inv (h : Inv w) {a : Action} (hok : steady w a = true) (hw : w.step a = .ok w') :
    Inv w' := by
  cases a with
  | call op =>
    cases hw
    exact call_inv h hok
  | fail =>
    cases hw
    exact fail_inv h hok
  | listUsers =>
    obtain ⟨t, hs, hm, hsync⟩ := h
    simp only [step, listUsers_eq hm hs.keyed] at hw
    split at hw
    · rename_i users hp heq
      cases heq
      cases hw
      unfold Synced at hsync
      rw [hp] at hsync
      exact ⟨t, hs, hm, listUsers_synced hs hsync⟩
    · cases hw
  | listFunctions =>
    obtain ⟨t, hs, hm, hsync⟩ := h
    simp only [step] at hw
    split at hw
    · rename_i user users hp
      rw [listFunctions_eq hm hs.keyed] at hw
      cases hw
      unfold Synced at hsync
      rw [hp] at hsync
      refine ⟨t, hs, hm, ?_⟩
      unfold Synced
      simp only [planned_next]
      exact hsync
    · cases hw
  | replay =>
    obtain ⟨t, hs, hm, hsync⟩ := h
    simp only [step] at hw
    split at hw
    · rename_i users fn fns hp
      split at hw
      · cases hw
        exact ⟨t, hs, hm, replay_inv hp hsync⟩
      · cases hw
    · cases hw
  | watchFunctions =>
    obtain ⟨t, hs, hm, hsync⟩ := h
    simp only [step] at hw
    split at hw
    · rename_i hp
      cases hw
      unfold Synced at hsync
      rw [hp] at hsync
      refine ⟨t, hs, hm, hsync.1, fun f => ?_⟩
      rw [← hsync.2 f]
      exact ⟨.inl, fun hf => hf.resolve_right fun ⟨x, hx, _⟩ => by cases hx⟩
    · cases hw
  | receive =>
    obtain ⟨t, hs, hm, hsync⟩ := h
    simp only [step] at hw
    split at hw
    · rename_i ev queue hp
      have hnext := receive_inv hp hsync
      split at hw
      · rename_i hdup
        cases hw
        rw [if_pos hdup] at hnext
        exact ⟨t, hs, hm, hnext⟩
      · rename_i hdup
        cases hw
        rw [if_neg hdup] at hnext
        exact ⟨t, hs, hm, hnext⟩
    · cases hw
  | forward =>
    obtain ⟨t, hs, hm, hsync⟩ := h
    simp only [step] at hw
    split at hw
    · rename_i queue ev hp
      split at hw
      · cases hw
        exact ⟨t, hs, hm, forward_inv hp hsync⟩
      · cases hw
    · cases hw
  | handle =>
    obtain ⟨t, hs, hm, hsync⟩ := h
    simp only [step] at hw
    split at hw
    · cases hw
    · rename_i ev events he
      cases hw
      exact ⟨t, hs, hm, handle_inv he hsync⟩

end World

theorem getFunction_iff {s : Store} (hm : Models t s) (u f : UInt64)
    (x : FunctionSpec) : (s.step (.getFunction u f)).1 = .ok (.function x) ↔
      t.functions u f = some x := by
  rw [← hm.functions]
  simp only [step, getFunction]
  cases (s.functionsOf u).lookup f with
  | none =>
    constructor
    · intro h
      cases h
    · intro h
      cases h
  | some y => exact ⟨fun h => by cases h; rfl, fun h => by cases h; rfl⟩

/-- The watch is open, and every event has been handled. -/
def World.settled (w : World) : Prop := w.phase = .watching [] none ∧ w.events = []

instance (w : World) : Decidable w.settled :=
  inferInstanceAs (Decidable (w.phase = .watching [] none ∧ w.events = []))

/-- **Convergence.** -/
theorem functions_converge {w : World}
    (hw : machine.ReachesWhile (fun w a => steady w a = true) w) (hq : w.settled) (f : UInt64)
    (x : FunctionSpec) :
    w.functions f = some x ↔ ∃ u, (w.store.step (.getFunction u f)).1 = .ok (.function x) := by
  have hinv : Inv w := by
    refine hw.invariant ?_ fun _ _ _ hi hok hs => World.step_inv hi hok hs
    rintro _ rfl
    exact World.inv_init
  obtain ⟨t, -, hm, hsync⟩ := hinv
  obtain ⟨hphase, hevents⟩ := hq
  unfold Synced at hsync
  rw [hphase] at hsync
  have htold : w.told = w.functions := by
    unfold World.told
    rw [hevents]
    rfl
  have hagrees := hsync.1 f x
  rw [htold] at hagrees
  simp only [getFunction_iff hm]
  exact hagrees

/-- A function before the first session, one during it, and one while the leaf is away. -/
def followed : List Action :=
  [.call (.createUser (some ⟨0, "a"⟩)), .call (.createFunction (some ⟨1, 0, some someRuntime, ""⟩)),
    .listUsers, .listFunctions, .replay, .watchFunctions,
    .call (.createFunction (some ⟨1, 0, some someRuntime, "b"⟩)), .receive, .forward, .handle,
    .handle, .fail, .call (.createFunction (some ⟨1, 0, some someRuntime, "c"⟩)),
    .listUsers, .listFunctions, .replay, .replay, .replay, .watchFunctions,
    .call (.deleteFunction 1 2), .receive, .forward, .handle, .handle, .handle, .handle]

theorem functions_converge_followed :
    ∃ w, machine.ReachesWhile (fun w a => steady w a = true) w ∧ w.settled ∧
      (w.functions 3 = some ⟨1, 3, some someRuntime, "c"⟩ ↔
        ∃ u, (w.store.step (.getFunction u 3)).1 = .ok (.function ⟨1, 3, some someRuntime, "c"⟩)) ∧
      w.functions 3 = some ⟨1, 3, some someRuntime, "c"⟩ ∧ w.functions 2 = none := by
  obtain ⟨w, hw, hq, hfn⟩ := machine.exists_while_of_run (P := fun w a => steady w a = true)
    (Q := fun w => w.settled ∧
      w.functions 3 = some ⟨1, 3, some someRuntime, "c"⟩ ∧ w.functions 2 = none)
    .init followed rfl (by decide +kernel)
  exact ⟨w, hw, hq, functions_converge hw hq 3 _, hfn⟩

/-- A function created after the listing of its user and before the watch; and one
deleted while the leaf is away. -/
theorem missed_creation :
    (∃ w, machine.ReachesWhile (fun w a => uniqueIds w a = true) w ∧ w.settled ∧
      w.functions 1 = none ∧
        (w.store.step (.getFunction 1 1)).1 = .ok (.function ⟨1, 1, some someRuntime, ""⟩)) ∧
    ∃ w, machine.ReachesWhile (fun w a => uniqueIds w a = true) w ∧ w.settled ∧
      w.functions 1 = some ⟨1, 1, some someRuntime, ""⟩ ∧
        ∀ u, (w.store.step (.getFunction u 1)).1 ≠ .ok (.function ⟨1, 1, some someRuntime, ""⟩) := by
  constructor
  · exact machine.exists_while_of_run .init
      [.call (.createUser (some ⟨0, "a"⟩)), .listUsers, .listFunctions,
        .call (.createFunction (some ⟨1, 0, some someRuntime, ""⟩)), .watchFunctions]
      rfl (by decide +kernel)
  · obtain ⟨w, hw, hq, hfn, hempty⟩ := machine.exists_while_of_run
      (P := fun w a => uniqueIds w a = true)
      (Q := fun w => w.settled ∧
        w.functions 1 = some ⟨1, 1, some someRuntime, ""⟩ ∧ w.store.functions.entries = []) .init
      [.call (.createUser (some ⟨0, "a"⟩)),
        .call (.createFunction (some ⟨1, 0, some someRuntime, ""⟩)), .listUsers, .listFunctions,
        .replay, .handle, .fail, .call (.deleteFunction 1 1), .listUsers, .listFunctions,
        .watchFunctions] rfl (by decide +kernel)
    refine ⟨w, hw, hq, hfn, fun u => ?_⟩
    have hnone : w.store.functions.lookup u = none :=
      Memory.lookup_of_isEmpty (by rw [hempty]; rfl) u
    simp only [Memory.Store.step, Memory.Store.getFunction,
      Memory.Store.functionsOf_of_none hnone, AList.lookup_empty]
    intro he
    cases he

end HyperFaaS.ControlPlane.Subscription
