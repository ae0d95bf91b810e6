import HyperFaaS.ControlPlane.MemoryTables
import HyperFaaS.Lib.Machine

/-!
Function watchers of the store in memory (`WatchFunctions` and `emitLocked`, memory.go).
Each has a channel of sixteen places, from which its consumer takes at its own pace. An
event that finds a channel full is dropped for that watcher.

Proved here (`function_watch_lossless`): when a watcher's channel is empty, the events taken
from it, replayed over the functions at its subscription, give the functions of the store,
if every call is made when its events fit into the channels. Otherwise an event is lost, and
the watcher is never told (`function_watch_loses`).
-/

namespace HyperFaaS.ControlPlane.Memory.FunctionWatch

open Store

inductive Fault
  | disabled
  deriving DecidableEq, Repr

/-- The functions of each user. -/
abbrev View := UInt64 → UInt64 → Option FunctionSpec

/-- `base`: the functions at the subscription. `delivered`: what the consumer has taken. -/
structure Watcher where
  registered : Bool
  base : View
  channel : List FunctionEvent
  delivered : List FunctionEvent

structure World where
  store : Store
  watchers : List Watcher

inductive Action
  | call (op : Op)
  | watch
  | receive (i : Nat)
  | close

def capacity : Nat := 16

/-- The `select` of `emitLocked`. -/
def Watcher.offer (x : Watcher) (ev : FunctionEvent) : Watcher :=
  if x.registered ∧ x.channel.length < capacity then { x with channel := x.channel ++ [ev] } else x

def emitLocked (watchers : List Watcher) (ev : FunctionEvent) : List Watcher :=
  watchers.map fun x => x.offer ev

def view (s : Store) : View := fun userID functionID => (s.functionsOf userID).lookup functionID

namespace World

def step (w : World) : Action → Except Fault World
  | .call op =>
      let (_, store, es) := w.store.step op
      .ok ⟨store, es.foldl emitLocked w.watchers⟩
  | .watch =>
      if w.store.closed then .error .disabled
      else .ok { w with watchers := w.watchers ++ [⟨true, view w.store, [], []⟩] }
  | .receive i =>
      match w.watchers[i]? with
      | some ⟨registered, base, ev :: channel, delivered⟩ =>
          .ok { w with
            watchers := w.watchers.set i ⟨registered, base, channel, delivered ++ [ev]⟩ }
      | _ => .error .disabled
  | .close =>
      .ok ⟨w.store.close, w.watchers.map fun x => { x with registered := false }⟩

def init : World := ⟨.new, []⟩

/-- The events of a call fit into the channels. -/
def roomy (w : World) : Action → Bool
  | .call op => w.watchers.all fun x =>
      !x.registered || x.channel.length + (w.store.step op).2.2.length ≤ capacity
  | _ => true

end World

def machine : Lib.Machine World Action Fault where
  start := fun w => w = World.init
  step := World.step

/-- What a consumer makes of an event. -/
def replay (m : View) (ev : FunctionEvent) : View := fun userID functionID =>
  if userID = ev.function.userId ∧ functionID = ev.function.functionId then
    match ev.type with
    | .created | .updated => some ev.function
    | .deleted => none
  else m userID functionID

def Watcher.replayed (x : Watcher) : View := x.delivered.foldl replay x.base

/-! ## Events tell what a call does -/

section Calls

variable {s : Store} {t : Tables}

/-- The events of a deletion, in any order, take away the functions they name. -/
theorem foldl_deleted (m : View) {u : UInt64} {es : List FunctionEvent}
    (hes : ∀ ev ∈ es, ∃ f, ev = ⟨.deleted, .deleted u f⟩) (u' f : UInt64) :
    es.foldl replay m u' f =
      if u' = u ∧ ∃ ev ∈ es, ev.function.functionId = f then none else m u' f := by
  induction es generalizing m with
  | nil => simp
  | cons ev es ih =>
    obtain ⟨id, rfl⟩ := hes ev (.head _)
    have hone : replay m ⟨.deleted, .deleted u id⟩ u' f = if u' = u ∧ f = id then none else m u' f :=
      rfl
    rw [List.foldl_cons, ih _ fun e he => hes e (.tail _ he), hone]
    by_cases hu : u' = u
    · by_cases hf : f = id
      · simp [hu, hf, FunctionSpec.deleted]
      · simp [hu, hf, Ne.symm hf, FunctionSpec.deleted]
    · simp [hu]

/-- Replaying the events of a call gives the functions after it. -/
theorem step_replay (hm : Models t s) (hk : t.Keyed) (op : Op) :
    view (s.step op).2.1 = (s.step op).2.2.foldl replay (view s) := by
  obtain ⟨hshow, hm'⟩ := hm.step hk op
  have hview : view s = t.functions := funext₂ hm.functions
  have hview' : view (s.step op).2.1 = (t.step op).2.1.functions := funext₂ hm'.functions
  have hp := hshow.events
  rw [hview, hview']
  generalize (s.step op).2.2 = es at hp ⊢
  have hmoves := t.step_moves op
  generalize t.step op = r at hmoves hp ⊢
  cases hmoves with
  | refused | read _ _ _ | updateUser _ | putPlatformConfig =>
    rw [List.perm_nil.mp hp]
    rfl
  | @userTaken x | @createUser x =>
    rw [List.perm_nil.mp hp]
    exact (t.takeUserID_tables x).1
  | @functionTaken x =>
    rw [List.perm_nil.mp hp]
    exact (t.takeFunctionID_tables x).1
  | @createFunction x =>
    rw [List.perm_singleton.mp hp]
    funext u f
    rw [Tables.functions_setFunction, (t.takeFunctionID_tables x).1]
    rfl
  | updateFunction _ _ _ =>
    rw [List.perm_singleton.mp hp]
    exact funext₂ fun u f => t.functions_setFunction _ _ u f _
  | deleteFunction _ =>
    rw [List.perm_singleton.mp hp]
    exact funext₂ fun u f => t.functions_setFunction _ _ u f _
  | @deleteUser u =>
    funext u' f
    have hes : ∀ ev, ev ∈ es ↔
        ∃ x ∈ listing (t.functions u), ⟨.deleted, .deleted u x.functionId⟩ = ev := by
      intro ev
      rw [hp.mem_iff, List.mem_map]
    rw [foldl_deleted t.functions fun ev hev => by
      obtain ⟨x, -, rfl⟩ := (hes ev).mp hev
      exact ⟨x.functionId, rfl⟩]
    show Function.update t.functions u (fun _ => none) u' f = _
    rcases eq_or_ne u' u with rfl | hne
    · rw [Function.update_self]
      cases hf : t.functions u' f with
      | none => simp
      | some x =>
        refine (if_pos ⟨rfl, _, (hes _).mpr ⟨x, mem_listing.mpr ⟨f, hf⟩, rfl⟩, ?_⟩).symm
        exact (hk.function u' f x hf).2
    · rw [Function.update_of_ne hne, if_neg fun h => hne h.1]

theorem step_closed (h : s.closed = true) (op : Op) :
    (s.step op).2.2 = [] ∧ (s.step op).2.1.closed = true ∧
      (s.step op).2.1.functions = s.functions := by
  cases op with
  | createUser user =>
    cases user with
    | none => exact ⟨rfl, h, rfl⟩
    | some user =>
      simp only [step, createUser, h, if_true]
      split <;> exact ⟨rfl, h, rfl⟩
  | updateUser user =>
    cases user with
    | none => exact ⟨rfl, h, rfl⟩
    | some user =>
      simp only [step, updateUser, h, if_true]
      split
      · exact ⟨rfl, h, rfl⟩
      split <;> exact ⟨rfl, h, rfl⟩
  | deleteUser u =>
    simp only [step, deleteUser, h, if_true]
    split <;> exact ⟨rfl, h, rfl⟩
  | getUser u =>
    simp only [step, getUser]
    split <;> exact ⟨rfl, h, rfl⟩
  | listUsers => exact ⟨rfl, h, rfl⟩
  | createFunction fn =>
    simp only [step, createFunction, h, if_true]
    split <;> exact ⟨rfl, h, rfl⟩
  | updateFunction fn =>
    simp only [step, updateFunction, h, if_true]
    split
    · exact ⟨rfl, h, rfl⟩
    split <;> exact ⟨rfl, h, rfl⟩
  | deleteFunction u f =>
    simp only [step, deleteFunction, h, if_true]
    split <;> exact ⟨rfl, h, rfl⟩
  | getFunction u f =>
    simp only [step, getFunction]
    split <;> exact ⟨rfl, h, rfl⟩
  | listFunctions u => exact ⟨rfl, h, rfl⟩
  | getPlatformConfig =>
    simp only [step, getPlatformConfig]
    split <;> exact ⟨rfl, h, rfl⟩
  | putPlatformConfig cfg v =>
    cases cfg with
    | none => exact ⟨rfl, h, rfl⟩
    | some cfg =>
      simp only [step, putPlatformConfig, h, if_true]
      exact ⟨rfl, h, rfl⟩

/-- The store is closed, or it follows some tables. -/
def Followed (s : Store) : Prop := s.closed = true ∨ ∃ t : Tables, t.Keyed ∧ Models t s

theorem Followed.step (h : Followed s) (op : Op) :
    Followed (s.step op).2.1 ∧ view (s.step op).2.1 = (s.step op).2.2.foldl replay (view s) := by
  rcases h with hclosed | ⟨t, hk, hm⟩
  · obtain ⟨hnone, hclosed', hsame⟩ := step_closed hclosed op
    refine ⟨.inl hclosed', ?_⟩
    rw [hnone]
    funext u f
    simp only [List.foldl_nil, view, functionsOf, hsame]
  · exact ⟨.inr ⟨_, hk.step op, (hm.step hk op).2⟩, step_replay hm hk op⟩

end Calls

/-! ## Watchers -/

/-- A watcher and its channel know the functions of the store. -/
structure Watcher.Knows (x : Watcher) (s : Store) : Prop where
  knows : x.channel.foldl replay x.replayed = view s
  gone : x.registered = false → s.closed = true

theorem foldl_emitLocked (es : List FunctionEvent) (watchers : List Watcher) :
    es.foldl emitLocked watchers = watchers.map fun x => es.foldl Watcher.offer x := by
  induction es generalizing watchers with
  | nil => simp
  | cons ev es ih =>
    rw [List.foldl_cons, ih, emitLocked, List.map_map]
    rfl

theorem foldl_offer (x : Watcher) (es : List FunctionEvent) (hreg : x.registered = true)
    (hfit : x.channel.length + es.length ≤ capacity) :
    es.foldl Watcher.offer x = { x with channel := x.channel ++ es } := by
  induction es generalizing x with
  | nil => simp
  | cons ev es ih =>
    simp only [List.length_cons] at hfit
    have hone : x.offer ev = { x with channel := x.channel ++ [ev] } :=
      if_pos ⟨hreg, by omega⟩
    have hrest := ih { x with channel := x.channel ++ [ev] } hreg (by
      simp only [List.length_append, List.length_singleton]
      omega)
    rw [List.foldl_cons, hone, hrest]
    simp

variable {w w' : World}

theorem Watcher.Knows.call {x : Watcher} {s : Store} (h : x.Knows s) {op : Op} (hs : Followed s)
    (hok : (!x.registered || x.channel.length + (s.step op).2.2.length ≤ capacity) = true) :
    ((s.step op).2.2.foldl Watcher.offer x).Knows (s.step op).2.1 := by
  cases hreg : x.registered with
  | true =>
    simp only [hreg, Bool.not_true, Bool.false_or, decide_eq_true_eq] at hok
    rw [foldl_offer x _ hreg hok]
    refine ⟨?_, fun hgone => ?_⟩
    · change (x.channel ++ (s.step op).2.2).foldl replay x.replayed = _
      rw [List.foldl_append, h.knows, (hs.step op).2]
    · exact absurd (hreg.symm.trans hgone) Bool.true_eq_false.mp
  | false =>
    obtain ⟨hnone, hclosed, -⟩ := step_closed (h.gone hreg) op
    have hview := (hs.step op).2
    rw [hnone] at hview ⊢
    exact ⟨h.knows.trans hview.symm, fun _ => hclosed⟩

/-- All watchers do. -/
structure World.Informed (w : World) : Prop where
  store : Followed w.store
  knows : ∀ x ∈ w.watchers, x.Knows w.store

theorem World.Informed.receive (h : w.Informed) {i : Nat} {registered : Bool} {base : View}
    {ev : FunctionEvent} {channel delivered : List FunctionEvent}
    (hi : w.watchers[i]? = some ⟨registered, base, ev :: channel, delivered⟩) :
    World.Informed { w with
      watchers := w.watchers.set i ⟨registered, base, channel, delivered ++ [ev]⟩ } := by
  refine ⟨h.store, fun x hx => ?_⟩
  rcases List.mem_or_eq_of_mem_set hx with hx | rfl
  · exact h.knows x hx
  · have hold := h.knows _ (List.mem_of_getElem? hi)
    refine ⟨?_, hold.gone⟩
    have hknows : (ev :: channel).foldl replay (delivered.foldl replay base) = view w.store :=
      hold.knows
    change channel.foldl replay ((delivered ++ [ev]).foldl replay base) = view w.store
    rw [List.foldl_append]
    exact hknows

theorem World.Informed.step (h : w.Informed) {a : Action} (hok : w.roomy a = true)
    (hs : w.step a = .ok w') : w'.Informed := by
  cases a with
  | call op =>
    cases hs
    refine ⟨(h.store.step op).1, fun x hx => ?_⟩
    have hx : x ∈ (w.store.step op).2.2.foldl emitLocked w.watchers := hx
    rw [foldl_emitLocked] at hx
    obtain ⟨y, hy, rfl⟩ := List.mem_map.mp hx
    exact (h.knows y hy).call h.store (List.all_eq_true.mp hok y hy)
  | watch =>
    simp only [World.step] at hs
    split at hs
    · cases hs
    · cases hs
      refine ⟨h.store, fun x hx => ?_⟩
      rcases List.mem_append.mp hx with hx | hx
      · exact h.knows x hx
      · cases List.mem_singleton.mp hx
        exact ⟨rfl, nofun⟩
  | receive i =>
    simp only [World.step] at hs
    split at hs
    · rename_i hi
      cases hs
      exact h.receive hi
    · cases hs
  | close =>
    cases hs
    refine ⟨.inl rfl, fun x hx => ?_⟩
    obtain ⟨y, hy, rfl⟩ := List.mem_map.mp hx
    exact ⟨(h.knows y hy).knows, fun _ => rfl⟩

/-- **A watcher that has taken everything knows the store.** -/
theorem function_watch_lossless
    (hw : machine.ReachesWhile (fun w a => w.roomy a = true) w)
    {x : Watcher} (hx : x ∈ w.watchers) (hempty : x.channel = []) :
    x.replayed = view w.store := by
  have hinformed : w.Informed := by
    refine hw.invariant (I := World.Informed) ?_ fun _ _ _ hi hok hs => hi.step hok hs
    rintro _ rfl
    exact ⟨.inr ⟨_, Tables.keyed_empty, models_new⟩, nofun⟩
  have hknows := (hinformed.knows x hx).knows
  rw [hempty] at hknows
  exact hknows

def newFunction : Op := .createFunction (some ⟨1, 0, some ⟨"image", "http", ""⟩, ""⟩)

/-- A user with a function is deleted, and the consumer takes both events. -/
theorem function_watch_lossless_deleted :
    ∃ w, machine.ReachesWhile (fun w a => w.roomy a = true) w ∧
      ∃ x ∈ w.watchers, x.delivered.length = 2 ∧ x.replayed = view w.store := by
  obtain ⟨w, hw, x, hx, hempty, hlen⟩ := machine.exists_while_of_run
    (P := fun w a => w.roomy a = true)
    (Q := fun w => ∃ x ∈ w.watchers, x.channel = [] ∧ x.delivered.length = 2) .init
    [.call (.createUser (some ⟨0, "user"⟩)), .watch, .call newFunction, .call (.deleteUser 1),
      .receive 0, .receive 0] rfl (by decide +kernel)
  exact ⟨w, hw, x, hx, hlen, function_watch_lossless hw hx hempty⟩

/-- The seventeenth function is created while the consumer has taken nothing. -/
theorem function_watch_loses :
    ∃ w, machine.Reachable w ∧
      ∃ x ∈ w.watchers, x.channel = [] ∧ x.replayed ≠ view w.store := by
  obtain ⟨w, hw, x, hx, hempty, hne⟩ := machine.exists_of_run
    (Q := fun w => ∃ x ∈ w.watchers, x.channel = [] ∧ x.replayed 1 17 ≠ view w.store 1 17) .init
    (.call (.createUser (some ⟨0, "user"⟩)) :: .watch :: List.replicate 17 (.call newFunction) ++
      List.replicate 16 (.receive 0)) rfl (by decide +kernel)
  exact ⟨w, hw, x, hx, hempty, fun he => hne (congrFun (congrFun he 1) 17)⟩

end HyperFaaS.ControlPlane.Memory.FunctionWatch
