import HyperFaaS.ControlPlane.Spec
import Mathlib.Logic.Function.Basic
import Mathlib.Order.Monotone.Defs

/-!
What a store of the control plane is for, whatever keeps it: a table of users and one of
functions, each with the counter of its automatic ids, and one document whose versions
count its writes. Both backends are compared with this one (`Shows`); a backend may name
the versions in its own way, so they are compared up to a renaming.
-/

namespace HyperFaaS.ControlPlane

open Function

/-! ## Listings -/

/-- Every id, in order. -/
def ids : List UInt64 := (List.range UInt64.size).map UInt64.ofNat

theorem mem_ids (id : UInt64) : id ∈ ids :=
  List.mem_map.mpr ⟨id.toNat, List.mem_range.mpr id.toNat_lt, UInt64.ofNat_toNat⟩

theorem ids_pairwise : ids.Pairwise (· < ·) := by
  unfold ids
  rw [List.pairwise_map]
  refine List.Pairwise.imp_of_mem ?_ List.pairwise_lt_range
  intro m n hm hn hlt
  rw [UInt64.lt_iff_toNat_lt, UInt64.toNat_ofNat_of_lt' (List.mem_range.mp hm),
    UInt64.toNat_ofNat_of_lt' (List.mem_range.mp hn)]
  exact hlt

attribute [irreducible] ids

/-- The entries of a table by their ids. -/
def listing {α : Type} (table : UInt64 → Option α) : List α := ids.filterMap table

theorem mem_listing {α : Type} {table : UInt64 → Option α} {x : α} :
    x ∈ listing table ↔ ∃ id, table id = some x := by
  simp [listing, List.mem_filterMap, mem_ids]

theorem listing_pairwise {α : Type} {table : UInt64 → Option α} {key : α → UInt64}
    (hkey : ∀ id x, table id = some x → key x = id) :
    (listing table).Pairwise fun x y => key x < key y := by
  unfold listing
  rw [List.pairwise_filterMap]
  refine ids_pairwise.imp ?_
  intro i j hij x hx y hy
  rw [hkey i x hx, hkey j y hy]
  exact hij

/-- A list without repetitions that has the entries of a table is, in order, its listing. -/
theorem insertionSort_eq_listing {α : Type} {table : UInt64 → Option α} {key : α → UInt64}
    {le : α → α → Prop} [DecidableRel le] (hle : ∀ x y, le x y ↔ key x ≤ key y)
    (hkey : ∀ id x, table id = some x → key x = id) {l : List α} (hl : l.Nodup)
    (hmem : ∀ x, x ∈ l ↔ ∃ id, table id = some x) : l.insertionSort le = listing table := by
  have htotal : Std.Total le := ⟨fun x y => by
    rw [hle, hle]
    exact UInt64.le_total _ _⟩
  have htrans : IsTrans α le := ⟨fun x y z hxy hyz => by
    rw [hle] at hxy hyz ⊢
    exact UInt64.le_trans hxy hyz⟩
  have hsorted := listing_pairwise hkey
  have hnodup : (listing table).Nodup := hsorted.imp fun hlt he => by
    rw [he] at hlt
    exact absurd hlt (UInt64.lt_irrefl _)
  refine List.Perm.eq_of_pairwise ?_ (List.pairwise_insertionSort le l)
    (hsorted.imp fun hlt => (hle _ _).mpr (UInt64.le_of_lt hlt)) ?_
  · intro x y hx hy hxy hyx
    -- two entries with one key are the same entry
    obtain ⟨i, hi⟩ := (hmem x).mp ((List.mem_insertionSort le).mp hx)
    obtain ⟨j, hj⟩ := mem_listing.mp hy
    have he : key x = key y := UInt64.le_antisymm ((hle _ _).mp hxy) ((hle _ _).mp hyx)
    rw [hkey i x hi, hkey j y hj] at he
    rw [he, hj] at hi
    exact (Option.some.inj hi).symm
  · refine (List.perm_insertionSort le l).trans ((List.perm_ext_iff_of_nodup hl hnodup).mpr ?_)
    intro x
    rw [hmem, mem_listing]

/-! ## The tables -/

structure Tables where
  nextUserID : UInt64
  nextFunctionID : UInt64
  users : UInt64 → Option UserSpec
  functions : UInt64 → UInt64 → Option FunctionSpec
  writes : Nat
  document : Option String

/-- What both stores ask of a function. -/
def FunctionSpec.valid (function : FunctionSpec) : Bool :=
  decide (function.userId ≠ 0) &&
    match function.runtime with
    | none => false
    | some runtime =>
        decide (runtime.image ≠ "" ∧ (runtime.protocol = "http" ∨ runtime.protocol = "grpc"))

namespace Tables

abbrev Outcome := Except Code Reply × Tables × List FunctionEvent

def empty : Tables where
  nextUserID := 1
  nextFunctionID := 1
  users := fun _ => none
  functions := fun _ _ => none
  writes := 0
  document := none

def fail (t : Tables) (code : Code) : Outcome := (.error code, t, [])

def setUser (t : Tables) (userID : UInt64) (user : Option UserSpec) : Tables :=
  { t with users := update t.users userID user }

def setFunction (t : Tables) (userID functionID : UInt64) (function : Option FunctionSpec) :
    Tables :=
  { t with
    functions := update t.functions userID
      (update (t.functions userID) functionID function) }

/-- The id of a creation: the one that is asked for, or the counter. -/
def userID (t : Tables) (user : UserSpec) : UInt64 :=
  if user.userId = 0 then t.nextUserID else user.userId

def takeUserID (t : Tables) (user : UserSpec) : Tables :=
  if user.userId = 0 then { t with nextUserID := t.nextUserID + 1 } else t

def functionID (t : Tables) (function : FunctionSpec) : UInt64 :=
  if function.functionId = 0 then t.nextFunctionID else function.functionId

def takeFunctionID (t : Tables) (function : FunctionSpec) : Tables :=
  if function.functionId = 0 then { t with nextFunctionID := t.nextFunctionID + 1 } else t

def createUser (t : Tables) (user : UserSpec) : Outcome :=
  if user.name = "" then t.fail .invalidArgument
  else if (t.users (t.userID user)).isSome then (t.takeUserID user).fail .alreadyExists
  else
    (.ok (.user { user with userId := t.userID user }),
      (t.takeUserID user).setUser (t.userID user) (some { user with userId := t.userID user }), [])

def updateUser (t : Tables) (user : UserSpec) : Outcome :=
  if user.userId = 0 ∨ user.name = "" then t.fail .invalidArgument
  else if (t.users user.userId).isNone then t.fail .notFound
  else (.ok .done, t.setUser user.userId (some user), [])

/-- The functions of a user go with the user. -/
def deleteUser (t : Tables) (userID : UInt64) : Outcome :=
  if userID = 0 then t.fail .invalidArgument
  else if (t.users userID).isNone then t.fail .notFound
  else
    (.ok .done,
      { t.setUser userID none with
        functions := update t.functions userID fun _ => none },
      (listing (t.functions userID)).map fun fn => ⟨.deleted, .deleted userID fn.functionId⟩)

def createFunction (t : Tables) (fn : FunctionSpec) : Outcome :=
  if fn.valid = false then t.fail .invalidArgument
  else if (t.users fn.userId).isNone then t.fail .notFound
  else if (t.functions fn.userId (t.functionID fn)).isSome then
    (t.takeFunctionID fn).fail .alreadyExists
  else
    (.ok (.function { fn with functionId := t.functionID fn }),
      (t.takeFunctionID fn).setFunction fn.userId (t.functionID fn)
        (some { fn with functionId := t.functionID fn }),
      [⟨.created, { fn with functionId := t.functionID fn }⟩])

def updateFunction (t : Tables) (fn : FunctionSpec) : Outcome :=
  if fn.valid = false ∨ fn.functionId = 0 then t.fail .invalidArgument
  else if (t.functions fn.userId fn.functionId).isNone then t.fail .notFound
  else (.ok .done, t.setFunction fn.userId fn.functionId (some fn), [⟨.updated, fn⟩])

def deleteFunction (t : Tables) (userID functionID : UInt64) : Outcome :=
  if userID = 0 ∨ functionID = 0 then t.fail .invalidArgument
  else if (t.functions userID functionID).isNone then t.fail .notFound
  else
    (.ok .done, t.setFunction userID functionID none, [⟨.deleted, .deleted userID functionID⟩])

def getPlatformConfig (t : Tables) : Outcome :=
  match t.document with
  | none => t.fail .notFound
  | some document => (.ok (.config ⟨t.writes, document⟩), t, [])

def putPlatformConfig (t : Tables) (cfg : PlatformConfig) (expectedVersion : Nat) : Outcome :=
  if expectedVersion = 0 ∨ t.writes = expectedVersion then
    (.ok (.config ⟨t.writes + 1, cfg.document⟩),
      { t with writes := t.writes + 1, document := some cfg.document }, [])
  else t.fail .aborted

/-- A read: the reply, or that there is nothing. -/
def answer (t : Tables) : Option Reply → Outcome
  | none => t.fail .notFound
  | some reply => (.ok reply, t, [])

def step (t : Tables) : Op → Outcome
  | .createUser none | .updateUser none | .createFunction none | .updateFunction none
  | .putPlatformConfig none _ => t.fail .invalidArgument
  | .createUser (some user) => t.createUser user
  | .updateUser (some user) => t.updateUser user
  | .deleteUser userID => t.deleteUser userID
  | .getUser userID => t.answer ((t.users userID).map .user)
  | .listUsers => t.answer (some (.users (listing t.users)))
  | .createFunction (some fn) => t.createFunction fn
  | .updateFunction (some fn) => t.updateFunction fn
  | .deleteFunction userID functionID => t.deleteFunction userID functionID
  | .getFunction userID functionID => t.answer ((t.functions userID functionID).map .function)
  | .listFunctions userID => t.answer (some (.functions (listing (t.functions userID))))
  | .getPlatformConfig => t.getPlatformConfig
  | .putPlatformConfig (some cfg) expectedVersion => t.putPlatformConfig cfg expectedVersion

/-! ## What a call can do -/

/-- Refusals and reads change nothing, whatever the call. A creation that finds its id in
use has taken it from the counter all the same. -/
inductive Moves (t : Tables) : Op → Outcome → Prop
  | refused {op : Op} {code : Code} : Moves t op (t.fail code)
  | read {op : Op} {reply : Reply} (hu : ∀ x, op ≠ .createUser x)
      (hf : ∀ x, op ≠ .createFunction x)
      (hc : ∀ cfg, reply = .config cfg → cfg.version = t.writes) : Moves t op (.ok reply, t, [])
  | userTaken {x : UserSpec} :
      Moves t (.createUser (some x)) ((t.takeUserID x).fail .alreadyExists)
  | createUser {x : UserSpec} : Moves t (.createUser (some x))
      (.ok (.user { x with userId := t.userID x }),
        (t.takeUserID x).setUser (t.userID x) (some { x with userId := t.userID x }), [])
  | updateUser {x : UserSpec} (h : (t.users x.userId).isSome = true) :
      Moves t (.updateUser (some x)) (.ok .done, t.setUser x.userId (some x), [])
  | deleteUser {u : UInt64} : Moves t (.deleteUser u)
      (.ok .done, { t.setUser u none with functions := update t.functions u fun _ => none },
        (listing (t.functions u)).map fun fn => ⟨.deleted, .deleted u fn.functionId⟩)
  | functionTaken {x : FunctionSpec} :
      Moves t (.createFunction (some x)) ((t.takeFunctionID x).fail .alreadyExists)
  | createFunction {x : FunctionSpec} (hv : x.valid = true)
      (hu : (t.users x.userId).isSome = true)
      (hf : (t.functions x.userId (t.functionID x)).isSome = false) :
      Moves t (.createFunction (some x))
        (.ok (.function { x with functionId := t.functionID x }),
          (t.takeFunctionID x).setFunction x.userId (t.functionID x)
            (some { x with functionId := t.functionID x }),
          [⟨.created, { x with functionId := t.functionID x }⟩])
  | updateFunction {x : FunctionSpec} (hv : x.valid = true) (hid : x.functionId ≠ 0)
      (hf : (t.functions x.userId x.functionId).isSome = true) :
      Moves t (.updateFunction (some x))
        (.ok .done, t.setFunction x.userId x.functionId (some x), [⟨.updated, x⟩])
  | deleteFunction {u f : UInt64} (hf : (t.functions u f).isSome = true) :
      Moves t (.deleteFunction u f)
        (.ok .done, t.setFunction u f none, [⟨.deleted, .deleted u f⟩])
  | putPlatformConfig {cfg : PlatformConfig} {n : Nat} : Moves t (.putPlatformConfig (some cfg) n)
      (.ok (.config ⟨t.writes + 1, cfg.document⟩),
        { t with writes := t.writes + 1, document := some cfg.document }, [])

theorem takeUserID_tables (t : Tables) (x : UserSpec) :
    (t.takeUserID x).functions = t.functions ∧ (t.takeUserID x).users = t.users ∧
      (t.takeUserID x).writes = t.writes := by
  unfold takeUserID
  split <;> exact ⟨rfl, rfl, rfl⟩

theorem takeFunctionID_tables (t : Tables) (x : FunctionSpec) :
    (t.takeFunctionID x).functions = t.functions ∧ (t.takeFunctionID x).users = t.users ∧
      (t.takeFunctionID x).writes = t.writes := by
  unfold takeFunctionID
  split <;> exact ⟨rfl, rfl, rfl⟩

theorem answer_moves (t : Tables) {op : Op} {α : Type} (x : Option α) (g : α → Reply)
    (hu : ∀ x, op ≠ .createUser x) (hf : ∀ x, op ≠ .createFunction x)
    (hc : ∀ x cfg, g x ≠ .config cfg) : Moves t op (t.answer (x.map g)) := by
  cases x with
  | none => exact .refused
  | some x => exact .read hu hf fun cfg he => absurd he (hc x cfg)

theorem step_moves (t : Tables) (op : Op) : Moves t op (t.step op) := by
  cases op with
  | createUser user =>
    cases user with
    | none => exact .refused
    | some user =>
      simp only [step, createUser]
      split
      · exact .refused
      split
      · exact .userTaken
      · exact .createUser
  | updateUser user =>
    cases user with
    | none => exact .refused
    | some user =>
      simp only [step, updateUser]
      split
      · exact .refused
      split
      · exact .refused
      · rename_i h
        exact .updateUser (by simpa [Option.isSome_iff_ne_none] using h)
  | deleteUser u =>
    simp only [step, deleteUser]
    split
    · exact .refused
    split
    · exact .refused
    · exact .deleteUser
  | createFunction fn =>
    cases fn with
    | none => exact .refused
    | some fn =>
      simp only [step, createFunction]
      split
      · exact .refused
      split
      · exact .refused
      split
      · exact .functionTaken
      · rename_i hv hu hf
        exact .createFunction (by simpa using hv) (by simpa [Option.isSome_iff_ne_none] using hu) (by simpa using hf)
  | updateFunction fn =>
    cases fn with
    | none => exact .refused
    | some fn =>
      simp only [step, updateFunction]
      split
      · exact .refused
      split
      · exact .refused
      · rename_i hv hf
        obtain ⟨hvalid, hid⟩ := not_or.mp hv
        exact .updateFunction (by simpa using hvalid) hid (by simpa [Option.isSome_iff_ne_none] using hf)
  | deleteFunction u f =>
    simp only [step, deleteFunction]
    split
    · exact .refused
    split
    · exact .refused
    · rename_i hf
      exact .deleteFunction (by simpa [Option.isSome_iff_ne_none] using hf)
  | getPlatformConfig =>
    simp only [step, getPlatformConfig]
    split
    · exact .refused
    · exact .read nofun nofun (by rintro _ ⟨⟩; rfl)
  | putPlatformConfig cfg n =>
    cases cfg with
    | none => exact .refused
    | some cfg =>
      simp only [step, putPlatformConfig]
      split
      · exact .putPlatformConfig
      · exact .refused
  | listUsers | listFunctions u => exact .read nofun nofun nofun
  | getUser u | getFunction u f => exact answer_moves t _ _ nofun nofun nofun

/-! ## Every entry lies under its ids -/

structure Keyed (t : Tables) : Prop where
  user : ∀ u x, t.users u = some x → x.userId = u
  function : ∀ u f x, t.functions u f = some x → x.userId = u ∧ x.functionId = f
  document : t.document = none → t.writes = 0

theorem keyed_empty : empty.Keyed where
  user := by simp [empty]
  function := by simp [empty]
  document := fun _ => rfl

variable {t : Tables}

theorem Keyed.setUser (h : t.Keyed) (x : UserSpec) : (t.setUser x.userId (some x)).Keyed where
  user := by
    intro u y hy
    rcases eq_or_ne u x.userId with rfl | hne
    · have hxy : some x = some y := (update_self x.userId (some x) t.users) ▸ hy
      rw [Option.some.inj hxy]
    · exact h.user u y ((update_of_ne hne (some x) t.users) ▸ hy)
  function := h.function
  document := h.document

theorem functions_setFunction (t : Tables) (u f u' f' : UInt64) (x : Option FunctionSpec) :
    (t.setFunction u f x).functions u' f' = if u' = u ∧ f' = f then x else t.functions u' f' := by
  show update t.functions u (update (t.functions u) f x) u' f' = _
  rcases eq_or_ne u' u with rfl | hu
  · rw [update_self]
    rcases eq_or_ne f' f with rfl | hf
    · simp
    · simp [hf]
  · simp [hu]

theorem Keyed.setFunction (h : t.Keyed) {u f : UInt64} {x : Option FunctionSpec}
    (hx : ∀ y, x = some y → y.userId = u ∧ y.functionId = f) : (t.setFunction u f x).Keyed where
  user := h.user
  function := by
    intro u' f' y hy
    rw [functions_setFunction] at hy
    split at hy
    · rename_i hsame
      rw [hsame.1, hsame.2]
      exact hx y hy
    · exact h.function u' f' y hy
  document := h.document

theorem Keyed.takeUserID (h : t.Keyed) (x : UserSpec) : (t.takeUserID x).Keyed := by
  unfold Tables.takeUserID
  split
  · exact ⟨h.user, h.function, h.document⟩
  · exact h

theorem Keyed.takeFunctionID (h : t.Keyed) (x : FunctionSpec) : (t.takeFunctionID x).Keyed := by
  unfold Tables.takeFunctionID
  split
  · exact ⟨h.user, h.function, h.document⟩
  · exact h

theorem functions_deleteUser (t : Tables) (u u' f : UInt64) :
    update t.functions u (fun _ => none) u' f =
      if u' = u then none else t.functions u' f := by
  rw [update_apply]
  split <;> rfl

theorem Keyed.deleteUser (h : t.Keyed) (u : UInt64) :
    Keyed { t.setUser u none with functions := update t.functions u fun _ => none } where
  user := by
    intro u' x hx
    have hx : update t.users u none u' = some x := hx
    rcases eq_or_ne u' u with rfl | hne
    · simp at hx
    · exact h.user u' x ((update_of_ne hne none t.users) ▸ hx)
  function := by
    intro u' f x hx
    have hx : update t.functions u (fun _ => none) u' f = some x := hx
    rw [functions_deleteUser] at hx
    split at hx
    · cases hx
    · exact h.function u' f x hx
  document := h.document

theorem Keyed.step (h : t.Keyed) (op : Op) : (t.step op).2.1.Keyed := by
  have hm := t.step_moves op
  generalize t.step op = r at hm ⊢
  cases hm with
  | refused | read _ _ _ => exact h
  | userTaken => exact h.takeUserID _
  | @createUser x => exact (h.takeUserID x).setUser { x with userId := t.userID x }
  | updateUser _ => exact h.setUser _
  | deleteUser => exact h.deleteUser _
  | functionTaken => exact h.takeFunctionID _
  | createFunction _ _ _ => exact (h.takeFunctionID _).setFunction (by rintro _ ⟨⟩; exact ⟨rfl, rfl⟩)
  | updateFunction _ _ _ => exact h.setFunction (by rintro _ ⟨⟩; exact ⟨rfl, rfl⟩)
  | deleteFunction _ => exact h.setFunction nofun
  | putPlatformConfig => exact ⟨h.user, h.function, nofun⟩

end Tables

/-! ## What a backend shows -/

def Reply.rename (ρ : Nat → Nat) : Reply → Reply
  | .config cfg => .config { cfg with version := ρ cfg.version }
  | reply => reply

/-- The call that a backend gets, when versions are renamed. -/
def Op.rename (ρ : Nat → Nat) : Op → Op
  | .putPlatformConfig cfg expectedVersion => .putPlatformConfig cfg (ρ expectedVersion)
  | op => op

/-- The code or the reply of a call; the texts of errors are each backend's own. -/
def visible (r : Result) : Except Code Reply := r.mapError Status.code

theorem ok_of_visible {r : Result} {ρ : Nat → Nat} {reply : Reply}
    (hreply : reply.rename ρ = reply) (h : visible r = (Except.ok reply).map (Reply.rename ρ)) :
    r = .ok reply := by
  cases r with
  | error e => cases h
  | ok reply' =>
    have h : reply' = reply.rename ρ := Except.ok.inj h
    rw [h, hreply]

theorem error_of_visible {r : Result} {ρ : Nat → Nat} {code : Code}
    (h : visible r = (Except.error code).map (Reply.rename ρ)) : ∃ e, r = .error e ∧ e.code = code := by
  cases r with
  | error e => exact ⟨e, rfl, Except.error.inj h⟩
  | ok reply => cases h

/-- The same code or reply, and the same events; those of one `DeleteUser` in any order. -/
structure Shows (ρ : Nat → Nat) (op : Op) (a : Except Code Reply) (es : List FunctionEvent)
    (r : Result) (es' : List FunctionEvent) : Prop where
  result : visible r = a.map (Reply.rename ρ)
  events : es'.Perm es
  order : (∀ u, op ≠ .deleteUser u) → es' = es

end HyperFaaS.ControlPlane
