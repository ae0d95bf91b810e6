import HyperFaaS.Lib.Count
import HyperFaaS.Lib.Custody
import Mathlib.Data.List.Nodup
import Mathlib.Logic.Relation

/-!
A ledger of pooled resources. Resources are numbered as they are made. Each is in the pool, in
the hands of one place, or gone. A place acquires what it has in its hands, which opens an
account, and gives it back, which closes it; users are started in a resource by the place that
has it, and end when they want.

* `Ledger.Step`: what may happen to a ledger;
* `Ledger.Balanced`: every resource made is in one place or destroyed, one in the pool has no
  user, every account is closed at most once and open only while a place has its resource, and
  the number in use is the number of open accounts;
* `Ledger.Balanced.runs`: a balanced ledger stays so.

A place may forget a user only when the user has ended, and it puts into the pool only what it
knows no user of.
-/

namespace Lib

open Function

/-- A resource in the hands of a place, with its open account and the user started in it. -/
structure Hand where
  resource : Nat
  account : Option Nat
  user : Option Nat
  deriving DecidableEq, Repr

/-- `taken` has the resource of each account, `running` the resource of each user; what is in
`gone` has been destroyed. -/
structure Ledger (P : Type) where
  pool : List Nat
  made : Nat
  gone : List Nat
  hand : P → Option Hand
  started : Nat
  running : Nat → Option Nat
  taken : List Nat
  given : Nat → Nat
  inUse : Int

namespace Ledger

variable {P : Type} {l : Ledger P} {p q : P} {h h' : Hand} {n k : Nat}

/-- The places and the pool, which is `none`. -/
def holds (l : Ledger P) : Option P → Nat → Prop
  | none, n => n ∈ l.pool
  | some p, n => (l.hand p).map Hand.resource = some n

def destroy (l : Ledger P) (n : Nat) : Ledger P := { l with gone := l.gone ++ [n] }

/-- A new account. -/
def opened (l : Ledger P) (n : Nat) : Ledger P :=
  { l with taken := l.taken ++ [n], inUse := l.inUse + 1 }

def closed (l : Ledger P) (k : Nat) : Ledger P :=
  { l with given := update l.given k (l.given k + 1), inUse := l.inUse - 1 }

structure Balanced (l : Ledger P) : Prop where
  custody : ∃ owner, Tracks owner l.holds
  nodup : l.pool.Nodup
  made : ∀ p n, l.holds p n → n < l.made
  kept : ∀ n, n < l.made → n ∈ l.gone ∨ ∃ p, l.holds p n
  ended : ∀ n ∈ l.gone, n < l.made ∧ ∀ p, ¬ l.holds p n
  ran : ∀ v n, l.running v = some n → n < l.made ∧ v < l.started
  unused : ∀ n ∈ l.pool, ∀ v, l.running v ≠ some n
  users : ∀ p h, l.hand p = some h → ∀ v, l.running v = some h.resource → h.user = some v
  account : ∀ p h k, l.hand p = some h → h.account = some k →
    l.taken[k]? = some h.resource ∧ l.given k = 0
  owed : ∀ k, k < l.taken.length → l.given k = 0 →
    ∃ p h, l.hand p = some h ∧ h.account = some k
  once : ∀ k, l.given k ≤ 1
  later : ∀ k, l.taken.length ≤ k → l.given k = 0
  inUse : l.inUse = (Nat.count (fun k => l.given k = 0) l.taken.length : Nat)

/-! ## Hands -/

theorem holds_of_hand (hp : l.hand p = some h) : l.holds (some p) h.resource := by
  simp [holds, hp]

theorem not_holds_of_hand (hp : l.hand p = none) (n : Nat) : ¬ l.holds (some p) n := by
  simp [holds, hp]

namespace Balanced

theorem sole (hb : Balanced l) {a b : Option P} (ha : l.holds a n) (hc : l.holds b n) : a = b := by
  obtain ⟨owner, howner⟩ := hb.custody
  exact howner.unique ha hc

theorem not_pooled (hb : Balanced l) (hp : l.hand p = some h) : h.resource ∉ l.pool := by
  intro hpool
  have hheld : l.holds none h.resource := hpool
  cases hb.sole hheld (holds_of_hand hp)

end Balanced

/-! ## Steps -/

variable [DecidableEq P]

def set (l : Ledger P) (p : P) (x : Option Hand) : Ledger P :=
  { l with hand := update l.hand p x }

inductive Step : Ledger P → Ledger P → Prop
  | take {l : Ledger P} {p : P} {n : Nat} {rest : List Nat} (hpool : l.pool = n :: rest)
      (hp : l.hand p = none) : Step l ({ l with pool := rest }.set p (some ⟨n, none, none⟩))
  | put {l : Ledger P} {p : P} {n : Nat} (hp : l.hand p = some ⟨n, none, none⟩) :
      Step l ({ l with pool := l.pool ++ [n] }.set p none)
  | make {l : Ledger P} {p : P} (hp : l.hand p = none) :
      Step l ({ l with made := l.made + 1 }.set p (some ⟨l.made, none, none⟩))
  | drop {l : Ledger P} {p : P} {h : Hand} (hp : l.hand p = some h) (hnone : h.account = none) :
      Step l ((l.set p none).destroy h.resource)
  | acquire {l : Ledger P} {p : P} {h : Hand} (hp : l.hand p = some h) (hnone : h.account = none) :
      Step l ((l.opened h.resource).set p (some { h with account := some l.taken.length }))
  | giveBack {l : Ledger P} {p : P} {h : Hand} {k : Nat} (hp : l.hand p = some h)
      (hk : h.account = some k) :
      Step l ((l.closed k).set p (some { h with account := none }))
  | spawn {l : Ledger P} {p : P} {h : Hand} (hp : l.hand p = some h) (hnone : h.user = none) :
      Step l ({ l with
        running := update l.running l.started (some h.resource)
        started := l.started + 1 }.set p (some { h with user := some l.started }))
  | forget {l : Ledger P} {p : P} {h : Hand} (hp : l.hand p = some h)
      (hended : ∀ v, h.user = some v → l.running v = none) :
      Step l (l.set p (some { h with user := none }))
  | pass {l : Ledger P} {p q : P} {h : Hand} (hpq : p ≠ q) (hp : l.hand p = some h)
      (hq : l.hand q = none) : Step l ((l.set p none).set q (some h))
  | finish {l : Ledger P} (v : Nat) :
      Step l { l with running := update l.running v none }

def Runs (l l' : Ledger P) : Prop := Relation.ReflTransGen Step l l'

@[simp] theorem set_set (l : Ledger P) (p : P) (x y : Option Hand) :
    (l.set p x).set p y = l.set p y := by
  simp [set]

theorem set_same (l : Ledger P) (p : P) {x : Option Hand} (hsame : x = l.hand p) :
    l.set p x = l := by
  rw [hsame]
  simp [set]

@[simp] theorem set_hand (l : Ledger P) (p : P) (x : Option Hand) : (l.set p x).hand p = x :=
  update_self _ _ _

/-! ## One kind of step each -/

/-- `Balanced` in terms of the pool and the hands. -/
structure Sound (l : Ledger P) : Prop where
  nodup : l.pool.Nodup
  pooled : ∀ n ∈ l.pool, n < l.made ∧ n ∉ l.gone ∧ ∀ v, l.running v ≠ some n
  held : ∀ p h, l.hand p = some h → h.resource < l.made ∧ h.resource ∉ l.gone ∧
    h.resource ∉ l.pool ∧ ∀ v, l.running v = some h.resource → h.user = some v
  sole : ∀ p q h h', l.hand p = some h → l.hand q = some h' → h.resource = h'.resource → p = q
  kept : ∀ n, n < l.made → n ∈ l.gone ∨ n ∈ l.pool ∨ ∃ p h, l.hand p = some h ∧ h.resource = n
  ended : ∀ n ∈ l.gone, n < l.made
  ran : ∀ v n, l.running v = some n → n < l.made ∧ v < l.started
  account : ∀ p h k, l.hand p = some h → h.account = some k →
    l.taken[k]? = some h.resource ∧ l.given k = 0
  owed : ∀ k, k < l.taken.length → l.given k = 0 →
    ∃ p h, l.hand p = some h ∧ h.account = some k
  once : ∀ k, l.given k ≤ 1
  later : ∀ k, l.taken.length ≤ k → l.given k = 0
  inUse : l.inUse = (Nat.count (fun k => l.given k = 0) l.taken.length : Nat)

omit [DecidableEq P] in
theorem Balanced.sound (hb : Balanced l) : Sound l where
  nodup := hb.nodup
  pooled := fun n hn => ⟨hb.made none n hn, fun hg => (hb.ended n hg).2 none hn, hb.unused n hn⟩
  held := fun p h hp => ⟨hb.made _ _ (holds_of_hand hp),
    fun hg => (hb.ended _ hg).2 _ (holds_of_hand hp), hb.not_pooled hp, hb.users p h hp⟩
  sole := by
    intro p q h h' hp hq hsame
    have hheld := holds_of_hand hp
    rw [hsame] at hheld
    exact Option.some.inj (hb.sole hheld (holds_of_hand hq))
  kept := by
    intro n hn
    rcases hb.kept n hn with hg | ⟨a, ha⟩
    · exact .inl hg
    · cases a with
      | none => exact .inr (.inl ha)
      | some p => exact .inr (.inr ⟨p, Option.map_eq_some_iff.mp ha⟩)
  ended := fun n hn => (hb.ended n hn).1
  ran := hb.ran
  account := hb.account
  owed := hb.owed
  once := hb.once
  later := hb.later
  inUse := hb.inUse

omit [DecidableEq P] in
theorem Balanced.sole_hand (hb : Balanced l) (hp : l.hand p = some h) (hq : l.hand q = some h')
    (hsame : h.resource = h'.resource) : p = q :=
  hb.sound.sole p q h h' hp hq hsame

omit [DecidableEq P] in
/-- An open account has one holder. -/
theorem Balanced.sole_account (hb : Balanced l) (hp : l.hand p = some h) (hq : l.hand q = some h')
    (hk : h.account = some k) (hk' : h'.account = some k) : p = q := by
  have hfirst := (hb.account p h k hp hk).1
  have hsecond := (hb.account q h' k hq hk').1
  exact hb.sole_hand hp hq (Option.some.inj (hfirst.symm.trans hsecond))

omit [DecidableEq P] in
theorem Sound.balanced (hs : Sound l) : Balanced l where
  custody := by
    classical
    have hsole (a b : Option P) (n : Nat) (ha : l.holds a n) (hb : l.holds b n) : a = b := by
      have hheld := hs.held
      have hone := hs.sole
      cases a <;> cases b <;> simp only [holds, Option.map_eq_some_iff] at ha hb <;> grind
    refine ⟨fun n => if h : ∃ a, l.holds a n then some h.choose else none, fun a n => ?_⟩
    constructor
    · intro ha
      have hex : ∃ a, l.holds a n := ⟨a, ha⟩
      simp only [dif_pos hex, hsole _ _ n hex.choose_spec ha]
    · intro he
      dsimp only at he
      split at he
      · rename_i hex
        exact Option.some.inj he ▸ hex.choose_spec
      · cases he
  nodup := hs.nodup
  made := by
    intro a n ha
    cases a with
    | none => exact (hs.pooled n ha).1
    | some p =>
      obtain ⟨h, hp, rfl⟩ := Option.map_eq_some_iff.mp ha
      exact (hs.held p h hp).1
  kept := by
    intro n hn
    rcases hs.kept n hn with hg | hp | ⟨p, h, hp, rfl⟩
    · exact .inl hg
    · exact .inr ⟨none, hp⟩
    · exact .inr ⟨some p, holds_of_hand hp⟩
  ended := by
    intro n hn
    refine ⟨hs.ended n hn, fun a ha => ?_⟩
    cases a with
    | none => exact (hs.pooled n ha).2.1 hn
    | some p =>
      obtain ⟨h, hp, rfl⟩ := Option.map_eq_some_iff.mp ha
      exact (hs.held p h hp).2.1 hn
  ran := hs.ran
  unused := fun n hn => (hs.pooled n hn).2.2
  users := fun p h hp => (hs.held p h hp).2.2.2
  account := hs.account
  owed := hs.owed
  once := hs.once
  later := hs.later
  inUse := hs.inUse

namespace Sound

theorem take (hs : Sound l) {rest : List Nat} (hpool : l.pool = n :: rest)
    (hp : l.hand p = none) : Sound ({ l with pool := rest }.set p (some ⟨n, none, none⟩)) := by
  obtain ⟨hnodup, hpooled, hheld, hsole, hkept, hended, hran, haccount, howed, honce, hlater,
    huse⟩ := hs
  constructor <;> simp only [set, update_apply]
  case kept =>
    intro m hm
    rcases eq_or_ne m n with rfl | hne
    · exact .inr (.inr ⟨p, _, if_pos rfl, rfl⟩)
    · grind
  case nodup | pooled | held | sole | account | owed => grind
  all_goals assumption

theorem put (hs : Sound l) (hp : l.hand p = some ⟨n, none, none⟩) :
    Sound ({ l with pool := l.pool ++ [n] }.set p none) := by
  obtain ⟨hnodup, hpooled, hheld, hsole, hkept, hended, hran, haccount, howed, honce, hlater,
    huse⟩ := hs
  constructor <;> simp only [set, update_apply]
  case nodup | pooled | held | sole | kept | account | owed => grind
  all_goals assumption

theorem make (hs : Sound l) (hp : l.hand p = none) :
    Sound ({ l with made := l.made + 1 }.set p (some ⟨l.made, none, none⟩)) := by
  obtain ⟨hnodup, hpooled, hheld, hsole, hkept, hended, hran, haccount, howed, honce, hlater,
    huse⟩ := hs
  constructor <;> simp only [set, update_apply]
  case kept =>
    intro m hm
    rcases eq_or_ne m l.made with rfl | hne
    · exact .inr (.inr ⟨p, _, if_pos rfl, rfl⟩)
    · grind
  case pooled | held | sole | ended | ran | account | owed => grind
  all_goals assumption

theorem lose (hs : Sound l) (hp : l.hand p = some h) (hnone : h.account = none) :
    Sound ((l.set p none).destroy h.resource) := by
  obtain ⟨hnodup, hpooled, hheld, hsole, hkept, hended, hran, haccount, howed, honce, hlater,
    huse⟩ := hs
  constructor <;> simp only [set, destroy, update_apply]
  case pooled | held | sole | kept | ended | account | owed => grind
  all_goals assumption

theorem acquire (hs : Sound l) (hp : l.hand p = some h) (hnone : h.account = none) :
    Sound ((l.opened h.resource).set p (some { h with account := some l.taken.length })) := by
  obtain ⟨hnodup, hpooled, hheld, hsole, hkept, hended, hran, haccount, howed, honce, hlater,
    huse⟩ := hs
  have hlast := hlater l.taken.length le_rfl
  constructor <;> simp only [set, opened, update_apply]
  case owed =>
    intro k hk hopen
    rcases eq_or_ne k l.taken.length with rfl | hne
    · exact ⟨p, _, if_pos rfl, rfl⟩
    · grind
  case inUse =>
    change l.inUse + 1 =
      ((Nat.count (fun k => l.given k = 0) (l.taken ++ [h.resource]).length : Nat) : Int)
    rw [List.length_append, List.length_singleton, Nat.count_succ, if_pos hlast, huse]
    push_cast
    rfl
  case held | sole | kept | account | later => grind
  all_goals assumption

theorem giveBack (hs : Sound l) (hp : l.hand p = some h) (hk : h.account = some k) :
    Sound ((l.closed k).set p (some { h with account := none })) := by
  obtain ⟨hnodup, hpooled, hheld, hsole, hkept, hended, hran, haccount, howed, honce, hlater,
    huse⟩ := hs
  obtain ⟨htaken, hgiven⟩ := haccount p h k hp hk
  have hlt : k < l.taken.length := (List.getElem?_eq_some_iff.mp htaken).1
  have hcount := count_leave (p := fun j => l.given j = 0)
    (q := fun j => (if j = k then l.given k + 1 else l.given j) = 0) hlt hgiven (by simp)
    fun j hj => by simp [hj]
  constructor <;> simp only [set, closed, update_apply]
  case inUse =>
    rw [huse, hcount]
    push_cast
    exact add_sub_cancel_right _ _
  case held | sole | kept | account | owed | once | later => grind
  all_goals assumption

theorem spawn (hs : Sound l) (hp : l.hand p = some h) (hnone : h.user = none) :
    Sound ({ l with
      running := update l.running l.started (some h.resource)
      started := l.started + 1 }.set p (some { h with user := some l.started })) := by
  obtain ⟨hnodup, hpooled, hheld, hsole, hkept, hended, hran, haccount, howed, honce, hlater,
    huse⟩ := hs
  constructor <;> simp only [set, update_apply]
  case pooled | held | sole | kept | ran | account | owed => grind
  all_goals assumption

theorem forget (hs : Sound l) (hp : l.hand p = some h)
    (hended : ∀ v, h.user = some v → l.running v = none) :
    Sound (l.set p (some { h with user := none })) := by
  obtain ⟨hnodup, hpooled, hheld, hsole, hkept, hgone, hran, haccount, howed, honce, hlater,
    huse⟩ := hs
  constructor <;> simp only [set, update_apply]
  case held | sole | kept | account | owed => grind
  all_goals assumption

theorem pass (hs : Sound l) (hpq : p ≠ q) (hp : l.hand p = some h) (hq : l.hand q = none) :
    Sound ((l.set p none).set q (some h)) := by
  obtain ⟨hnodup, hpooled, hheld, hsole, hkept, hended, hran, haccount, howed, honce, hlater,
    huse⟩ := hs
  constructor <;> simp only [set, update_apply]
  case kept =>
    intro m hm
    rcases eq_or_ne m h.resource with rfl | hne
    · exact .inr (.inr ⟨q, h, if_pos rfl, rfl⟩)
    · grind
  case owed =>
    intro k hk hopen
    obtain ⟨a, x, ha, hx⟩ := howed k hk hopen
    rcases eq_or_ne a p with rfl | hap
    · exact ⟨q, h, if_pos rfl, by grind⟩
    · exact ⟨a, x, by grind, hx⟩
  case held | sole | account => grind
  all_goals assumption

omit [DecidableEq P] in
theorem finish (hs : Sound l) (v : Nat) :
    Sound { l with running := update l.running v none } := by
  obtain ⟨hnodup, hpooled, hheld, hsole, hkept, hended, hran, haccount, howed, honce, hlater,
    huse⟩ := hs
  constructor <;> simp only [update_apply]
  case pooled | held | ran => grind
  all_goals assumption

end Sound

namespace Balanced

theorem step {l' : Ledger P} (hb : Balanced l) (hs : Step l l') : Balanced l' := by
  cases hs with
  | take hpool hp => exact (hb.sound.take hpool hp).balanced
  | put hp => exact (hb.sound.put hp).balanced
  | make hp => exact (hb.sound.make hp).balanced
  | drop hp hnone => exact (hb.sound.lose hp hnone).balanced
  | acquire hp hnone => exact (hb.sound.acquire hp hnone).balanced
  | giveBack hp hk => exact (hb.sound.giveBack hp hk).balanced
  | spawn hp hnone => exact (hb.sound.spawn hp hnone).balanced
  | forget hp hended => exact (hb.sound.forget hp hended).balanced
  | pass hpq hp hq => exact (hb.sound.pass hpq hp hq).balanced
  | finish v => exact (hb.sound.finish v).balanced

theorem runs {l' : Ledger P} (hb : Balanced l) (hs : Runs l l') : Balanced l' := by
  induction hs with
  | refl => exact hb
  | tail _ hlast ih => exact ih.step hlast

end Balanced

/-! ## Runs -/

namespace Runs

variable {l' : Ledger P}

theorem same (hsame : l' = l) : Runs l l' := by
  rw [hsame]
  exact .refl

theorem one (hs : Step l l') : Runs l l' := .single hs

theorem trans {l'' : Ledger P} (h₁ : Runs l l') (h₂ : Runs l' l'') : Runs l l'' :=
  Relation.ReflTransGen.trans h₁ h₂

theorem borrow {rest : List Nat} (hpool : l.pool = n :: rest) (hp : l.hand p = none) :
    Runs l ((({ l with pool := rest } : Ledger P).opened n).set p
      (some ⟨n, some l.taken.length, none⟩)) := by
  have htake : Step l _ := .take hpool hp
  have hopen := Step.acquire (set_hand ({ l with pool := rest } : Ledger P) p
    (some ⟨n, none, none⟩)) rfl
  refine (one htake).trans (one ?_)
  simpa [opened, set] using hopen

theorem create (hp : l.hand p = none) :
    Runs l ((({ l with made := l.made + 1 } : Ledger P).opened l.made).set p
      (some ⟨l.made, some l.taken.length, none⟩)) := by
  have hmake : Step l _ := .make hp
  have hopen := Step.acquire (set_hand ({ l with made := l.made + 1 } : Ledger P) p
    (some ⟨l.made, none, none⟩)) rfl
  refine (one hmake).trans (one ?_)
  simpa [opened, set] using hopen

theorem restore (hp : l.hand p = some ⟨n, some k, none⟩) :
    Runs l (({ l.closed k with pool := l.pool ++ [n] } : Ledger P).set p none) := by
  have hclose : Step l _ := .giveBack hp rfl
  have hput := Step.put (set_hand (l.closed k) p (some ⟨n, none, none⟩))
  refine (one hclose).trans (one ?_)
  simpa [closed, set] using hput

theorem discard (hp : l.hand p = some h) (hk : h.account = some k) :
    Runs l (((l.closed k).set p none).destroy h.resource) := by
  have hclose : Step l _ := .giveBack hp hk
  have hdrop := Step.drop (set_hand (l.closed k) p (some { h with account := none })) rfl
  rw [set_set] at hdrop
  exact (one hclose).trans (one hdrop)

end Runs

omit [DecidableEq P] in
theorem balanced_initial {pool : List Nat} {made : Nat} (hnodup : pool.Nodup)
    (hmade : ∀ n, n ∈ pool ↔ n < made) :
    Balanced (⟨pool, made, [], fun _ => none, 0, fun _ => none, [], fun _ => 0, 0⟩ : Ledger P) where
  custody := by
    classical
    refine ⟨fun n => if n ∈ pool then some none else none, fun a n => ?_⟩
    cases a with
    | none => simp [holds]
    | some q => simp [holds]
  nodup := hnodup
  made := fun a n hn => by
    cases a with
    | none => exact (hmade n).mp hn
    | some q => cases hn
  kept := fun n hn => .inr ⟨none, (hmade n).mpr hn⟩
  ended := nofun
  ran := nofun
  unused := fun _ _ _ => nofun
  users := nofun
  account := nofun
  owed := fun k hk => absurd hk (Nat.not_lt_zero k)
  once := fun _ => Nat.zero_le 1
  later := fun _ _ => rfl
  inUse := rfl

end Ledger

/-! ## Names -/

/-- Resources that are not destroyed have different names. -/
def Distinct (made : Nat) (name : Nat → Nat) (gone : List Nat) : Prop :=
  ∀ n n', n < made → n' < made → n ∉ gone → n' ∉ gone → name n = name n' → n = n'

/-- No resource that is not destroyed has the name. -/
def nameFree (made : Nat) (name : Nat → Nat) (gone : List Nat) (x : Nat) : Bool :=
  (List.range made).all fun n => gone.contains n || name n != x

namespace Distinct

variable {made n x : Nat} {name : Nat → Nat} {gone gone' : List Nat}

theorem ne_of_free (hfree : nameFree made name gone x = true) (hn : n < made) (hout : n ∉ gone) :
    name n ≠ x := by
  have hall := List.all_eq_true.mp hfree n (List.mem_range.mpr hn)
  rcases Bool.or_eq_true_iff.mp hall with hin | hne
  · exact absurd (List.contains_iff_mem.mp hin) hout
  · exact bne_iff_ne.mp hne

theorem destroy (h : Distinct made name gone) (hsub : gone ⊆ gone') : Distinct made name gone' :=
  fun n n' hn hn' hout hout' =>
    h n n' hn hn' (fun hin => hout (hsub hin)) (fun hin => hout' (hsub hin))

theorem make (h : Distinct made name gone) (hfree : nameFree made name gone x = true) :
    Distinct (made + 1) (update name made x) gone := by
  have hold {n : Nat} (hn : n < made) : update name made x n = name n :=
    update_of_ne (Nat.ne_of_lt hn) _ _
  intro n n' hn hn' hout hout' hsame
  rcases Nat.lt_succ_iff_lt_or_eq.mp hn with hn | rfl <;>
    rcases Nat.lt_succ_iff_lt_or_eq.mp hn' with hn' | rfl
  · rw [hold hn, hold hn'] at hsame
    exact h n n' hn hn' hout hout' hsame
  · rw [hold hn, update_self] at hsame
    exact absurd hsame (ne_of_free hfree hn hout)
  · rw [update_self, hold hn'] at hsame
    exact absurd hsame.symm (ne_of_free hfree hn' hout')
  · rfl

end Distinct

end Lib
