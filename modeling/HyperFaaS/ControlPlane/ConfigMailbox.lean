import HyperFaaS.ControlPlane.Memory
import HyperFaaS.Lib.Machine
import Mathlib.Logic.Function.Basic

/-!
The watch of the platform configuration: the mailboxes of the store in memory
(`configWatcher` in memory.go), the goroutine of each watcher with its channel, and the
subscriber that applies what it receives (`ConfigSubscriber` in config.go).

A put holds the store's lock while it sets the mailboxes one by one, each under the
mailbox's own lock, so goroutines run in between. Contexts may be cancelled and the store
may be closed. Proved here (`config_mailbox`): a consumer gets strictly increasing
versions, no document is left in a mailbox without its wakeup, and a consumer that has
nothing left to read has read the stored document; and a subscriber over any number of
sessions applies strictly increasing versions up to the greatest it has received.

What carries the argument is that a watcher's documents form one line, from the consumer
over the channel and the goroutine to the mailbox (`held`), which only a put changes, and
only at its end.
-/

namespace HyperFaaS.ControlPlane.Mailbox

inductive Fault
  | disabled
  deriving DecidableEq, Repr

/-- Where the goroutine of a watcher stands. -/
inductive PC
  | waiting
  | taking
  | sending (cfg : PlatformConfig)
  | ended
  deriving DecidableEq, Repr

/-- A mailbox, its goroutine and its channel; `delivered` is what the consumer has read. -/
structure Watcher where
  latest : Option PlatformConfig
  notify : Bool
  closed : Bool
  cancelled : Bool
  pc : PC
  out : List PlatformConfig
  delivered : List PlatformConfig
  deriving DecidableEq, Repr

namespace Watcher

def new : Watcher where
  latest := none
  notify := false
  closed := false
  cancelled := false
  pc := .waiting
  out := []
  delivered := []

def set (x : Watcher) (cfg : PlatformConfig) : Watcher :=
  if x.closed then x else { x with latest := some cfg, notify := true }

def close (x : Watcher) : Watcher := { x with closed := true, notify := true }

/-- The mailbox of a new watch begins with the stored document. -/
def seed : Option PlatformConfig → Watcher
  | none => new
  | some cfg => new.set cfg

/-- The first `select`, on the wakeup. -/
def wake (x : Watcher) : Except Fault Watcher :=
  match x.pc, x.notify with
  | .waiting, true => .ok { x with notify := false, pc := .taking }
  | _, _ => .error .disabled

/-- `take`, and what the loop makes of it. -/
def take (x : Watcher) : Except Fault Watcher :=
  match x.pc with
  | .taking =>
      let pc : PC := if x.closed then .ended else
        match x.latest with
        | none => .waiting
        | some cfg => .sending cfg
      .ok { x with latest := none, pc := pc }
  | _ => .error .disabled

/-- The second `select`, on a place in the channel. -/
def send (x : Watcher) : Except Fault Watcher :=
  match x.pc with
  | .sending cfg =>
      if x.out.length < 8 then .ok { x with out := x.out ++ [cfg], pc := .waiting }
      else .error .disabled
  | _ => .error .disabled

/-- Either `select`, on the end of the context. -/
def stop (x : Watcher) : Except Fault Watcher :=
  if x.cancelled then
    match x.pc with
    | .waiting | .sending _ => .ok { x with pc := .ended }
    | _ => .error .disabled
  else .error .disabled

def cancel (x : Watcher) : Except Fault Watcher := .ok { x with cancelled := true }

def receive (x : Watcher) : Except Fault Watcher :=
  match x.out with
  | [] => .error .disabled
  | cfg :: rest => .ok { x with out := rest, delivered := x.delivered ++ [cfg] }

end Watcher

/-- What a call does to each mailbox while it holds the store's lock. -/
inductive Job
  | set (cfg : PlatformConfig)
  | close
  deriving DecidableEq, Repr

def Job.run : Job → Watcher → Watcher
  | .set cfg, x => x.set cfg
  | .close, x => x.close

/-- `loop` is the rest of the loop of the call that holds the store's lock. -/
structure World where
  store : Memory.Store
  nwatchers : Nat
  watchers : Nat → Watcher
  loop : Option (Job × List Nat)

inductive Action
  | put (cfg : Option PlatformConfig) (expectedVersion : Nat)
  | watch
  | close
  | round
  | cancel (i : Nat)
  | wake (i : Nat)
  | take (i : Nat)
  | send (i : Nat)
  | stop (i : Nat)
  | receive (i : Nat)

namespace World

def setWatcher (w : World) (i : Nat) (x : Watcher) : World :=
  { w with watchers := Function.update w.watchers i x }

/-- A step of one watcher. -/
def advance (w : World) (i : Nat) (f : Watcher → Except Fault Watcher) : Except Fault World :=
  if i < w.nwatchers then
    match f (w.watchers i) with
    | .ok x => .ok (w.setWatcher i x)
    | .error e => .error e
  else .error .disabled

/-- `PutPlatformConfig` up to the loop of `emitConfigLocked`. -/
def put (w : World) (cfg : Option PlatformConfig) (expectedVersion : Nat) : World :=
  let r := w.store.putPlatformConfig cfg expectedVersion
  match r.1 with
  | .ok (.config stored) =>
      { w with store := r.2.1, loop := some (.set stored, List.range w.nwatchers) }
  | _ => { w with store := r.2.1 }

/-- One round of the loop, or its end. -/
def round (w : World) : Except Fault World :=
  match w.loop with
  | none => .error .disabled
  | some (_, []) => .ok { w with loop := none }
  | some (job, i :: rest) =>
      .ok { w.setWatcher i (job.run (w.watchers i)) with loop := some (job, rest) }

/-- `WatchPlatformConfig` -/
def watch (w : World) : Except Fault World :=
  if w.store.closed then .error .disabled
  else
    .ok { w.setWatcher w.nwatchers (.seed w.store.platformConfig) with
      nwatchers := w.nwatchers + 1 }

/-- `Close` up to its loop. -/
def close (w : World) : World :=
  { w with store := w.store.close, loop := some (.close, List.range w.nwatchers) }

/-- Calls wait for the store's lock. -/
def step (w : World) : Action → Except Fault World
  | .put cfg expectedVersion =>
      if w.loop.isNone then .ok (w.put cfg expectedVersion) else .error .disabled
  | .watch => if w.loop.isNone then w.watch else .error .disabled
  | .close => if w.loop.isNone then .ok w.close else .error .disabled
  | .round => w.round
  | .cancel i => w.advance i Watcher.cancel
  | .wake i => w.advance i Watcher.wake
  | .take i => w.advance i Watcher.take
  | .send i => w.advance i Watcher.send
  | .stop i => w.advance i Watcher.stop
  | .receive i => w.advance i Watcher.receive

def init : World where
  store := .new
  nwatchers := 0
  watchers := fun _ => .new
  loop := none

end World

def machine : Lib.Machine World Action Fault where
  start := fun w => w = World.init
  step := World.step

/-! ## One watcher -/

namespace Watcher

/-- The documents of a watcher, oldest first. -/
def held (x : Watcher) : List PlatformConfig :=
  x.delivered ++ x.out ++
    (match x.pc with
      | .sending cfg => [cfg]
      | _ => []) ++ x.latest.toList

/-- A goroutine that can still come back to its mailbox does so if there is something
in it. -/
structure Live (x : Watcher) : Prop where
  token : x.latest ≠ none → x.pc = .waiting ∨ (∃ cfg, x.pc = .sending cfg) → x.notify = true
  ended : x.pc = .ended → x.closed = true ∨ x.cancelled = true

/-- What the goroutine and the consumer do to the line: nothing, unless they end. -/
structure Advances (x x' : Watcher) : Prop where
  closed : x'.closed = x.closed
  sub : x'.held.Sublist x.held
  same : x'.pc ≠ .ended → x.pc ≠ .ended ∧ x'.held = x.held

variable {x x' : Watcher}

theorem Advances.of_same (hclosed : x'.closed = x.closed) (hpc : x'.pc ≠ .ended → x.pc ≠ .ended)
    (hheld : x'.held = x.held) : x.Advances x' :=
  ⟨hclosed, hheld ▸ .refl _, fun h => ⟨hpc h, hheld⟩⟩

theorem wake_advances (h : x.wake = .ok x') : x.Advances x' ∧ x'.Live := by
  unfold wake at h
  split at h
  · rename_i hpc _
    cases h
    refine ⟨.of_same rfl (fun _ he => by rw [hpc] at he; cases he) (by simp [held, hpc]),
      fun _ hpc' => ?_, nofun⟩
    rcases hpc' with hpc' | ⟨cfg, hpc'⟩ <;> cases hpc'
  · cases h

theorem take_advances (h : x.take = .ok x') : x.Advances x' ∧ x'.Live := by
  unfold take at h
  cases hpc : x.pc with
  | taking =>
    simp only [hpc] at h
    cases h
    cases hclosed : x.closed with
    | true =>
      refine ⟨⟨hclosed.symm, ?_, fun h => absurd rfl h⟩, fun h => absurd rfl h, fun _ => .inl rfl⟩
      simp [held, hpc]
    | false =>
      refine ⟨.of_same hclosed.symm (fun _ he => by rw [hpc] at he; cases he) ?_,
        fun h => absurd rfl h, ?_⟩
      · cases hlatest : x.latest <;> simp [held, hpc, hlatest]
      · cases hlatest : x.latest <;> simp
  | _ => simp [hpc] at h

theorem send_advances (h : x.send = .ok x') (hl : x.Live) : x.Advances x' ∧ x'.Live := by
  unfold send at h
  cases hpc : x.pc with
  | sending cfg =>
    simp only [hpc] at h
    split at h
    · cases h
      refine ⟨.of_same rfl (fun _ he => by rw [hpc] at he; cases he) (by simp [held, hpc]),
        fun hlatest _ => hl.token hlatest (.inr ⟨cfg, hpc⟩), nofun⟩
    · cases h
  | _ => simp [hpc] at h

theorem stop_advances (h : x.stop = .ok x') : x.Advances x' ∧ x'.Live := by
  unfold stop at h
  split at h
  · rename_i hcancelled
    have hgone : ∀ y : Watcher, y = { x with pc := .ended } → x.Advances y ∧ y.Live := by
      rintro _ rfl
      refine ⟨⟨rfl, ?_, fun h => absurd rfl h⟩, ?_, fun _ => .inr hcancelled⟩
      · cases hpc : x.pc <;> simp [held, hpc]
      · rintro - (he | ⟨cfg, he⟩) <;> cases he
    split at h
    · exact hgone x' (Except.ok.inj h).symm
    · exact hgone x' (Except.ok.inj h).symm
    · cases h
  · cases h

theorem receive_advances (h : x.receive = .ok x') (hl : x.Live) : x.Advances x' ∧ x'.Live := by
  unfold receive at h
  cases hout : x.out with
  | nil => simp [hout] at h
  | cons cfg rest =>
    simp only [hout] at h
    cases h
    exact ⟨.of_same rfl id (by simp [held, hout]), hl.token, hl.ended⟩

theorem cancel_advances (h : x.cancel = .ok x') (hl : x.Live) : x.Advances x' ∧ x'.Live := by
  cases h
  exact ⟨.of_same rfl id rfl, hl.token, fun _ => .inr rfl⟩

/-- A put goes to the end of the line, in place of what the mailbox held. -/
theorem held_set (hopen : x.closed = false) (cfg : PlatformConfig) :
    ∃ l, (x.set cfg).held = l ++ [cfg] ∧ l.Sublist x.held := by
  refine ⟨x.delivered ++ x.out ++ (match x.pc with
    | .sending cfg => [cfg]
    | _ => []), ?_, List.sublist_append_left _ _⟩
  simp [set, hopen, held]

theorem set_live (hl : x.Live) (cfg : PlatformConfig) : (x.set cfg).Live := by
  unfold set
  split
  · exact hl
  · exact ⟨fun _ _ => rfl, hl.ended⟩

theorem seed_live (cfg : Option PlatformConfig) : (seed cfg).Live := by
  have hnew : new.Live := ⟨fun h => absurd rfl h, nofun⟩
  cases cfg with
  | none => exact hnew
  | some cfg => exact set_live hnew cfg

theorem held_seed (cfg : Option PlatformConfig) : (seed cfg).held = cfg.toList := by
  cases cfg <;> rfl

theorem seed_closed (cfg : Option PlatformConfig) : (seed cfg).closed = false := by
  cases cfg <;> rfl

theorem close_live (x : Watcher) : x.close.Live :=
  ⟨fun _ _ => rfl, fun _ => .inl rfl⟩

end Watcher

/-! ## All watchers -/

namespace World

/-- The loop of a put has not come to watcher `i` yet. -/
def pending (w : World) (i : Nat) : Prop :=
  ∃ cfg rest, w.loop = some (.set cfg, rest) ∧ i ∈ rest

/-- What holds of a watcher of the store, `pending` when the loop of a put is still to come to
it. -/
structure Holds (s : Memory.Store) (pending : Prop) (x : Watcher) : Prop where
  live : x.Live
  sorted : (x.held.map PlatformConfig.version).Pairwise (· < ·)
  bound : ∀ c ∈ x.held, c.version ≤ s.configVersion
  below : pending → ∀ c ∈ x.held, c.version < s.configVersion
  last : ¬ pending → x.closed = false → x.pc ≠ .ended → x.held.getLast? = s.platformConfig
  closed : x.closed = true → s.closed = true

structure Inv (w : World) : Prop where
  stored : ∀ cfg, w.store.platformConfig = some cfg → cfg.version = w.store.configVersion
  job : ∀ cfg rest, w.loop = some (.set cfg, rest) → w.store.platformConfig = some cfg
  closing : ∀ rest, w.loop = some (.close, rest) → w.store.closed = true
  rest : ∀ job rest, w.loop = some (job, rest) → rest.Nodup ∧ ∀ i ∈ rest, i < w.nwatchers
  each : ∀ i < w.nwatchers, Holds w.store (w.pending i) (w.watchers i)

theorem inv_init : init.Inv where
  stored := nofun
  job := nofun
  closing := nofun
  rest := nofun
  each := fun _ h => absurd h (Nat.not_lt_zero _)

section Holds

variable {s : Memory.Store} {P Q : Prop} {x x' : Watcher}

theorem Holds.congr (h : Holds s P x) (hpq : Q ↔ P) : Holds s Q x := by rwa [propext hpq]

theorem Holds.advances (h : Holds s P x) (hadv : x.Advances x') (hlive : x'.Live) :
    Holds s P x' where
  live := hlive
  sorted := h.sorted.sublist (hadv.sub.map _)
  bound := fun c hc => h.bound c (hadv.sub.subset hc)
  below := fun hp c hc => h.below hp c (hadv.sub.subset hc)
  last := by
    intro hp hopen hpc
    obtain ⟨hpc', hheld⟩ := hadv.same hpc
    rw [hheld]
    exact h.last hp (hadv.closed ▸ hopen) hpc'
  closed := fun hc => h.closed (hadv.closed ▸ hc)

/-- A put stores the next version; its loop is still to come to every watcher. -/
theorem Holds.stored (h : Holds s P x) (cfg : PlatformConfig) (hq : Q) :
    Holds { s with configVersion := s.configVersion + 1, platformConfig := some cfg } Q x where
  live := h.live
  sorted := h.sorted
  bound := fun c hc => Nat.le_succ_of_le (h.bound c hc)
  below := fun _ c hc => Nat.lt_succ_of_le (h.bound c hc)
  last := fun hp => absurd hq hp
  closed := h.closed

theorem Holds.seed (hs : ∀ cfg, s.platformConfig = some cfg → cfg.version = s.configVersion)
    (hp : ¬ P) : Holds s P (.seed s.platformConfig) where
  live := Watcher.seed_live _
  sorted := by
    rw [Watcher.held_seed]
    cases s.platformConfig <;> simp
  bound := by
    rw [Watcher.held_seed]
    exact fun c hc => (hs c (Option.mem_toList.mp hc)).le
  below := fun h => absurd h hp
  last := by
    intro _ _ _
    rw [Watcher.held_seed]
    cases s.platformConfig <;> rfl
  closed := by
    rw [Watcher.seed_closed]
    exact nofun

theorem Holds.set (h : Holds s P x) (hp : P) {cfg : PlatformConfig}
    (hcfg : s.platformConfig = some cfg) (hversion : cfg.version = s.configVersion) (hq : ¬ Q) :
    Holds s Q (x.set cfg) := by
  cases hclosed : x.closed with
  | true =>
    have hsame : x.set cfg = x := if_pos hclosed
    rw [hsame]
    exact ⟨h.live, h.sorted, h.bound, fun hp => absurd hp hq,
      fun _ hopen => absurd (hclosed.symm.trans hopen) (by decide), h.closed⟩
  | false =>
    obtain ⟨l, hheld, hsub⟩ := Watcher.held_set hclosed cfg
    refine ⟨Watcher.set_live h.live cfg, ?_, ?_, fun hp => absurd hp hq, ?_, ?_⟩
    · rw [hheld, List.map_append, List.pairwise_append]
      refine ⟨h.sorted.sublist (hsub.map _), List.pairwise_singleton _ _, ?_⟩
      intro v hv v' hv'
      obtain ⟨c, hc, rfl⟩ := List.mem_map.mp hv
      rw [List.mem_singleton.mp hv', hversion]
      exact h.below hp c (hsub.subset hc)
    · intro c hc
      rw [hheld] at hc
      rcases List.mem_append.mp hc with hc | hc
      · exact h.bound c (hsub.subset hc)
      · rw [List.mem_singleton.mp hc]
        exact hversion.le
    · intro _ _ _
      rw [hheld, List.getLast?_concat]
      exact hcfg.symm
    · intro hc
      refine h.closed ?_
      unfold Watcher.set at hc
      split at hc <;> exact hc

theorem Holds.close (h : Holds s P x) (hp : ¬ P) (hs : s.closed = true) : Holds s P x.close :=
  ⟨Watcher.close_live _, h.sorted, h.bound, fun h => absurd h hp, nofun,
    fun _ => hs⟩

end Holds

variable {w w' : World}

theorem watchers_setWatcher (w : World) (i j : Nat) (x : Watcher) :
    (w.setWatcher i x).watchers j = if j = i then x else w.watchers j := by
  show Function.update w.watchers i x j = _
  rw [Function.update_apply]

theorem not_pending (hloop : ∀ cfg rest, w.loop = some (.set cfg, rest) → rest = []) (i : Nat) :
    ¬ w.pending i := by
  rintro ⟨cfg, rest, hl, hmem⟩
  rw [hloop cfg rest hl] at hmem
  cases hmem

variable {i : Nat}

theorem Inv.advance (h : w.Inv) {f : Watcher → Except Fault Watcher}
    (hf : ∀ x x', f x = .ok x' → x.Live → x.Advances x' ∧ x'.Live) (hw : w.advance i f = .ok w') :
    w'.Inv := by
  unfold World.advance at hw
  split at hw
  · rename_i hi
    split at hw
    · rename_i x' hx'
      cases hw
      obtain ⟨hadv, hlive⟩ := hf _ _ hx' (h.each i hi).live
      refine ⟨h.stored, h.job, h.closing, h.rest, fun j hj => ?_⟩
      rw [watchers_setWatcher]
      split
      · rename_i hji
        subst hji
        exact (h.each j hj).advances hadv hlive
      · exact h.each j hj
    · cases hw
  · cases hw

/-- A put is refused, or it stores the next version and begins its loop. -/
theorem put_cases (w : World) (cfg : Option PlatformConfig) (n : Nat) :
    w.put cfg n = w ∨ ∃ stored, stored.version = w.store.configVersion + 1 ∧
      w.put cfg n = { w with
        store := { w.store with
          configVersion := w.store.configVersion + 1
          platformConfig := some stored }
        loop := some (.set stored, List.range w.nwatchers) } := by
  unfold put
  cases cfg with
  | none => exact .inl rfl
  | some cfg =>
    simp only [Memory.Store.putPlatformConfig]
    split
    · rename_i heq
      split at heq
      · cases heq
      · split at heq
        · cases heq
        · rename_i hopen hn
          cases heq
          rw [if_neg hopen, if_neg hn]
          exact .inr ⟨_, rfl, rfl⟩
    · refine .inl ?_
      split
      · rfl
      · rename_i hr hopen
        rw [if_neg hopen] at hr
        split
        · rfl
        · rename_i hn
          rw [if_neg hn] at hr
          exact absurd rfl (hr _)

theorem Inv.put (h : w.Inv) (cfg : Option PlatformConfig) (n : Nat) :
    (w.put cfg n).Inv := by
  rcases w.put_cases cfg n with hput | ⟨stored, hversion, hput⟩
  · rw [hput]
    exact h
  rw [hput]
  constructor
  case stored =>
    intro c hc
    cases hc
    exact hversion
  case job =>
    intro c rest hloop
    cases hloop
    rfl
  case closing => exact nofun
  case rest =>
    intro job rest hloop
    cases hloop
    exact ⟨List.nodup_range, fun i hi => List.mem_range.mp hi⟩
  case each =>
    exact fun i hi => (h.each i hi).stored stored ⟨stored, _, rfl, List.mem_range.mpr hi⟩

theorem Inv.close (h : w.Inv) (hfree : w.loop = none) : w.close.Inv := by
  constructor
  case stored => exact h.stored
  case job => exact nofun
  case closing => exact fun _ _ => rfl
  case rest =>
    intro job rest hloop
    cases hloop
    exact ⟨List.nodup_range, fun i hi => List.mem_range.mp hi⟩
  case each =>
    intro i hi
    have hx := h.each i hi
    have hnone := not_pending (w := w) (fun _ _ hl => by rw [hfree] at hl; cases hl) i
    have hnone' := not_pending (w := w.close) nofun i
    exact ⟨hx.live, hx.sorted, hx.bound, fun hp => absurd hp hnone', fun _ => hx.last hnone,
      fun _ => rfl⟩

theorem Inv.watch (h : w.Inv) (hfree : w.loop = none) (hw : w.watch = .ok w') : w'.Inv := by
  unfold World.watch at hw
  split at hw
  · cases hw
  cases hw
  refine ⟨h.stored, h.job, h.closing, ?_, fun j hj => ?_⟩
  · intro job rest hloop
    have hloop : w.loop = some (job, rest) := hloop
    rw [hfree] at hloop
    cases hloop
  · have hwatcher := watchers_setWatcher w w.nwatchers j (.seed w.store.platformConfig)
    rw [show ({ w.setWatcher w.nwatchers (.seed w.store.platformConfig) with
      nwatchers := w.nwatchers + 1 } : World).watchers j = _ from hwatcher]
    split
    · refine .seed h.stored (not_pending (fun c r hl => ?_) j)
      have hl : w.loop = some (.set c, r) := hl
      rw [hfree] at hl
      cases hl
    · rename_i hne
      exact h.each j (lt_of_le_of_ne (Nat.lt_succ_iff.mp hj) hne)

theorem Inv.set (h : w.Inv) {cfg : PlatformConfig} {rest : List Nat}
    (hloop : w.loop = some (.set cfg, i :: rest)) :
    ({ w.setWatcher i ((w.watchers i).set cfg) with loop := some (.set cfg, rest) } :
      World).Inv := by
  have hcfg := h.job cfg _ hloop
  obtain ⟨hnodup, hlt⟩ := h.rest _ _ hloop
  obtain ⟨hi, hnodup⟩ := List.nodup_cons.mp hnodup
  constructor
  case stored => exact h.stored
  case job =>
    intro c r hl
    cases hl
    exact hcfg
  case closing => exact nofun
  case rest =>
    intro job r hl
    cases hl
    exact ⟨hnodup, fun j hj => hlt j (.tail _ hj)⟩
  case each =>
    intro j hj
    have hwatcher := watchers_setWatcher w i j ((w.watchers i).set cfg)
    rw [show ({ w.setWatcher i ((w.watchers i).set cfg) with loop := some (.set cfg, rest) } :
      World).watchers j = _ from hwatcher]
    split
    · rename_i hji
      subst hji
      refine (h.each j hj).set ⟨cfg, _, hloop, .head _⟩ hcfg (h.stored cfg hcfg) ?_
      rintro ⟨c, r, hl, hmem⟩
      cases hl
      exact hi hmem
    · rename_i hne
      refine (h.each j hj).congr ⟨?_, ?_⟩
      · rintro ⟨c, r, hl, hmem⟩
        cases hl
        exact ⟨cfg, _, hloop, .tail _ hmem⟩
      · rintro ⟨c, r, hl, hmem⟩
        rw [hloop] at hl
        cases hl
        exact ⟨cfg, rest, rfl, (List.mem_cons.mp hmem).resolve_left hne⟩

theorem Inv.closeWatcher (h : w.Inv) {rest : List Nat} (hloop : w.loop = some (.close, i :: rest)) :
    ({ w.setWatcher i (w.watchers i).close with loop := some (.close, rest) } : World).Inv := by
  have hclosed := h.closing _ hloop
  obtain ⟨hnodup, hlt⟩ := h.rest _ _ hloop
  constructor
  case stored => exact h.stored
  case job => exact nofun
  case closing => exact fun _ _ => hclosed
  case rest =>
    intro job r hl
    cases hl
    exact ⟨(List.nodup_cons.mp hnodup).2, fun j hj => hlt j (.tail _ hj)⟩
  case each =>
    intro j hj
    have hwatcher := watchers_setWatcher w i j (w.watchers i).close
    rw [show ({ w.setWatcher i (w.watchers i).close with loop := some (.close, rest) } :
      World).watchers j = _ from hwatcher]
    have hnone := not_pending (w := w) (fun _ _ hl => by rw [hloop] at hl; cases hl) j
    have hx : Holds w.store (pending { w.setWatcher i (w.watchers i).close with
        loop := some (.close, rest) } j) (w.watchers j) :=
      (h.each j hj).congr ⟨fun hp => absurd hp (not_pending (fun _ _ hl => by cases hl) j),
        fun hp => absurd hp hnone⟩
    split
    · rename_i hji
      subst hji
      exact hx.close (not_pending (fun _ _ hl => by cases hl) j) hclosed
    · exact hx

theorem Inv.round (h : w.Inv) (hw : w.round = .ok w') : w'.Inv := by
  unfold World.round at hw
  split at hw
  · cases hw
  · rename_i job hloop
    cases hw
    refine ⟨h.stored, nofun, nofun,
      nofun, fun j hj => (h.each j hj).congr ⟨?_, fun hp => absurd hp ?_⟩⟩
    · exact fun hp => absurd hp (not_pending (fun _ _ hl => by cases hl) j)
    · exact not_pending (fun _ _ hl => by rw [hloop] at hl; cases hl; rfl) j
  · rename_i job i rest hloop
    cases hw
    cases job with
    | set cfg => exact h.set hloop
    | close => exact h.closeWatcher hloop

theorem Inv.step (h : w.Inv) {a : Action} (hw : w.step a = .ok w') : w'.Inv := by
  cases a with
  | put cfg n =>
    simp only [World.step] at hw
    split at hw
    · cases hw
      exact h.put cfg n
    · cases hw
  | watch =>
    simp only [World.step] at hw
    split at hw
    · rename_i hfree
      exact h.watch (Option.isNone_iff_eq_none.mp hfree) hw
    · cases hw
  | close =>
    simp only [World.step] at hw
    split at hw
    · rename_i hfree
      cases hw
      exact h.close (Option.isNone_iff_eq_none.mp hfree)
    · cases hw
  | round => exact h.round hw
  | cancel i => exact h.advance (fun _ _ hx hl => Watcher.cancel_advances hx hl) hw
  | wake i => exact h.advance (fun _ _ hx _ => Watcher.wake_advances hx) hw
  | take i => exact h.advance (fun _ _ hx _ => Watcher.take_advances hx) hw
  | send i => exact h.advance (fun _ _ hx hl => Watcher.send_advances hx hl) hw
  | stop i => exact h.advance (fun _ _ hx _ => Watcher.stop_advances hx) hw
  | receive i => exact h.advance (fun _ _ hx hl => Watcher.receive_advances hx hl) hw

theorem reachable_inv (hw : machine.Reachable w) : w.Inv := by
  refine hw.invariant ?_ fun _ _ _ hi hs => hi.step hs
  rintro _ rfl
  exact inv_init

/-- Neither the call that holds the lock nor the goroutine of watcher `i` can take a
step, and the channel is empty. -/
structure Drained (w : World) (i : Nat) : Prop where
  round : w.step .round = .error .disabled
  wake : w.step (.wake i) = .error .disabled
  take : w.step (.take i) = .error .disabled
  send : w.step (.send i) = .error .disabled
  stop : w.step (.stop i) = .error .disabled
  out : (w.watchers i).out = []

theorem advance_disabled {f : Watcher → Except Fault Watcher} (hi : i < w.nwatchers)
    (h : w.advance i f = .error .disabled) : f (w.watchers i) = .error .disabled := by
  unfold World.advance at h
  rw [if_pos hi] at h
  cases hf : f (w.watchers i) with
  | ok x => simp [hf] at h
  | error e =>
    cases e
    rfl

/-- A goroutine that has come to rest waits, and there is no wakeup for it. -/
theorem Drained.waiting (hd : w.Drained i) (hi : i < w.nwatchers)
    (hpc : (w.watchers i).pc ≠ .ended) :
    (w.watchers i).pc = .waiting ∧ (w.watchers i).notify = false := by
  have hwake := advance_disabled hi hd.wake
  have htake := advance_disabled hi hd.take
  have hsend := advance_disabled hi hd.send
  cases hp : (w.watchers i).pc with
  | ended => exact absurd hp hpc
  | taking => simp [Watcher.take, hp] at htake
  | sending cfg => simp [Watcher.send, hp, hd.out] at hsend
  | waiting =>
    cases hn : (w.watchers i).notify with
    | false => exact ⟨rfl, rfl⟩
    | true => simp [Watcher.wake, hp, hn] at hwake

theorem Drained.not_pending (hd : w.Drained i) : ¬ w.pending i := by
  rintro ⟨cfg, rest, hloop, -⟩
  have hround : w.round = .error .disabled := hd.round
  unfold World.round at hround
  rw [hloop] at hround
  cases rest with
  | nil => cases hround
  | cons j rest => cases hround

/-- What is left to read is nothing: the line ends at the consumer. -/
theorem Inv.drained (h : w.Inv) (hi : i < w.nwatchers) (hd : w.Drained i)
    (hopen : w.store.closed = false) (hctx : (w.watchers i).cancelled = false) :
    (w.watchers i).delivered.getLast? = w.store.platformConfig := by
  have hopen' : (w.watchers i).closed = false := by
    cases hc : (w.watchers i).closed with
    | false => rfl
    | true =>
      rw [(h.each i hi).closed hc] at hopen
      cases hopen
  have hpc : (w.watchers i).pc ≠ .ended := by
    intro he
    rcases (h.each i hi).live.ended he with hc | hc
    · rw [hc] at hopen'
      cases hopen'
    · rw [hc] at hctx
      cases hctx
  obtain ⟨hwait, hnotify⟩ := hd.waiting hi hpc
  have hlatest : (w.watchers i).latest = none := by
    by_contra hsome
    rw [(h.each i hi).live.token hsome (.inl hwait)] at hnotify
    cases hnotify
  have hheld : (w.watchers i).held = (w.watchers i).delivered := by
    simp [Watcher.held, hd.out, hwait, hlatest]
  rw [← hheld]
  exact (h.each i hi).last hd.not_pending hopen' hpc

end World

/-! ## The subscriber -/

/-- `ConfigSubscriber`: the document in use, and the calls of `onChange`. -/
structure Subscriber where
  current : Option PlatformConfig
  changes : List PlatformConfig
  deriving DecidableEq, Repr

namespace Subscriber

def new : Subscriber := ⟨none, []⟩

def apply (s : Subscriber) (cfg : PlatformConfig) : Subscriber :=
  match s.current with
  | some current =>
      if cfg.version ≤ current.version then s
      else ⟨some cfg, s.changes ++ [cfg]⟩
  | none => ⟨some cfg, s.changes ++ [cfg]⟩

/-- The sessions one after another; each receives some documents and then fails. -/
def run (sessions : List (List PlatformConfig)) : Subscriber :=
  sessions.flatten.foldl apply new

/-- The changes grow, the last is the document in use, and none was received that is
newer. -/
structure Applied (s : Subscriber) (received : List PlatformConfig) : Prop where
  sorted : (s.changes.map PlatformConfig.version).Pairwise (· < ·)
  current : s.changes.getLast? = s.current
  mem : ∀ c ∈ s.changes, c ∈ received
  newest : ∀ c ∈ received, ∃ d, s.current = some d ∧ c.version ≤ d.version

variable {s : Subscriber} {l : List PlatformConfig}

theorem Applied.push (h : s.Applied l) {cfg : PlatformConfig}
    (hnew : ∀ c ∈ s.changes, c.version < cfg.version)
    (hcur : ∀ d, s.current = some d → d.version ≤ cfg.version) :
    Applied ⟨some cfg, s.changes ++ [cfg]⟩ (l ++ [cfg]) where
  sorted := by
    rw [List.map_append, List.pairwise_append]
    refine ⟨h.sorted, List.pairwise_singleton _ _, ?_⟩
    intro v hv v' hv'
    obtain ⟨c, hc, rfl⟩ := List.mem_map.mp hv
    rw [List.mem_singleton.mp hv']
    exact hnew c hc
  current := List.getLast?_concat
  mem := by
    intro c hc
    rcases List.mem_append.mp hc with hc | hc
    · exact List.mem_append_left _ (h.mem c hc)
    · exact List.mem_append_right _ hc
  newest := by
    intro c hc
    rcases List.mem_append.mp hc with hc | hc
    · obtain ⟨d, hd, hle⟩ := h.newest c hc
      exact ⟨cfg, rfl, hle.trans (hcur d hd)⟩
    · rw [List.mem_singleton.mp hc]
      exact ⟨cfg, rfl, le_rfl⟩

theorem Applied.apply (h : s.Applied l) (cfg : PlatformConfig) :
    (s.apply cfg).Applied (l ++ [cfg]) := by
  have hle : ∀ d, s.current = some d → ∀ c ∈ s.changes, c.version ≤ d.version := by
    intro d hd c hc
    obtain ⟨d', hd', hle⟩ := h.newest c (h.mem c hc)
    rw [hd] at hd'
    exact Option.some.inj hd' ▸ hle
  unfold Subscriber.apply
  cases hcur : s.current with
  | some d =>
    simp only
    split
    · rename_i hold
      refine { h with
        mem := fun c hc => List.mem_append_left _ (h.mem c hc)
        newest := fun c hc => ?_ }
      rcases List.mem_append.mp hc with hc | hc
      · exact h.newest c hc
      · rw [List.mem_singleton.mp hc]
        exact ⟨d, hcur, hold⟩
    · rename_i hnew
      have hlt := Nat.lt_of_not_le hnew
      refine h.push (fun c hc => lt_of_le_of_lt (hle d hcur c hc) hlt) fun d' hd' => ?_
      rw [hcur] at hd'
      exact Option.some.inj hd' ▸ hlt.le
  | none =>
    have hnil : s.changes = [] := List.getLast?_eq_none_iff.mp (h.current.trans hcur)
    refine h.push (fun c hc => ?_) fun d hd => ?_
    · rw [hnil] at hc
      cases hc
    · rw [hcur] at hd
      cases hd

theorem applied_foldl (h : s.Applied l) (received : List PlatformConfig) :
    (received.foldl Subscriber.apply s).Applied (l ++ received) := by
  induction received generalizing s l with
  | nil => simpa using h
  | cons cfg received ih =>
    have hnext := ih (h.apply cfg)
    rwa [List.append_assoc] at hnext

end Subscriber

/-- **The mailbox and the subscriber.** -/
theorem config_mailbox :
    (∀ w, machine.Reachable w → ∀ i < w.nwatchers,
      ((w.watchers i).delivered.map PlatformConfig.version).Pairwise (· < ·) ∧
      ¬ ((w.watchers i).pc = .waiting ∧ (w.watchers i).latest ≠ none ∧
        (w.watchers i).notify = false) ∧
      (w.Drained i → w.store.closed = false → (w.watchers i).cancelled = false →
        (w.watchers i).delivered.getLast? = w.store.platformConfig)) ∧
    ∀ sessions, (Subscriber.run sessions).Applied sessions.flatten := by
  refine ⟨fun w hw i hi => ⟨?_, ?_, ?_⟩, fun sessions => ?_⟩
  · have hsorted := ((World.reachable_inv hw).each i hi).sorted
    refine hsorted.sublist (List.Sublist.map _ ?_)
    unfold Watcher.held
    rw [List.append_assoc, List.append_assoc]
    exact List.sublist_append_left _ _
  · rintro ⟨hpc, hlatest, hnotify⟩
    rw [((World.reachable_inv hw).each i hi).live.token hlatest (.inl hpc)] at hnotify
    cases hnotify
  · exact (World.reachable_inv hw).drained hi
  · have hnew : Subscriber.new.Applied [] :=
      ⟨.nil, rfl, nofun, nofun⟩
    exact Subscriber.applied_foldl hnew sessions.flatten

/-- Two puts while the goroutine sleeps: the consumer reads the second document only. -/
theorem config_mailbox_latest :
    ∃ w, machine.Reachable w ∧ w.Drained 0 ∧ (w.watchers 0).delivered = [⟨2, "b"⟩] ∧
      (w.watchers 0).delivered.getLast? = w.store.platformConfig := by
  obtain ⟨w, hw, hn, hloop, hopen, hx⟩ := machine.exists_of_run
    (Q := fun w => w.nwatchers = 1 ∧ w.loop = none ∧ w.store.closed = false ∧
      w.watchers 0 = ⟨none, false, false, false, .waiting, [], [⟨2, "b"⟩]⟩) .init
    [.watch, .put (some ⟨0, "a"⟩) 0, .round, .round, .put (some ⟨0, "b"⟩) 1, .round, .round,
      .wake 0, .take 0, .send 0, .receive 0] rfl (by decide +kernel)
  have hi : 0 < w.nwatchers := by omega
  have hdrained : w.Drained 0 := by
    constructor <;>
      simp [World.step, World.round, World.advance, hloop, hn, hx, Watcher.wake, Watcher.take,
        Watcher.send, Watcher.stop]
  exact ⟨w, hw, hdrained, by rw [hx],
    (config_mailbox.1 w hw 0 hi).2.2 hdrained hopen (by rw [hx])⟩

end HyperFaaS.ControlPlane.Mailbox
