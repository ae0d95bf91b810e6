import HyperFaaS.Ingress.Controller
import HyperFaaS.Leaf.RoutingReporter

/-!
One leaf and any number of ingresses that subscribe to its routing state. A session
takes a revision from the counter all sessions share, then reads the capacity source
and sends; its frames arrive in order, and what has not arrived when the session ends
is lost. The ingresses run the available-capacity policy. Proved here: after every
frame an ingress accepts, its model holds for the leaf what the snapshot behind the
frame says, and no first frame of a session is refused (`delta_protocol`), as long as
the revision counter has not wrapped.
-/

namespace HyperFaaS.Ingress

open HyperFaaS.Leaf Function RoutingController

/-- A frame on the wire, with the snapshot it was computed from. -/
structure Frame where
  state : LeafState
  snapshot : Snapshot

/-- A stream of one ingress. `sent` is none until the full frame is built. -/
structure Session where
  ingress : Nat
  revision : Option UInt64
  sent : Option Snapshot
  queue : List Frame
  /-- the snapshot behind the last frame that arrived -/
  arrived : Option Snapshot

/-- The leaf, and the configuration of each ingress. -/
structure Deployment where
  leafID : Nat
  topology : Nat → Topology
  version : Nat → Nat
  slot : Nat → Nat
  configured : ∀ k, (topology k).index leafID = some (slot k)

structure Net where
  source : Snapshot
  revision : UInt64
  nsessions : Nat
  session : Nat → Session
  ingress : Nat → Routing
  /-- the open session of each ingress -/
  current : Nat → Option Nat

namespace Net

inductive Action
  | change (s : Snapshot)
  | connect (k : Nat)
  | take (s : Nat)
  | send (s healthyWorkers : Nat) (caps : List FunctionCapacity)
  | deliver (k : Nat)
  | close (k : Nat)
  /-- what the ingress does besides: other leaves, its own configuration call, requests -/
  | other (k : Nat) (a : Routing.Action)

def setSession (w : Net) (s : Nat) (x : Session) : Net :=
  { w with session := update w.session s x }

def setIngress (w : Net) (k : Nat) (r : Routing) : Net :=
  { w with ingress := update w.ingress k r }

/-- The entries of the next frame, up to the order of the map. -/
def capacities (sent : Option Snapshot) (current : Snapshot) : List FunctionCapacity :=
  match sent with
  | none => current.entries
  | some prev => diffCapacities prev.entries current.entries

/-- `emit`, after its revision was taken. -/
def frame (d : Deployment) (w : Net) (x : Session) (revision : UInt64) (healthyWorkers : Nat)
    (caps : List FunctionCapacity) : Frame where
  state :=
    { configVersion := d.version x.ingress
      leafID := d.leafID
      revision := revision.toNat
      fullSnapshot := x.sent.isNone
      healthyWorkers := healthyWorkers
      leafLoad := 0
      hasLeafLoad := false
      aggregateInFlight := 0
      hasAggregateInFlight := false
      capacities := caps }
  snapshot := w.source

/-- The leaf's own events and a new configuration are not among the other actions. -/
def foreign (d : Deployment) : Routing.Action → Bool
  | .install => true
  | .abandon => true
  | .frame s => s.leafID != d.leafID
  | .drop leafID _ => leafID != d.leafID
  | .pick _ _ => true
  | .clear _ _ _ => false
  | .stop => false

def step (d : Deployment) (w : Net) : Action → Except Routing.Fault Net
  | .change s => .ok { w with source := s }
  | .connect k =>
      match w.current k with
      | some _ => .error .notEnabled
      | none =>
          .ok
            { w.setSession w.nsessions ⟨k, none, none, [], none⟩ with
              nsessions := w.nsessions + 1
              current := update w.current k (some w.nsessions) }
  | .take s =>
      if s < w.nsessions ∧ (w.session s).revision = none then
        .ok
          { w.setSession s { w.session s with revision := some (w.revision + 1) } with
            revision := w.revision + 1 }
      else .error .notEnabled
  | .send s healthyWorkers caps =>
      match (w.session s).revision with
      | none => .error .notEnabled
      | some revision =>
          let x := w.session s
          if caps.isPerm (capacities x.sent w.source) then
            .ok (w.setSession s
              { x with
                revision := none
                sent := some w.source
                queue := x.queue ++ [frame d w x revision healthyWorkers caps] })
          else .error .notEnabled
  | .deliver k =>
      match w.current k with
      | none => .error .notEnabled
      | some s =>
          match (w.session s).queue with
          | [] => .error .notEnabled
          | f :: rest =>
              match (w.ingress k).step (.frame f.state) with
              | .error e => .error e
              | .ok r =>
                  .ok ((w.setSession s
                    { w.session s with queue := rest, arrived := some f.snapshot }).setIngress k r)
  | .close k =>
      match (w.ingress k).step (.drop d.leafID (d.version k)) with
      | .error e => .error e
      | .ok r => .ok { w.setIngress k r with current := update w.current k none }
  | .other k a =>
      if foreign d a then
        match (w.ingress k).step a with
        | .error e => .error e
        | .ok r => .ok (w.setIngress k r)
      else .error .notEnabled

/-- At the start every ingress has just cleared for available-capacity. -/
def initial (d : Deployment) (s : Snapshot) : Net where
  source := s
  revision := 0
  nsessions := 0
  session := fun _ => ⟨0, none, none, [], none⟩
  ingress := fun k =>
    ⟨(newController (d.topology k)).clear .availableCapacity (d.version k) 0,
      some (d.version k), fun _ => false⟩
  current := fun _ => none

def machine (d : Deployment) : Lib.Machine Net Action Routing.Fault where
  start := fun w => ∃ s, w = initial d s
  step := step d

/-- The revision counter does not wrap in this step. -/
def sparesWrap (w : Net) : Action → Prop
  | .take _ => w.revision.toNat + 1 < 2 ^ 64
  | _ => True

/-- The pairs the model of an ingress holds for the leaf. -/
def Holds (d : Deployment) (w : Net) (k : Nat) (fn : UInt64) (available : Nat) : Prop :=
  ∃ m c, (w.ingress k).ctl.model = some (.availableCapacity m) ∧ m.cells fn = some c ∧
    ⟨d.slot k, available⟩ ∈ (m.cell c).parts

/-! ## What a session sent -/

/-- The frame continues from the snapshot before it, or opens its session. -/
def Follows (f : Frame) (prev : Option Snapshot) : Prop :=
  f.state.fullSnapshot = prev.isNone ∧ f.state.capacities.Perm (capacities prev f.snapshot)

/-- From what arrived, the frames on the way lead to what was sent. -/
def Linked : Option Snapshot → List Frame → Option Snapshot → Prop
  | prev, [], sent => prev = sent
  | prev, f :: rest, sent => Follows f prev ∧ Linked (some f.snapshot) rest sent

variable {f : Frame} {r : Routing}

theorem Linked.snoc {prev sent : Option Snapshot} {q : List Frame} (h : Linked prev q sent)
    (hf : Follows f sent) : Linked prev (q ++ [f]) (some f.snapshot) := by
  induction q generalizing prev with
  | nil =>
    obtain rfl : prev = sent := h
    exact ⟨hf, rfl⟩
  | cons g rest ih => exact ⟨h.1, ih h.2⟩

/-! ## The model of one ingress -/

/-- An ingress under the available-capacity policy whose model holds `view` for the leaf. -/
structure Views (d : Deployment) (k : Nat) (c : RoutingController) (view : UInt64 → Option Nat) :
    Prop where
  version : c.version = d.version k
  model : ∃ m adv, c.model = some (.availableCapacity m) ∧ m.Refines adv ∧
    m.membership.topology = d.topology k ∧ adv (d.slot k) = view

variable {d : Deployment} {k : Nat} {c : RoutingController} {view : UInt64 → Option Nat}

theorem Views.finish (hv : c.version = d.version k) {u : AvailableCapacityModel × UpdateResult}
    {adv : Advertised} (hr : u.1.Refines adv) (ht : u.1.membership.topology = d.topology k)
    (hview : adv (d.slot k) = view) (rev : Nat → Option Nat) :
    Views d k ({ c with lastRevision := rev }.finish (RoutingModel.lift .availableCapacity u))
      view := by
  unfold RoutingController.finish
  split_ifs
  · obtain ⟨hpr, hm, -⟩ := hr.picker
    exact ⟨hv, _, adv, rfl, hpr, by rw [hm, ht], hview⟩
  · exact ⟨hv, _, adv, rfl, hr, ht, hview⟩

theorem finish_lastRevision (c : RoutingController) (u : RoutingModel × UpdateResult) :
    (c.finish u).lastRevision = c.lastRevision := by
  unfold finish
  split_ifs <;> rfl

/-- The view after a frame of the leaf. -/
def viewAfter (view : UInt64 → Option Nat) (s : LeafState) : UInt64 → Option Nat :=
  if s.fullSnapshot then live s.capacities
  else s.capacities.foldl (fun a c => update a c.functionId c.advertises) view

theorem Views.accept (h : Views d k c view) {s : LeafState} (hs : s.leafID = d.leafID)
    (hacc : (c.onFrame s).2 = true) : Views d k (c.onFrame s).1 (viewAfter view s) := by
  obtain ⟨m, adv, hm, hr, ht, rfl⟩ := h.model
  have hidx : m.membership.topology.index s.leafID = some (d.slot k) := by
    rw [ht, hs]
    exact d.configured k
  rcases c.onFrame_cases s with he | ⟨n, hn, -, -, he⟩
  · rw [he] at hacc
    cases hacc
  · obtain rfl : RoutingModel.availableCapacity m = n := Option.some.inj (hm.symm.trans hn)
    rw [he]
    unfold viewAfter
    cases hfull : s.fullSnapshot with
    | true =>
      obtain ⟨href, hmem, -⟩ := hr.replaceLeaf s
      rw [hidx] at href
      exact .finish h.version href (by rw [hmem]; exact ht) (update_self _ _ _) _
    | false =>
      obtain ⟨href, hmem, -⟩ := hr.apply s
      rw [hidx] at href
      exact .finish h.version href (by rw [hmem]; exact ht)
        (Router.applyDelta_same adv (d.slot k) s.capacities) _

theorem Views.frame_other (h : Views d k c view) {s : LeafState} (hs : s.leafID ≠ d.leafID) :
    Views d k (c.onFrame s).1 view ∧
      (c.onFrame s).1.lastRevision d.leafID = c.lastRevision d.leafID := by
  obtain ⟨m, adv, hm, hr, ht, rfl⟩ := h.model
  rcases c.onFrame_cases s with he | ⟨n, hn, -, -, he⟩
  · rw [he]
    exact ⟨h, rfl⟩
  · obtain rfl : RoutingModel.availableCapacity m = n := Option.some.inj (hm.symm.trans hn)
    rw [he]
    refine ⟨?_, ?_⟩
    · have hslot : ∀ i, m.membership.topology.index s.leafID = some i → d.slot k ≠ i := by
        rintro i hi rfl
        rw [ht] at hi
        exact hs (AvailableCapacityModel.index_inj hi (d.configured k))
      cases hfull : s.fullSnapshot with
      | true =>
        obtain ⟨href, hmem, -⟩ := hr.replaceLeaf s
        refine .finish h.version href (by rw [hmem]; exact ht) ?_ _
        cases hi : m.membership.topology.index s.leafID with
        | none => rfl
        | some i => exact update_of_ne (hslot i hi) _ _
      | false =>
        obtain ⟨href, hmem, -⟩ := hr.apply s
        refine .finish h.version href (by rw [hmem]; exact ht) ?_ _
        cases hi : m.membership.topology.index s.leafID with
        | none => rfl
        | some i => exact AvailableCapacityModel.applyDelta_other adv s.capacities (hslot i hi)
    · rw [finish_lastRevision]
      exact update_of_ne hs.symm _ _

theorem Views.drop (h : Views d k c view) (leafID version : Nat) :
    Views d k (c.markUnhealthy leafID version) view ∧
      (c.markUnhealthy leafID version).lastRevision = c.lastRevision := by
  obtain ⟨m, adv, hm, hr, ht, rfl⟩ := h.model
  unfold markUnhealthy
  rw [hm]
  dsimp only
  split_ifs with hv
  · exact ⟨h, rfl⟩
  · obtain ⟨href, hmem, -⟩ := hr.leafDisconnected leafID
    exact ⟨.finish h.version href (by rw [hmem]; exact ht) rfl c.lastRevision,
      finish_lastRevision _ _⟩

theorem Views.pick (h : Views d k c view) (now : UInt64) (req : RouteRequest) :
    Views d k (c.pick now req).1 view ∧ (c.pick now req).1.lastRevision = c.lastRevision := by
  obtain ⟨m, adv, hm, hr, ht, hadv⟩ := h.model
  unfold RoutingController.pick
  cases ha : c.active with
  | none => exact ⟨h, rfl⟩
  | some x =>
    rw [hm]
    have hsame : (x.2.pick now req (.availableCapacity m)).2.1 = .availableCapacity m := by
      cases x.2 <;> rfl
    exact ⟨⟨h.version, m, adv, congrArg some hsame, hr, ht, hadv⟩, rfl⟩

/-- Whatever the ingress does besides keeps its view of the leaf. -/
theorem Views.foreign {r' : Routing} {a : Routing.Action} (h : Views d k r.ctl view)
    (hf : foreign d a = true) (hs : r.step a = .ok r') :
    Views d k r'.ctl view ∧ r'.ctl.lastRevision d.leafID = r.ctl.lastRevision d.leafID := by
  cases a with
  | clear policy version now => cases hf
  | stop => cases hf
  | install =>
    simp only [Routing.step] at hs
    split at hs
    · cases hs
    · cases hs
    · rename_i version m happ hm
      cases hs
      obtain ⟨n, adv, hn, hr, ht, hadv⟩ := h.model
      obtain rfl : m = .availableCapacity n := Option.some.inj (hm.symm.trans hn)
      obtain ⟨hpr, hmem, -⟩ := hr.picker
      exact ⟨⟨h.version, _, adv, rfl, hpr, by rw [hmem, ht], hadv⟩, rfl⟩
  | abandon =>
    simp only [Routing.step] at hs
    split_ifs at hs
    cases hs
    exact ⟨h, rfl⟩
  | frame s =>
    cases hs
    exact h.frame_other (by simpa [Net.foreign] using hf)
  | drop leafID version =>
    cases hs
    obtain ⟨hv, hl⟩ := h.drop leafID version
    exact ⟨hv, congrFun hl _⟩
  | pick now req =>
    cases hs
    obtain ⟨hv, hl⟩ := h.pick now req
    exact ⟨hv, congrFun hl _⟩

/-! ## The invariant -/

/-- The revisions of a session that have not arrived, in order. -/
def pending (x : Session) : List Nat :=
  x.queue.map (fun f => f.state.revision) ++ (x.revision.map UInt64.toNat).toList

/-- The last revision an ingress accepted, then those on their way to it. -/
def revisions (d : Deployment) (w : Net) (k s : Nat) : List Nat :=
  ((w.ingress k).ctl.lastRevision d.leafID).toList ++ pending (w.session s)

/-- What holds of one session, whether or not it is still open. -/
structure SessionOk (d : Deployment) (w : Net) (x : Session) : Prop where
  linked : Linked x.arrived x.queue x.sent
  frames : ∀ f ∈ x.queue, f.state.leafID = d.leafID ∧ f.state.configVersion = d.version x.ingress
  bound : ∀ n ∈ pending x, n ≤ w.revision.toNat

/-- What holds of one ingress: its view is that of the last frame that arrived. -/
structure IngressOk (d : Deployment) (w : Net) (k : Nat) : Prop where
  views : ∃ view, Views d k (w.ingress k).ctl view ∧ ∀ s x, w.current k = some s →
    (w.session s).arrived = some x → view = live x.entries
  bound : ∀ n ∈ (w.ingress k).ctl.lastRevision d.leafID, n ≤ w.revision.toNat
  current : ∀ s, w.current k = some s → s < w.nsessions ∧ (w.session s).ingress = k
  order : ∀ s, w.current k = some s → (revisions d w k s).Pairwise (· < ·)

structure Inv (d : Deployment) (w : Net) : Prop where
  sessions : ∀ s, SessionOk d w (w.session s)
  ingresses : ∀ k, IngressOk d w k

variable {w w' : Net}

theorem initial_inv (d : Deployment) (s : Snapshot) : Inv d (initial d s) where
  sessions := fun _ => ⟨rfl, fun f hf => (by cases hf), fun n hn => (by cases hn)⟩
  ingresses := fun k =>
    ⟨⟨fun _ => none, ⟨rfl, _, _, rfl, AvailableCapacityModel.newModel_refines _, rfl, rfl⟩,
        fun s x hs => (by cases hs)⟩,
      fun n hn => (by cases hn), fun s hs => (by cases hs), fun s hs => (by cases hs)⟩

theorem SessionOk.mono {x : Session} (h : SessionOk d w x)
    (hle : w.revision.toNat ≤ w'.revision.toNat) : SessionOk d w' x :=
  ⟨h.linked, h.frames, fun n hn => (h.bound n hn).trans hle⟩

/-- An ingress that the step does not touch: nothing arrives, and its session may take
a revision or send. -/
theorem IngressOk.of_same (h : IngressOk d w k) (hi : w'.ingress k = w.ingress k)
    (hc : w'.current k = w.current k) (hle : w.revision.toNat ≤ w'.revision.toNat)
    (hn : w.nsessions ≤ w'.nsessions)
    (hs : ∀ s, w.current k = some s → (w'.session s).arrived = (w.session s).arrived ∧
      (w'.session s).ingress = (w.session s).ingress ∧
      (((w.ingress k).ctl.lastRevision d.leafID).toList ++ pending (w'.session s)).Pairwise
        (· < ·)) : IngressOk d w' k := by
  obtain ⟨view, hv, harr⟩ := h.views
  constructor
  case views => exact ⟨view, hi ▸ hv, by grind⟩
  case bound => exact hi ▸ fun n hn => (h.bound n hn).trans hle
  case current =>
    have hcur := h.current
    grind
  case order => grind [revisions]

/-- A session that goes on without anything arriving: only its ingress is concerned,
and that through the revisions on the way. -/
theorem Inv.sending (h : Inv d w) {s : Nat} {y : Session} (hk : y.ingress = (w.session s).ingress)
    (ha : y.arrived = (w.session s).arrived) (hle : w.revision.toNat ≤ w'.revision.toNat)
    (hsess : w'.session = update w.session s y) (hn : w'.nsessions = w.nsessions)
    (hi : w'.ingress = w.ingress) (hc : w'.current = w.current) (hy : SessionOk d w' y)
    (horder : ∀ k, w.current k = some s →
      (((w.ingress k).ctl.lastRevision d.leafID).toList ++ pending y).Pairwise (· < ·)) :
    Inv d w' := by
  have hset : ∀ t, w'.session t = if t = s then y else w.session t :=
    fun t => by rw [hsess, update_apply]
  refine ⟨fun t => ?_, fun k => (h.ingresses k).of_same (by rw [hi]) (by rw [hc]) hle hn.ge ?_⟩
  · have hmono := (h.sessions t).mono hle
    grind
  · intro t ht
    have hold : (revisions d w k t).Pairwise (· < ·) := (h.ingresses k).order t ht
    grind [revisions]

theorem Inv.change (h : Inv d w) (s : Snapshot) : Inv d { w with source := s } :=
  ⟨fun t => (h.sessions t).mono le_rfl,
    fun k => (h.ingresses k).of_same rfl rfl le_rfl le_rfl
      fun t ht => ⟨rfl, rfl, (h.ingresses k).order t ht⟩⟩

theorem Inv.connect (h : Inv d w) (hcur : w.current k = none) :
    Inv d { w.setSession w.nsessions ⟨k, none, none, [], none⟩ with
      nsessions := w.nsessions + 1
      current := update w.current k (some w.nsessions) } := by
  generalize hw : { w.setSession w.nsessions ⟨k, none, none, [], none⟩ with
    nsessions := w.nsessions + 1
    current := update w.current k (some w.nsessions) } = w'
  have hset : ∀ t, w'.session t = if t = w.nsessions then ⟨k, none, none, [], none⟩
      else w.session t := fun t => hw ▸ update_apply _ _ _ _
  have hc : ∀ j, w'.current j = if j = k then some w.nsessions else w.current j :=
    fun j => hw ▸ update_apply _ _ _ _
  have hi : w'.ingress = w.ingress := hw ▸ rfl
  have hr : w'.revision = w.revision := hw ▸ rfl
  have hn : w'.nsessions = w.nsessions + 1 := hw ▸ rfl
  refine ⟨fun t => ?_, fun j => ?_⟩
  · have hmono : SessionOk d w' _ := (h.sessions t).mono (by rw [hr])
    by_cases ht : t = w.nsessions
    · rw [hset, if_pos ht]
      exact ⟨rfl, nofun, nofun⟩
    · rwa [hset, if_neg ht]
  · by_cases hj : j = k
    · subst hj
      obtain ⟨view, hv, -⟩ := (h.ingresses j).views
      constructor
      case views => exact ⟨view, hi ▸ hv, by grind⟩
      case bound => exact hi ▸ hr ▸ (h.ingresses j).bound
      case current => grind
      case order =>
        intro s hs
        have hs : s = w.nsessions := by grind
        rw [revisions, hset, if_pos hs]
        cases (w'.ingress j).ctl.lastRevision d.leafID <;> simp [pending]
    · refine (h.ingresses j).of_same (by rw [hi]) (by rw [hc, if_neg hj]) (by rw [hr]) (by omega)
        fun s hs => ?_
      have hold := (h.ingresses j).order s hs
      have hlt := ((h.ingresses j).current s hs).1
      rw [hset, if_neg hlt.ne]
      exact ⟨rfl, rfl, hold⟩

/-- A revision is larger than all that were taken before it. -/
theorem Inv.take (h : Inv d w) {s : Nat} (hnone : (w.session s).revision = none)
    (hwrap : w.revision.toNat + 1 < 2 ^ 64) :
    Inv d { w.setSession s { w.session s with revision := some (w.revision + 1) } with
      revision := w.revision + 1 } := by
  have hrev : (w.revision + 1).toNat = w.revision.toNat + 1 := by
    rw [UInt64.toNat_add]
    exact Nat.mod_eq_of_lt hwrap
  have hpend : pending { w.session s with revision := some (w.revision + 1) } =
      pending (w.session s) ++ [w.revision.toNat + 1] := by
    simp [pending, hnone, hrev]
  have hold := h.sessions s
  refine h.sending (s := s) (y := { w.session s with revision := some (w.revision + 1) })
    rfl rfl (by show _ ≤ (w.revision + 1).toNat; omega) rfl rfl rfl rfl
    ⟨hold.linked, hold.frames, ?_⟩ fun k hk => ?_
  · show ∀ n ∈ _, n ≤ (w.revision + 1).toNat
    have hbound := hold.bound
    grind
  · have horder := (h.ingresses k).order s hk
    have hlast := (h.ingresses k).bound
    have hbound := hold.bound
    rw [hpend, ← List.append_assoc]
    refine List.pairwise_append.mpr ⟨horder, List.pairwise_singleton _ _, ?_⟩
    grind

theorem Inv.send (h : Inv d w) {s healthyWorkers : Nat} {revision : UInt64}
    {caps : List FunctionCapacity} (hrev : (w.session s).revision = some revision)
    (hperm : caps.Perm (capacities (w.session s).sent w.source)) :
    Inv d (w.setSession s { w.session s with
      revision := none
      sent := some w.source
      queue := (w.session s).queue ++
        [frame d w (w.session s) revision healthyWorkers caps] }) := by
  have hold := h.sessions s
  have hpend : pending { w.session s with
      revision := none
      sent := some w.source
      queue := (w.session s).queue ++ [frame d w (w.session s) revision healthyWorkers caps] } =
      pending (w.session s) := by
    simp [pending, hrev, frame]
  refine h.sending (s := s) (y := { w.session s with
      revision := none
      sent := some w.source
      queue := (w.session s).queue ++ [frame d w (w.session s) revision healthyWorkers caps] })
    rfl rfl le_rfl rfl rfl rfl rfl ⟨?_, ?_, ?_⟩ fun k hk => ?_
  · exact hold.linked.snoc (f := frame d w (w.session s) revision healthyWorkers caps) ⟨rfl, hperm⟩
  · intro f hf
    rcases List.mem_append.mp hf with hf | hf
    · exact hold.frames f hf
    · rw [List.mem_singleton.mp hf]
      exact ⟨rfl, rfl⟩
  · rw [hpend]
    exact hold.bound
  · rw [hpend]
    exact (h.ingresses k).order s hk

theorem onFrame_accepts {m : RoutingModel} {s : LeafState} (hm : c.model = some m)
    (hv : s.configVersion = c.version) (hst : c.stale s = false) :
    (c.onFrame s).2 = true ∧
      (c.onFrame s).1.lastRevision = update c.lastRevision s.leafID (some s.revision) := by
  have he : c.onFrame s = ({ c with
      lastRevision := update c.lastRevision s.leafID (some s.revision) }.finish
        (if s.fullSnapshot then m.replaceLeaf s else m.apply s), true) := by
    simp [onFrame, hm, hv, hst]
  rw [he]
  exact ⟨rfl, finish_lastRevision _ _⟩

/-- **The next frame** of a session is accepted, and the view becomes its snapshot. -/
theorem Inv.arrival (h : Inv d w) {s : Nat} {rest : List Frame} (hcur : w.current k = some s)
    (hq : (w.session s).queue = f :: rest) : ((w.ingress k).ctl.onFrame f.state).2 = true ∧
      Views d k ((w.ingress k).ctl.onFrame f.state).1 (live f.snapshot.entries) ∧
      ((w.ingress k).ctl.onFrame f.state).1.lastRevision d.leafID = some f.state.revision := by
  have hi := h.ingresses k
  have hs := h.sessions s
  obtain ⟨view, hv, harr⟩ := hi.views
  obtain ⟨hleaf, hversion⟩ := hs.frames f (by rw [hq]; exact List.mem_cons_self)
  obtain ⟨m, adv, hm, -⟩ := hv.model
  have hnew : (w.ingress k).ctl.stale f.state = false := by
    have horder := hi.order s hcur
    rw [revisions, pending, hq] at horder
    unfold stale
    rw [hleaf]
    cases hl : (w.ingress k).ctl.lastRevision d.leafID with
    | none => rfl
    | some last =>
      rw [hl] at horder
      have hlt := (List.pairwise_cons.mp horder).1 f.state.revision (by simp)
      simpa using hlt
  obtain ⟨hacc, hlast⟩ := onFrame_accepts hm
    (by rw [hversion, (hi.current s hcur).2, hv.version]) hnew
  have hview : viewAfter view f.state = live f.snapshot.entries := by
    have hlinked := hs.linked
    rw [hq] at hlinked
    obtain ⟨hfull, hperm⟩ := hlinked.1
    unfold viewAfter
    cases ha : (w.session s).arrived with
    | none =>
      rw [ha] at hfull hperm
      rw [hfull]
      exact live_full f.snapshot hperm
    | some x =>
      rw [ha] at hfull hperm
      rw [hfull, harr s x hcur ha]
      exact live_delta x f.snapshot hperm
  refine ⟨hacc, hview ▸ hv.accept hleaf hacc, ?_⟩
  rw [hlast, hleaf, update_self]

/-- A step that changes one ingress and, if it has one, its open session. -/
theorem Inv.atIngress (h : Inv d w) (hother : ∀ j, j ≠ k → w'.ingress j = w.ingress j ∧
      w'.current j = w.current j) (hn : w'.nsessions = w.nsessions)
    (hr : w'.revision = w.revision)
    (hsess : ∀ s, w.current k ≠ some s → w'.session s = w.session s)
    (hok : ∀ s, w.current k = some s → SessionOk d w' (w'.session s)) (hk : IngressOk d w' k) :
    Inv d w' := by
  refine ⟨fun s => ?_, fun j => ?_⟩
  · have hmono : SessionOk d w' _ := (h.sessions s).mono (by rw [hr])
    grind
  · by_cases hj : j = k
    · exact hj ▸ hk
    · refine (h.ingresses j).of_same (hother j hj).1 (hother j hj).2 (by rw [hr]) (by rw [hn])
        fun s hs => ?_
      have hjs := ((h.ingresses j).current s hs).2
      have hks := (h.ingresses k).current s
      rw [hsess s fun hcur => hj (hjs.symm.trans (hks hcur).2)]
      exact ⟨rfl, rfl, (h.ingresses j).order s hs⟩

theorem Inv.deliver (h : Inv d w) {s : Nat} {rest : List Frame} (hcur : w.current k = some s)
    (hq : (w.session s).queue = f :: rest) (hr : (w.ingress k).step (.frame f.state) = .ok r) :
    Inv d ((w.setSession s { w.session s with
      queue := rest
      arrived := some f.snapshot }).setIngress k r) := by
  obtain ⟨-, hview, hlast⟩ := h.arrival hcur hq
  have hctl : r.ctl = ((w.ingress k).ctl.onFrame f.state).1 := by cases hr; rfl
  rw [← hctl] at hview hlast
  obtain ⟨hlinked, hframes, hbound⟩ := h.sessions s
  have hcurrent := (h.ingresses k).current s hcur
  have horder := (h.ingresses k).order s hcur
  have hpend : pending (w.session s) = f.state.revision ::
      pending { w.session s with queue := rest, arrived := some f.snapshot } := by
    simp [pending, hq]
  generalize hw : (w.setSession s { w.session s with
    queue := rest
    arrived := some f.snapshot }).setIngress k r = w'
  have hing : ∀ j, w'.ingress j = if j = k then r else w.ingress j :=
    fun j => hw ▸ update_apply _ _ _ _
  have hset : ∀ t, w'.session t = if t = s then
      { w.session s with queue := rest, arrived := some f.snapshot } else w.session t :=
    fun t => hw ▸ update_apply _ _ _ _
  have hcw : w'.current = w.current := hw ▸ rfl
  have hnw : w'.nsessions = w.nsessions := hw ▸ rfl
  have hrw : w'.revision = w.revision := hw ▸ rfl
  refine h.atIngress (k := k) (by grind) hnw hrw (by grind) (fun t ht => ?_)
    ⟨⟨live f.snapshot.entries, by grind, by grind⟩, ?_, by grind, fun t ht => ?_⟩
  · obtain rfl : t = s := by grind
    rw [hq] at hlinked
    rw [hset, if_pos rfl]
    exact ⟨hlinked.2, by grind, by grind⟩
  · rw [hing, if_pos rfl, hlast, hrw]
    exact fun n hn => hbound n (by grind)
  · obtain rfl : t = s := by grind
    rw [revisions, hpend] at horder
    rw [revisions, hing, hset, if_pos rfl, if_pos rfl, hlast]
    exact (List.pairwise_append.mp horder).2.1

/-- A step of one ingress that keeps its view and its last revision. -/
theorem Inv.keeps (h : Inv d w)
    (hviews : ∀ view, Views d k (w.ingress k).ctl view → Views d k r.ctl view)
    (hlast : r.ctl.lastRevision d.leafID = (w.ingress k).ctl.lastRevision d.leafID)
    {cur : Nat → Option Nat} (hcur : cur k = w.current k ∨ cur k = none)
    (hother : ∀ j, j ≠ k → cur j = w.current j) :
    Inv d { w.setIngress k r with current := cur } := by
  have hself : update w.ingress k r k = r := update_self _ _ _
  have hsub : ∀ s, cur k = some s → w.current k = some s := by grind
  have hi := h.ingresses k
  obtain ⟨view, hv, harr⟩ := hi.views
  refine h.atIngress (k := k) (fun j hj => ⟨update_of_ne hj _ _, hother j hj⟩) rfl rfl
    (fun _ _ => rfl) (fun t _ => (h.sessions t).mono le_rfl)
    ⟨⟨view, by simp only [setIngress, hself]; exact hviews view hv,
      fun s x hs hx => harr s x (hsub s hs) hx⟩, ?_, fun s hs => hi.current s (hsub s hs), ?_⟩
  · simp only [setIngress, hself, hlast]
    exact hi.bound
  · intro s hs
    simp only [revisions, setIngress, hself, hlast]
    exact hi.order s (hsub s hs)

theorem Inv.step (h : Inv d w) {a : Action} (hok : sparesWrap w a) (hs : step d w a = .ok w') :
    Inv d w' := by
  cases a with
  | change s =>
    cases hs
    exact h.change s
  | connect k =>
    simp only [Net.step] at hs
    split at hs
    · cases hs
    · rename_i hcur
      cases hs
      exact h.connect hcur
  | take s =>
    simp only [Net.step] at hs
    split_ifs at hs with hfree
    cases hs
    exact h.take hfree.2 hok
  | send s healthyWorkers caps =>
    simp only [Net.step] at hs
    split at hs
    · cases hs
    · rename_i revision hrev
      split_ifs at hs with hperm
      cases hs
      exact h.send hrev (List.isPerm_iff.mp hperm)
  | deliver k =>
    simp only [Net.step] at hs
    split at hs
    · cases hs
    · rename_i s hcur
      split at hs
      · cases hs
      · rename_i f rest hq
        split at hs
        · cases hs
        · rename_i r hr
          cases hs
          exact h.deliver hcur hq hr
  | close k =>
    simp only [Net.step] at hs
    split at hs
    · cases hs
    · rename_i r hr
      cases hs
      have hctl : r.ctl = (w.ingress k).ctl.markUnhealthy d.leafID (d.version k) := by cases hr; rfl
      obtain ⟨view, hv, -⟩ := (h.ingresses k).views
      refine h.keeps (fun v hv => hctl ▸ (hv.drop _ _).1) ?_ (.inr (update_self _ _ _))
        fun j hj => update_of_ne hj _ _
      rw [hctl, (hv.drop _ _).2]
  | other k a =>
    simp only [Net.step] at hs
    split_ifs at hs with hf
    split at hs
    · cases hs
    · rename_i r hr
      cases hs
      obtain ⟨view, hv, -⟩ := (h.ingresses k).views
      exact h.keeps (fun v hv => (hv.foreign hf hr).1) (hv.foreign hf hr).2 (.inl rfl)
        fun _ _ => rfl

theorem reached_inv (h : (machine d).ReachesWhile sparesWrap w) : Inv d w := by
  refine h.invariant ?_ fun w a w' hi hok hs => hi.step hok hs
  rintro w ⟨s, rfl⟩
  exact initial_inv d s

/-- What the cells hold for the leaf is its view. -/
theorem Views.holds {view : UInt64 → Option Nat} (h : Views d k (w.ingress k).ctl view)
    (fn : UInt64) (available : Nat) : Holds d w k fn available ↔ view fn = some available := by
  obtain ⟨m, adv, hm, hr, -, rfl⟩ := h.model
  have hindex := hr.tracks.index
  constructor
  · rintro ⟨n, c, hn, hc, hmem⟩
    obtain rfl : m = n := by
      have he := hm.symm.trans hn
      cases he
      rfl
    exact (hindex.parts fn c hc _).mp hmem
  · intro hview
    cases hc : m.cells fn with
    | none =>
      rw [hindex.missing fn hc (d.slot k)] at hview
      cases hview
    | some c => exact ⟨m, c, hm, hc, (hindex.parts fn c hc ⟨d.slot k, available⟩).mpr hview⟩

/-- **The delta protocol.** The next frame of the open session arrives, is accepted,
and leaves the model with the pairs of the snapshot it was computed from. -/
theorem delta_protocol (h : (machine d).ReachesWhile sparesWrap w) {s : Nat} {f : Frame}
    {rest : List Frame} (hcur : w.current k = some s) (hq : (w.session s).queue = f :: rest) :
    ((w.ingress k).ctl.onFrame f.state).2 = true ∧
    ∃ w', step d w (.deliver k) = .ok w' ∧
      ∀ fn available, Holds d w' k fn available ↔ f.snapshot.Has fn available := by
  obtain ⟨hacc, hview, -⟩ := (reached_inv h).arrival hcur hq
  refine ⟨hacc, _, by simp only [step, hcur, hq, Routing.step]; rfl, fun fn available => ?_⟩
  rw [← f.snapshot.live_iff]
  refine Views.holds ?_ fn available
  simp only [setIngress, update_self]
  exact hview

/-! ## One leaf, seen by every ingress -/

def oneLeaf : Deployment where
  leafID := 1
  topology := fun _ => ⟨[⟨1, "a", none⟩], List.pairwise_singleton _ _⟩
  version := fun _ => 1
  slot := fun _ => 0
  configured := fun _ => rfl

def readyFive : FunctionCapacity := ⟨5, 1, 2, 0, .available, false⟩

def snapshotFive : Snapshot where
  entries := [readyFive]
  keyed := List.nodup_singleton _
  present := fun c hc => by rw [List.mem_singleton.mp hc]; rfl

/-- The first frame of the first session is on its way. -/
theorem first_frame_sent : ∃ w f, (machine oneLeaf).ReachesWhile sparesWrap w ∧
    w.current 0 = some 0 ∧ (w.session 0).queue = [f] ∧ f.snapshot = snapshotFive := by
  have h0 : (machine oneLeaf).ReachesWhile sparesWrap (initial oneLeaf snapshotFive) :=
    .start ⟨snapshotFive, rfl⟩
  have h1 := h0.next (a := Action.connect 0) trivial rfl
  have h2 := h1.next (a := Action.take 0) (by show (0 : UInt64).toNat + 1 < 2 ^ 64; decide) rfl
  have h3 := h2.next (a := Action.send 0 1 [readyFive]) trivial rfl
  exact ⟨_, _, h3, rfl, rfl, rfl⟩

theorem delta_protocol_five : ∃ w w', (machine oneLeaf).ReachesWhile sparesWrap w ∧
    step oneLeaf w (.deliver 0) = .ok w' ∧ Holds oneLeaf w' 0 5 2 := by
  obtain ⟨w, f, hw, hcur, hq, hf⟩ := first_frame_sent
  obtain ⟨-, w', hs, hholds⟩ := delta_protocol hw hcur hq
  refine ⟨w, w', hw, hs, (hholds 5 2).mpr ?_⟩
  rw [hf]
  exact ⟨readyFive, List.mem_singleton_self _, rfl, rfl⟩

/-! ## The counter wraps -/

def noFunctions : Snapshot where
  entries := []
  keyed := List.nodup_nil
  present := nofun

/-- Ingress 0 has accepted revision 1 and is disconnected; session 1 belongs to another
ingress and has sent `n` frames. -/
structure Wrapping (n : Nat) (w : Net) : Prop where
  reached : (machine oneLeaf).Reachable w
  revision : w.revision = UInt64.ofNat (n + 1)
  last : (w.ingress 0).ctl.lastRevision 1 = some 1
  closed : w.current 0 = none
  two : w.nsessions = 2
  free : (w.session 1).revision = none
  source : w.source = noFunctions
  sent : (w.session 1).sent = none ∨ (w.session 1).sent = some noFunctions

theorem wrapping_start : ∃ w, Wrapping 0 w := by
  have h0 : (machine oneLeaf).Reachable (initial oneLeaf noFunctions) := .start ⟨noFunctions, rfl⟩
  have h1 := h0.step (a := Action.connect 0) rfl
  have h2 := h1.step (a := Action.take 0) rfl
  have h3 := h2.step (a := Action.send 0 1 []) rfl
  have h4 := h3.step (a := Action.deliver 0) rfl
  have h5 := h4.step (a := Action.close 0) rfl
  have h6 := h5.step (a := Action.connect 1) rfl
  exact ⟨_, h6, rfl, rfl, rfl, rfl, rfl, rfl, .inl rfl⟩

/-- A session with nothing to report takes a revision and sends its frame. -/
theorem exists_emit {s : Nat} (h : (machine oneLeaf).Reachable w) (hs : s < w.nsessions)
    (hfree : (w.session s).revision = none) (hcaps : capacities (w.session s).sent w.source = []) :
    ∃ w', (machine oneLeaf).Reachable w' ∧ w'.revision = w.revision + 1 ∧
      w'.ingress = w.ingress ∧ w'.current = w.current ∧ w'.nsessions = w.nsessions ∧
      w'.source = w.source ∧ w'.session s = { w.session s with
        sent := some w.source
        queue := (w.session s).queue ++
          [frame oneLeaf w (w.session s) (w.revision + 1) 1 []] } := by
  have htake : (machine oneLeaf).step w (.take s) = .ok
      { w.setSession s { w.session s with revision := some (w.revision + 1) } with
        revision := w.revision + 1 } := if_pos ⟨hs, hfree⟩
  refine ⟨_, (h.step htake).step (a := Action.send s 1 []) (t := ?w) ?_, ?_⟩
  case w => exact { w with
    revision := w.revision + 1
    session := update w.session s { w.session s with
      sent := some w.source
      queue := (w.session s).queue ++ [frame oneLeaf w (w.session s) (w.revision + 1) 1 []] } }
  · simp [machine, step, setSession, hcaps, hfree, frame]
    rfl
  · simp

theorem Wrapping.next {n : Nat} (h : Wrapping n w) : ∃ w', Wrapping (n + 1) w' := by
  have hcaps : capacities (w.session 1).sent w.source = [] := by
    rw [h.source]
    rcases h.sent with hn | hn <;> rw [hn] <;> rfl
  obtain ⟨w', hw, hrev, hi, hc, hn, hsrc, hs⟩ :=
    exists_emit h.reached (by rw [h.two]; decide) h.free hcaps
  refine ⟨w', hw, ?_, hi ▸ h.last, hc ▸ h.closed, hn ▸ h.two, hs ▸ h.free, hsrc ▸ h.source,
    .inr (by rw [hs, h.source])⟩
  rw [hrev, h.revision]
  exact (UInt64.ofNat_add (n + 1) 1).symm

theorem wrapping (n : Nat) : ∃ w, Wrapping n w := by
  induction n with
  | zero => exact wrapping_start
  | succ n ih =>
    obtain ⟨w, hw⟩ := ih
    exact hw.next

/-- After `n + 1` revisions the next one wraps to 0, and a first frame with it is refused. -/
theorem Wrapping.refused {n : Nat} (h : Wrapping n w) (hn : n + 2 = 2 ^ 64) :
    ∃ w' f, (machine oneLeaf).Reachable w' ∧ w'.current 0 = some 2 ∧
      (w'.session 2).queue = [f] ∧ f.state.fullSnapshot = true ∧
      ((w'.ingress 0).ctl.onFrame f.state).2 = false := by
  have hzero : w.revision + 1 = 0 := by
    rw [h.revision]
    apply UInt64.toNat_inj.mp
    rw [UInt64.toNat_add, UInt64.toNat_ofNat']
    show ((n + 1) % 2 ^ 64 + 1) % 2 ^ 64 = 0
    omega
  have hconnect : (machine oneLeaf).step w (.connect 0) = .ok
      { w.setSession 2 ⟨0, none, none, [], none⟩ with
        nsessions := 3
        current := update w.current 0 (some 2) } := by
    simp only [machine, step, h.closed, h.two]
  obtain ⟨w', hw, -, hi, hc, -, -, hs⟩ := exists_emit (s := 2) (h.reached.step hconnect)
    (Nat.lt_succ_self 2) (by simp [setSession])
    (by simp [setSession, h.source, capacities, noFunctions])
  refine ⟨w', _, hw, by simp [hc], by simp [hs, setSession]; rfl, by simp [frame], ?_⟩
  rw [hi]
  rcases (w.ingress 0).ctl.onFrame_cases (frame oneLeaf _ _ _ 1 []).state with he | ⟨m, -, -, hst, -⟩
  · exact congrArg Prod.snd he
  · have hlast := h.last
    simp [stale, frame, oneLeaf, hzero, hlast] at hst

theorem first_frame_refused : ∃ w f, (machine oneLeaf).Reachable w ∧ w.current 0 = some 2 ∧
    (w.session 2).queue = [f] ∧ f.state.fullSnapshot = true ∧
    ((w.ingress 0).ctl.onFrame f.state).2 = false := by
  obtain ⟨w, hw⟩ := wrapping (2 ^ 64 - 2)
  exact hw.refused rfl

end Net

end HyperFaaS.Ingress
