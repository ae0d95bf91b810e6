import HyperFaaS.Runtime.PlacementCap

/-!
The remaining steps of the cap argument: the compare-and-swap that gives a call
its rank, the two slot steps, new calls and telemetry. Then the run lemma, for
runs without a misread, and the run that passes the cap.
-/

namespace HyperFaaS.Runtime

open PC PlacementState

namespace World

variable {w w' : World} {t : Nat} {x y : PC}

theorem Inv.upTo_le (h : w.Inv) (idx n : Nat) :
    w.upTo idx n ≤ (w.state.worker idx).pendingStarts := by
  rw [h.worker idx]
  apply Nat.count_mono_left
  intro t _ ht
  exact (Bool.and_eq_true_iff.mp ht).1

variable {c : Call} {idx p loc : Nat} {r : PlacementReservation}

/-- **The compare-and-swap.** The call gets the newest rank, and its first bound is
the counter it wrote. -/
theorem Cap.reserve (h : w.Cap) (hi : w.Inv)
    (m : Turns w (w.reserve t c idx p) t (.casPending c idx p) (.recheck c idx p))
    (hi' : (w.reserve t c idx p).Inv) : (w.reserve t c idx p).Cap := by
  have hp : p < w.state.maxInstancesPerWorker := by
    have hv := h.values t
    rwa [m.before] at hv
  have hle := hi'.upTo_le idx (w.clock + 1)
  have hpend := setPendingStarts_pending w.state idx (p + 1)
  have hinst := setPendingStarts_instances w.state idx (p + 1)
  have hself : (w.reserve t c idx p).seq t = w.clock + 1 ∧ (w.reserve t c idx p).seen t =
      (List.range w.nthreads).filter fun u => adding idx (w.pc u) := by
    simp [World.reserve]
  have hseq : ∀ u, u ≠ t → (w.reserve t c idx p).seq u = w.seq u :=
    fun u hu => Function.update_of_ne hu _ _
  have hseen : ∀ u, u ≠ t → (w.reserve t c idx p).seen u = w.seen u :=
    fun u hu => Function.update_of_ne hu _ _
  obtain ⟨hwin, hlate⟩ := windows_still m hi (fun _ => rfl) (fun _ => rfl)
  have hup : ∀ j n, n ≤ w.clock → (w.reserve t c idx p).upTo j n = w.upTo j n := by
    intro j n hn
    have hc := upTo_move m hi hseq (fun _ _ _ _ => rfl) j n
    have hnot : ¬ w.clock + 1 ≤ n := by omega
    simpa [ranked, PC.worker, PC.rank, hself.1, hnot] using hc
  -- every commit in its window at the compare-and-swap is in the list the call keeps
  have hnone : (w.reserve t c idx p).late t idx = 0 := by
    by_contra hne
    obtain ⟨u, hu, hul⟩ := Nat.count_ne_iff_exists.mp hne
    simp only [Bool.and_eq_true, Bool.not_eq_true', hself.2] at hul
    have hut : u ≠ t := by
      rintro rfl
      rw [m.here] at hul
      cases hul.1
    rw [m.others hut] at hul
    have hmem : u ∈ (List.range w.nthreads).filter fun u => adding idx (w.pc u) := by
      rw [List.mem_filter, List.mem_range]
      exact ⟨hu, hul.1⟩
    rw [List.contains_iff_mem.mpr hmem] at hul
    cases hul.2
  refine m.cap h
    { cap := rfl
      holds := fun _ _ _ h => h
      grants := fun _ _ _ h => h
      seq := hseq
      seen := hseen
      clock := Nat.le_succ _
      top := fun _ => le_rfl
      values := hp
      telemetry := h.telemetry_of (setPendingStarts_telemetry _ _ _)
      top_le := fun j => (h.top_le j).trans (Nat.le_succ _)
      pending := ?_
      rank_le := fun _ _ => hself.1.le
      granted_le := fun _ hq => by cases hq
      saw := ?_
      committed := fun hc => by cases hc
      total := ?_
      lates := ?_
      bound := fun _ => .inl rfl
      first := ?_
      second := fun _ _ _ hq => by cases hq }
  · intro j
    have := h.pending j
    have hj := hpend j
    simp only [World.reserve, setState, setPC]
    split at hj <;> omega
  · intro u hu
    rw [hself.2, List.mem_filter] at hu
    cases hc : w.pc u with
    | addInstance r => rfl
    | _ =>
      rw [hc] at hu
      cases hu.2
  · intro j n _ hn
    rw [hup j n hn, hwin]
    exact (congrArg (· + _ + _) (hinst j)).le
  · intro u hu j n _ hn
    rw [hup j n hn, hlate u (hseen u hu)]
  · intro j q hq _
    cases hq
    have hj := hpend idx
    rw [if_pos rfl] at hj
    rw [hself.1, hnone]
    exact hle.trans_eq hj

theorem Cap.consume (h : w.Cap) (hi : w.Inv) {b : Bool}
    (m : Turns w (w.consume t b r) t (.complete b r) (.decPending b r .load))
    (hvalid : r.valid = true) (hgen : w.state.reservations r.slot = r.generation) :
    (w.consume t b r).Cap := by
  obtain ⟨v, hv, hvr⟩ := hi.issued t b r m.before hvalid
  obtain ⟨o, hvo, ho⟩ := tokenOf_eq_some hvr
  have hvtok : (w.pc v).token = some r := by rw [hvo]; exact ho
  have hvt : v ≠ t := by
    rintro rfl
    rw [m.before] at hvo
    cases hvo
  generalize hw' : w.consume t b r = w' at m ⊢
  have hstate : w'.state = w.state.setSlot r.slot (w.state.reservations r.slot + 1) := by
    subst hw'
    rw [hgen]
    rfl
  have hlive : ∀ u, u ≠ v → ∀ q, (w.pc u).token = some q →
      w'.state.live q = w.state.live q := by
    intro u huv q hq
    rw [hstate]
    apply ((hi.place u).token hq).live_raise
    intro hs hg
    exact huv (hi.unique u v q r hq hvtok hs (hg.trans hgen))
  have hbefore : w.state.live r = true := by simp [PlacementState.live, hgen]
  have hafter : w'.state.live r = false := by
    simp [PlacementState.live, hstate, setSlot_reservations, hgen]
  have hvb : (w.pc v).worker w.state = some r.workerIndex ∧
      (w.pc v).granted w.state = some r.workerIndex ∧ ∀ n, (w.pc v).rank n = r.rank := by
    simp [hvo, PC.worker, PC.granted, PC.rank, ho, Option.filter, hbefore]
  have hva : (w.pc v).worker w'.state = none ∧ (w.pc v).granted w'.state = none := by
    simp [hvo, PC.worker, PC.granted, ho, Option.filter, hafter]
  have hseq : w'.seq = w.seq := by subst hw'; rfl
  have hseen : w'.seen = w.seen := by subst hw'; rfl
  have hclock : w'.clock = w.clock := by subst hw'; rfl
  have htop : w'.top = w.top := by subst hw'; rfl
  have hwk : w'.state.worker = w.state.worker := by rw [hstate]; rfl
  have hup : ∀ j n, w'.upTo j n = w.upTo j n := by
    intro j n
    have hc := m.count_with hi hvt (f := fun u z => ranked w.state j n (w.seq u) z)
      (g := fun u z => ranked w'.state j n (w'.seq u) z) (fun _ => rfl) (fun _ => rfl)
      (fun u huv _ => by rw [ranked, ranked, hseq, PC.worker_congr (hlive u huv)])
    have hx : ranked w.state j n (w.seq t) (.complete b r) = false := rfl
    have hy : ranked w'.state j n (w'.seq t) (.decPending b r .load) =
        ranked w.state j n (w.seq v) (w.pc v) := by
      rw [ranked, ranked, hvb.1, hvb.2.2]
      rfl
    have hz : ranked w'.state j n (w'.seq v) (w.pc v) = false := by simp [ranked, hva]
    rw [hx, hy, hz] at hc
    simp only [Bool.toNat_false] at hc
    exact Nat.add_right_cancel hc
  obtain ⟨hwin, hlate⟩ := windows_still m hi (fun _ => rfl) (fun _ => rfl)
  refine m.cap h
    { values := trivial
      cap := by rw [hstate]; rfl
      telemetry := by rw [hwk]; exact h.telemetry
      holds := ?_
      grants := ?_
      seq := fun u _ => by rw [hseq]
      seen := fun u _ => by rw [hseen]
      clock := hclock.ge
      top := fun j => by rw [htop]
      top_le := fun j => by rw [htop, hclock]; exact h.top_le j
      pending := fun j => by rw [hwk]; exact h.pending j
      rank_le := ?_
      granted_le := ?_
      saw := fun u hu => h.seen t u (hseen ▸ hu)
      total := fun j n _ _ => by rw [hwk, hwin, hup]
      lates := fun u _ j n _ _ => by rw [hup, hlate u (by rw [hseen])]
      committed := fun hc => by cases hc
      bound := fun j => .inl (by rw [htop])
      first := fun _ _ hq => by cases hq
      second := fun _ _ _ hq => by cases hq }
  · intro u _ j hu
    by_cases huv : u = v
    · rw [huv, hva.1] at hu
      cases hu
    · rwa [PC.worker_congr (hlive u huv)] at hu
  · intro u _ j hu
    by_cases huv : u = v
    · rw [huv, hva.2] at hu
      cases hu
    · rwa [granted_congr (hlive u huv)] at hu
  · intro j _
    rw [hclock]
    exact (hvb.2.2 _).symm.trans_le (h.rank_le v r.workerIndex hvb.1)
  · intro j hj
    cases hj
    rw [htop]
    exact (hvb.2.2 _).symm.trans_le (h.granted_le v r.workerIndex hvb.2.1)

theorem Cap.drop (h : w.Cap) (hi : w.Inv) (hd : Drops w.state idx x y) (m : Turns w w' t x y)
    (hw : w' = (w.setState (w.state.setPendingStarts idx
      ((w.state.worker idx).pendingStarts - 1))).setPC t y) : w'.Cap := by
  have hseat : CapPlace w.state.maxInstancesPerWorker y ∧ y.granted w.state = none ∧
      x.committed = false ∧ y.tentative = none ∧ y.reread = none := by
    cases hd <;> exact ⟨trivial, rfl, rfl, rfl, rfl⟩
  obtain ⟨hvalues, hgranted, hcom, htent, hreread⟩ := hseat
  have hworker := hd.units.2.1
  obtain ⟨hwin, hlate⟩ := windows_still m hi (fun _ => by cases hd <;> rfl)
    (fun _ => by cases hd <;> rfl)
  have hup : ∀ j n, w'.upTo j n ≤ w.upTo j n := by
    intro j n
    have hc := upTo_move m hi (fun _ _ => by rw [hw]; rfl) (fun _ _ _ _ => by rw [hw]; rfl) j n
    have hy : y.worker w'.state = none := by rw [hw]; exact hworker
    simp only [ranked, hy, reduceCtorEq, decide_false, Bool.false_and, Bool.toNat_false] at hc
    omega
  have hinst := setPendingStarts_instances w.state idx ((w.state.worker idx).pendingStarts - 1)
  subst hw
  refine m.cap h
    { toCapFrame := capFrame_set rfl rfl
      values := hvalues
      telemetry := h.telemetry_of (setPendingStarts_telemetry _ _ _)
      top_le := h.top_le
      pending := h.pending_pred idx
      rank_le := fun j hj => by cases hworker.symm.trans hj
      granted_le := fun j hj => by cases hgranted.symm.trans hj
      saw := h.seen t
      committed := fun hc => by rw [hcom] at hc; cases hc
      total := fun j n _ _ => ?_
      lates := fun u _ j n _ _ => ?_
      bound := fun _ => .inl rfl
      first := fun j p hp => by rw [htent] at hp; cases hp
      second := fun j p loc hp => by rw [hreread] at hp; cases hp }
  · rw [hwin]
    exact Nat.add_le_add (Nat.add_le_add_right (hinst j).le _) (hup j n)
  · rw [hlate u rfl]
    exact Nat.add_le_add_right (hup j n) _

/-- A commit takes its unit off `pendingStarts`: the unit goes from the ranked
holders to the window. -/
theorem Cap.enterWindow (h : w.Cap) (hi : w.Inv) {d : Dec}
    (m : Turns w w' t (.decPending true r d) (.addInstance r))
    (hw : w' = (w.setState (w.state.setPendingStarts r.workerIndex
      ((w.state.worker r.workerIndex).pendingStarts - 1))).setPC t (.addInstance r)) : w'.Cap := by
  have hrank : r.rank ≤ w.top r.workerIndex := by
    have hg := h.granted_le t r.workerIndex (by rw [m.before]; rfl)
    rwa [rankOf, m.before] at hg
  -- the rank is below every bound that is kept, so one leaves and one joins
  have hup : ∀ j n, w.top j ≤ n →
      w'.upTo j n + (decide (r.workerIndex = j)).toNat = w.upTo j n := by
    intro j n hn
    have hc := upTo_move m hi (fun _ _ => by rw [hw]; rfl) (fun _ _ _ _ => by rw [hw]; rfl) j n
    by_cases hj : r.workerIndex = j
    · have hle : r.rank ≤ n := by rw [hj] at hrank; omega
      simpa [ranked, PC.worker, PC.rank, hj, hle] using hc
    · simpa [ranked, PC.worker, PC.rank, hj] using hc
  have hwin : ∀ j, w'.window j = w.window j + (decide (r.workerIndex = j)).toNat :=
    window_move m hi
  have hlate : ∀ u j, w'.late u j ≤ w.late u j + (decide (r.workerIndex = j)).toNat := by
    intro u j
    have hc := late_move m hi (u := u) (by rw [hw]; rfl) j
    have hle : (adding j (.addInstance r) && !(w.seen u).contains t).toNat ≤
        (decide (r.workerIndex = j)).toNat :=
      Bool.toNat_le_toNat (Bool.and_le_left _ _)
    have hz : (adding j (.decPending true r d) && !(w.seen u).contains t).toNat = 0 := rfl
    omega
  have hinst : ∀ j, (w'.state.worker j).instances = (w.state.worker j).instances := by
    rw [hw]
    exact setPendingStarts_instances w.state _ _
  have htotal : ∀ j n, w.top j ≤ n → n ≤ w.clock →
      (w'.state.worker j).instances + w'.window j + w'.upTo j n ≤
        (w.state.worker j).instances + w.window j + w.upTo j n := by
    intro j n hn _
    have h1 := hup j n hn
    have h2 := hwin j
    rw [hinst]
    omega
  have hlates : ∀ u, u ≠ t → ∀ j n, w.top j ≤ n → n ≤ w.clock →
      w'.upTo j n + w'.late u j ≤ w.upTo j n + w.late u j := by
    intro u _ j n hn _
    have h1 := hup j n hn
    have h2 := hlate u j
    omega
  subst hw
  exact m.cap h
    { toCapFrame := capFrame_set rfl rfl
      values := trivial
      telemetry := h.telemetry_of (setPendingStarts_telemetry _ _ _)
      top_le := h.top_le
      pending := h.pending_pred r.workerIndex
      rank_le := fun _ hq => by cases hq
      granted_le := fun _ hq => by cases hq
      saw := h.seen t
      committed := fun _ => rfl
      total := htotal
      lates := hlates
      bound := fun _ => .inl rfl
      first := fun _ _ hq => by cases hq
      second := fun _ _ _ hq => by cases hq }

theorem Cap.leaveWindow (h : w.Cap) (hi : w.Inv)
    (m : Turns w w' t (.addInstance r) (.finishImage true r))
    (hw : w' = (w.setState (w.state.setInstances r.workerIndex
      ((w.state.worker r.workerIndex).instances + 1))).setPC t (.finishImage true r)) : w'.Cap := by
  have hinst : ∀ j, (w'.state.worker j).instances =
      (w.state.worker j).instances + (decide (r.workerIndex = j)).toNat := by
    intro j
    rw [hw]
    by_cases hj : j = r.workerIndex
    · subst hj
      simp [setPC, setState, setInstances, setWorker]
    · simp [setPC, setState, setInstances, setWorker, hj, Ne.symm hj]
  have hup : ∀ j n, w'.upTo j n = w.upTo j n :=
    upTo_move m hi (fun _ _ => by rw [hw]; rfl) (fun _ _ _ _ => by rw [hw]; rfl)
  have hwin : ∀ j, w'.window j + (decide (r.workerIndex = j)).toNat = w.window j :=
    window_move m hi
  have hlate : ∀ u j, w'.late u j ≤ w.late u j :=
    fun u j => Nat.le.intro (late_move m hi (u := u) (by rw [hw]; rfl) j)
  have htotal : ∀ j n, w.top j ≤ n → n ≤ w.clock →
      (w'.state.worker j).instances + w'.window j + w'.upTo j n ≤
        (w.state.worker j).instances + w.window j + w.upTo j n := by
    intro j n _ _
    have h1 := hwin j
    rw [hinst, hup]
    omega
  have hpend := setInstances_pending w.state r.workerIndex
    ((w.state.worker r.workerIndex).instances + 1)
  subst hw
  exact m.cap h
    { toCapFrame := capFrame_set rfl rfl
      values := trivial
      telemetry := h.telemetry_of (setInstances_telemetry _ _ _)
      top_le := h.top_le
      pending := fun j => (hpend j).trans_le (h.pending j)
      rank_le := fun _ hq => by cases hq
      granted_le := fun _ hq => by cases hq
      saw := h.seen t
      committed := fun _ => rfl
      total := htotal
      lates := fun u _ j n _ _ => Nat.add_le_add (hup j n).le (hlate u j)
      bound := fun _ => .inl rfl
      first := fun _ _ hq => by cases hq
      second := fun _ _ _ hq => by cases hq }

/-- The second reading of `instances`, with no commit of the call's past still in
its window: what the first bound says of the units now bounds the instances too. -/
theorem Cap.rereads (h : w.Cap) (hi : w.Inv) (m : Turns w w' t (.reloadLocal c idx p)
      (.reloadTelemetry c idx p (w.state.worker idx).instances))
    (hw : w' = w.setPC t (.reloadTelemetry c idx p (w.state.worker idx).instances))
    (hclear : ∀ u ∈ w.seen t, adding idx (w.pc u) = false) : w'.Cap := by
  have hseen : w.late t idx = w.window idx := by
    apply Lib.count_congr
    intro u _
    by_cases hu : u ∈ w.seen t
    · simp [hclear u hu]
    · simp [hu]
  have hin : (w.state.worker idx).instances ≤ w.state.maxInstancesPerWorker := by
    have := h.bound idx
    omega
  have hp : p < w.state.maxInstancesPerWorker := by
    have hv := h.values t
    rwa [m.before] at hv
  have hup : ∀ j n, w'.upTo j n = w.upTo j n := by
    intro j n
    have hc := upTo_move m hi (fun _ _ => by rw [hw]; rfl) (fun _ _ _ _ => by rw [hw]; rfl) j n
    rw [hw] at hc ⊢
    exact Nat.add_right_cancel hc
  obtain ⟨hwin, hlate⟩ := windows_still m hi (fun _ => rfl) (fun _ => rfl)
  subst hw
  refine m.cap h
    { toCapFrame := capFrame_set rfl rfl
      values := ⟨hp, hin⟩
      telemetry := h.telemetry
      top_le := h.top_le
      pending := h.pending
      rank_le := ?_
      granted_le := fun _ hq => by cases hq
      saw := h.seen t
      committed := fun hc => by cases hc
      total := fun j n _ _ => by rw [hwin, hup]; rfl
      lates := fun u _ j n _ _ => by rw [hup, hlate u rfl]
      bound := fun _ => .inl rfl
      first := fun _ _ hq => by cases hq
      second := ?_ }
  · intro j hj
    have hr := h.rank_le t j (by rw [m.before]; exact hj)
    rwa [rankOf, m.before] at hr
  · intro j q loc hq hlt
    cases hq
    have hf := h.first t idx p (by rw [m.before]; rfl) hlt
    rw [hwin, hup]
    simp only [setPC] at hf ⊢
    omega

theorem observed_lt (h : w.Cap) (idx : Nat) (hloc : loc ≤ w.state.maxInstancesPerWorker) :
    loc ≤ w.state.observedInstances idx loc ∧
      w.state.observedInstances idx loc + w.state.maxInstancesPerWorker + 1 ≤ 2 ^ 64 := by
  have hs := h.small
  unfold observedInstances
  cases ht : (w.state.worker idx).telemetry with
  | none =>
    constructor
    · exact le_rfl
    · simp only
      omega
  | some x =>
    have hx := h.telemetry idx x ht
    simp only
    split
    · constructor <;> omega
    · constructor <;> omega

theorem Cap.grants (h : w.Cap) (hi : w.Inv)
    (m : Turns w w' t (.reloadTelemetry c idx p loc) (.claim c idx)) (hw : w' = w.grant t c idx)
    (hcheck : (w.state.observedInstances idx loc + p + 1) % 2 ^ 64 ≤
      w.state.maxInstancesPerWorker) : w'.Cap := by
  obtain ⟨hp, hloc⟩ : p < w.state.maxInstancesPerWorker ∧ loc ≤ w.state.maxInstancesPerWorker := by
    have hv := h.values t
    rwa [m.before] at hv
  have hfit : loc + p + 1 ≤ w.state.maxInstancesPerWorker := by
    obtain ⟨hobs, hlt⟩ := observed_lt h idx hloc
    have hmod : (w.state.observedInstances idx loc + p + 1) % 2 ^ 64 =
        w.state.observedInstances idx loc + p + 1 := Nat.mod_eq_of_lt (by omega)
    omega
  have hseq : w.seq t ≤ w.clock := by
    have hr := h.rank_le t idx (by rw [m.before]; rfl)
    rwa [rankOf, m.before] at hr
  have htop : ∀ j, w'.top j = if j = idx then max (w.top idx) (w.seq t) else w.top j := by
    intro j
    rw [hw]
    exact Function.update_apply ..
  have hup : ∀ j n, w'.upTo j n = w.upTo j n := by
    intro j n
    have hc := upTo_move m hi (fun _ _ => by rw [hw]; rfl) (fun _ _ _ _ => by rw [hw]; rfl) j n
    rw [hw] at hc ⊢
    exact Nat.add_right_cancel hc
  obtain ⟨hwin, hlate⟩ := windows_still m hi (fun _ => rfl) (fun _ => rfl)
  have hinst : w'.state = w.state := by rw [hw]; rfl
  have hbound : ∀ j, w'.top j = w.top j ∨
      (w'.state.worker j).instances + w'.window j + w'.upTo j (w'.top j) ≤
        w.state.maxInstancesPerWorker := by
    intro j
    rw [htop, hinst, hwin, hup]
    by_cases hj : j = idx
    · subst hj
      rw [if_pos rfl]
      by_cases hlt : w.top j < w.seq t
      · right
        have hs := h.second t j p loc (by rw [m.before]; rfl) hlt
        rw [max_eq_right hlt.le]
        omega
      · left
        exact max_eq_left (by omega)
    · left
      rw [if_neg hj]
  subst hw
  refine m.cap h
    { cap := rfl
      holds := fun _ _ _ h => h
      grants := fun _ _ _ h => h
      seq := fun _ _ => rfl
      seen := fun _ _ => rfl
      clock := le_rfl
      top := fun j => ?_
      values := trivial
      telemetry := h.telemetry
      top_le := fun j => ?_
      pending := h.pending
      rank_le := fun _ _ => hseq
      granted_le := fun j hj => ?_
      saw := h.seen t
      committed := fun hc => by cases hc
      total := fun j n _ _ => by rw [hwin, hup]; rfl
      lates := fun u _ j n _ _ => by rw [hup, hlate u rfl]
      bound := hbound
      first := fun _ _ hq => by cases hq
      second := fun _ _ _ hq => by cases hq }
  · rw [htop]
    split
    · subst j
      exact le_max_left _ _
    · exact le_rfl
  · rw [htop]
    split
    · exact max_le (h.top_le idx) hseq
    · exact h.top_le j
  · cases hj
    rw [htop, if_pos rfl]
    exact le_max_right _ _

/-- The step is no misread: no call reads `instances` for the second time while a
commit that was in its window at the call's compare-and-swap is still there, and
no telemetry comes within the cap of 2^64. -/
def spaced (w : World) : Action → Bool
  | .telemetry _ (some x) =>
      decide (x.instances.toNat + w.state.maxInstancesPerWorker < 2 ^ 64)
  | .step t =>
      match w.pc t with
      | .reloadLocal _ idx _ => (w.seen t).all fun u => !adding idx (w.pc u)
      | _ => true
  | _ => true

theorem Walk.values (hw : Walk w.state x y) (hcap : 0 < w.state.maxInstancesPerWorker) (h : w.Cap)
    (hx : CapPlace w.state.maxInstancesPerWorker x) : CapPlace w.state.maxInstancesPerWorker y := by
  cases hw with
  | @readPending _ idx => exact h.pending idx
  | uncapped hzero => omega
  | @readLocal _ idx =>
    have hb := h.bound idx
    exact ⟨hx, by omega⟩
  | @fits _ idx pending loc hcheck =>
    obtain ⟨-, hobs⟩ := observed_lt h idx hx.2
    have hmod : (w.state.observedInstances idx loc + pending) % 2 ^ 64 =
        w.state.observedInstances idx loc + pending := Nat.mod_eq_of_lt (by have := hx.1; omega)
    simp only [CapPlace]
    omega
  | recheck => exact hx
  | _ => trivial

theorem Walk.still (hw : Walk w.state x y) (hcap : 0 < w.state.maxInstancesPerWorker) (h : w.Cap)
    (hx : CapPlace w.state.maxInstancesPerWorker x) : Still w (w.setPC t y) t x y := by
  have hvalues := hw.values hcap h hx
  cases hw with
  | next hx | gaveUp hx | nextSlot hx | noSlot hx =>
    cases hx <;> exact { values := hvalues, telemetry := h.telemetry }
  | _ => exact { values := hvalues, telemetry := h.telemetry }

/-- **Step lemma.** -/
theorem Acts.cap (a : Acts w t (w.pc t) y w') (hcap : 0 < w.state.maxInstancesPerWorker)
    (h : w.Cap) (hi : w.Inv)
    (hclear : ∀ c idx p, w.pc t = .reloadLocal c idx p →
      ∀ u ∈ w.seen t, adding idx (w.pc u) = false) : w'.Cap := by
  have hi' := a.inv hi
  have hv := h.values t
  generalize hx : w.pc t = x at a hv
  have m := a.turns hi hx
  cases a with
  | walk hw => exact m.still h hi (hw.still hcap h hv)
  | enter | claim | lost => exact m.still h hi { telemetry := h.telemetry }
  | reserve => exact h.reserve hi m hi'
  | reread => exact h.rereads hi m rfl (hclear _ _ _ hx)
  | grant hg =>
    cases hg with
    | uncapped hzero => omega
    | fits hcheck => exact h.grants hi m rfl hcheck
  | slot =>
    obtain ⟨-, heven⟩ := hi.placeAt hx
    refine m.still h hi { telemetry := h.telemetry, live := fun u q hq => ?_ }
    have hq' := (hi.place u).token hq
    apply hq'.live_raise
    have hodd := hq'.odd
    intro _
    omega
  | @image c r =>
    have hres := placed_reservation c r
    have hother := addPendingImage_other w.state r.workerIndex r.image
    have hlive : (w.state.addPendingImage r.workerIndex r.image).live = w.state.live := by
      funext q
      simp only [live, hother.2.2]
    have hw : (returned (placed c r)).worker (w.state.addPendingImage r.workerIndex r.image) =
        some r.workerIndex := by
      simp [PC.worker, hres, Option.filter, hlive, (hi.placeAt hx).2]
    exact m.still h hi
      { telemetry := h.telemetry_of (addPendingImage_field _ _ _ (fun _ _ _ => rfl) _)
        cap := hother.2.1
        live := fun _ q _ => congrFun hlive q
        pending := addPendingImage_field _ _ _ (fun _ _ _ => rfl) _
        instances := fun j => (addPendingImage_field _ _ _ (fun _ _ _ => rfl) _ j).le
        worker := hw
        granted := fun _ hg => hw.symm.trans hg
        rank := by simp [rank, hres] }
  | drop hd => exact h.drop hi hd m rfl
  | commit => exact h.enterWindow hi m rfl
  | leave hl =>
    cases hl with
    | returned =>
      obtain ⟨hnone, -⟩ := hi.placeAt hx
      exact m.still h hi
        { telemetry := h.telemetry
          worker := by simp [PC.worker, hnone]
          granted := fun _ hg => by simp [granted, hnone] at hg
          rank := by simp [rank, hnone] }
    | notify => exact m.still h hi { telemetry := h.telemetry }
  | @consume b r hacc hgen =>
    simp only [acceptable, Bool.and_eq_true] at hacc
    exact h.consume hi m hacc.1.1 hgen
  | add => exact h.leaveWindow hi m rfl
  | @finish b r =>
    have hother := finishImage_other w.state r b
    exact m.still h hi
      { telemetry := h.telemetry_of (finishImage_field _ _ _ _ (fun _ _ _ => rfl))
        cap := hother.2.1
        live := fun _ q _ => by simp only [setPC, setState, live, hother.2.2]
        pending := finishImage_field _ _ _ _ (fun _ _ _ => rfl)
        instances := fun j => (finishImage_field _ _ _ _ (fun _ _ _ => rfl) j).le }
  | notify => exact m.still h hi { telemetry := h.telemetry }
  | record =>
    exact m.still h hi
      { telemetry := h.telemetry_of (setInstances_telemetry _ _ _)
        pending := setInstances_pending _ _ _
        instances := fun j => by
          simp only [setPC, setState, setInstances_instances]
          split
          · subst j
            omega
          · exact le_rfl }

/-- **Step lemma.** -/
theorem step_cap {a : Action} (hcap : 0 < w.state.maxInstancesPerWorker) (h : w.Cap) (hi : w.Inv)
    (hok : w.spaced a = true) (hs : w.step a = .ok w') : w'.Cap := by
  cases steps_of_step hs with
  | edit he =>
    refine (hi.turns_setState _).still h hi
      { telemetry := ?_
        cap := by cases he <;> rfl
        live := fun _ _ _ => by cases he <;> rfl
        pending := he.field WorkerPlacement.pendingStarts (fun _ _ _ _ => rfl)
        instances := fun j => (he.field WorkerPlacement.instances (fun _ _ _ _ => rfl) j).le }
    cases he with
    | @telemetry idx x =>
      intro j y hy
      by_cases hj : j = idx
      · subst hj
        simp only [setState, setTelemetry, setWorker,
          Function.update_self] at hy
        subst hy
        simpa [spaced] using hok
      · simp only [setState, setTelemetry, setWorker,
          Function.update_of_ne hj] at hy
        exact h.telemetry j y hy
    | resetImages => exact h.telemetry_of (setWorker_field _ _ _ (by rfl))
    | setTrackImages => exact h.telemetry
  | enter hb =>
    have m := hi.turns_spawn
    cases hb with
    | answered ho =>
      exact (m _).still h hi
        { telemetry := h.telemetry
          worker := by simp [PC.worker, ho.none]
          granted := fun _ hg => by simp [granted, ho.none] at hg
          rank := by simp [rank, ho.none] }
    | _ => exact (m _).still h hi { telemetry := h.telemetry }
  | @act t _ _ ha hact =>
    apply hact.cap hcap h hi
    intro c idx p hx
    rcases ha with rfl | ⟨b, image, hpick⟩
    · simpa [spaced, hx] using hok
    · rw [hx] at hpick
      cases hpick

theorem init_cap (h : w.Start) : w.Cap := by
  obtain ⟨workers, perWorker, total, cap, rfl⟩ := h
  constructor
  case small => exact cap.toNat_lt
  case telemetry => exact nofun
  case values => exact fun _ => trivial
  case pending => exact fun _ => Nat.zero_le _
  case top_le => exact fun _ => le_rfl
  case rank_le => exact nofun
  case granted_le => exact nofun
  case seen => exact nofun
  case bound => exact fun _ => Nat.zero_le _
  case first => exact nofun
  case second => exact nofun

theorem granted_worker {s : PlacementState} (h : x.granted s = some idx) :
    x.worker s = some idx := by
  cases x with
  | claim | slotLoad | slotCas | unwind | image | returned | decPending => exact h
  | _ => cases h

/-- **Run lemma**, for runs without a misread. -/
theorem cap_of_spaced (h : machine.ReachesWhile (fun w a => w.spaced a = true) w)
    (hcap : 0 < w.state.maxInstancesPerWorker) : w.Cap := by
  have hboth : w.Inv ∧ (0 < w.state.maxInstancesPerWorker → w.Cap) := by
    apply h.invariant (I := fun w => w.Inv ∧ (0 < w.state.maxInstancesPerWorker → w.Cap))
    · exact fun s hs => ⟨init_inv hs, fun _ => init_cap hs⟩
    · intro s a s' hi hok hs
      refine ⟨step_inv hi.1 hs, ?_⟩
      rw [(step_frame hs).2]
      exact fun hpos => step_cap hpos (hi.2 hpos) hi.1 hok hs
  exact hboth.2 hcap

/-- **The instance cap.** In every run without a misread, a worker's instances and
its granted, uncompleted reservations never exceed the cap. -/
theorem instance_cap {w : World}
    (hw : machine.ReachesWhile (fun w a => w.spaced a = true) w)
    (hcap : 0 < w.state.maxInstancesPerWorker) (idx : Nat) :
    (w.state.worker idx).instances + w.outstanding idx ≤ w.state.maxInstancesPerWorker := by
  have h := cap_of_spaced hw hcap
  have hb := h.bound idx
  have hle : w.outstanding idx ≤ w.upTo idx (w.top idx) := by
    apply Nat.count_mono_left
    intro t _ ht
    have hg := of_decide_eq_true ht
    have hr := h.granted_le t idx hg
    simp [granted_worker hg, hr]
  omega

/-- One instance committed and one more reservation out, at a cap of two. -/
theorem instance_cap_two :
    ∃ w : World, w.state.maxInstancesPerWorker = 2 ∧ (w.state.worker 0).instances = 1 ∧
      w.outstanding 0 = 1 ∧ (w.state.worker 0).instances + w.outstanding 0 ≤ 2 := by
  obtain ⟨w, hw, hmax, hone, hout⟩ := machine.exists_while_of_run (P := fun w a => w.spaced a = true)
    (Q := fun w => w.state.maxInstancesPerWorker = 2 ∧ (w.state.worker 0).instances = 1 ∧
      w.outstanding 0 = 1) (init (newPlacementState 1 0 0 2))
    (placeAlone 0 12 ++ [.complete true ⟨0, "", 0, 1, true, 1⟩] ++ List.replicate 8 (.step 1) ++
      placeAlone 2 12) ⟨1, 0, 0, 2, rfl⟩ (by decide +kernel)
  have hle := instance_cap hw (by omega) 0
  exact ⟨w, hmax, hone, hout, by omega⟩

/-- **The cap passed.** A commit takes its unit off `pendingStarts`; a second call
reserves, checks and is granted the only place; then the commit adds its
instance. -/
theorem instance_cap_passed :
    ∃ w : World, machine.Reachable w ∧ w.state.maxInstancesPerWorker = 1 ∧
      (w.state.worker 0).instances = 1 ∧
      tokenOf (w.pc 2) = some ⟨0, "", 1, 1, true, 2⟩ ∧ w.effects = [(0, 1)] ∧
      ¬ (w.state.worker 0).instances + w.outstanding 0 ≤ w.state.maxInstancesPerWorker := by
  exact machine.exists_of_run (init (newPlacementState 1 0 0 1))
    (placeAlone 0 12 ++ [.complete true ⟨0, "", 0, 1, true, 1⟩] ++ List.replicate 3 (.step 1) ++
      placeAlone 2 12 ++ [.step 1]) ⟨1, 0, 0, 1, rfl⟩ (by decide +kernel)

end World

end HyperFaaS.Runtime
