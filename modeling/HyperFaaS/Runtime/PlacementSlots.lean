import HyperFaaS.Runtime.PlacementLedger

/-!
The two steps that change a reservation slot: `claimReservationSlot` raises it
from an even value and makes the token of the new one, `completeReservation`
raises it from a token's generation and takes that token's units over.
-/

namespace HyperFaaS.Runtime

open PlacementState

section Slots

variable {s : PlacementState} {i : Nat} {r : PlacementReservation}

theorem setSlot_reservations (n j : Nat) :
    (s.setSlot i n).reservations j = if j = i then n else s.reservations j := by
  simp [setSlot, Function.update_apply]

theorem setSlot_mono (j : Nat) :
    s.reservations j ≤ (s.setSlot i (s.reservations i + 1)).reservations j := by
  rw [setSlot_reservations]
  split
  · subst j
    omega
  · exact le_rfl

/-- Raising a slot kills the token of its old value and no other; from an even
value it kills none. -/
theorem TokenOK.live_raise (h : TokenOK s r)
    (hr : r.slot = i → r.generation ≠ s.reservations i) :
    (s.setSlot i (s.reservations i + 1)).live r = s.live r := by
  have hp := h.past
  simp only [live, setSlot_reservations, decide_eq_decide]
  split
  · rename_i hi
    have hne := hr hi
    rw [hi] at hp ⊢
    omega
  · rfl

end Slots

namespace World

variable {w w' : World} {t : Nat} {x y : PC}

theorem tokenOf_eq_some {r : PlacementReservation} (h : tokenOf x = some r) :
    ∃ o, x = .returned o ∧ o.reservation = some r := by
  cases x with
  | returned o => exact ⟨o, rfl, h⟩
  | _ => cases h

/-- The number of odd slots moves with the raised one. -/
theorem reserved_raise {i : Nat} (hi : i < w.state.slots)
    (hs : w'.state = w.state.setSlot i (w.state.reservations i + 1)) :
    w'.reserved + (decide (w.state.reservations i % 2 = 1)).toNat =
      w.reserved + (decide ((w.state.reservations i + 1) % 2 = 1)).toNat := by
  have hc := Lib.count_update (p := fun j => decide (w.state.reservations j % 2 = 1))
    (q := fun j => decide (w'.state.reservations j % 2 = 1)) hi
    (fun j hj => by simp only [hs, setSlot_reservations, if_neg hj])
  have hslots : w'.state.slots = w.state.slots := by rw [hs]; rfl
  rw [reserved, reserved, hslots]
  simpa [hs, setSlot_reservations] using hc

/-- **A slot is claimed.** The new generation is above every one of the slot so
far, so the token is new and nobody else's units move. -/
theorem Inv.claimSlot (h : w.Inv) {c : Call} {idx start offset slot : Nat}
    (hx : w.pc t = .slotCas c idx start offset (w.state.reservations slot))
    (hslot : slot < w.state.slots) :
    ((w.setState (w.state.setSlot slot (w.state.reservations slot + 1))).setPC t
      (.image c ⟨idx, c.image, slot, w.state.reservations slot + 1, true, w.seq t⟩)).Inv := by
  obtain ⟨hidx, heven⟩ := h.placeAt hx
  generalize hr : (⟨idx, c.image, slot, w.state.reservations slot + 1, true, w.seq t⟩ :
    PlacementReservation) = r
  generalize hw' : (w.setState (w.state.setSlot slot (w.state.reservations slot + 1))).setPC t
    (.image c r) = w'
  have hs : w'.state = w.state.setSlot slot (w.state.reservations slot + 1) := by subst hw'; rfl
  have heff : w'.effects = w.effects := by subst hw'; rfl
  have m : Turns w w' t (.slotCas c idx start offset (w.state.reservations slot)) (.image c r) := by
    subst hw'
    exact ⟨hx, rfl, le_rfl, fun _ => h.running hx (by simp)⟩
  have hrs : r.slot = slot := by subst hr; rfl
  have hrg : r.generation = w.state.reservations slot + 1 := by subst hr; rfl
  have htok : ∀ u q, (w.pc u).token = some q → TokenOK w.state q :=
    fun u q hq => (h.place u).token hq
  have hlive : ∀ u q, (w.pc u).token = some q → w'.state.live q = w.state.live q := by
    intro u q hq
    rw [hs]
    apply (htok u q hq).live_raise
    have hodd := (htok u q hq).odd
    intro _
    omega
  have hfresh : w'.state.live r = true := by
    simp [live, hs, setSlot_reservations, hrs, hrg]
  have f : Frame w.state w'.state := by rw [hs]; exact ⟨rfl, rfl, rfl, rfl⟩
  have hok : PlaceOK w'.state (.image c r) := by
    refine ⟨⟨by subst hr; rfl, ?_, ?_, by omega, ?_⟩, hfresh⟩
    · rw [hrs, f.slots]
      exact hslot
    · rw [f.workers]
      subst hr
      exact hidx
    · rw [hs, setSlot_reservations, if_pos hrs, hrg]
  refine ⟨?_, ?_, ?_⟩
  · apply m.shape h f rfl (fun _ _ he => by cases he) hok
    · intro u _
      exact (h.place u).carry f (fun i => hs ▸ setSlot_mono i)
        (fun c q hq => hlive u q (by rw [hq]; rfl))
    · rw [hs]
      exact h.total
    · rw [hs]
      exact h.perWorker
  · have hself : (w'.pc t).token = some r := by rw [m.here]; rfl
    have hother : ∀ u, u ≠ t → (w'.pc u).token = (w.pc u).token := fun u hu => by rw [m.others hu]
    have hpast : ∀ u q, (w.pc u).token = some q → q.generation ≤ w.state.reservations q.slot :=
      fun u q hq => (htok u q hq).past
    have hodd : ∀ u q, (w.pc u).token = some q → q.generation % 2 = 1 :=
      fun u q hq => (htok u q hq).odd
    have hres := fun j => setSlot_reservations (s := w.state) (i := slot)
      (w.state.reservations slot + 1) j
    have hunique := h.unique
    have hspent := h.spent
    have hused := h.used
    constructor
    · grind
    · exact heff ▸ h.nodup
    · rw [heff, hs]
      grind
    · rw [heff, hs]
      grind
  · apply m.ledger h (fun u _ => hlive u)
    · intro j
      rw [hs]
      subst hr
      rfl
    · rw [hs]
      rfl
    · have hc := reserved_raise hslot hs
      have hone : (w.state.reservations slot + 1) % 2 = 1 := by omega
      simpa [heven, hone, PC.owns, PC.token, hfresh] using hc

/-- **A completion goes through.** It takes the token's units over from the call
that returned the token. -/
theorem Inv.consume (h : w.Inv) {b : Bool} {r : PlacementReservation}
    (hx : w.pc t = .complete b r) (hacc : w.state.acceptable r = true)
    (hgen : w.state.reservations r.slot = r.generation) : (w.consume t b r).Inv := by
  simp only [acceptable, Bool.and_eq_true, decide_eq_true_eq] at hacc
  obtain ⟨⟨hvalid, hslot⟩, hidx⟩ := hacc
  obtain ⟨v, hv, hvr⟩ := h.issued t b r hx hvalid
  obtain ⟨o, hvo, ho⟩ := tokenOf_eq_some hvr
  have hvtok : (w.pc v).token = some r := by rw [hvo]; exact ho
  have hvt : v ≠ t := by
    rintro rfl
    rw [hx] at hvo
    cases hvo
  generalize hw' : w.consume t b r = w'
  have hs : w'.state = w.state.setSlot r.slot (w.state.reservations r.slot + 1) := by
    subst hw'
    rw [hgen]
    rfl
  have heff : w'.effects = w.effects ++ [(r.slot, r.generation)] := by subst hw'; rfl
  have m : Turns w w' t (.complete b r) (.decPending b r .load) := by
    subst hw'
    exact ⟨hx, rfl, le_rfl, fun _ => h.running hx (by simp)⟩
  have f : Frame w.state w'.state := by rw [hs]; exact ⟨rfl, rfl, rfl, rfl⟩
  have hodd := ((h.place v).token hvtok).odd
  have hlive : ∀ u, u ≠ v → ∀ q, (w.pc u).token = some q →
      w'.state.live q = w.state.live q := by
    intro u huv q hq
    rw [hs]
    apply ((h.place u).token hq).live_raise
    intro hqs hqg
    exact huv (h.unique u v q r hq hvtok hqs (hqg.trans hgen))
  have hbefore : w.state.live r = true := by simp [live, hgen]
  have hafter : w'.state.live r = false := by
    simp [live, hs, setSlot_reservations, hgen]
  refine ⟨?_, ?_, ?_⟩
  · apply m.shape h f rfl (fun _ _ he => by cases he)
    · exact ⟨f.workers ▸ hidx, trivial⟩
    · intro u _
      refine (h.place u).carry f (fun i => hs ▸ setSlot_mono i) (fun c q hq => ?_)
      exact hlive u (by rintro rfl; rw [hvo] at hq; cases hq) q (by rw [hq]; rfl)
    · rw [hs]
      exact h.total
    · rw [hs]
      exact h.perWorker
  · have htok : ∀ u, (w'.pc u).token = (w.pc u).token := by
      intro u
      by_cases hu : u = t
      · rw [hu, m.here, m.before]
        rfl
      · rw [m.others hu]
    have hres := fun j => setSlot_reservations (s := w.state) (i := r.slot)
      (w.state.reservations r.slot + 1) j
    have hspent := h.spent
    have hused := h.used
    constructor
    · intro u u' q q'
      rw [htok u, htok u']
      exact h.unique u u' q q'
    · rw [heff]
      apply h.nodup.append (List.nodup_singleton _)
      rw [List.disjoint_singleton]
      intro hmem
      have hlt := h.spent _ hmem
      simp only at hlt
      omega
    · rw [heff, hs]
      intro e he
      rw [List.mem_append, List.mem_singleton] at he
      grind
    · rw [heff, hs]
      intro u q hu hlt
      rw [htok u] at hu
      rw [List.mem_append, List.mem_singleton]
      grind
  · have hvb : (w.pc v).worker w.state = some r.workerIndex ∧ (w.pc v).starts w.state = true ∧
        (w.pc v).owns w.state = true := by
      simp [hvo, PC.worker, PC.starts, PC.owns, PC.token, ho, Option.filter, hbefore]
    have hva : (w.pc v).worker w'.state = none ∧ (w.pc v).starts w'.state = false ∧
        (w.pc v).owns w'.state = false := by
      simp [hvo, PC.worker, PC.starts, PC.owns, PC.token, ho, Option.filter, hafter]
    constructor
    · intro j
      have hc := m.count_with h hvt (f := fun _ z => decide (z.worker w.state = some j))
        (g := fun _ z => decide (z.worker w'.state = some j)) (fun _ => rfl) (fun _ => rfl)
        (fun u huv _ => by rw [PC.worker_congr (hlive u huv)])
      have hold := h.worker j
      have hsame : (w'.state.worker j).pendingStarts = (w.state.worker j).pendingStarts := by
        rw [hs]; rfl
      have hself : (PC.complete b r).worker w.state = none ∧
        (PC.decPending b r .load).worker w'.state = some r.workerIndex := ⟨rfl, rfl⟩
      simp only [hvb.1, hva.1, hself.1, hself.2, reduceCtorEq, decide_false, Bool.toNat_false] at hc
      unfold holders at hold ⊢
      omega
    · have hc := m.count_with h hvt (f := fun _ z => z.starts w.state)
        (g := fun _ z => z.starts w'.state) (fun _ => rfl) (fun _ => rfl)
        (fun u huv _ => by rw [PC.starts_congr (hlive u huv)])
      have hold := h.global
      have hsame : w'.state.pendingStarts = w.state.pendingStarts := by rw [hs]; rfl
      have hself : (PC.complete b r).starts w.state = false ∧
        (PC.decPending b r .load).starts w'.state = true := ⟨rfl, rfl⟩
      simp only [hvb.2.1, hva.2.1, hself.1, hself.2, Bool.toNat_false, Bool.toNat_true] at hc
      unfold starters at hold ⊢
      omega
    · have hc := m.count_with h hvt (f := fun _ z => z.owns w.state)
        (g := fun _ z => z.owns w'.state) (fun _ => rfl) (fun _ => rfl)
        (fun u huv _ => by rw [PC.owns_congr (hlive u huv)])
      have hold := h.odd
      have hr := reserved_raise hslot hs
      have hone : w.state.reservations r.slot % 2 = 1 := by omega
      have hzero : (w.state.reservations r.slot + 1) % 2 = 0 := by omega
      have hself : (PC.complete b r).owns w.state = false ∧
        (PC.decPending b r .load).owns w'.state = false := ⟨rfl, rfl⟩
      simp only [hvb.2.2, hva.2.2, hself.1, hself.2, Bool.toNat_false, Bool.toNat_true] at hc
      simp only [hone, hzero, decide_true, decide_false, zero_ne_one, Bool.toNat_false,
        Bool.toNat_true] at hr
      unfold owners at hold ⊢
      omega

end World

end HyperFaaS.Runtime
