import PinBench.Bus.Simulated
import PinBench.Proofs.PinWrite.Faults
import PinBench.Proofs.PinWrite.Spot

/-!
# Writing again

A write that is not refused has its effect on registers and levels, even if the bus has lost it.
So the same level can be asked for again at no cost, through the same card pin or any other way to
the expander pin, and the opposite level takes the registers back to where they were.

* `PinCall.Means.spot_eq`: **every way to an expander pin leads to one spot**.
* `PinCall.levelAt?_runAll`: a spot stays at its level as long as no call asks for the other.
* `PinCall.again_idle_and_back_restores`: **a level that has been asked for once is there, and the
  opposite level restores every register**.
-/

namespace PinBench.PinCall

variable {t : Rig} {q q' : PinCall} {w : Wiring} {a : Spot} {β : Type} [Bus β]

/-! ## One pin, one spot -/

theorem Means.unique {v : Wiring} (hw : q.Means t w) (hv : q.Means t v) : w = v := by
  cases hw with
  | card hp =>
    cases hv with
    | card hp' => rw [Except.ok.inj (hp.symm.trans hp')]
  | expander =>
    cases hv with
    | expander => rfl

/-- **Every way to an expander pin leads to one spot.** -/
theorem Means.spot_eq (hw : q.Means t w) (hw' : q'.Means t w) (h : q.spot t = .ok a) :
    q'.spot t = .ok a := by
  obtain ⟨v, s, hs, rfl⟩ := exists_site_of_spot h
  obtain ⟨hv, hs⟩ := site_eq_ok_iff.mp hs
  obtain rfl := hw.unique hv
  exact spot_of_site (site_eq_ok_iff.mpr ⟨hw', hs⟩)

/-- A call that is not refused finds its spot. -/
theorem exists_spot_of_result {l : Link β}
    (h : ∀ f, (q.run t l).result = .error f → f.isBus = true) : ∃ a, q.spot t = .ok a := by
  cases hs : q.site t with
  | error f =>
    rw [run_of_spot_error (spot_eq_error_iff.mpr hs)] at h
    have hbus := h f rfl
    rw [offBus_site t q f hs] at hbus
    cases hbus
  | ok x => exact ⟨_, spot_of_site hs⟩

/-! ## Calls in turn -/

theorem shape_runAll (t : Rig) (l : Link β) (qs : List PinCall) :
    (runAll t l qs).2.1.shape = t.shape := by
  induction qs generalizing t l with
  | nil => rfl
  | cons q qs ih => exact (ih _ _).trans (shape_run t l q)

/-- A spot stays at its level as long as no call asks for the other. -/
theorem levelAt?_runAll {level : Bool} (h : t.levelAt? a = some level) (l : Link β)
    {qs : List PinCall} (hqs : ∀ r ∈ qs, r.spot t = .ok a → r.level = level) :
    (runAll t l qs).2.1.levelAt? a = some level := by
  induction qs generalizing t l with
  | nil => exact h
  | cons q qs ih =>
    have hstep : (q.run t l).state.levelAt? a = some level := by
      by_cases hq : q.spot t = .ok a
      · rw [levelAt?_run hq, hqs q List.mem_cons_self hq]
      · rw [levelAt?_run_of_ne hq, h]
    refine ih hstep (q.run t l).link ?_
    intro r hr hspot
    rw [spot_of_shape (shape_run t l q)] at hspot
    exact hqs r (List.mem_cons_of_mem q hr) hspot

/-- A call whose spot is at its level does nothing. -/
theorem run_of_levelAt? (h : q.spot t = .ok a) (hl : t.levelAt? a = some q.level) (l : Link β) :
    (q.run t l).result = .ok .unchanged ∧ (q.run t l).state = t ∧
      (q.run t l).link.journal.attempts = l.journal.attempts := by
  have hr := reached_run h l
  generalize q.run t l = r at hr ⊢
  cases hr with
  | idle hl' severity text => exact ⟨rfl, rfl, Link.attempts_note l severity text⟩
  | moved hl' hx w severity text => exact absurd hl hl'

/-- **A level that has been asked for once is there, and the opposite level restores every
register.**  The first write has not been refused, though the bus may have lost it.  A later write
of the same level to the same expander pin, by whatever way, is idle as long as no write between
has asked for the other level of its bit.  If the first write was effective, the opposite level
right after it makes all registers what they were before. -/
theorem again_idle_and_back_restores (hw : q.Means t w) {l : Link β}
    (hr : ∀ f, (q.run t l).result = .error f → f.isBus = true) :
    (∀ (qs : List PinCall) (q' : PinCall), (∀ r ∈ qs, r.spot t = q.spot t → r.level = q.level) →
      q'.Means t w → q'.level = q.level →
      let t' := (runAll (q.run t l).state (q.run t l).link qs).2.1
      let l' := (runAll (q.run t l).state (q.run t l).link qs).2.2
      (q'.run t' l').result = .ok .unchanged ∧ (q'.run t' l').state = t' ∧
        (q'.run t' l').link.journal.attempts = l'.journal.attempts) ∧
    (Effective (q.run t l).result → ∀ q' : PinCall, q'.Means t w → q'.level = !q.level →
      (q'.run (q.run t l).state (q.run t l).link).state.expanders = t.expanders) := by
  obtain ⟨a, ha⟩ := exists_spot_of_result hr
  have hshape := shape_run t l q
  have hlevel := levelAt?_run ha l
  constructor
  · intro qs q' hqs hw' hl t' l'
    have ht' : t'.shape = t.shape := (shape_runAll _ _ qs).trans hshape
    have hkept : t'.levelAt? a = some q.level := by
      apply levelAt?_runAll hlevel
      intro r hr hspot
      rw [spot_of_shape hshape] at hspot
      exact hqs r hr (hspot.trans ha.symm)
    have ha' : q'.spot t' = .ok a := (spot_of_shape ht' q').trans (hw.spot_eq hw' ha)
    rw [← hl] at hkept
    exact run_of_levelAt? ha' hkept l'
  · intro hx q' hw' hl
    have hbefore := (effective_iff ha l).mp hx
    have ha' : q'.spot (q.run t l).state = .ok a :=
      (spot_of_shape hshape q').trans (hw.spot_eq hw' ha)
    have hthere : (q.run t l).state.levelAt? a ≠ some q'.level := by
      rw [hlevel, hl]
      simp
    -- the spot goes to the level of the first call and back to the one it had
    have hback : (t.setBit a q.level).setBit a q'.level = t := by
      rw [Rig.setBit_setBit, hl]
      exact Rig.setBit_levelAt? (levelAt?_eq_not ha hbefore)
    rw [state_run ha', after_of_level_ne hthere, state_run ha, after_of_level_ne hbefore,
      levelled_setBit, levelled_setBit, levelled_setBit, hback, expanders_levelled,
      expanders_levelled]

/-- Two expanders of one number, and two card pins that are wired alike beside one that is not. -/
def twinned : Rig :=
  ⟨[⟨1, 0x20, .single⟩, ⟨1, 0x21, .single⟩], [⟨[0, 1], 0, 0x12, 0x00, 0⟩],
    [⟨"J1", [⟨"A", ⟨1, 0⟩, some false⟩, ⟨"B", ⟨1, 1⟩, none⟩]⟩, ⟨"J2", [⟨"A", ⟨1, 0⟩, none⟩]⟩],
    false⟩

/-- The first write is lost.  The other bit of the byte and a card that is not there are tried
before the level is asked for again through the other card pin; the expander pin takes it back. -/
theorem again_idle_and_back_restores_twinned :
    let q := PinCall.card "J1" "A" true
    let r := q.run twinned (.ofBus (SimulatedBus.empty.setOffline 0x20 true))
    let qs := [PinCall.expander 1 1 true, .card "J9" "A" false, .card "J1" "A" true]
    let x := runAll r.state r.link qs
    q.Means twinned ⟨1, 0⟩ ∧ (∃ e, r.result = .error (.bus e)) ∧
      ((card "J2" "A" true).run x.2.1 x.2.2).result = .ok .unchanged ∧
      ((expander 1 0 false).run r.state r.link).state.expanders = twinned.expanders := by
  intro q r qs x
  have hw : q.Means twinned ⟨1, 0⟩ := .card (p := ⟨"A", ⟨1, 0⟩, some false⟩) rfl
  have hlost : r.result =
      .error (.bus (RegisterWrite.failure ⟨0x20, 0x12, 1⟩ "device offline (simulated)")) := by
    decide +kernel
  have hr : ∀ f, r.result = .error f → f.isBus = true := by
    intro f hf
    cases hlost.symm.trans hf
    rfl
  have hqs : ∀ p ∈ qs, p.spot twinned = q.spot twinned → p.level = q.level := by decide +kernel
  have hx : Effective r.result := by
    rw [hlost]
    exact .lost _
  obtain ⟨hagain, hback⟩ := again_idle_and_back_restores hw hr
  exact ⟨hw, ⟨_, hlost⟩,
    (hagain qs (.card "J2" "A" true) hqs (.card (p := ⟨"A", ⟨1, 0⟩, none⟩) rfl) rfl).1,
    hback hx (.expander 1 0 false) .expander rfl⟩

end PinBench.PinCall
