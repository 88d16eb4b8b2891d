import PinBench.Proofs.PinWrite.Masked
import PinBench.Proofs.Rig.Spot

/-!
# Calls and their spots

A call for a pin write is aimed at one spot, which depends on the shape of the rig alone.  From its
level all the rest follows: the call is idle, or it moves that spot and asks the bus once.

* `PinCall.spot`: the spot of a call, or the fault that keeps it from being found.
* `Effective`: the result of a call that has asked the bus.
* `PinCall.Reached`, `PinCall.reached_run`: **a call that finds its spot is idle if the spot is at
  its level, and else effective**, whatever the bus makes of the write.
* `PinCall.after`, `PinCall.state_run`: **the rig after a call does not depend on the bus**.
* `PinCall.levelAt?_run`: **a call leaves its spot at its level, and no other spot moves**.
-/

namespace PinBench

/-- The bus has been asked: the write got through, or it was lost. -/
inductive Effective : Except Fault Outcome → Prop where
  | written (w : RegisterWrite) : Effective (.ok (.written w))
  | lost (f : BusFailure) : Effective (.error (.bus f))

theorem Effective.ne_unchanged {x : Except Fault Outcome} (h : Effective x) :
    x ≠ .ok .unchanged := by
  rintro rfl
  cases h

namespace PinCall

/-- The spot that a call is aimed at. -/
def spot (t : Rig) (q : PinCall) : Except Fault Spot :=
  (q.site t).map fun (w, s) => s.spot w.expander

variable {t t' : Rig} {q : PinCall} {a b : Spot}

theorem spot_of_site {w : Wiring} {s : Site} (h : q.site t = .ok (w, s)) :
    q.spot t = .ok (s.spot w.expander) := by
  rw [spot, h]
  rfl

theorem exists_site_of_spot (h : q.spot t = .ok a) :
    ∃ w s, q.site t = .ok (w, s) ∧ s.spot w.expander = a := by
  cases hs : q.site t with
  | error f =>
    rw [spot, hs] at h
    cases h
  | ok x =>
    rw [spot_of_site hs] at h
    cases h
    exact ⟨x.1, x.2, rfl, rfl⟩

theorem spot_eq_error_iff {f : Fault} : q.spot t = .error f ↔ q.site t = .error f := by
  rw [spot]
  cases q.site t <;> simp [Except.map]

theorem spot_shape (t : Rig) (q : PinCall) : q.spot t.shape = q.spot t := by
  rw [spot, site_shape, spot]
  cases q.site t <;> rfl

/-- Rigs of one shape have the same spots. -/
theorem spot_of_shape (h : t'.shape = t.shape) (q : PinCall) : q.spot t' = q.spot t := by
  rw [← spot_shape, h, spot_shape]

theorem exists_levelAt?_of_spot (h : q.spot t = .ok a) : ∃ level, t.levelAt? a = some level := by
  obtain ⟨w, s, hs, rfl⟩ := exists_site_of_spot h
  exact ⟨s.level, Rig.levelAt?_spot (site?_of_site hs)⟩

/-- A spot that is found is at the one level or at the other. -/
theorem levelAt?_eq_not (h : q.spot t = .ok a) {level : Bool} (hl : t.levelAt? a ≠ some level) :
    t.levelAt? a = some !level := by
  obtain ⟨level', hlevel'⟩ := exists_levelAt?_of_spot h
  rw [hlevel'] at hl ⊢
  rw [Bool.eq_not_of_ne fun he => hl (congrArg some he)]

/-! ## Levels of card pins and of spots -/

theorem levelAt?_levelled (t : Rig) (q : PinCall) (a : Spot) :
    (q.levelled t).levelAt? a = t.levelAt? a := by
  cases q <;> rfl

theorem levelled_setBit (t : Rig) (q : PinCall) (a : Spot) (level : Bool) :
    (q.levelled t).setBit a level = q.levelled (t.setBit a level) := by
  cases q <;> rfl

theorem expanders_levelled (t : Rig) (q : PinCall) : (q.levelled t).expanders = t.expanders := by
  cases q <;> rfl

/-! ## The rig after a call -/

/-- What a call makes of a rig in which `a` is its spot. -/
def after (t : Rig) (q : PinCall) (a : Spot) : Rig :=
  if t.levelAt? a = some q.level then t else (q.levelled t).setBit a q.level

/-- How often it asks the bus. -/
def cost (t : Rig) (q : PinCall) (a : Spot) : Nat := if t.levelAt? a = some q.level then 0 else 1

theorem after_of_level (h : t.levelAt? a = some q.level) : q.after t a = t := if_pos h

theorem after_of_level_ne (h : t.levelAt? a ≠ some q.level) :
    q.after t a = (q.levelled t).setBit a q.level :=
  if_neg h

theorem levelAt?_after_self (h : q.spot t = .ok a) : (q.after t a).levelAt? a = some q.level := by
  obtain ⟨level, hlevel⟩ := exists_levelAt?_of_spot h
  by_cases hl : t.levelAt? a = some q.level
  · rw [after_of_level hl, hl]
  · rw [after_of_level_ne hl, Rig.levelAt?_setBit_self, levelAt?_levelled, hlevel, Option.map_some]

theorem levelAt?_after_of_ne (h : b ≠ a) : (q.after t a).levelAt? b = t.levelAt? b := by
  by_cases hl : t.levelAt? a = some q.level
  · rw [after_of_level hl]
  · rw [after_of_level_ne hl, Rig.levelAt?_setBit_of_ne h, levelAt?_levelled]

/-! ## Writing -/

variable {β : Type} [Bus β]

/-- What a call leaves that finds its spot. -/
inductive Reached (q : PinCall) (t : Rig) (l : Link β) (a : Spot) : Run Rig β Outcome → Prop where
  /-- The spot is at its level: nothing happens but a note. -/
  | idle (h : t.levelAt? a = some q.level) (severity : Severity) (text : String) :
      Reached q t l a ⟨.ok .unchanged, t, l.note severity text⟩
  /-- The spot is at the other level: it moves, and the bus is asked once. -/
  | moved (h : t.levelAt? a ≠ some q.level) {x : Except Fault Outcome} (hx : Effective x)
      (w : RegisterWrite) (severity : Severity) (text : String) :
      Reached q t l a
        ⟨x, (q.levelled t).setBit a q.level, (l.write w).2.note severity text⟩

theorem change_eq_setBit {w : Wiring} {s : Site} (h : q.site t = .ok (w, s)) :
    (q.change t w s).after = (q.levelled t).setBit (s.spot w.expander) q.level := by
  have hs := site?_of_site h
  rw [← site?_levelled t q] at hs
  exact Rig.setRegister_eq_setBit hs q.level

/-- **A call that finds its spot is idle or effective.** -/
theorem reached_run (h : q.spot t = .ok a) (l : Link β) : q.Reached t l a (q.run t l) := by
  obtain ⟨w, s, hs, rfl⟩ := exists_site_of_spot h
  have hlevel := Rig.levelAt?_spot (site?_of_site hs)
  have hr := q.run_ending t l
  generalize q.run t l = r at hr ⊢
  cases hr with
  | refused hs' => cases hs.symm.trans hs'
  | idle hs' hl severity text =>
    cases hs.symm.trans hs'
    exact .idle (hlevel.trans (congrArg some hl)) severity text
  | moved hs' hl severity text =>
    cases hs.symm.trans hs'
    rw [change_eq_setBit hs]
    refine .moved ?_ ?_ (s.write q.level) severity text
    · rw [hlevel]
      exact fun h => hl (Option.some.inj h)
    · cases Link.outcome l.bus (s.write q.level) with
      | ok u => exact .written _
      | error f => exact .lost f

/-- A call that finds no spot does nothing. -/
theorem run_of_spot_error {f : Fault} (h : q.spot t = .error f) (l : Link β) :
    q.run t l = ⟨.error f, t, l⟩ := by
  have hr := q.run_ending t l
  generalize q.run t l = r at hr ⊢
  cases hr with
  | refused hs =>
    rw [spot, hs] at h
    cases h
    rfl
  | idle hs => cases h.symm.trans (spot_of_site hs)
  | moved hs => cases h.symm.trans (spot_of_site hs)

section Run

variable (h : q.spot t = .ok a) (l : Link β)
include h

/-- **The rig after a call does not depend on the bus.** -/
theorem state_run : (q.run t l).state = q.after t a := by
  have hr := reached_run h l
  generalize q.run t l = r at hr ⊢
  cases hr with
  | idle hl severity text => exact (after_of_level hl).symm
  | moved hl hx w severity text => exact (after_of_level_ne hl).symm

theorem length_attempts_run :
    (q.run t l).link.journal.attempts.length = l.journal.attempts.length + q.cost t a := by
  have hr := reached_run h l
  generalize q.run t l = r at hr ⊢
  cases hr with
  | idle hl severity text => rw [Link.attempts_note, cost, if_pos hl, Nat.add_zero]
  | moved hl hx w severity text =>
    rw [Link.attempts_note, Link.attempts_write, List.length_append, cost, if_neg hl]
    rfl

theorem unchanged_iff : (q.run t l).result = .ok .unchanged ↔ t.levelAt? a = some q.level := by
  have hr := reached_run h l
  generalize q.run t l = r at hr ⊢
  cases hr with
  | idle hl severity text => exact iff_of_true rfl hl
  | moved hl hx w severity text => exact iff_of_false hx.ne_unchanged hl

theorem effective_iff : Effective (q.run t l).result ↔ t.levelAt? a ≠ some q.level := by
  have hr := reached_run h l
  generalize q.run t l = r at hr ⊢
  cases hr with
  | idle hl severity text => exact iff_of_false (fun hx => hx.ne_unchanged rfl) (not_not_intro hl)
  | moved hl hx w severity text => exact iff_of_true hx hl

/-- **A call leaves its spot at its level.** -/
theorem levelAt?_run : (q.run t l).state.levelAt? a = some q.level := by
  rw [state_run h, levelAt?_after_self h]

end Run

/-- **No other spot moves.** -/
theorem levelAt?_run_of_ne (h : q.spot t ≠ .ok b) (l : Link β) :
    (q.run t l).state.levelAt? b = t.levelAt? b := by
  cases hq : q.spot t with
  | error f => rw [run_of_spot_error hq]
  | ok a =>
    have hb : b ≠ a := by
      rintro rfl
      exact h hq
    rw [state_run hq, levelAt?_after_of_ne hb]

end PinCall

end PinBench
