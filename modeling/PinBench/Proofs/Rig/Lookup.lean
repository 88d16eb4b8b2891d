import PinBench.Proofs.Fault
import PinBench.Proofs.Rig.Shape

/-!
# Lookups that fail

Cards, card pins and expanders are looked up by their names and numbers.  A lookup fails where
there is nothing of the name, and its fault tells what is missing.

* `Rig.Missing`: a card pin that is not there, with the fault for it.
* `Rig.card_eq_error_iff`, `Rig.pin_eq_error_iff`, `Rig.expander_eq_error_iff`: **a lookup fails
  where nothing has the name, and only there**.
* `Rig.error_of_pin`, `Rig.error_of_expander`, `Rig.error_of_locate`: the faults of a lookup.
-/

namespace PinBench.Rig

variable {t : Rig} {f : Fault}

/-! ## Cards and their pins -/

theorem card_eq_error_iff {name : String} :
    t.card name = .error f ↔ (∀ c ∈ t.cards, c.name ≠ name) ∧ f = .unknownCard name := by
  have hn : t.cards.find? (·.name == name) = none ↔ ∀ c ∈ t.cards, c.name ≠ name := by simp
  unfold Rig.card
  rw [← hn]
  cases t.cards.find? (·.name == name) <;> simp [eq_comm]

/-- A card pin that is not there, with the fault for it.  Of cards with one name, the first
counts. -/
inductive Missing (t : Rig) (card label : String) : Fault → Prop where
  /-- No card has the name. -/
  | card (h : ∀ c ∈ t.cards, c.name ≠ card) : Missing t card label (.unknownCard card)
  /-- The card has no pin of the label. -/
  | label {c : Card} (hc : t.card card = .ok c) (h : ∀ p ∈ c.pins, p.label ≠ label) :
      Missing t card label (.unknownPin card label)

/-- **A card pin is not found where it is missing, and only there.** -/
theorem pin_eq_error_iff {card label : String} :
    t.pin card label = .error f ↔ t.Missing card label f := by
  unfold pin
  cases hc : t.card card with
  | error f' =>
    obtain ⟨hn, rfl⟩ := card_eq_error_iff.mp hc
    constructor
    · intro h
      cases h
      exact .card hn
    · intro h
      cases h with
      | card => rfl
      | label hc' =>
        rw [hc] at hc'
        cases hc'
  | ok c =>
    have hn : c.pins.find? (·.label == label) = none ↔ ∀ p ∈ c.pins, p.label ≠ label := by simp
    rw [ok_bind]
    constructor
    · intro h
      cases hp : c.pins.find? (·.label == label) with
      | some p =>
        rw [hp] at h
        cases h
      | none =>
        rw [hp] at h
        cases h
        exact .label hc (hn.mp hp)
    · intro h
      cases h with
      | card h =>
        rw [card_eq_error_iff.mpr ⟨h, rfl⟩] at hc
        cases hc
      | label hc' h =>
        cases hc.symm.trans hc'
        rw [hn.mpr h]

theorem level_eq_error_iff {card label : String} :
    t.level card label = .error f ↔ t.Missing card label f := by
  rw [← pin_eq_error_iff, level]
  cases t.pin card label <;> simp [Except.map]

theorem error_of_pin {card label : String} (h : t.pin card label = .error f) :
    f = .unknownCard card ∨ f = .unknownPin card label := by
  cases pin_eq_error_iff.mp h with
  | card => exact .inl rfl
  | label => exact .inr rfl

/-! ## Expanders and places -/

theorem expander_eq_error_iff {number : UInt8} {o : Origin} :
    t.expander number o = .error f ↔
      (∀ e ∈ t.expanders, e.number ≠ number) ∧ f = .unknownExpander number o := by
  have hn : t.expanders.find? (·.number == number) = none ↔
      ∀ e ∈ t.expanders, e.number ≠ number := by simp
  unfold expander
  rw [← hn]
  cases t.expanders.find? (·.number == number) <;> simp [eq_comm]

theorem error_of_expander {number : UInt8} {o : Origin} (h : t.expander number o = .error f) :
    f = .unknownExpander number o :=
  (expander_eq_error_iff.mp h).2

/-- A pin that no group holds is the fault of who has named it, and a place beyond the register is
the configuration's. -/
theorem error_of_locate {pin : UInt8} {o : Origin} (h : t.locate pin o = .error f) :
    f = .unmappedPin pin o ∨ f = .unmappedPin pin .configuration := by
  unfold Rig.locate at h
  split at h
  · cases h
    exact .inl rfl
  · split at h
    · cases h
      exact .inr rfl
    · split at h <;> cases h
      exact .inr rfl

end PinBench.Rig
