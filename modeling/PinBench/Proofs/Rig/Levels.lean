import PinBench.Proofs.Rig.Shape

/-!
# Levels of card pins

A write gives a level to the card pin of a name, or to all card pins of a wiring.

* `CardPin.withLevel`, `Card.give`: the level of a pin, and of the first pin of a label.
* `CardPin.withLevelAt`, `Card.giveWired`: the level of a pin, and of all pins of a card, if they
  are wired to an expander pin.
* `Rig.setPin_comm`, `Rig.setWired_comm`, `Rig.setWired_setPin`: **levels of different names or
  wirings commute**.
-/

namespace PinBench

/-! ## Pins -/

namespace CardPin

def withLevel (level : Bool) (p : CardPin) : CardPin := { p with level? := some level }

/-- Gives the pin a level if it is wired to `w`. -/
def withLevelAt (w : Wiring) (level : Bool) (p : CardPin) : CardPin :=
  if p.wiring = w then p.withLevel level else p

variable {p : CardPin} {w w' : Wiring} {level level' : Bool}

theorem withLevelAt_of_ne (h : p.wiring ≠ w) : p.withLevelAt w level = p := if_neg h

theorem wiring_withLevelAt : (p.withLevelAt w level).wiring = p.wiring := by
  unfold withLevelAt
  split <;> rfl

theorem label_withLevelAt : (p.withLevelAt w level).label = p.label := by
  unfold withLevelAt
  split <;> rfl

theorem withLevelAt_withLevelAt :
    (p.withLevelAt w level).withLevelAt w level' = p.withLevelAt w level' := by
  by_cases h : p.wiring = w
  · simp [withLevelAt, withLevel, h]
  · rw [withLevelAt_of_ne h]

theorem withLevelAt_comm_of_ne (h : p.wiring ≠ w) :
    (p.withLevelAt w level).withLevelAt w' level' =
      (p.withLevelAt w' level').withLevelAt w level := by
  have h' : (p.withLevelAt w' level').wiring ≠ w := by
    rw [wiring_withLevelAt]
    exact h
  rw [withLevelAt_of_ne h, withLevelAt_of_ne h']

theorem withLevelAt_comm (h : w ≠ w') :
    (p.withLevelAt w level).withLevelAt w' level' =
      (p.withLevelAt w' level').withLevelAt w level := by
  by_cases hp : p.wiring = w
  · rw [← hp] at h
    exact (withLevelAt_comm_of_ne h).symm
  · exact withLevelAt_comm_of_ne hp

end CardPin

/-! ## Cards -/

namespace Card

/-- Gives the pin of a label a level. -/
def give (label : String) (level : Bool) (c : Card) : Card :=
  { c with pins := updateFirst (·.label == label) (.withLevel level) c.pins }

def giveWired (w : Wiring) (level : Bool) (c : Card) : Card :=
  { c with pins := c.pins.map (.withLevelAt w level) }

variable {c : Card} {label label' : String} {w w' : Wiring} {level level' : Bool}

theorem give_comm (h : label ≠ label') :
    (c.give label level).give label' level' = (c.give label' level').give label level := by
  have hd : ∀ p : CardPin, (p.label == label') = true → (p.label == label) = false := by
    intro p hp
    rw [beq_iff_eq.mp hp, beq_eq_false_iff_ne]
    exact h.symm
  exact congrArg (fun ps => { c with pins := ps }) (updateFirst_comm (f := .withLevel level')
    (g := .withLevel level) (fun _ => rfl) (fun _ => rfl) hd c.pins)

theorem giveWired_giveWired :
    (c.giveWired w level).giveWired w level' = c.giveWired w level' := by
  rw [giveWired, giveWired, List.map_map, giveWired]
  congr 1
  apply List.map_congr_left
  intro p _
  exact CardPin.withLevelAt_withLevelAt

theorem giveWired_comm (h : w ≠ w') :
    (c.giveWired w level).giveWired w' level' = (c.giveWired w' level').giveWired w level := by
  rw [giveWired, giveWired, giveWired, giveWired, List.map_map, List.map_map]
  congr 1
  apply List.map_congr_left
  intro p _
  exact CardPin.withLevelAt_comm h

theorem giveWired_give {p : CardPin} (hp : c.pins.find? (·.label == label) = some p)
    (h : p.wiring ≠ w) :
    (c.give label level).giveWired w level' = (c.giveWired w level').give label level := by
  rw [give, giveWired, giveWired, give]
  congr 1
  apply map_updateFirst_comm
  · intro p
    rw [CardPin.label_withLevelAt]
  · intro p' hp'
    obtain rfl := Option.some.inj (hp.symm.trans hp')
    rw [CardPin.withLevelAt_of_ne h, CardPin.withLevelAt_of_ne]
    exact h

end Card

/-! ## Rigs -/

namespace Rig

variable {t : Rig} {level level' : Bool}

/-- Levels of card pins of different names. -/
theorem setPin_comm {card label card' label' : String} (h : card = card' → label ≠ label') :
    (t.setPin card label level).setPin card' label' level' =
      (t.setPin card' label' level').setPin card label level := by
  have hcards : updateFirst (·.name == card') (Card.give label' level')
        (updateFirst (·.name == card) (Card.give label level) t.cards) =
      updateFirst (·.name == card) (Card.give label level)
        (updateFirst (·.name == card') (Card.give label' level') t.cards) := by
    by_cases hc : card = card'
    · rw [← hc, updateFirst_comp (f := Card.give label level) (fun _ => rfl),
        updateFirst_comp (f := Card.give label' level') (fun _ => rfl)]
      apply updateFirst_congr
      intro c _
      exact Card.give_comm (h hc)
    · refine updateFirst_comm (f := Card.give label' level') (g := Card.give label level)
        (fun _ => rfl) (fun _ => rfl) ?_ t.cards
      intro c hn
      rw [beq_iff_eq.mp hn, beq_eq_false_iff_ne]
      exact Ne.symm hc
  exact congrArg (fun cs => { t with cards := cs }) hcards

/-- Of two levels of one wiring the last counts. -/
theorem setWired_setWired {w : Wiring} :
    (t.setWired w level).setWired w level' = t.setWired w level' := by
  have hcards : (t.cards.map (Card.giveWired w level)).map (Card.giveWired w level') =
      t.cards.map (Card.giveWired w level') := by
    rw [List.map_map]
    apply List.map_congr_left
    intro c _
    exact Card.giveWired_giveWired
  exact congrArg (fun cs => { t with cards := cs }) hcards

/-- Levels of card pins of different wirings. -/
theorem setWired_comm {w w' : Wiring} (h : w ≠ w') :
    (t.setWired w level).setWired w' level' = (t.setWired w' level').setWired w level := by
  have hcards : (t.cards.map (Card.giveWired w level)).map (Card.giveWired w' level') =
      (t.cards.map (Card.giveWired w' level')).map (Card.giveWired w level) := by
    rw [List.map_map, List.map_map]
    apply List.map_congr_left
    intro c _
    exact Card.giveWired_comm h
  exact congrArg (fun cs => { t with cards := cs }) hcards

/-- The level of a card pin that is named, and those of another wiring. -/
theorem setWired_setPin {card label : String} {p : CardPin} (hp : t.pin card label = .ok p)
    {w : Wiring} (h : p.wiring ≠ w) :
    (t.setPin card label level).setWired w level' =
      (t.setWired w level').setPin card label level := by
  obtain ⟨c, hc, hpc⟩ := pin_ok_iff.mp hp
  have hcards : (updateFirst (·.name == card) (Card.give label level) t.cards).map
        (Card.giveWired w level') =
      updateFirst (·.name == card) (Card.give label level)
        (t.cards.map (Card.giveWired w level')) := by
    apply map_updateFirst_comm
    · intro c
      rfl
    · intro c' hc'
      obtain rfl := Option.some.inj (hc.symm.trans hc')
      exact Card.giveWired_give hpc h
  exact congrArg (fun cs => { t with cards := cs }) hcards

end Rig

end PinBench
