import PinBench.Rig

/-!
# Targets

A level for the pins of one name on several cards: a condition on the bench as much as an
instruction to it.

* `Target.met`: whether every pin is at the level.
* `Target.writes`: the pins in turn, with the level.
-/

namespace PinBench

open Json (Codec Fields)

structure Target where
  cards : List String
  /-- The name of the pin on each card. -/
  label : String
  level : Bool
  deriving DecidableEq

namespace Target

def codec : Codec Target :=
  (Fields.cons (.required "cards" (.list .text)) <|
    .cons (.required "NumberOnCard" .text) <|
    .cons (.required "state" .bool) .nil).record
  (fun (cards, label, level, ()) => ⟨cards, label, level⟩)
  (fun t => (t.cards, t.label, t.level, ()))

/-- Whether the pins on `cards` are at the level, up to the first that is not. -/
def metOn (t : Rig) (label : String) (level : Bool) : List String → Except Fault Bool
  | [] => .ok true
  | card :: cards => do
    if (← t.level card label) = level then metOn t label level cards else .ok false

/-- Whether every pin of the target is at its level. -/
def met (t : Rig) (g : Target) : Except Fault Bool :=
  metOn t g.label g.level g.cards

/-- The pins of the target with their level, card by card. -/
def writes (g : Target) : List (String × String × Bool) :=
  g.cards.map fun card => (card, g.label, g.level)

end Target

end PinBench
