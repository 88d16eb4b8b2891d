import PinBench.Json.Record

/-!
# Cards

The named pins of the bench, card by card.

* `Wiring`: the expander pin behind a card pin.
* `CardPin`: a pin of a card, with its level once it has one.
* `Card`: its pins under one name.
-/

namespace PinBench

open Json (Codec Field Fields)

/-- A pin of an expander. -/
structure Wiring where
  expander : UInt8
  pin : UInt8
  deriving DecidableEq

def Wiring.codec : Codec Wiring :=
  (Fields.cons (.required "Module" .byte) <|
    .cons (.required "Pin" .byte) .nil).record
  (fun (expander, pin, ()) => ⟨expander, pin⟩)
  (fun w => (w.expander, w.pin, ()))

structure CardPin where
  /-- The name of the pin on its card. -/
  label : String
  wiring : Wiring
  /-- The level last given to the pin. -/
  level? : Option Bool
  deriving DecidableEq

namespace CardPin

/-- A pin that has no level yet counts as low. -/
def level (p : CardPin) : Bool := p.level?.getD false

def codec : Codec CardPin :=
  (Fields.cons (.required "NumberOnCard" .text) <|
    .cons (.required "GPIO" Wiring.codec) <|
    .cons (.ofOption "state" .bool) .nil).record
  (fun (label, wiring, level, ()) => ⟨label, wiring, level⟩)
  (fun p => (p.label, p.wiring, p.level?, ()))

end CardPin

structure Card where
  name : String
  pins : List CardPin
  deriving DecidableEq

def Card.codec : Codec Card :=
  (Fields.cons (.required "cardName" .text) <|
    .cons (.withDefault "pins" (.list CardPin.codec) []) .nil).record
  (fun (name, pins, ()) => ⟨name, pins⟩)
  (fun c => (c.name, c.pins, ()))

end PinBench
