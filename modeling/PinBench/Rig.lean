import PinBench.Card
import PinBench.Fault
import PinBench.Expander

/-!
# Rig

The expanders, the pinout and the cards of the active bench, with the present registers and levels.

* `Rig.card`, `Rig.pin`, `Rig.level`, `Rig.expander`: what is found under a name.
* `Rig.locate`: the register bit of a pin number.
* `Rig.setPin`, `Rig.setWired`, `Rig.setRegister`: the changes there are.
-/

namespace PinBench

/-- The list with the first element that has `p` replaced by its image. -/
def updateFirst {α : Type} (p : α → Bool) (f : α → α) : List α → List α
  | [] => []
  | a :: as => if p a then f a :: as else a :: updateFirst p f as

structure Rig where
  expanders : List Expander
  groups : List PinGroup
  cards : List Card
  /-- The level that a pin gets at bring-up if it has none. -/
  defaultLevel : Bool
  deriving DecidableEq

namespace Rig

/-! ## Looking up -/

def card (t : Rig) (name : String) : Except Fault Card :=
  match t.cards.find? (·.name == name) with
  | some c => .ok c
  | none => .error (.unknownCard name)

def pin (t : Rig) (card label : String) : Except Fault CardPin := do
  let c ← t.card card
  match c.pins.find? (·.label == label) with
  | some p => .ok p
  | none => .error (.unknownPin card label)

/-- The present level of a card pin. -/
def level (t : Rig) (card label : String) : Except Fault Bool :=
  (t.pin card label).map CardPin.level

def expander (t : Rig) (number : UInt8) (origin : Origin) : Except Fault Expander :=
  match t.expanders.find? (·.number == number) with
  | some e => .ok e
  | none => .error (.unknownExpander number origin)

/-- The register bit of a pin number: its place in the first group that holds it.  A place beyond
the register is a fault of the configuration. -/
def locate (t : Rig) (pin : UInt8) (origin : Origin) : Except Fault BitPlace :=
  match t.groups.find? (·.pins.contains pin) with
  | none => .error (.unmappedPin pin origin)
  | some g =>
    match g.bitOf? pin with
    | none => .error (.unmappedPin pin .configuration)
    | some b =>
      if h : b.toNat < 8 then .ok ⟨g.register.toNat, g.dataAddress, ⟨b.toNat, h⟩⟩
      else .error (.unmappedPin pin .configuration)

/-! ## Changing -/

/-- Gives a card pin a level. -/
def setPin (t : Rig) (card label : String) (level : Bool) : Rig :=
  { t with
    cards := updateFirst (·.name == card)
      (fun c => { c with
        pins := updateFirst (·.label == label) (fun p => { p with level? := some level }) c.pins })
      t.cards }

/-- Gives every card pin that is wired to `w` a level. -/
def setWired (t : Rig) (w : Wiring) (level : Bool) : Rig :=
  { t with
    cards := t.cards.map fun c =>
      { c with
        pins := c.pins.map fun p => if p.wiring = w then { p with level? := some level } else p } }

/-- Gives a register of an expander a value. -/
def setRegister (t : Rig) (number : UInt8) (register : Nat) (b : UInt8) : Rig :=
  { t with
    expanders := updateFirst (·.number == number)
      (fun e => { e with registers := e.registers.set register b }) t.expanders }

end Rig

end PinBench
