import PinBench.Bus.Basic
import PinBench.Rig

/-!
# Pin writes

The one way to a register: a pin write changes one bit of one register byte, and the whole byte goes
to the bus.  A bit that is already at its level costs nothing.

* `Change`: a rig and the register write that belongs to it.
* `Rig.planCard?`, `Rig.planPin?`: what a write will do, before the bus is asked.
* `Change.commit`: the bus is asked.  A failure on the bus does not take the change back.
* `writeCard`, `writePin`: a write through a card pin, and through an expander pin.
-/

namespace PinBench

/-- What came of a write that did not fail. -/
inductive Outcome where
  /-- The bit was at its level already. -/
  | unchanged
  | written (w : RegisterWrite)
  deriving DecidableEq, Repr

namespace Outcome

def isUnchanged : Outcome → Bool
  | unchanged => true
  | written _ => false

/-- How many register writes it took. -/
def count (o : Outcome) : Nat := if o.isUnchanged then 0 else 1

end Outcome

/-! ## Planning -/

/-- A bit to change: the pin it belongs to, the rig after the change, and the write for it. -/
structure Change where
  wiring : Wiring
  after : Rig
  write : RegisterWrite
  deriving DecidableEq

namespace Rig

/-- The write that brings a register bit to a level, none if it is there. -/
def bitWrite? (t : Rig) (w : Wiring) (place : BitPlace) (level : Bool) (origin : Origin) :
    Except Fault (Option RegisterWrite) := do
  let e ← t.expander w.expander origin
  match e.registers.get? place.register with
  | none => .error (.unknownExpander w.expander .configuration)
  | some r =>
    if holds r place.bit.selector level then .ok none
    else .ok (some ⟨e.address, place.dataAddress, moved r place.bit.selector level⟩)

/-- What a write through a card pin changes.  The pin is the configuration's own, so a fault behind
it is the configuration's too.  Only this card pin takes the level. -/
def planCard? (t : Rig) (card label : String) (level : Bool) :
    Except Fault (Option Change) := do
  let p ← t.pin card label
  let _ ← t.expander p.wiring.expander .configuration
  let place ← t.locate p.wiring.pin .configuration
  let write? ← t.bitWrite? p.wiring place level .configuration
  .ok <| write?.map fun w =>
    ⟨p.wiring,
      (t.setPin card label level).setRegister p.wiring.expander place.register w.value, w⟩

/-- What a write through an expander pin changes.  Every card pin that is wired to it takes the
level. -/
def planPin? (t : Rig) (wiring : Wiring) (level : Bool) : Except Fault (Option Change) := do
  let place ← t.locate wiring.pin .caller
  let _ ← t.expander wiring.expander .caller
  let write? ← t.bitWrite? wiring place level .caller
  .ok <| write?.map fun w =>
    ⟨wiring, (t.setWired wiring level).setRegister wiring.expander place.register w.value, w⟩

end Rig

/-! ## Writing -/

variable {β : Type} [Bus β]

/-- The bus is asked once. -/
def Change.commit (c : Change) (l : Link β) : Run Rig β Outcome :=
  match l.write c.write with
  | (.ok (), l) =>
    ⟨.ok (.written c.write), c.after, l.note .info
      s!"gpio: module {c.wiring.expander} pin {c.wiring.pin} -> register {Text.hexText c.write.register} = {Text.bitText c.write.value}"⟩
  | (.error f, l) =>
    ⟨.error (.bus f), c.after, l.note .warning s!"gpio: {f.message} (logical state kept)"⟩

/-- What was planned; `what` names the pin. -/
def carryOut (t : Rig) (l : Link β) (what : String) (level : Bool) :
    Except Fault (Option Change) → Run Rig β Outcome
  | .error f => ⟨.error f, t, l⟩
  | .ok none =>
    ⟨.ok .unchanged, t, l.note .debug s!"gpio: {what} already {level}, skipped"⟩
  | .ok (some c) => c.commit l

def writeCard (t : Rig) (l : Link β) (card label : String) (level : Bool) :
    Run Rig β Outcome :=
  carryOut t l s!"{card}/{label}" level (t.planCard? card label level)

def writePin (t : Rig) (l : Link β) (expander pin : UInt8) (level : Bool) :
    Run Rig β Outcome :=
  carryOut t l s!"module {expander} pin {pin}" level (t.planPin? ⟨expander, pin⟩ level)

end PinBench
