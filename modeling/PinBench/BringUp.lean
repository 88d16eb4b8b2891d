import PinBench.PinWrite

/-!
# Bring-up

The bench is brought up in two steps: the directions of all pins go to the expanders, then every
card pin gets its level.

* `configureExpanders`: the direction registers, expander by expander.
* `Rig.initialLevels`: the level of each card pin.
* `initialisePins`: these levels through the ordinary write of a card pin.
* `bringUp`: both, up to the first fault.
-/

namespace PinBench

variable {β : Type} [Bus β]

/-! ## Directions -/

/-- The write that sets the directions of a group. -/
def PinGroup.directionWrite (g : PinGroup) (e : Expander) : RegisterWrite :=
  ⟨e.address, g.directionAddress, g.direction⟩

/-- Some writes up to the first that fails. -/
def writeAll (l : Link β) : List RegisterWrite → Except Fault Unit × Link β
  | [] => (.ok (), l)
  | w :: ws =>
    match l.write w with
    | (.ok (), l) => writeAll l ws
    | (.error f, l) => (.error (.bus f), l)

/-- The direction registers of some expanders. -/
def configureAll (groups : List PinGroup) (l : Link β) : List Expander → Except Fault Unit × Link β
  | [] => (.ok (), l)
  | e :: es =>
    match writeAll l (groups.map (·.directionWrite e)) with
    | (.ok (), l) =>
      configureAll groups
        (l.note .info
          s!"gpio: module {e.number} ({Text.hexText e.address}) direction registers configured") es
    | (.error f, l) => (.error f, l)

def configureExpanders (t : Rig) (l : Link β) : Except Fault Unit × Link β :=
  configureAll t.groups l t.expanders

/-! ## Levels -/

/-- Each card pin with the level it starts from: the one it has, or the default. -/
def Rig.initialLevels (t : Rig) : List (String × String × Bool) :=
  t.cards.flatMap fun c =>
    c.pins.map fun p => (c.name, p.label, p.level?.getD t.defaultLevel)

/-- Gives card pins their levels, and counts the register writes that took. -/
def applyLevels (t : Rig) (l : Link β) (count : Nat) :
    List (String × String × Bool) → Run Rig β Nat
  | [] => ⟨.ok count, t, l⟩
  | (card, label, level) :: rest =>
    match t.pin card label with
    | .error f => ⟨.error f, t, l⟩
    | .ok _ =>
      let r := writeCard (t.setPin card label level) l card label level
      match r.result with
      | .error f => ⟨.error f, r.state, r.link⟩
      | .ok o => applyLevels r.state r.link (count + o.count) rest

def initialisePins (t : Rig) (l : Link β) : Run Rig β Nat :=
  let r := applyLevels t l 0 t.initialLevels
  match r.result with
  | .error _ => r
  | .ok count => { r with link := r.link.note .info s!"gpio: pins initialised ({count} register writes)" }

/-- Both steps; the result is the number of register writes for the levels. -/
def bringUp (t : Rig) (l : Link β) : Run Rig β Nat :=
  match configureExpanders t l with
  | (.ok (), l) => initialisePins t l
  | (.error f, l) => ⟨.error f, t, l⟩

end PinBench
