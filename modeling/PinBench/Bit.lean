/-!
# Bits of a register

A register byte and one of its eight bits.

* `Bit.selector`: the byte in which only that bit is set.
* `holds`: whether the selected bit is at a level.
* `moved`: the byte after the selected bit has changed its level.
* `moved_eq_or`, `moved_eq_and`: **a change touches no other bit**.
-/

namespace PinBench

/-- The index of a bit, the lowest first. -/
abbrev Bit := Fin 8

def Bit.selector (b : Bit) : UInt8 := 1 <<< b.val.toUInt8

/-- Whether the bits of `selector` are at `level` in the byte `r`. -/
def holds (r selector : UInt8) (level : Bool) : Bool :=
  ((if level then r else ~~~r) &&& selector) != 0

/-- The byte `r` with the bit of `selector` at `level`, where it is not so yet: the bit is added or
taken away. -/
def moved (r selector : UInt8) (level : Bool) : UInt8 :=
  if level then r + selector else r - selector

/-- A bit that is clear is set by adding it. -/
theorem moved_eq_or (r : UInt8) (b : Bit) (h : holds r b.selector true = false) :
    moved r b.selector true = r ||| b.selector := by
  have all : ∀ (n : Fin 256) (b : Bit), holds (.ofFin n) b.selector true = false →
      moved (.ofFin n) b.selector true = .ofFin n ||| b.selector := by
    decide +kernel
  exact all r.toFin b h

/-- A bit that is set is cleared by taking it away. -/
theorem moved_eq_and (r : UInt8) (b : Bit) (h : holds r b.selector false = false) :
    moved r b.selector false = r &&& ~~~b.selector := by
  have all : ∀ (n : Fin 256) (b : Bit), holds (.ofFin n) b.selector false = false →
      moved (.ofFin n) b.selector false = .ofFin n &&& ~~~b.selector := by
    decide +kernel
  exact all r.toFin b h

end PinBench
