import PinBench.Bus.Basic

/-!
# Interrupted buses

A bus on which chosen attempts fail before they reach the bus behind it.

* `InterruptedBus`: the bus, with the attempts that fail, counted from zero.
-/

namespace PinBench

structure InterruptedBus (β : Type) where
  bus : β
  /-- How many writes have been tried. -/
  tried : Nat
  /-- Which of them fail. -/
  failing : Nat → Bool
  /-- Why they do. -/
  reason : String

instance {β : Type} [Bus β] : Bus (InterruptedBus β) where
  write b w :=
    if b.failing b.tried then ⟨some b.reason, [], { b with tried := b.tried + 1 }⟩
    else
      let r := Bus.write b.bus w
      ⟨r.failure?, r.notes, { b with bus := r.bus, tried := b.tried + 1 }⟩

end PinBench
