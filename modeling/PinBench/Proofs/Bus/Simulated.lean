import PinBench.Bus.Simulated
import PinBench.Proofs.Link

/-!
# Registers behind the simulated bus

* `SimulatedBus.byte`: the byte in a register of a device; zero if it has not been written.
* `SimulatedBus.byte_write`: **a write that gets through is found in its register, and nothing else
  changes**.
* `Link.Untouched`: no attempt was made on a register, and `Link.Untouched.byte`: it has its byte
  still.
-/

namespace PinBench

namespace SimulatedBus

/-- The byte in a register of a device. -/
def byte (b : SimulatedBus) (address register : UInt8) : UInt8 :=
  (b.register? address register).getD 0

theorem failure?_eq_none {b : SimulatedBus} {w : RegisterWrite} :
    (Bus.write b w).failure? = none ↔ b.offline.contains w.address = false := by
  show (if b.offline.contains w.address then _ else _ : Reply SimulatedBus).failure? = none ↔ _
  cases b.offline.contains w.address with
  | true => exact iff_of_false (Option.some_ne_none _) Bool.noConfusion
  | false => exact iff_of_true rfl rfl

/-- **A write that gets through is found in its register, and nothing else changes.** -/
theorem byte_write (b : SimulatedBus) (w : RegisterWrite) (address register : UInt8) :
    (Bus.write b w).bus.byte address register =
      if (w.address = address ∧ w.register = register) ∧ (Bus.write b w).failure? = none
      then w.value else b.byte address register := by
  have hw : (Bus.write b w).bus =
      if b.offline.contains w.address then b else { b with log := w :: b.log } := by
    show (if b.offline.contains w.address then _ else _ : Reply SimulatedBus).bus = _
    split <;> rfl
  rw [hw]
  by_cases hf : b.offline.contains w.address = true
  · rw [if_pos hf, if_neg fun h => by rw [failure?_eq_none.mp h.2] at hf; cases hf]
  · have hf : b.offline.contains w.address = false := by simpa using hf
    rw [hf, if_neg Bool.false_ne_true, byte, register?, List.find?_cons]
    by_cases hr : w.address = address ∧ w.register = register
    · rw [if_pos ⟨hr, failure?_eq_none.mpr hf⟩]
      simp only [hr.1, hr.2, beq_self_eq_true, Bool.and_self]
      rfl
    · rw [if_neg fun h => hr h.1]
      have hn : (w.address == address && w.register == register) = false := by
        simpa using hr
      rw [hn]
      rfl

end SimulatedBus

namespace Link

/-- No attempt in the journal was made on the register. -/
def Untouched {β : Type} (l : Link β) (address register : UInt8) : Prop :=
  ∀ a ∈ l.journal.attempts, ¬(a.1.address = address ∧ a.1.register = register)

/-- A write that leaves a register untouched leaves it its byte. -/
theorem byte_of_untouched_write {address register : UInt8} {l : Link SimulatedBus}
    {w : RegisterWrite} (h : (l.write w).2.Untouched address register) :
    l.Untouched address register ∧
      (l.write w).2.bus.byte address register = l.bus.byte address register := by
  unfold Untouched at h
  rw [attempts_write] at h
  refine ⟨fun a ha => h a (List.mem_append_left _ ha), ?_⟩
  have hw := h (w, _) (List.mem_append_right _ List.mem_cons_self)
  rw [bus_write, SimulatedBus.byte_write, if_neg fun hc => hw hc.1]

end Link

end PinBench
