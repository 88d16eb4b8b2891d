import PinBench.Bit

/-!
# Masked writes of one bit

`Bit.lean` moves a bit by adding or taking away its selector.  Here the same is said with masks.

* `Bit.test`: the level of a bit in a byte.
* `Bit.write`: the byte with one bit set or cleared by a mask.
* `holds_iff_test`: `holds` compares the level of the bit.
* `moved_eq_write`: **moving a bit that is at the other level is the masked write**.
* `Bit.test_write`: **a masked write is seen at its bit and at no other**.
* `Bit.write_write`, `Bit.write_test`, `Bit.write_comm`: the last level counts, the present level
  changes nothing, and **writes of two bits commute**.
-/

namespace PinBench

/-- The level of a bit in a byte. -/
def Bit.test (b : Bit) (r : UInt8) : Bool := r.toNat.testBit b

/-- The byte with one bit at `level`: set by "or", cleared by "and not". -/
def Bit.write (b : Bit) (r : UInt8) (level : Bool) : UInt8 :=
  if level then r ||| b.selector else r &&& ~~~b.selector

theorem holds_eq_test (r : UInt8) (b : Bit) (level : Bool) :
    holds r b.selector level = (b.test r == level) := by
  have all : ∀ (n : Fin 256) (b : Bit) (v : Bool),
      holds (.ofFin n) b.selector v = (b.test (.ofFin n) == v) := by
    decide +kernel
  exact all r.toFin b level

theorem holds_iff_test {r : UInt8} {b : Bit} {level : Bool} :
    holds r b.selector level = true ↔ b.test r = level := by
  rw [holds_eq_test, beq_iff_eq]

/-- A bit that is not at a level is moved there by its masked write. -/
theorem moved_eq_write {r : UInt8} {b : Bit} {level : Bool} (h : b.test r ≠ level) :
    moved r b.selector level = b.write r level := by
  have hf : holds r b.selector level = false := by
    rw [← Bool.not_eq_true, holds_iff_test]
    exact h
  cases level with
  | true => exact moved_eq_or r b hf
  | false => exact moved_eq_and r b hf

namespace Bit

theorem test_selector (b c : Bit) : c.test b.selector = decide (c = b) := by
  revert b c
  decide

/-- **A masked write is seen at its bit and at no other.** -/
theorem test_write (b c : Bit) (r : UInt8) (level : Bool) :
    c.test (b.write r level) = if c = b then level else c.test r := by
  have hs := test_selector b c
  unfold test at hs ⊢
  cases level with
  | true =>
    rw [write, if_pos rfl, UInt8.toNat_or, Nat.testBit_or, hs]
    by_cases hc : c = b
    · rw [decide_eq_true hc, if_pos hc, Bool.or_true]
    · rw [decide_eq_false hc, if_neg hc, Bool.or_false]
  | false =>
    have hn : (~~~b.selector).toNat.testBit c = !decide (c = b) := by
      revert b c
      decide
    rw [write, if_neg (by decide), UInt8.toNat_and, Nat.testBit_and, hn]
    by_cases hc : c = b
    · rw [decide_eq_true hc, if_pos hc, Bool.not_true, Bool.and_false]
    · rw [decide_eq_false hc, if_neg hc, Bool.not_false, Bool.and_true]

@[simp] theorem test_write_self (b : Bit) (r : UInt8) (level : Bool) :
    b.test (b.write r level) = level := by
  rw [test_write, if_pos rfl]

theorem test_write_of_ne {b c : Bit} (h : c ≠ b) (r : UInt8) (level : Bool) :
    c.test (b.write r level) = c.test r := by
  rw [test_write, if_neg h]

/-- A byte is known by its bits. -/
theorem eq_of_test {r r' : UInt8} (h : ∀ b : Bit, b.test r = b.test r') : r = r' := by
  apply UInt8.toNat_inj.mp
  apply Nat.eq_of_testBit_eq
  intro i
  by_cases hi : i < 8
  · exact h ⟨i, hi⟩
  · have hout : ∀ r : UInt8, r.toNat.testBit i = false := by
      intro r
      have hpow : 2 ^ 8 ≤ 2 ^ i := Nat.pow_le_pow_right (by decide) (by omega)
      exact Nat.testBit_lt_two_pow (Nat.lt_of_lt_of_le r.toNat_lt hpow)
    rw [hout, hout]

theorem write_write (b : Bit) (r : UInt8) (level level' : Bool) :
    b.write (b.write r level) level' = b.write r level' := by
  apply eq_of_test
  intro c
  by_cases hc : c = b
  · rw [hc, test_write_self, test_write_self]
  · rw [test_write_of_ne hc, test_write_of_ne hc, test_write_of_ne hc]

theorem write_test (b : Bit) (r : UInt8) : b.write r (b.test r) = r := by
  apply eq_of_test
  intro c
  by_cases hc : c = b
  · rw [hc, test_write_self]
  · rw [test_write_of_ne hc]

theorem write_comm {b c : Bit} (h : b ≠ c) (r : UInt8) (level level' : Bool) :
    b.write (c.write r level') level = c.write (b.write r level) level' := by
  apply eq_of_test
  intro d
  by_cases hb : d = b
  · rw [hb, test_write_self, test_write_of_ne h, test_write_self]
  · rw [test_write_of_ne hb]
    by_cases hc : d = c
    · rw [hc, test_write_self, test_write_self]
    · rw [test_write_of_ne hc, test_write_of_ne hc, test_write_of_ne hb]

end Bit

end PinBench
