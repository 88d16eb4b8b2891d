import PinBench.Command

/-!
# Condition codes

A condition with a code from zero on asks for that code, and one with a negative code for anything
but the opposite.  Codes are words of 32 bits, and the least of them has no opposite there: the
greatest stands for it, and is refused in its place.

* `Condition.Asks`: what a condition asks for, in integers.
* `Condition.toInt_opposite`: every code but the least has its opposite.
* `Condition.allows_iff`: **a condition allows what it asks for**, but for the greatest code where
  the condition has the least.
* `Command.available_of_single`: a command with a single condition is as available as that is met.
* `Condition.signed_codes`: **so it is with every condition on a category that is there**, and with
  the command of that condition alone.
* `Condition.greatest_refused`: the least code asks for the greatest, and does not get it.
-/

namespace PinBench

namespace Condition

/-- What a condition asks for, in integers: its code, or anything but the opposite of a negative
one. -/
def Asks (code actual : Int) : Prop := 0 ≤ code ∧ actual = code ∨ code < 0 ∧ actual ≠ -code

instance (code actual : Int) : Decidable (Asks code actual) :=
  inferInstanceAs (Decidable (_ ∨ _))

/-! ## Opposites -/

/-- Every code but the least has its opposite. -/
theorem toInt_opposite {n : Int32} (h : n ≠ Int32.minValue) : (opposite n).toInt = -n.toInt := by
  have hlo : -2 ^ 31 ≤ n.toInt := n.le_toInt
  have hhi : n.toInt < 2 ^ 31 := n.toInt_lt
  have hne : n.toInt ≠ -2 ^ 31 := by
    rw [← Int32.toInt_minValue]
    exact fun he => h (Int32.toInt_inj.mp he)
  rw [opposite, if_neg h, Int32.toInt_neg]
  exact Int.bmod_eq_of_le (by omega) (by omega)

theorem opposite_minValue : opposite Int32.minValue = Int32.maxValue := if_pos rfl

/-! ## Codes that are allowed -/

variable {code actual : Int32}

theorem allows_of_nonneg (h : 0 ≤ code.toInt) :
    allows code actual = true ↔ actual.toInt = code.toInt := by
  have hc : 0 ≤ code := Int32.le_iff_toInt_le.mpr h
  rw [allows, if_pos hc, beq_iff_eq, Int32.toInt_inj]

theorem allows_of_neg (h : code.toInt < 0) :
    allows code actual = true ↔ actual ≠ opposite code := by
  have hc : ¬0 ≤ code := fun hc => absurd (Int32.le_iff_toInt_le.mp hc) (Int.not_le.mpr h)
  rw [allows, if_neg hc, bne_iff_ne]

/-- **A condition allows what it asks for**, but for the greatest code where the condition has the
least. -/
theorem allows_iff : allows code actual = true ↔
    Asks code.toInt actual.toInt ∧ ¬(code = Int32.minValue ∧ actual = Int32.maxValue) := by
  unfold Asks
  rcases Int.lt_or_le code.toInt 0 with hneg | hpos
  · rw [allows_of_neg hneg, or_iff_right (by omega), and_iff_right hneg]
    by_cases hmin : code = Int32.minValue
    · -- the integer opposite is no code, so the condition asks for all of them
      have hlt : actual.toInt < 2 ^ 31 := actual.toInt_lt
      subst hmin
      rw [opposite_minValue, Int32.toInt_minValue, and_iff_right (by omega), and_iff_right rfl]
    · rw [and_iff_left fun h => hmin h.1, ← toInt_opposite hmin, ne_eq, ne_eq, Int32.toInt_inj]
  · have hmin : code ≠ Int32.minValue := by
      rintro rfl
      rw [Int32.toInt_minValue] at hpos
      omega
    rw [allows_of_nonneg hpos, or_iff_left (by omega), and_iff_right hpos,
      and_iff_left fun h => hmin h.1]

end Condition

/-! ## Conditions on a category that is there -/

variable {k : Tracker} {c : Condition}

theorem Condition.met_of_code {a : Int32} (h : k.code c.category = .ok a) :
    c.met k = .ok (allows c.code a) := by
  rw [met, h]
  rfl

/-- A command with a single condition is as available as that is met. -/
theorem Command.available_of_single {d : Command} (hd : d.conditions = [[c]]) :
    d.available k = c.met k := by
  rw [available, hd]
  show Condition.anyMet k [[c]] = c.met k
  rw [Condition.anyMet, Condition.allMet]
  rcases c.met k with f | (_ | _) <;> rfl

/-- **A condition on a category that is there is met by the codes that it asks for**, as integers;
the one code that is refused though it is asked for is the greatest, under the least.  A command
with that condition alone is available just then. -/
theorem Condition.signed_codes (k : Tracker) (c : Condition) {a : Int32}
    (h : k.code c.category = .ok a) :
    ∃ b, c.met k = .ok b ∧
      (b = true ↔ Asks c.code.toInt a.toInt ∧ ¬(c.code = Int32.minValue ∧ a = Int32.maxValue)) ∧
      ∀ d : Command, d.conditions = [[c]] → d.available k = .ok b := by
  have hmet : c.met k = .ok (allows c.code a) := met_of_code h
  refine ⟨allows c.code a, hmet, allows_iff, ?_⟩
  intro d hd
  rw [Command.available_of_single hd, hmet]

/-- A door at the least code there is.  The opposite of that code is beyond the greatest, so a
condition with the least code asks for any; one with the least but one refuses the greatest. -/
theorem Condition.signed_codes_door :
    let k : Int32 → Tracker := fun a => .ofCategories [⟨"door", [], a, none⟩]
    let c : Int32 → Condition := fun n => ⟨"door", n⟩
    (k Int32.minValue).code "door" = .ok Int32.minValue ∧
      (k Int32.maxValue).code "door" = .ok Int32.maxValue ∧
      (c Int32.minValue).met (k Int32.minValue) = .ok true ∧
      (c (-2147483647)).met (k Int32.maxValue) = .ok false ∧
      (⟨"open the door", "open", [[c (-2147483647)]], []⟩ : Command).available
        (k Int32.maxValue) = .ok false := by
  intro k c
  obtain ⟨b, hb, hiff, -⟩ := signed_codes (k Int32.minValue) (c Int32.minValue) rfl
  obtain ⟨b', hb', hiff', hd⟩ := signed_codes (k Int32.maxValue) (c (-2147483647)) rfl
  have htrue : b = true := hiff.mpr (by decide)
  have hfalse : b' = false := Bool.eq_false_iff.mpr fun h => absurd (hiff'.mp h) (by decide)
  rw [htrue] at hb
  rw [hfalse] at hb' hd
  exact ⟨rfl, rfl, hb, hb', hd _ rfl⟩

/-- The least code asks for anything but a code beyond the greatest, and yet refuses the
greatest. -/
theorem Condition.greatest_refused :
    let k : Tracker := .ofCategories [⟨"light", [⟨"off", Int32.maxValue, []⟩], Int32.maxValue,
      some "off"⟩]
    let c : Condition := ⟨"light", Int32.minValue⟩
    k.code "light" = .ok Int32.maxValue ∧ Asks c.code.toInt Int32.maxValue.toInt ∧
      c.met k = .ok false ∧
      (⟨"light the lamp", "lit", [[c]], [⟨["J1"], "A", true⟩]⟩ : Command).available k =
        .ok false := by
  intro k c
  exact ⟨rfl, by decide, rfl, rfl⟩

end PinBench
