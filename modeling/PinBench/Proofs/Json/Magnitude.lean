import Mathlib.Algebra.Order.Field.Power
import Mathlib.Algebra.Order.Ring.Rat
import Mathlib.Tactic.NormNum
import Mathlib.Tactic.Positivity
import Mathlib.Tactic.Ring
import PinBench.Proofs.Json.Token

/-!
# The size of numbers

A number is judged by the product of two doubles: its leading digits as far as they have 64 bits,
and a power of ten.  Each of them is rounded, and so the product may be larger than the number, but
not by much.

* `roundDouble_le`: **rounding adds at most one part in `2 ^ 53`**.
* `Literal.gather_spec`: what is gathered of some digits, and why no more.
* `Literal.scaled_le`: **what is judged is no larger than the number**, before it is rounded.
* `Literal.magnitude`: the absolute value of a number as it is written.
* `Literal.value?_isSome`: **every number up to the third largest double has a value**.
-/

namespace PinBench.Json

namespace Literal

/-! ## Rounding -/

/-- Rounding to a multiple of a unit adds half of the unit at most. -/
theorem two_mul_round_le (n unit : Nat) :
    2 * (if 2 * (n % unit) > unit ∨ (2 * (n % unit) = unit ∧ n / unit % 2 = 1) then
      (n / unit + 1) * unit else n / unit * unit) ≤ 2 * n + unit := by
  have hdiv : n / unit * unit + n % unit = n := Nat.div_add_mod' n unit
  split
  · rw [Nat.add_mul, Nat.one_mul]
    omega
  · omega

/-- **Rounding to a double adds at most one part in `2 ^ 53`.** -/
theorem roundDouble_le (n : Nat) : roundDouble n * 2 ^ 53 ≤ n * (2 ^ 53 + 1) := by
  have hround := two_mul_round_le n (2 ^ (n.log2 + 1 - 53))
  have hdouble : 2 * roundDouble n ≤ 2 * n + 2 ^ (n.log2 + 1 - 53) := by
    rw [← Nat.one_shiftLeft] at hround ⊢
    exact hround
  rcases Nat.lt_or_ge n.log2 53 with h | h
  · -- the number has no more bits than a double keeps
    have hself : roundDouble n = n := by
      unfold roundDouble
      rw [Nat.sub_eq_zero_of_le (by omega)]
      simp [Nat.mod_one]
    rw [hself]
    exact Nat.mul_le_mul_left n (Nat.le_succ _)
  · have hunit : 2 ^ (n.log2 + 1 - 53) * 2 ^ 52 ≤ n := by
      rw [← Nat.pow_add, show n.log2 + 1 - 53 + 52 = n.log2 by omega]
      refine Nat.log2_self_le ?_
      rintro rfl
      cases h
    calc roundDouble n * 2 ^ 53 = 2 * roundDouble n * 2 ^ 52 := by ring
      _ ≤ (2 * n + 2 ^ (n.log2 + 1 - 53)) * 2 ^ 52 := Nat.mul_le_mul_right _ hdouble
      _ = n * 2 ^ 53 + 2 ^ (n.log2 + 1 - 53) * 2 ^ 52 := by ring
      _ ≤ n * 2 ^ 53 + n := Nat.add_le_add_left hunit _
      _ = n * (2 ^ 53 + 1) := by ring

/-! ## Gathering -/

variable {n m : Nat} {ds rest : List Char}

/-- Digits are gathered as long as the number stays below `2 ^ 64`. -/
theorem gather_spec (hn : n < 2 ^ 64) (ds : List Char) :
    ∃ taken, ds = taken ++ (gather n ds).2 ∧ (gather n ds).1 = Nat.ofDigitChars 10 taken n ∧
      (gather n ds).1 < 2 ^ 64 ∧ ∀ c cs, (gather n ds).2 = c :: cs →
        2 ^ 64 ≤ 10 * (gather n ds).1 + (c.toNat - '0'.toNat) := by
  induction ds generalizing n with
  | nil => exact ⟨[], rfl, rfl, hn, nofun⟩
  | cons d ds ih =>
    unfold gather
    dsimp only
    split
    · next hlt =>
      obtain ⟨taken, hds, hm, hlt, hstop⟩ := ih hlt
      refine ⟨d :: taken, congrArg (d :: ·) hds, ?_, hlt, hstop⟩
      rw [hm, Nat.ofDigitChars_cons, Nat.mul_comm 10]
    · next hge =>
      refine ⟨[], rfl, rfl, hn, fun c cs h => ?_⟩
      cases h
      dsimp only
      omega

theorem gather_length_le (n : Nat) (ds : List Char) : (gather n ds).2.length ≤ ds.length := by
  induction ds generalizing n with
  | nil => exact Nat.le_refl _
  | cons d ds ih =>
    unfold gather
    dsimp only
    split
    · exact Nat.le_succ_of_le (ih _)
    · exact Nat.le_refl _

theorem mul_pow_le_ofDigitChars (n : Nat) (ds : List Char) :
    n * 10 ^ ds.length ≤ Nat.ofDigitChars 10 ds n := by
  rw [Nat.ofDigitChars_eq_ofDigitChars_zero, Nat.mul_comm]
  exact Nat.le_add_right _ _

/-- What is gathered of the whole part and the fraction, moved to its place, is no larger than all
their digits. -/
theorem gathered_le (digits fraction : List Char) :
    let whole := gather 0 digits
    let x := gather whole.1 fraction
    x.1 * 10 ^ (whole.2.length + x.2.length) ≤ Nat.ofDigitChars 10 (digits ++ fraction) 0 := by
  intro whole x
  obtain ⟨taken, hdigits, hn, hlt, hstop⟩ := gather_spec (n := 0) (by decide) digits
  obtain ⟨taken', hfraction, hm, hlt', -⟩ := gather_spec hlt fraction
  have hall : Nat.ofDigitChars 10 (digits ++ fraction) 0 =
      Nat.ofDigitChars 10 (whole.2 ++ fraction) whole.1 := by
    conv_lhs => rw [hdigits, List.append_assoc, Nat.ofDigitChars_append, ← hn]
  rw [hall]
  cases hdropped : whole.2 with
  | nil =>
    rw [List.nil_append, List.length_nil, Nat.zero_add, hfraction, Nat.ofDigitChars_append]
    rw [← hm]
    exact mul_pow_le_ofDigitChars x.1 x.2
  | cons c cs =>
    -- the digit that was dropped counts for more than anything that is gathered behind it
    have hc := hstop c cs hdropped
    have hlen : fraction.length = taken'.length + x.2.length := by
      conv_lhs => rw [hfraction, List.length_append]
    rw [List.cons_append, Nat.ofDigitChars_cons]
    refine Nat.le_trans ?_ (mul_pow_le_ofDigitChars _ _)
    rw [List.length_append, List.length_cons, hlen]
    cases taken' with
    | nil =>
      have hx : x.1 = whole.1 := hm
      rw [hx, show cs.length + 1 + x.2.length = cs.length + (0 + x.2.length) + 1 by omega,
        Nat.pow_succ, Nat.mul_comm (10 ^ _) 10, ← Nat.mul_assoc, Nat.mul_comm whole.1]
      exact Nat.mul_le_mul_right _ (Nat.le_add_right _ _)
    | cons d taken' =>
      refine Nat.mul_le_mul (Nat.le_trans (Nat.le_of_lt hlt') hc)
        (Nat.pow_le_pow_right (by decide) ?_)
      rw [List.length_cons]
      omega

/-! ## Exponents -/

/-- The size of an exponent is exact, or it is large and the exponent is no smaller. -/
theorem exponentSize_cases (ds : List Char) :
    exponentSize ds = Nat.ofDigitChars 10 ds 0 ∨
      2 ^ 31 ≤ exponentSize ds ∧ exponentSize ds ≤ Nat.ofDigitChars 10 ds 0 := by
  have hstop : ∀ (ds : List Char) {n}, 2 ^ 31 ≤ n →
      ds.foldl (fun n c => if n < 0x80000000 then n * 10 + (c.toNat - '0'.toNat) else n) n = n := by
    intro ds n hn
    induction ds with
    | nil => rfl
    | cons d ds ih => rw [List.foldl_cons, if_neg (by omega), ih]
  have all : ∀ (ds : List Char) (n : Nat),
      let k := ds.foldl (fun n c => if n < 0x80000000 then n * 10 + (c.toNat - '0'.toNat) else n) n
      k = Nat.ofDigitChars 10 ds n ∨ 2 ^ 31 ≤ k ∧ k ≤ Nat.ofDigitChars 10 ds n := by
    intro ds n
    induction ds generalizing n with
    | nil => exact .inl rfl
    | cons d ds ih =>
      by_cases hn : n < 0x80000000
      · rw [List.foldl_cons, if_pos hn, Nat.ofDigitChars_cons, Nat.mul_comm 10]
        exact ih _
      · have hle := mul_pow_le_ofDigitChars n (d :: ds)
        refine .inr ?_
        rw [hstop _ (Nat.le_of_not_lt hn)]
        exact ⟨Nat.le_of_not_lt hn, (Nat.le_mul_of_pos_right n (Nat.pow_pos (by decide))).trans hle⟩
  exact all ds 0

/-! ## Magnitudes -/

/-- The exponent as it is written. -/
def power (l : Literal) : Int :=
  match l.exponent with
  | none => 0
  | some (true, ds) => -(Nat.ofDigitChars 10 ds 0 : Int)
  | some (false, ds) => Nat.ofDigitChars 10 ds 0

/-- The absolute value of a number as it is written. -/
def magnitude (l : Literal) : ℚ :=
  Nat.ofDigitChars 10 (l.digits ++ l.fraction.getD []) 0 *
    10 ^ (l.power - (l.fraction.getD []).length)

/-- The exponent as it is counted. -/
def counted (l : Literal) : Int :=
  match l.exponent with
  | none => 0
  | some (true, ds) => -(exponentSize ds : Int)
  | some (false, ds) => exponentSize ds

theorem scaled_eq (l : Literal) :
    let fraction := l.fraction.getD []
    let whole := gather 0 l.digits
    let x := gather whole.1 fraction
    l.scaled = (x.1, (whole.2.length : Int) - (fraction.length - x.2.length : Nat) + l.counted) :=
  rfl

/-- A small exponent is counted as it is written, and a large one as large enough. -/
theorem counted_le_power {l : Literal} (h : -2 ^ 31 < l.counted) : l.counted ≤ l.power := by
  unfold counted power at *
  split at h
  · exact le_refl _
  · next ds _ =>
    rcases exponentSize_cases ds with hs | hs
    · rw [hs]
    · omega
  · next ds _ =>
    rcases exponentSize_cases ds with hs | hs
    · rw [hs]
    · exact_mod_cast hs.2

/-- **What is judged is no larger than the number**, before it is rounded. -/
theorem scaled_le {l : Literal} (hl : l.digits.length < 2 ^ 31) (h : 0 ≤ l.scaled.2) :
    (l.scaled.1 : ℚ) * 10 ^ l.scaled.2 ≤ l.magnitude := by
  have hall := gathered_le l.digits (l.fraction.getD [])
  have hdropped := gather_length_le 0 l.digits
  have hrest := gather_length_le (gather 0 l.digits).1 (l.fraction.getD [])
  have hscaled := l.scaled_eq
  dsimp only at hall hscaled
  unfold magnitude
  generalize (gather 0 l.digits).2 = dropped at hall hdropped hscaled
  generalize gather (gather 0 l.digits).1 (l.fraction.getD []) = x at hall hrest hscaled
  generalize l.fraction.getD [] = fraction at hall hrest hscaled ⊢
  rw [hscaled] at h ⊢
  dsimp only at h ⊢
  have hpower : l.counted ≤ l.power := counted_le_power (by omega)
  have hplace : (dropped.length : Int) - (fraction.length - x.2.length : Nat) + l.counted =
      (dropped.length + x.2.length : Nat) + (l.counted - fraction.length) := by omega
  calc (x.1 : ℚ) * 10 ^ ((dropped.length : Int) - (fraction.length - x.2.length : Nat) + l.counted)
      = (x.1 * 10 ^ (dropped.length + x.2.length)) * 10 ^ (l.counted - fraction.length) := by
        rw [hplace, zpow_add₀ (by norm_num), zpow_natCast, mul_assoc]
    _ ≤ Nat.ofDigitChars 10 (l.digits ++ fraction) 0 * 10 ^ (l.counted - fraction.length) := by
        refine mul_le_mul_of_nonneg_right ?_ (by positivity)
        exact_mod_cast hall
    _ ≤ Nat.ofDigitChars 10 (l.digits ++ fraction) 0 * 10 ^ (l.power - fraction.length) := by
        refine mul_le_mul_of_nonneg_left ?_ (by positivity)
        exact zpow_le_zpow_right₀ (by norm_num) (by omega)

/-- The third largest double. -/
def largeDouble : ℚ := 2 ^ 1024 - 3 * 2 ^ 971

/-- Two factors that are rounded may come to a little more than their product. -/
theorem roundDouble_mul_lt {m n : Nat} (h : m * n ≤ 2 ^ 1024 - 3 * 2 ^ 971) :
    roundDouble m * roundDouble n < doubleLimit := by
  have hlimit : (2 ^ 1024 - 3 * 2 ^ 971) * (2 ^ 53 + 1) ^ 2 < doubleLimit * (2 ^ 53) ^ 2 := by
    decide +kernel
  refine Nat.lt_of_mul_lt_mul_right (a := (2 ^ 53) ^ 2) ?_
  calc roundDouble m * roundDouble n * (2 ^ 53) ^ 2
      = roundDouble m * 2 ^ 53 * (roundDouble n * 2 ^ 53) := by ring
    _ ≤ m * (2 ^ 53 + 1) * (n * (2 ^ 53 + 1)) :=
        Nat.mul_le_mul (roundDouble_le m) (roundDouble_le n)
    _ = m * n * (2 ^ 53 + 1) ^ 2 := by ring
    _ ≤ (2 ^ 1024 - 3 * 2 ^ 971) * (2 ^ 53 + 1) ^ 2 := Nat.mul_le_mul_right _ h
    _ < doubleLimit * (2 ^ 53) ^ 2 := hlimit

theorem not_exceedsDouble {m : Nat} {e : Int} (h : (m : ℚ) * 10 ^ e ≤ largeDouble) :
    exceedsDouble m e = false := by
  by_contra hx
  simp only [exceedsDouble, Bool.not_eq_false, Bool.and_eq_true, Bool.or_eq_true,
    decide_eq_true_eq] at hx
  obtain ⟨⟨hm, he⟩, hx⟩ := hx
  obtain ⟨k, rfl⟩ := Int.eq_ofNat_of_zero_le he
  have hnat : m * 10 ^ k ≤ 2 ^ 1024 - 3 * 2 ^ 971 := by
    rw [largeDouble, le_sub_iff_add_le, zpow_natCast] at h
    exact Nat.le_sub_of_add_le (by exact_mod_cast h)
  rcases hx with hx | hx
  · have hk : 309 ≤ k := by omega
    have hten := Nat.pow_le_pow_right (n := 10) (by decide) hk
    have hself := Nat.le_mul_of_pos_left (10 ^ k) (Nat.pos_of_ne_zero hm)
    exact absurd (hten.trans (hself.trans hnat)) (by decide +kernel)
  · exact Nat.not_le.mpr (roundDouble_mul_lt hnat) hx

/-- **Every number up to the third largest double has a value**, if its whole part has fewer than
`2 ^ 31` digits. -/
theorem value?_isSome {l : Literal} (hl : l.digits.length < 2 ^ 31)
    (h : l.magnitude ≤ largeDouble) : l.value?.isSome := by
  have hfits : exceedsDouble l.scaled.1 l.scaled.2 = false := by
    rcases lt_or_ge l.scaled.2 0 with he | he
    · simp [exceedsDouble, Int.not_le.mpr he]
    · exact not_exceedsDouble ((scaled_le hl he).trans h)
  unfold value?
  dsimp only
  split_ifs with h₁ h₂ h₃
  · rfl
  · rfl
  · rw [hfits] at h₃
    cases h₃
  · rfl

end Literal

end PinBench.Json
