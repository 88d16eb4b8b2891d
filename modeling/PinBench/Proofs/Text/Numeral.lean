import Mathlib.Data.Bool.AllAny
import Mathlib.Data.List.Forall2
import Mathlib.Data.Nat.Digits.Defs
import PinBench.Proofs.Text.Blank
import PinBench.Text.Numeral

/-!
# Which texts are numerals

* `IsDigit`: a character as a digit of a base.
* `StandFor`: digits and the number that they stand for.
* `natural?_eq_some_iff`: **a number is read from its digits**, and from nothing else.
* `byte?_eq_some_iff`: **a byte is read from digits that stand for it**, perhaps after a plus sign.
* `Spells`, `byte?_trim_eq_some_iff`: the same with blanks around.
-/

namespace PinBench.Text

/-! ## Digits -/

def lowerDigits : List Char := "0123456789abcdef".toList

def upperDigits : List Char := "0123456789ABCDEF".toList

/-- The character is the digit `d` of a base, in lower or in upper case. -/
def IsDigit (base : Nat) (c : Char) (d : Nat) : Prop :=
  d < base ∧ (lowerDigits[d]? = some c ∨ upperDigits[d]? = some c)

/-- What holds of each character of a range holds of a character between its ends. -/
@[elab_as_elim]
theorem forall_between {lo hi : Char} {p : Char → Prop} {c : Char} (hlo : lo ≤ c) (hhi : c ≤ hi)
    (h : ∀ k ≤ hi.toNat - lo.toNat, p (Char.ofNat (lo.toNat + k))) : p c := by
  have hlo : lo.toNat ≤ c.toNat := hlo
  have hhi : c.toNat ≤ hi.toNat := hhi
  have hc := h (c.toNat - lo.toNat) (by omega)
  rwa [Nat.add_sub_cancel' hlo, Char.ofNat_toNat] at hc

theorem digitValue?_eq_some_iff {c : Char} {d : Nat} :
    digitValue? c = some d ↔ lowerDigits[d]? = some c ∨ upperDigits[d]? = some c := by
  constructor
  · intro h
    unfold digitValue? at h
    split at h
    · next hc =>
      cases h
      exact forall_between hc.1 hc.2 (by decide)
    · split at h
      · next hc =>
        cases h
        exact forall_between hc.1 hc.2 (by decide)
      · split at h
        · next hc =>
          cases h
          exact forall_between hc.1 hc.2 (by decide)
        · cases h
  · have hlower : ∀ d < 16, lowerDigits[d]?.bind digitValue? = some d := by decide
    have hupper : ∀ d < 16, upperDigits[d]?.bind digitValue? = some d := by decide
    rintro (h | h)
    · have hd := hlower d (List.getElem?_eq_some_iff.mp h).1
      rwa [h] at hd
    · have hd := hupper d (List.getElem?_eq_some_iff.mp h).1
      rwa [h] at hd

theorem digit?_eq_some_iff {base : Nat} {c : Char} {d : Nat} :
    digit? base c = some d ↔ IsDigit base c d := by
  rw [digit?, Option.filter_eq_some_iff, digitValue?_eq_some_iff, decide_eq_true_iff, and_comm,
    IsDigit]

/-- A digit is neither a blank nor the sign nor the mark of a base. -/
theorem IsDigit.plain {base : Nat} {c : Char} {d : Nat} (h : IsDigit base c d) :
    isBlank c = false ∧ c ≠ '+' ∧ c ≠ 'x' ∧ c ≠ 'X' := by
  have hlower : ∀ c ∈ lowerDigits, isBlank c = false ∧ c ≠ '+' ∧ c ≠ 'x' ∧ c ≠ 'X' :=
    List.all_iff_forall_prop.mp (by decide)
  have hupper : ∀ c ∈ upperDigits, isBlank c = false ∧ c ≠ '+' ∧ c ≠ 'x' ∧ c ≠ 'X' :=
    List.all_iff_forall_prop.mp (by decide)
  rcases h.2 with h | h
  · exact hlower c (List.mem_of_getElem? h)
  · exact hupper c (List.mem_of_getElem? h)

/-! ## Numbers -/

/-- The digits, of which there is one at least, stand for the number `n`. -/
def StandFor (base : Nat) (digits : List Char) (n : Nat) : Prop :=
  digits ≠ [] ∧ ∃ ds, List.Forall₂ (IsDigit base) digits ds ∧ Nat.ofDigits base ds.reverse = n

theorem StandFor.plain {base : Nat} {digits : List Char} {n : Nat} (h : StandFor base digits n) :
    ∀ c ∈ digits, isBlank c = false ∧ c ≠ '+' ∧ c ≠ 'x' ∧ c ≠ 'X' := by
  obtain ⟨-, ds, hds, -⟩ := h
  exact ((List.forall₂_and_left digits ds).mp (hds.imp fun _ _ hd => ⟨hd.plain, hd⟩)).1

/-- Digits after a number `n` that has been read. -/
theorem foldlM_digit?_eq_some_iff {base n m : Nat} {cs : List Char} :
    cs.foldlM (fun n c => (digit? base c).map (n * base + ·)) n = some m ↔
      ∃ ds, List.Forall₂ (IsDigit base) cs ds ∧ ds.foldl (fun n d => d + base * n) n = m := by
  induction cs generalizing n with
  | nil => simp [List.forall₂_nil_left_iff]
  | cons c cs ih =>
    rw [List.foldlM_cons, Option.bind_eq_bind, Option.bind_eq_some_iff]
    constructor
    · rintro ⟨n', hn', h⟩
      obtain ⟨d, hd, rfl⟩ := Option.map_eq_some_iff.mp hn'
      obtain ⟨ds, hds, hm⟩ := ih.mp h
      refine ⟨d :: ds, .cons (digit?_eq_some_iff.mp hd) hds, ?_⟩
      rw [List.foldl_cons, Nat.add_comm, Nat.mul_comm]
      exact hm
    · rintro ⟨ds, hds, hm⟩
      cases hds with
      | @cons _ d _ ds hd hds =>
        refine ⟨n * base + d, Option.map_eq_some_iff.mpr ⟨d, digit?_eq_some_iff.mpr hd, rfl⟩, ?_⟩
        refine ih.mpr ⟨ds, hds, ?_⟩
        rw [Nat.add_comm, Nat.mul_comm]
        exact hm

/-- **A number is read from its digits**, and from nothing else. -/
theorem natural?_eq_some_iff {base n : Nat} {cs : List Char} :
    natural? base cs = some n ↔ StandFor base cs n := by
  have hvalue : ∀ ds : List Nat,
      ds.foldl (fun n d => d + base * n) 0 = Nat.ofDigits base ds.reverse := by
    intro ds
    rw [Nat.ofDigits_eq_foldr, List.foldr_reverse]
    rfl
  cases cs with
  | nil => simp [natural?, StandFor]
  | cons c cs =>
    rw [natural?, List.isEmpty_cons, if_neg (by decide), foldlM_digit?_eq_some_iff, StandFor]
    simp only [hvalue, ne_eq, reduceCtorEq, not_false_eq_true, true_and]

/-! ## Bytes -/

/-- What may stand before the digits of a byte. -/
def signs : List (List Char) := [[], ['+']]

theorem byte_eq_some_iff {n : Nat} {b : UInt8} :
    (if n < 256 then some n.toUInt8 else none) = some b ↔ n = b.toNat := by
  have hb := b.toNat_lt
  constructor
  · intro h
    split at h
    · next hn =>
      cases h
      exact (Nat.mod_eq_of_lt hn).symm
    · cases h
  · rintro rfl
    rw [if_pos hb, Nat.toUInt8_eq, UInt8.ofNat_toNat]

/-- **A byte is read from digits that stand for it**, perhaps after a plus sign. -/
theorem byte?_eq_some_iff {base : Nat} {cs : List Char} {b : UInt8} :
    byte? base cs = some b ↔
      ∃ sign ∈ signs, ∃ digits, StandFor base digits b.toNat ∧ cs = sign ++ digits := by
  have hdigits : ∀ ds : List Char, ((natural? base ds).bind fun n =>
      if n < 256 then some n.toUInt8 else none) = some b ↔ StandFor base ds b.toNat := by
    intro ds
    simp only [Option.bind_eq_some_iff, byte_eq_some_iff, natural?_eq_some_iff, exists_eq_right]
  unfold byte?
  dsimp only
  rw [hdigits]
  constructor
  · intro h
    split at h
    · next r => exact ⟨['+'], by simp [signs], r, h, rfl⟩
    · exact ⟨[], by simp [signs], cs, h, rfl⟩
  · rintro ⟨sign, hsign, digits, h, rfl⟩
    simp only [signs, List.mem_cons, List.not_mem_nil, or_false] at hsign
    rcases hsign with rfl | rfl
    · -- without a sign, the text begins with a digit, which is no plus
      have hplus : '+' ∉ digits := fun hc => (h.plain '+' hc).2.1 rfl
      split
      · next r hr =>
        cases hr
        exact absurd List.mem_cons_self hplus
      · exact h
    · exact h

/-! ## Bytes with blanks around -/

theorem StandFor.noBlank {base : Nat} {sign digits : List Char} {n : Nat}
    (h : StandFor base digits n) (hsign : sign ∈ signs) : NoBlank (sign ++ digits) := by
  have hsigns : ∀ sign ∈ signs, NoBlank sign := by decide
  exact noBlank_append (hsigns sign hsign) fun c hc => (h.plain c hc).1

/-- The text is digits that stand for the byte, perhaps with a plus sign in front, and with blanks
around it all. -/
def Spells (base : Nat) (text : List Char) (b : UInt8) : Prop :=
  ∃ sign ∈ signs, ∃ digits, StandFor base digits b.toNat ∧ Padded (sign ++ digits) text

/-- **A byte is read from the texts that spell it.** -/
theorem byte?_trim_eq_some_iff {base : Nat} {text : List Char} {b : UInt8} :
    byte? base (trim text) = some b ↔ Spells base text b := by
  rw [byte?_eq_some_iff]
  constructor
  · rintro ⟨sign, hsign, digits, h, htrim⟩
    exact ⟨sign, hsign, digits, h, (trim_eq_iff_padded (h.noBlank hsign)).mp htrim⟩
  · rintro ⟨sign, hsign, digits, h, hpadded⟩
    exact ⟨sign, hsign, digits, h, (trim_eq_iff_padded (h.noBlank hsign)).mpr hpadded⟩

end PinBench.Text
