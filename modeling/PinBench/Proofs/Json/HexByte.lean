import PinBench.Json.Codec
import PinBench.Proofs.Text.Numeral

/-!
# Which texts are hexadecimal bytes

* `Codec.marks`: what marks a text as hexadecimal, which may be missing.
* `Codec.Hexadecimal`: a mark and digits, perhaps with a sign between them.
* `Codec.hexByte?_eq_some_iff`: **which texts are read as which byte**.
* `Codec.hexByte?_hexText`: **a byte is read from the text that is written for it**.
* `Codec.hex_bytes_exact`: **a mark and digits alone are read, and so is what has a plus sign between
  them**; `Codec.signed_after_mark` is such a text.
-/

namespace PinBench.Json.Codec

open Text

/-- What may stand before the digits to say that they are hexadecimal. -/
def marks : List (List Char) := [[], ['0', 'x'], ['0', 'X']]

/-- The mark is taken off once, if there is one. -/
theorem hexDigits_eq_iff {cs ds : List Char} (hx : 'x' ∉ ds) (hX : 'X' ∉ ds) :
    hexDigits cs = ds ↔ ∃ mark ∈ marks, cs = mark ++ ds := by
  constructor
  · rintro rfl
    unfold hexDigits
    split
    · next r => exact ⟨['0', 'x'], by decide, rfl⟩
    · next r => exact ⟨['0', 'X'], by decide, rfl⟩
    · exact ⟨[], by decide, rfl⟩
  · rintro ⟨mark, hmark, rfl⟩
    simp only [marks, List.mem_cons, List.not_mem_nil, or_false] at hmark
    rcases hmark with rfl | rfl | rfl
    · -- digits alone have no second character that would end a mark
      unfold hexDigits
      split
      · next r hr =>
        cases hr
        simp at hx
      · next r hr =>
        cases hr
        simp at hX
      · rfl
    · rfl
    · rfl

/-- A sign and digits are left of a text in which they stand after a mark, with blanks around it
all. -/
theorem hexDigits_trim_eq_iff {sign digits cs : List Char} {n : Nat} (hsign : sign ∈ signs)
    (h : StandFor 16 digits n) :
    hexDigits (trim cs) = sign ++ digits ↔ ∃ mark ∈ marks, Padded (mark ++ (sign ++ digits)) cs := by
  have hletters : ∀ sign ∈ signs, 'x' ∉ sign ∧ 'X' ∉ sign := by decide
  have hmarks : ∀ mark ∈ marks, NoBlank mark := by decide
  have hx : 'x' ∉ sign ++ digits := by
    rw [List.mem_append, not_or]
    exact ⟨(hletters sign hsign).1, fun hc => (h.plain _ hc).2.2.1 rfl⟩
  have hX : 'X' ∉ sign ++ digits := by
    rw [List.mem_append, not_or]
    exact ⟨(hletters sign hsign).2, fun hc => (h.plain _ hc).2.2.2 rfl⟩
  rw [hexDigits_eq_iff hx hX]
  refine exists_congr fun mark => and_congr_right fun hmark => trim_eq_iff_padded ?_
  exact noBlank_append (hmarks mark hmark) (h.noBlank hsign)

/-- The text is a mark, the sign, and digits that stand for the byte, with blanks around it all. -/
def Hexadecimal (sign : List Char) (s : String) (b : UInt8) : Prop :=
  ∃ mark ∈ marks, ∃ digits, StandFor 16 digits b.toNat ∧ Padded (mark ++ (sign ++ digits)) s.toList

/-- **A byte is read from the texts that are hexadecimal for it**, with a plus sign or without. -/
theorem hexByte?_eq_some_iff {s : String} {b : UInt8} :
    hexByte? s = some b ↔ ∃ sign ∈ signs, Hexadecimal sign s b := by
  rw [hexByte?, byte?_eq_some_iff]
  refine exists_congr fun sign => and_congr_right fun hsign => ?_
  constructor
  · rintro ⟨digits, h, heq⟩
    obtain ⟨mark, hmark, hpadded⟩ := (hexDigits_trim_eq_iff hsign h).mp heq
    exact ⟨mark, hmark, digits, h, hpadded⟩
  · rintro ⟨mark, hmark, digits, h, hpadded⟩
    exact ⟨digits, h, (hexDigits_trim_eq_iff hsign h).mpr ⟨mark, hmark, hpadded⟩⟩

/-- **A byte is read from the text that is written for it.** -/
theorem hexByte?_hexText (b : UInt8) : hexByte? (hexText b) = some b := by
  refine hexByte?_eq_some_iff.mpr ⟨[], by decide, ['0', 'x'], by decide, hexPair b,
    natural?_eq_some_iff.mp (natural?_hexPair b), ?_⟩
  have htext : (hexText b).toList = ['0', 'x'] ++ ([] ++ hexPair b) := by
    simp [hexText]
  rw [htext]
  exact padded_self _

/-- Where no sign is meant, none is there. -/
theorem Hexadecimal.plus_not_mem {s : String} {b : UInt8} (h : Hexadecimal [] s b) :
    '+' ∉ s.toList := by
  obtain ⟨mark, hmark, digits, hdigits, before, after, hbefore, hafter, heq⟩ := h
  have hmarks : ∀ mark ∈ marks, '+' ∉ mark := by decide
  have hblank : isBlank '+' = false := by decide
  rw [heq]
  simp only [List.nil_append, List.mem_append, not_or]
  refine ⟨⟨fun hc => ?_, hmarks mark hmark, fun hc => (hdigits.plain _ hc).2.1 rfl⟩, fun hc => ?_⟩
  · exact Bool.false_ne_true (hblank.symm.trans (hbefore _ hc))
  · exact Bool.false_ne_true (hblank.symm.trans (hafter _ hc))

theorem Hexadecimal.plus_mem {s : String} {b : UInt8} (h : Hexadecimal ['+'] s b) :
    '+' ∈ s.toList := by
  obtain ⟨mark, -, digits, -, before, after, -, -, heq⟩ := h
  simp [heq]

/-- **Which texts are hexadecimal bytes**: a mark, which may be missing, and digits of either case
whose value is up to 255, with blanks around; or the same with a plus sign before the digits.  A
text is read as a mark and digits alone would be, unless it has such a sign.  What is written for a
byte is one of its texts. -/
theorem hex_bytes_exact (s : String) (b : UInt8) :
    (hexByte? s = some b ↔ Hexadecimal [] s b ∨ Hexadecimal ['+'] s b) ∧
    ((hexByte? s = some b ↔ Hexadecimal [] s b) ↔ ¬Hexadecimal ['+'] s b) ∧
    hexByte? (hexText b) = some b := by
  have hread : hexByte? s = some b ↔ Hexadecimal [] s b ∨ Hexadecimal ['+'] s b := by
    rw [hexByte?_eq_some_iff]
    simp [signs]
  refine ⟨hread, ?_, hexByte?_hexText b⟩
  rw [hread]
  constructor
  · intro h hsigned
    exact (h.mp (.inr hsigned)).plus_not_mem hsigned.plus_mem
  · intro h
    exact or_iff_left h

/-- A plus sign between the mark and the digits is let through, though the text is no mark with
digits after it. -/
theorem signed_after_mark :
    hexByte? "0x+12" = some 0x12 ∧ ¬∃ b, Hexadecimal [] "0x+12" b := by
  refine ⟨by decide, ?_⟩
  rintro ⟨b, h⟩
  exact h.plus_not_mem (by decide)

end PinBench.Json.Codec
