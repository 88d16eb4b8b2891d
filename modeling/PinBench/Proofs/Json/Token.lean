import PinBench.Json.Basic
import PinBench.Json.Token
import PinBench.Proofs.Fault

/-!
# Tokens of a text

A scalar may be written in several ways: a character of a string as itself or in an escape, and a
number with an exponent or without.  However it is written, it is one token, and the reader of
tokens gives back the scalar, whatever follows.  A number is the one scalar without an end of its
own: it ends where something else begins.

* `Glyph`, `Spelling`: a character, and a string, as they are written.
* `Token.next?_spelling`: **a string in quotes is that string**.
* `Figure`: a number as it is written; `Ends`: a text that cannot go on a number.
* `Token.next?_figure`: **a number is its literal**.
* `Glyph.of`, `Figure.ofInt`: how scalars are written by the writer of texts.
* `Literal.value?_ofInt`: a number of 64 bits in digits has its value.
-/

namespace PinBench.Json

/-! ## Strings -/

/-- Four hexadecimal digits that are a code unit. -/
structure CodeUnit where
  digits : Char × Char × Char × Char
  value : Nat
  eq_value : codeUnit? digits.1 digits.2.1 digits.2.2.1 digits.2.2.2 = some value

/-- The escape of a code unit. -/
def CodeUnit.text (u : CodeUnit) : List Char :=
  ['\\', 'u', u.digits.1, u.digits.2.1, u.digits.2.2.1, u.digits.2.2.2]

/-- A character of a string as it is written: as itself, in a short escape, or by its code units, of
which no surrogate stands alone. -/
inductive Glyph where
  | plain (c : Char) (h : 0x20 ≤ c.toNat ∧ c ≠ '"' ∧ c ≠ '\\')
  | short (letter c : Char) (h : unescape? letter = some c)
  | unit (u : CodeUnit) (h : isHigh u.value = false ∧ isLow u.value = false)
  | pair (high low : CodeUnit) (h : isHigh high.value = true ∧ isLow low.value = true)

namespace Glyph

def text : Glyph → List Char
  | plain c _ => [c]
  | short letter _ _ => ['\\', letter]
  | unit u _ => u.text
  | pair high low _ => high.text ++ low.text

def char : Glyph → Char
  | plain c _ => c
  | short _ c _ => c
  | unit u _ => Char.ofNat u.value
  | pair high low _ => pairChar high.value low.value

end Glyph

/-- A string as it is written. -/
abbrev Spelling := List Glyph

namespace Spelling

def text (w : Spelling) : List Char := '"' :: w.flatMap Glyph.text ++ ['"']

def string (w : Spelling) : String := String.ofList (w.map Glyph.char)

end Spelling

theorem scanString_codeUnit (u : CodeUnit) (q : Quote) (rest : List Char) :
    scanString q (u.text ++ rest) = scanString (q.pushUnit u.value) rest := by
  simp [CodeUnit.text, scanString, u.eq_value]

theorem scanString_glyph (g : Glyph) (cs rest : List Char) :
    scanString ⟨.ok cs, none⟩ (g.text ++ rest) = scanString ⟨.ok (g.char :: cs), none⟩ rest := by
  cases g with
  | plain c h =>
    have hc : ¬c.toNat < 0x20 := Nat.not_lt.mpr h.1
    simp [Glyph.text, Glyph.char, scanString, hc, h.2, Quote.push]
  | short letter c h =>
    have hu : letter ≠ 'u' := by
      rintro rfl
      cases h
    simp [Glyph.text, Glyph.char, scanString, h, hu, Quote.push]
  | unit u h =>
    simp [Glyph.text, Glyph.char, scanString_codeUnit, Quote.pushUnit, h]
  | pair high low h =>
    simp [Glyph.text, Glyph.char, scanString_codeUnit, Quote.pushUnit, h]

theorem scanString_spelling (w : Spelling) (cs rest : List Char) :
    scanString ⟨.ok cs, none⟩ (w.flatMap Glyph.text ++ '"' :: rest) =
      .ok (.ok (String.ofList (cs.reverse ++ w.map Glyph.char)), rest) := by
  induction w generalizing cs with
  | nil => simp [scanString, Quote.close]
  | cons g w ih =>
    rw [List.flatMap_cons, List.append_assoc, scanString_glyph, ih]
    simp

namespace Token

theorem next?_cons {c : Char} (h : isGap c = false) (cs : List Char) :
    next? (c :: cs) = some (ofHead c cs) := by
  simp [next?, h]

/-- **A string in quotes is that string.** -/
theorem next?_spelling (w : Spelling) (rest : List Char) :
    next? (w.text ++ rest) = some (.str (.ok w.string), rest) := by
  have h : w.text ++ rest = '"' :: (w.flatMap Glyph.text ++ '"' :: rest) := by
    simp [Spelling.text]
  rw [h, next?_cons rfl]
  show some (ofScan .str .brokenStr (scanString ⟨.ok [], none⟩ _)) = _
  rw [scanString_spelling]
  rfl

end Token

/-! ## Strings of the writer -/

/-- The letter of a short escape stands for its character, and is no control character. -/
theorem unescape?_shortEscape {c e : Char} (h : shortEscape? c = some e) :
    unescape? e = some c ∧ 0x20 ≤ e.toNat := by
  unfold shortEscape? at h
  split at h
  · next hc =>
    cases h
    rcases hc with rfl | rfl <;> decide
  · repeat' split at h
    all_goals
      cases h
    all_goals
      subst_vars
      decide

/-- The two digits of a control character stand for it. -/
theorem codeUnit?_hexPair {n : Nat} (h : n < 0x20) :
    Text.hexPair n.toUInt8 = [Nat.digitChar (n / 16), Nat.digitChar (n % 16)] ∧
      codeUnit? '0' '0' (Nat.digitChar (n / 16)) (Nat.digitChar (n % 16)) = some n := by
  have all : ∀ n : Fin 0x20,
      Text.hexPair n.val.toUInt8 = [Nat.digitChar (n.val / 16), Nat.digitChar (n.val % 16)] ∧
        codeUnit? '0' '0' (Nat.digitChar (n.val / 16)) (Nat.digitChar (n.val % 16)) =
          some n.val := by
    decide +kernel
  exact all ⟨n, h⟩

theorem not_surrogate {n : Nat} (h : n < 0x20) : isHigh n = false ∧ isLow n = false := by
  simp only [isHigh, isLow, Bool.and_eq_false_iff, decide_eq_false_iff_not]
  omega

theorem plain_of_not_shortEscape {c : Char} (h : shortEscape? c = none) (hc : ¬c.toNat < 0x20) :
    0x20 ≤ c.toNat ∧ c ≠ '"' ∧ c ≠ '\\' := by
  refine ⟨Nat.le_of_not_lt hc, ?_, ?_⟩ <;> rintro rfl <;> simp [shortEscape?] at h

/-- A character as the writer writes it. -/
def Glyph.of (c : Char) : Glyph :=
  match hs : shortEscape? c with
  | some e => .short e c (unescape?_shortEscape hs).1
  | none =>
    if hc : c.toNat < 0x20 then
      .unit ⟨('0', '0', Nat.digitChar (c.toNat / 16), Nat.digitChar (c.toNat % 16)), c.toNat,
        (codeUnit?_hexPair hc).2⟩ (not_surrogate hc)
    else .plain c (plain_of_not_shortEscape hs hc)

theorem Glyph.text_of (c : Char) : (Glyph.of c).text = escaped c := by
  unfold Glyph.of escaped
  split
  · next hs => simp [hs, text]
  · next hs =>
    by_cases hc : c.toNat < 0x20
    · simp [hs, hc, text, CodeUnit.text, (codeUnit?_hexPair hc).1]
    · simp [hs, hc, text]

theorem Glyph.char_of (c : Char) : (Glyph.of c).char = c := by
  unfold Glyph.of
  split
  · rfl
  · by_cases hc : c.toNat < 0x20
    · simp [hc, char, Char.ofNat_toNat]
    · simp [hc, char]

/-- A string as the writer writes it. -/
def Spelling.of (s : String) : Spelling := s.toList.map Glyph.of

theorem Spelling.text_of (s : String) : (Spelling.of s).text = quoted s := by
  simp [text, of, quoted, List.flatMap_map, Glyph.text_of]

theorem Spelling.string_of (s : String) : (Spelling.of s).string = s := by
  simp [string, of, Function.comp_def, Glyph.char_of]

/-! ## Words -/

namespace Token

theorem next?_null (rest : List Char) : next? ("null".toList ++ rest) = some (.null, rest) := rfl

theorem next?_true (rest : List Char) : next? ("true".toList ++ rest) = some (.bool true, rest) :=
  rfl

theorem next?_false (rest : List Char) :
    next? ("false".toList ++ rest) = some (.bool false, rest) :=
  rfl

end Token

/-! ## Numbers -/

/-- A text that cannot go on a number. -/
def Ends (rest : List Char) : Prop :=
  ∀ c ∈ rest.head?, c.isDigit = false ∧ c ≠ '.' ∧ c ≠ 'e' ∧ c ≠ 'E'

/-- Some digits, at least one. -/
def IsDigits (ds : List Char) : Prop := ds ≠ [] ∧ ∀ c ∈ ds, c.isDigit = true

instance (ds : List Char) : Decidable (IsDigits ds) :=
  decidable_of_iff (ds ≠ [] ∧ ds.all Char.isDigit) (and_congr_right fun _ => List.all_eq_true)

/-- A number as it is written. -/
structure Figure where
  literal : Literal
  /-- The exponent is marked with a capital letter. -/
  capital : Bool
  /-- An exponent without a minus sign has a plus sign. -/
  plus : Bool
  digits : IsDigits literal.digits
  zero : literal.digits.head? = some '0' → literal.digits = ['0']
  fraction : ∀ ds, literal.fraction = some ds → IsDigits ds
  exponent : ∀ e, literal.exponent = some e → IsDigits e.2

namespace Figure

def fractionText (f : Figure) : List Char := f.literal.fraction.elim [] fun ds => '.' :: ds

def exponentText (f : Figure) : List Char :=
  f.literal.exponent.elim [] fun e =>
    (if f.capital then 'E' else 'e') ::
      ((if e.1 then ['-'] else if f.plus then ['+'] else []) ++ e.2)

def text (f : Figure) : List Char :=
  (if f.literal.negative then ['-'] else []) ++
    (f.literal.digits ++ (f.fractionText ++ f.exponentText))

end Figure

namespace Literal

variable {ds rest : List Char}

theorem digitRun_append (h : IsDigits ds) (hr : ∀ c ∈ rest.head?, c.isDigit = false) :
    digitRun (ds ++ rest) = .ok (ds, rest) := by
  have htake : rest.takeWhile Char.isDigit = [] := by
    cases rest with
    | nil => rfl
    | cons c rest => simp [hr c rfl]
  have hdrop : rest.dropWhile Char.isDigit = rest := by
    cases rest with
    | nil => rfl
    | cons c rest => simp [hr c rfl]
  unfold digitRun
  rw [List.takeWhile_append_of_pos h.2, List.dropWhile_append_of_pos h.2, htake, hdrop,
    List.append_nil]
  obtain ⟨d, ds, rfl⟩ := List.exists_cons_of_ne_nil h.1
  rfl

theorem scanWhole_append (h : IsDigits ds) (hz : ds.head? = some '0' → ds = ['0'])
    (hr : ∀ c ∈ rest.head?, c.isDigit = false) : scanWhole (ds ++ rest) = .ok (ds, rest) := by
  unfold scanWhole
  rw [digitRun_append h hr]
  split
  · next d ds' rest' heq =>
    -- a zero in front is the whole number
    cases heq
    cases hz rfl
  · rfl

end Literal

namespace Figure

variable {rest : List Char}

/-- What follows a number does not go on any part of it either. -/
theorem head?_exponentText (f : Figure) (h : Ends rest) :
    ∀ c ∈ (f.exponentText ++ rest).head?, c.isDigit = false ∧ c ≠ '.' := by
  unfold exponentText
  cases f.literal.exponent with
  | none => exact fun c hc => ⟨(h c hc).1, (h c hc).2.1⟩
  | some e =>
    intro c hc
    cases hc
    cases f.capital <;> decide

theorem head?_fractionText (f : Figure) (h : Ends rest) :
    ∀ c ∈ (f.fractionText ++ (f.exponentText ++ rest)).head?, c.isDigit = false := by
  unfold fractionText
  cases f.literal.fraction with
  | none => exact fun c hc => (f.head?_exponentText h c hc).1
  | some ds =>
    intro c hc
    cases hc
    decide

theorem scanFraction_text (f : Figure) (h : Ends rest) :
    Literal.scanFraction (f.fractionText ++ (f.exponentText ++ rest)) =
      .ok (f.literal.fraction, f.exponentText ++ rest) := by
  have hr := f.head?_exponentText h
  unfold fractionText
  cases hf : f.literal.fraction with
  | none =>
    cases hcs : f.exponentText ++ rest with
    | nil => simp [Literal.scanFraction]
    | cons c cs =>
      rw [hcs] at hr
      simp [Literal.scanFraction, (hr c rfl).2]
  | some ds =>
    have hd := Literal.digitRun_append (f.fraction ds hf) fun c hc => (hr c hc).1
    simp [Literal.scanFraction, hd, Except.map]

theorem scanExponent_text (f : Figure) (h : Ends rest) :
    Literal.scanExponent (f.exponentText ++ rest) = .ok (f.literal.exponent, rest) := by
  unfold exponentText
  cases he : f.literal.exponent with
  | none =>
    cases rest with
    | nil => rfl
    | cons c cs => simp [Literal.scanExponent, (h c rfl).2]
  | some e =>
    obtain ⟨negative, ds⟩ := e
    have hds := f.exponent _ he
    have hd := Literal.digitRun_append hds fun c hc => (h c hc).1
    have hsign : Literal.sign
        ((if negative then ['-'] else if f.plus then ['+'] else []) ++ (ds ++ rest)) =
          (negative, ds ++ rest) := by
      obtain ⟨d, ds, rfl⟩ := List.exists_cons_of_ne_nil hds.1
      have hdigit := hds.2 d List.mem_cons_self
      have hplus : d ≠ '+' := by
        rintro rfl
        cases hdigit
      have hminus : d ≠ '-' := by
        rintro rfl
        cases hdigit
      cases negative <;> cases f.plus <;> simp [Literal.sign, hplus, hminus]
    simp [Literal.scanExponent, hsign, hd, Except.map]

theorem minus_text (f : Figure) (cs : List Char) :
    Literal.minus ((if f.literal.negative then ['-'] else []) ++ (f.literal.digits ++ cs)) =
      (f.literal.negative, f.literal.digits ++ cs) := by
  cases f.literal.negative with
  | true => rfl
  | false =>
    obtain ⟨d, ds, hd⟩ := List.exists_cons_of_ne_nil f.digits.1
    have hminus : d ≠ '-' := by
      rintro rfl
      cases f.digits.2 '-' (hd ▸ List.mem_cons_self)
    rw [hd]
    simp [Literal.minus, hminus]

/-- **A number is scanned as its literal.** -/
theorem scan_text (f : Figure) (h : Ends rest) :
    Literal.scan (f.text ++ rest) = .ok (f.literal, rest) := by
  have htext : f.text ++ rest = (if f.literal.negative then ['-'] else []) ++
      (f.literal.digits ++ (f.fractionText ++ (f.exponentText ++ rest))) := by
    simp [text]
  have hwhole := Literal.scanWhole_append f.digits f.zero (f.head?_fractionText h)
  unfold Literal.scan
  rw [htext, f.minus_text]
  dsimp only
  rw [hwhole, ok_bind, f.scanFraction_text h, ok_bind, f.scanExponent_text h]
  rfl

theorem exists_text (f : Figure) : ∃ c cs, f.text = c :: cs ∧ (c = '-' ∨ c.isDigit) := by
  unfold text
  cases f.literal.negative with
  | true => exact ⟨_, _, rfl, .inl rfl⟩
  | false =>
    obtain ⟨d, ds, hd⟩ := List.exists_cons_of_ne_nil f.digits.1
    rw [hd]
    exact ⟨_, _, rfl, .inr (f.digits.2 d (hd ▸ List.mem_cons_self))⟩

end Figure

namespace Token

/-- The value with which a number is met. -/
def number (l : Literal) : Except Flaw Number :=
  match l.value? with
  | some n => .ok n
  | none => .error .malformed

/-- What starts with a minus sign or a digit is a number. -/
theorem ofHead_number {c : Char} (h : c = '-' ∨ c.isDigit) (rest : List Char) :
    ofHead c rest = ofScan (fun l => .num (number l)) .broken (Literal.scan (c :: rest)) := by
  unfold ofHead
  split
  case h_11 => exact if_pos h
  -- no mark and no word starts like that
  all_goals exact absurd h (by decide)

/-- **A number is its literal.** -/
theorem next?_figure (f : Figure) {rest : List Char} (h : Ends rest) :
    next? (f.text ++ rest) = some (.num (number f.literal), rest) := by
  obtain ⟨c, cs, hc, hfirst⟩ := f.exists_text
  have hgap : isGap c = false := by
    apply Bool.eq_false_iff.mpr
    intro hg
    simp only [isGap, Bool.or_eq_true, decide_eq_true_eq] at hg
    rcases hg with ((rfl | rfl) | rfl) | rfl <;> exact absurd hfirst (by decide)
  have hscan := f.scan_text h
  rw [hc, List.cons_append] at hscan ⊢
  rw [next?_cons hgap, ofHead_number hfirst, hscan]
  rfl

end Token

/-! ## Numbers of the writer -/

namespace Literal

theorem head?_toDigits_ne_zero {n : Nat} (h : 0 < n) : (Nat.toDigits 10 n).head? ≠ some '0' := by
  induction n using Nat.strongRecOn with
  | ind n ih =>
    by_cases hn : n < 10
    · rw [Nat.toDigits_of_lt_base hn]
      simp [Nat.digitChar_eq_zero]
      omega
    · have hhead := ih (n / 10) (by omega) (by omega)
      rw [Nat.toDigits_of_base_le (by decide) (by omega)]
      cases hd : Nat.toDigits 10 (n / 10) with
      | nil => exact absurd hd Nat.toDigits_ne_nil
      | cons d ds =>
        rw [hd] at hhead
        exact hhead

/-- The digits that are gathered are those of a number below `2 ^ 64`. -/
theorem gather_eq {n : Nat} {ds : List Char}
    (h : Nat.ofDigitChars 10 ds n < 0x10000000000000000) :
    gather n ds = (Nat.ofDigitChars 10 ds n, []) := by
  induction ds generalizing n with
  | nil => rfl
  | cons d ds ih =>
    rw [Nat.ofDigitChars_cons] at h
    have hle : 10 * n + (d.toNat - '0'.toNat) ≤
        Nat.ofDigitChars 10 ds (10 * n + (d.toNat - '0'.toNat)) := by
      rw [Nat.ofDigitChars_eq_ofDigitChars_zero]
      exact Nat.le_add_right_of_le (Nat.le_mul_of_pos_left _ (Nat.pow_pos (by decide)))
    rw [gather, Nat.mul_comm n, Nat.ofDigitChars_cons, if_pos (by omega), ih h]

/-- The number as it is written. -/
def ofInt (n : Int) : Literal := ⟨n < 0, Nat.toDigits 10 n.natAbs, none, none⟩

/-- The numbers of 64 bits, with a sign or without. -/
def InRange (n : Int) : Prop := -0x8000000000000000 ≤ n ∧ n < 0x10000000000000000

/-- **A number of 64 bits in digits has its value.** -/
theorem value?_ofInt {n : Int} (h : InRange n) : (ofInt n).value? = some (.whole n) := by
  obtain ⟨hlow, hhigh⟩ := h
  have hgather : gather 0 (Nat.toDigits 10 n.natAbs) = (n.natAbs, []) := by
    rw [gather_eq] <;> rw [Nat.ofDigitChars_ten_toDigits]
    omega
  by_cases hn : n < 0
  · have habs : -(n.natAbs : Int) = n := by omega
    have hpos : 0 < n.natAbs ∧ n.natAbs ≤ 0x8000000000000000 := by omega
    have hwhole : ofInt n = ⟨true, Nat.toDigits 10 n.natAbs, none, none⟩ := by simp [ofInt, hn]
    simp only [value?, hwhole, hgather]
    rw [habs]
    simp [hpos]
  · have habs : (n.natAbs : Int) = n := by omega
    have hwhole : ofInt n = ⟨false, Nat.toDigits 10 n.natAbs, none, none⟩ := by simp [ofInt, hn]
    simp only [value?, hwhole, hgather]
    rw [habs]
    rfl

end Literal

theorem isDigits_toDigits (n : Nat) : IsDigits (Nat.toDigits 10 n) :=
  ⟨Nat.toDigits_ne_nil, fun _ hc => Nat.isDigit_of_mem_toDigits (by decide) (by decide) hc⟩

theorem toDigits_of_head?_zero {n : Nat} (h : (Nat.toDigits 10 n).head? = some '0') :
    Nat.toDigits 10 n = ['0'] := by
  rcases Nat.eq_zero_or_pos n with rfl | hn
  · rfl
  · exact absurd h (Literal.head?_toDigits_ne_zero hn)

/-- A whole number as the writer writes it. -/
def Figure.ofInt (n : Int) : Figure where
  literal := .ofInt n
  capital := false
  plus := false
  digits := isDigits_toDigits n.natAbs
  zero := toDigits_of_head?_zero
  fraction := nofun
  exponent := nofun

theorem Figure.text_ofInt (n : Int) : (Figure.ofInt n).text = intText n := by
  by_cases hn : n < 0 <;>
    simp [text, fractionText, exponentText, ofInt, Literal.ofInt, intText, hn]

end PinBench.Json
