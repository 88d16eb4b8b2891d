import PinBench.Proofs.Link
import PinBench.Proofs.Station.Faithful
import PinBench.Proofs.Text.Numeral
import PinBench.Station.Handle

/-!
# Arguments in words

A number or a level may be given as itself or in words.  A write to an expander pin is judged by
what its arguments mean, and nothing is done before all three of them are read.

* `Numeral.Denotes`, `Level.Denotes`: what an argument means.
* `Numeral.toByte_eq_ok_iff`, `Level.toBool_eq_ok_iff`: **an argument is read as what it means**.
* `Unread`: the first argument that means nothing, with the fault for it.
* `Station.pinArguments_eq_ok_iff`, `Station.pinArguments_eq_error_iff`: **the arguments are read
  together, or the first one that means nothing is told**.
* `Station.arguments_in_words`: **a write in words is the write that it means**, and one that means
  nothing does nothing.
-/

namespace PinBench

open Text (Padded Spells)

/-! ## Numbers -/

/-- The number is given as itself, or spelled in decimal. -/
inductive Numeral.Denotes : Numeral → UInt8 → Prop where
  | number (n : UInt8) : Denotes (.number n) n
  | text {s : String} {n : UInt8} (h : Spells 10 s.toList n) : Denotes (.text s) n

namespace Numeral

theorem denotes_text_iff {s : String} {n : UInt8} :
    (text s).Denotes n ↔ Spells 10 s.toList n := by
  constructor
  · rintro (_ | h)
    exact h
  · exact .text

/-- **A number is read as what it means.** -/
theorem toByte_eq_ok_iff (what : String) {a : Numeral} {n : UInt8} :
    a.toByte what = .ok n ↔ a.Denotes n := by
  cases a with
  | number m =>
    constructor
    · intro h
      cases h
      exact .number n
    · rintro ⟨⟩
      rfl
  | text s =>
    rw [denotes_text_iff, ← Text.byte?_trim_eq_some_iff, toByte]
    cases Text.byte? 10 (Text.trim s.toList) <;> simp

/-- What is no number is told as it was given. -/
theorem toByte_eq_error_iff {what : String} {a : Numeral} {f : Fault} :
    a.toByte what = .error f ↔ ∃ s, a = .text s ∧ (∀ n, ¬Spells 10 s.toList n) ∧
      f = .badArgument s!"{what} `{s}` is not a number" := by
  constructor
  · intro h
    cases a with
    | number n => cases h
    | text s =>
      refine ⟨s, rfl, fun n hn => ?_, ?_⟩
      · rw [(toByte_eq_ok_iff what).mpr (.text hn)] at h
        cases h
      · rw [toByte] at h
        split at h <;> cases h
        rfl
  · rintro ⟨s, rfl, h, rfl⟩
    cases hx : (text s).toByte what with
    | ok n => exact absurd (denotes_text_iff.mp ((toByte_eq_ok_iff what).mp hx)) (h n)
    | error f =>
      rw [toByte] at hx
      split at hx <;> cases hx
      rfl

end Numeral

/-! ## Levels -/

/-- The word for a level. -/
def Level.word (v : Bool) : String := if v then "true" else "false"

/-- The level is given as itself, or as its word with blanks around. -/
inductive Level.Denotes : Level → Bool → Prop where
  | bool (v : Bool) : Denotes (.bool v) v
  | text {s : String} {v : Bool} (h : Padded (Level.word v).toList s.toList) : Denotes (.text s) v

namespace Level

theorem denotes_text_iff {s : String} {v : Bool} :
    (text s).Denotes v ↔ Padded (word v).toList s.toList := by
  constructor
  · rintro (_ | h)
    exact h
  · exact .text

theorem trimmed_eq_word_iff {s : String} {v : Bool} :
    Text.trimmed s = word v ↔ Padded (word v).toList s.toList := by
  have hword : ∀ v : Bool, Text.NoBlank (word v).toList := by decide
  rw [← Text.trim_eq_iff_padded (hword v), Text.trimmed, ← String.toList_inj, String.toList_ofList]

/-- **A level is read as what it means.** -/
theorem toBool_eq_ok_iff {a : Level} {v : Bool} : a.toBool = .ok v ↔ a.Denotes v := by
  cases a with
  | bool w =>
    constructor
    · intro h
      cases h
      exact .bool v
    · rintro ⟨⟩
      rfl
  | text s =>
    rw [denotes_text_iff, ← trimmed_eq_word_iff, toBool]
    split
    · next htrue => cases v <;> simp [htrue, word]
    · next htrue =>
      split
      · next hfalse => cases v <;> simp [hfalse, word]
      · next hfalse => cases v <;> simp [htrue, hfalse, word]

/-- What is no word for a level is told without the blanks around it. -/
theorem toBool_eq_error_iff {a : Level} {f : Fault} :
    a.toBool = .error f ↔ ∃ s, a = .text s ∧ (∀ v, ¬Padded (word v).toList s.toList) ∧
      f = .badArgument s!"state `{Text.trimmed s}` is not true/false" := by
  constructor
  · intro h
    cases a with
    | bool v => cases h
    | text s =>
      refine ⟨s, rfl, fun v hv => ?_, ?_⟩
      · rw [toBool_eq_ok_iff.mpr (.text hv)] at h
        cases h
      · rw [toBool] at h
        split at h
        · cases h
        · split at h <;> cases h
          rfl
  · rintro ⟨s, rfl, h, rfl⟩
    have htrue : Text.trimmed s ≠ "true" := fun ht => h true (trimmed_eq_word_iff.mp ht)
    have hfalse : Text.trimmed s ≠ "false" := fun hf => h false (trimmed_eq_word_iff.mp hf)
    rw [toBool, if_neg htrue, if_neg hfalse]

end Level

/-! ## The arguments of a write -/

/-- The first argument that means nothing, with the fault for it. -/
inductive Unread : Numeral → Numeral → Level → Fault → Prop where
  | number {s : String} (h : ∀ n, ¬Spells 10 s.toList n) (pin : Numeral) (level : Level) :
      Unread (.text s) pin level (.badArgument s!"module `{s}` is not a number")
  | pin {number : Numeral} {n : UInt8} (hn : number.Denotes n) {s : String}
      (h : ∀ p, ¬Spells 10 s.toList p) (level : Level) :
      Unread number (.text s) level (.badArgument s!"pin `{s}` is not a number")
  | level {number pin : Numeral} {n p : UInt8} (hn : number.Denotes n) (hp : pin.Denotes p)
      {s : String} (h : ∀ v, ¬Padded (Level.word v).toList s.toList) :
      Unread number pin (.text s)
        (.badArgument s!"state `{Text.trimmed s}` is not true/false")

theorem Unread.exists_eq {number pin : Numeral} {level : Level} {f : Fault}
    (h : Unread number pin level f) : ∃ what, f = .badArgument what := by
  cases h <;> exact ⟨_, rfl⟩

namespace Station

section Arguments

variable {number pin : Numeral} {level : Level}

theorem pinArguments_eq_ok_iff {n p : UInt8} {v : Bool} :
    pinArguments number pin level = .ok (n, p, v) ↔
      number.Denotes n ∧ pin.Denotes p ∧ level.Denotes v := by
  rw [← Numeral.toByte_eq_ok_iff "module", ← Numeral.toByte_eq_ok_iff "pin",
    ← Level.toBool_eq_ok_iff]
  constructor
  · intro h
    obtain ⟨n', hn, h⟩ := ok_of_bind h
    obtain ⟨p', hp, h⟩ := ok_of_bind h
    obtain ⟨v', hv, h⟩ := ok_of_bind h
    cases h
    exact ⟨hn, hp, hv⟩
  · rintro ⟨hn, hp, hv⟩
    rw [pinArguments, hn, ok_bind, hp, ok_bind, hv, ok_bind]

theorem pinArguments_eq_error_iff {f : Fault} :
    pinArguments number pin level = .error f ↔ Unread number pin level f := by
  constructor
  · intro h
    rcases error_of_bind h with h | ⟨n, hn, h⟩
    · obtain ⟨s, rfl, hs, rfl⟩ := Numeral.toByte_eq_error_iff.mp h
      exact .number hs pin level
    replace hn := (Numeral.toByte_eq_ok_iff _).mp hn
    rcases error_of_bind h with h | ⟨p, hp, h⟩
    · obtain ⟨s, rfl, hs, rfl⟩ := Numeral.toByte_eq_error_iff.mp h
      exact .pin hn hs level
    replace hp := (Numeral.toByte_eq_ok_iff _).mp hp
    rcases error_of_bind h with h | ⟨v, hv, h⟩
    · obtain ⟨s, rfl, hs, rfl⟩ := Level.toBool_eq_error_iff.mp h
      exact .level hn hp hs
    cases h
  · intro h
    cases h with
    | number hs => rw [pinArguments, Numeral.toByte_eq_error_iff.mpr ⟨_, rfl, hs, rfl⟩]; rfl
    | pin hn hs =>
      rw [pinArguments, (Numeral.toByte_eq_ok_iff _).mpr hn, ok_bind,
        Numeral.toByte_eq_error_iff.mpr ⟨_, rfl, hs, rfl⟩]
      rfl
    | level hn hp hs =>
      rw [pinArguments, (Numeral.toByte_eq_ok_iff _).mpr hn, ok_bind,
        (Numeral.toByte_eq_ok_iff _).mpr hp, ok_bind,
        Level.toBool_eq_error_iff.mpr ⟨_, rfl, hs, rfl⟩]
      rfl

end Arguments

variable {β : Type} [Bus β]

/-- **A write to an expander pin in words is the write that it means**: the same answer, the same
station, and the same journal. -/
theorem handle_of_denotes (s : Station) (clock : Clock) (l : Link β) {number pin : Numeral}
    {level : Level} {n p : UInt8} {v : Bool} (hn : number.Denotes n) (hp : pin.Denotes p)
    (hv : level.Denotes v) :
    s.handle clock (.writeToExpander number pin level) l =
      s.handle clock (.writeToExpander (.number n) (.number p) (.bool v)) l := by
  have hwords := pinArguments_eq_ok_iff.mpr ⟨hn, hp, hv⟩
  have hnative := pinArguments_eq_ok_iff.mpr
    ⟨Numeral.Denotes.number n, Numeral.Denotes.number p, Level.Denotes.bool v⟩
  have hexecute : s.execute clock.now l (.writeToExpander number pin level) =
      s.execute clock.now l (.writeToExpander (.number n) (.number p) (.bool v)) := by
    simp only [execute, hwords, hnative]
  unfold handle
  rw [hexecute]
  rfl

/-- **A write with an argument that means nothing does nothing**, but for a note. -/
theorem handle_of_unread (s : Station) (clock : Clock) (l : Link β) {number pin : Numeral}
    {level : Level} {f : Fault} (h : Unread number pin level f) :
    ∃ text, s.handle clock (.writeToExpander number pin level) l =
      (.failure clock.date "writeToModule" 400 "INVALID_REQUEST" f.message, s,
        l.note .warning text) := by
  have hx := pinArguments_eq_error_iff.mpr h
  obtain ⟨what, rfl⟩ := h.exists_eq
  simp only [handle, execute, hx]
  exact ⟨_, rfl⟩

/-- **Arguments in words.**  A number in words is a byte in decimal, perhaps with a plus sign, and a
level in words is "true" or "false", with blanks around.  A write to an expander pin does what the
write with the numbers and the level does that its arguments mean.  If one of them means nothing,
the answer says so, and nothing else happens. -/
theorem arguments_in_words (s : Station) (clock : Clock) (l : Link β) (number pin : Numeral)
    (level : Level) :
    (∀ what text n, (Numeral.text text).toByte what = .ok n ↔ Spells 10 text.toList n) ∧
    (∀ text v, (Level.text text).toBool = .ok v ↔ Padded (Level.word v).toList text.toList) ∧
    (∀ n p v, number.Denotes n → pin.Denotes p → level.Denotes v →
      s.handle clock (.writeToExpander number pin level) l =
        s.handle clock (.writeToExpander (.number n) (.number p) (.bool v)) l) ∧
    ((∀ n, ¬number.Denotes n) ∨ (∀ p, ¬pin.Denotes p) ∨ (∀ v, ¬level.Denotes v) →
      let x := s.handle clock (.writeToExpander number pin level) l
      ∃ f, Unread number pin level f ∧
        x.1 = .failure clock.date "writeToModule" 400 "INVALID_REQUEST" f.message ∧
        x.2.1 = s ∧ x.2.2.bus = l.bus ∧ l.Adds x.2.2 [] []) := by
  refine ⟨?_, ?_, ?_, ?_⟩
  · intro what text n
    rw [Numeral.toByte_eq_ok_iff, Numeral.denotes_text_iff]
  · intro text v
    rw [Level.toBool_eq_ok_iff, Level.denotes_text_iff]
  · intro n p v hn hp hv
    exact handle_of_denotes s clock l hn hp hv
  · intro h x
    cases ha : pinArguments number pin level with
    | ok a =>
      obtain ⟨hn, hp, hv⟩ := pinArguments_eq_ok_iff.mp ha
      rcases h with h | h | h
      · exact absurd hn (h _)
      · exact absurd hp (h _)
      · exact absurd hv (h _)
    | error f =>
      have hf := pinArguments_eq_error_iff.mp ha
      obtain ⟨text, hx⟩ := handle_of_unread s clock l hf
      refine ⟨f, hf, ?_⟩
      have hx' : x = _ := hx
      rw [hx']
      exact ⟨rfl, rfl, rfl, (Link.Adds.refl l).note .warning text⟩

/-- Blanks of any kind, a sign and zeros in front make no difference, and one more than the greatest
byte is no number. -/
theorem arguments_in_words_lamp :
    let s := enter lampConfiguration lampBench
    let l := Link.ofBus SimulatedBus.empty
    let number := Numeral.text "\u00a0+0001\u3000"
    let pin := Numeral.text "000\n"
    let level := Level.text " true "
    let x := s.handle ⟨5, 7⟩ (.writeToExpander number (.text "256") level) l
    number.Denotes 1 ∧ pin.Denotes 0 ∧ level.Denotes true ∧ (∀ p, ¬(Numeral.text "256").Denotes p) ∧
    s.handle ⟨5, 7⟩ (.writeToExpander number pin level) l =
      s.handle ⟨5, 7⟩ (.writeToExpander (.number 1) (.number 0) (.bool true)) l ∧
    (s.handle ⟨5, 7⟩ (.writeToExpander number pin level) l).2.2.journal.events =
      [.registerWritten ⟨0x20, 0x12, 1⟩] ∧
    ∃ f, Unread number (.text "256") level f ∧ f.message =
        "invalid request: pin `256` is not a number" ∧
      x.1 = .failure 7 "writeToModule" 400 "INVALID_REQUEST" f.message ∧
      x.2.1 = s ∧ x.2.2.bus = l.bus ∧ l.Adds x.2.2 [] [] := by
  intro s l number pin level x
  have hn : number.Denotes 1 := (Numeral.toByte_eq_ok_iff "module").mp (by decide)
  have hp : pin.Denotes 0 := (Numeral.toByte_eq_ok_iff "pin").mp (by decide)
  have hv : level.Denotes true := Level.toBool_eq_ok_iff.mp (by decide)
  have hlarge : ∀ p, ¬(Numeral.text "256").Denotes p := by
    intro p h
    have hread : (Numeral.text "256").toByte "pin" =
        .error (.badArgument "pin `256` is not a number") := by
      decide
    rw [(Numeral.toByte_eq_ok_iff "pin").mpr h] at hread
    cases hread
  have hall := arguments_in_words s ⟨5, 7⟩ l number
  refine ⟨hn, hp, hv, hlarge, (hall pin level).2.2.1 1 0 true hn hp hv, by decide +kernel, ?_⟩
  obtain ⟨f, hf, hx⟩ := (hall (.text "256") level).2.2.2 (.inr (.inl hlarge))
  have hread : pinArguments number (.text "256") level =
      .error (.badArgument "pin `256` is not a number") := by
    decide
  cases hread.symm.trans (pinArguments_eq_error_iff.mpr hf)
  exact ⟨_, hf, by decide, hx⟩

end Station

end PinBench
