import Mathlib.Data.List.TakeWhile
import PinBench.Text.Blank

/-!
# Blanks around a text

* `NoBlank`, `Padded`: a text without blanks, and one with blanks around it.
* `padded_trim`: what is trimmed away is blank.
* `trim_eq_iff_padded`: **a text without blanks is what trimming leaves of the texts that have it
  with blanks around it**, and of no others.
-/

namespace PinBench.Text

def NoBlank (text : List Char) : Prop := ∀ c ∈ text, isBlank c = false

instance (text : List Char) : Decidable (NoBlank text) :=
  decidable_of_iff (text.all (!isBlank ·) = true) (by simp [NoBlank])

theorem noBlank_append {text after : List Char} (h : NoBlank text) (h' : NoBlank after) :
    NoBlank (text ++ after) := by
  intro c hc
  rcases List.mem_append.mp hc with hc | hc
  · exact h c hc
  · exact h' c hc

/-- The text is `core` with blanks around it, any number of them. -/
def Padded (core text : List Char) : Prop :=
  ∃ before after, (∀ c ∈ before, isBlank c = true) ∧ (∀ c ∈ after, isBlank c = true) ∧
    text = before ++ core ++ after

theorem padded_self (text : List Char) : Padded text text :=
  ⟨[], [], by simp, by simp, by simp⟩

theorem padded_trim (text : List Char) : Padded (trim text) text := by
  have hblank : ∀ cs : List Char, ∀ c ∈ cs.takeWhile isBlank, isBlank c = true :=
    fun cs c hc => List.mem_takeWhile_imp hc
  have hback : ∀ cs : List Char,
      (cs.reverse.dropWhile isBlank).reverse ++ (cs.reverse.takeWhile isBlank).reverse = cs := by
    intro cs
    rw [← List.reverse_append, List.takeWhile_append_dropWhile, List.reverse_reverse]
  refine ⟨text.takeWhile isBlank,
    ((text.dropWhile isBlank).reverse.takeWhile isBlank).reverse, hblank text, ?_, ?_⟩
  · intro c hc
    exact hblank _ c (List.mem_reverse.mp hc)
  · rw [trim, List.append_assoc, hback, List.takeWhile_append_dropWhile]

/-- Blanks are dropped up to a text without blanks, or to the end if that text is empty. -/
theorem dropWhile_isBlank_append {core after : List Char}
    (hcore : NoBlank core) (hafter : ∀ c ∈ after, isBlank c = true) :
    (core ++ after).dropWhile isBlank = if core = [] then [] else core ++ after := by
  cases core with
  | nil => exact List.dropWhile_eq_nil_iff.mpr hafter
  | cons c cs => simp [hcore c List.mem_cons_self]

/-- **A text without blanks is what trimming leaves of the texts that have it with blanks around
it**, and of no others. -/
theorem trim_eq_iff_padded {core text : List Char} (hcore : NoBlank core) :
    trim text = core ↔ Padded core text := by
  constructor
  · rintro rfl
    exact padded_trim text
  · rintro ⟨before, after, hbefore, hafter, rfl⟩
    rw [trim, List.append_assoc, List.dropWhile_append_of_pos hbefore,
      dropWhile_isBlank_append hcore hafter]
    split
    · next h =>
      rw [h]
      rfl
    · next h =>
      have hrev : NoBlank core.reverse := fun c hc => hcore c (List.mem_reverse.mp hc)
      have hdrop := @dropWhile_isBlank_append core.reverse [] hrev (by simp)
      rw [List.append_nil, if_neg (by simpa)] at hdrop
      rw [List.reverse_append, List.dropWhile_append_of_pos (by simpa using hafter), hdrop,
        List.reverse_reverse]

end PinBench.Text
