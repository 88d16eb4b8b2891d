import PinBench.Listing.Receiver
import PinBench.Proofs.Text.Utf8
import Mathlib.Data.List.Infix

/-!
# The marker in a text

No beginning of the marker is an end of it too, and so two markers never overlap: what was cut off
of a marker is not found again in what stands around it.

* `Marked`: the marker stands somewhere in a text; `MarkedOnce`: it does so at one place only.
* `marker_border`: **the marker does not overlap with itself**.
* `not_marked_append_begun`, `not_marked_rest_append`: a part of a marker is none.
* `lastMarked_append`: the last marker is found.
* `overflow_append`: **what is kept of a text with one marker**; `overflow_of_not_marked`: nothing
  of a text without.
-/

namespace PinBench

/-- Two ways to divide a text: the first part of the one reaches as far as that of the other, or
falls short of it. -/
theorem append_eq_append_cases {a b c d : List Char} (h : a ++ b = c ++ d) :
    (∃ e, a = c ++ e ∧ d = e ++ b) ∨ ∃ e, e ≠ [] ∧ c = a ++ e ∧ b = e ++ d := by
  rcases List.append_eq_append_iff.mp h with ⟨e, hc, hb⟩ | h
  · by_cases he : e = []
    · subst he
      exact .inl ⟨[], by rw [hc, List.append_nil, List.append_nil], hb.symm⟩
    · exact .inr ⟨e, he, hc, hb⟩
  · exact .inl h

/-- The marker stands somewhere in the text. -/
def Marked (cs : List Char) : Prop := marker <:+: cs

instance (cs : List Char) : Decidable (Marked cs) := inferInstanceAs (Decidable (_ <:+: _))

/-- The marker stands at one place of the text. -/
def MarkedOnce (cs : List Char) : Prop := ∃! pre, pre ++ marker <+: cs

theorem length_marker : marker.length = 17 := by decide

theorem marker_ne_nil : marker ≠ [] := by decide

theorem hasMarker_iff {cs : List Char} : hasMarker cs = true ↔ Marked cs := by
  induction cs with
  | nil => exact iff_of_false Bool.false_ne_true fun h => marker_ne_nil (List.infix_nil.mp h)
  | cons c cs ih =>
    rw [hasMarker, Bool.or_eq_true, List.isPrefixOf_iff_prefix, ih]
    exact List.infix_cons_iff.symm

variable {cs ds pre post m₁ m₂ : List Char}

theorem Marked.mono (h : Marked cs) (h' : cs <:+: ds) : Marked ds := h.trans h'

/-- **The marker does not overlap with itself.** -/
theorem marker_border (h : m₁ <+: marker) (h' : m₁ <:+ marker) : m₁ = [] ∨ m₁ = marker := by
  have all : ∀ n < marker.length + 1, marker.take n <:+ marker → n = 0 ∨ n = marker.length := by
    decide
  have hm : m₁ = marker.take m₁.length := List.prefix_iff_eq_take.mp h
  rcases all m₁.length (Nat.lt_succ_of_le h.length_le) (hm ▸ h') with h₀ | h₁
  · exact .inl (List.eq_nil_of_length_eq_zero h₀)
  · exact .inr (h.eq_of_length h₁)

/-- The beginning of a marker makes none with what stands before it. -/
theorem not_marked_append_begun (hpre : ¬Marked pre) (hm : m₁ ++ m₂ = marker) (h₂ : m₂ ≠ []) :
    ¬Marked (pre ++ m₁) := by
  intro h
  rcases List.infix_append_iff_ne_nil.mp h with h | h | ⟨n₁, n₂, hn₁, hn₂, hn, -, hpref⟩
  · exact hpre h
  · have hlen := h.length_le
    rw [← hm, List.length_append] at hlen
    exact h₂ (List.eq_nil_of_length_eq_zero (by omega))
  · have hpref : n₂ <+: marker := hpref.trans ⟨m₂, hm⟩
    rcases marker_border hpref ⟨n₁, hn.symm⟩ with h₀ | h₁
    · exact hn₂ h₀
    · exact hn₁ (List.append_left_eq_self.mp (hn.symm.trans h₁.symm))

/-- The end of a marker makes none with what stands behind it. -/
theorem not_marked_rest_append (hpost : ¬Marked post) (hm : m₁ ++ m₂ = marker) (h₁ : m₁ ≠ []) :
    ¬Marked (m₂ ++ post) := by
  intro h
  rcases List.infix_append_iff_ne_nil.mp h with h | h | ⟨n₁, n₂, hn₁, hn₂, hn, hsuff, -⟩
  · have hlen := h.length_le
    rw [← hm, List.length_append] at hlen
    exact h₁ (List.eq_nil_of_length_eq_zero (by omega))
  · exact hpost h
  · have hsuff : n₁ <:+ marker := hsuff.trans ⟨m₁, hm⟩
    rcases marker_border ⟨n₂, hn.symm⟩ hsuff with h₀ | h₁
    · exact hn₁ h₀
    · exact hn₂ (List.append_right_eq_self.mp (hn.symm.trans h₁.symm))

/-- No marker is left behind a part of the last one. -/
theorem not_marked_behind {e : List Char} (hpost : ¬Marked post)
    (h : marker ++ post = e ++ ds) (he : e ≠ []) : ¬Marked ds := by
  rcases append_eq_append_cases h.symm with ⟨k, -, rfl⟩ | ⟨k, -, hm, rfl⟩
  · exact fun hm => hpost (hm.mono List.infix_append_right)
  · exact not_marked_rest_append hpost hm.symm he

/-- A line feed keeps markers apart. -/
theorem marked_append_lineFeed_iff : Marked (cs ++ '\n' :: ds) ↔ Marked cs ∨ Marked ds := by
  have hlf : '\n' ∉ marker := by decide
  constructor
  · intro h
    rcases List.infix_append_iff_ne_nil.mp h with h | h | ⟨n₁, n₂, -, hn₂, hn, -, hpref⟩
    · exact .inl h
    · rcases List.infix_cons_iff.mp h with h | h
      · exact absurd (List.cons_prefix_cons.mp h).1 (by decide)
      · exact .inr h
    · obtain ⟨c, n₂, rfl⟩ := List.exists_cons_of_ne_nil hn₂
      obtain rfl := (List.cons_prefix_cons.mp hpref).1
      exact absurd (hn ▸ List.mem_append_right n₁ List.mem_cons_self) hlf
  · rintro (h | h)
    · exact h.mono (List.infix_append_left)
    · exact h.mono ((List.infix_cons List.infix_rfl).trans List.infix_append_right)

theorem MarkedOnce.exists_eq (h : MarkedOnce cs) (hpre : pre ++ marker <+: cs) :
    ∃ post, cs = pre ++ (marker ++ post) ∧ ¬Marked pre ∧ ¬Marked post := by
  obtain ⟨post, rfl⟩ := hpre
  have hu : ∀ x y, x ++ (marker ++ y) = pre ++ marker ++ post → x.length = pre.length :=
    fun x y hx => congrArg List.length
      (h.unique ⟨y, (List.append_assoc ..).trans hx⟩ (List.prefix_append _ post))
  refine ⟨post, List.append_assoc .., ?_, ?_⟩
  · rintro ⟨x, y, rfl⟩
    have hlen := hu x (y ++ (marker ++ post)) (by simp only [List.append_assoc])
    rw [List.length_append, List.length_append, length_marker] at hlen
    omega
  · rintro ⟨x, y, rfl⟩
    have hlen := hu (pre ++ marker ++ x) y (by simp only [List.append_assoc])
    rw [List.length_append, List.length_append, length_marker] at hlen
    omega

/-- A text with one marker is what stands before it, the marker, and what stands behind. -/
theorem markedOnce_iff :
    MarkedOnce cs ↔ ∃ pre post, cs = pre ++ (marker ++ post) ∧ ¬Marked pre ∧ ¬Marked post := by
  constructor
  · rintro ⟨pre, hpre, hu⟩
    obtain ⟨post, h⟩ := MarkedOnce.exists_eq ⟨pre, hpre, hu⟩ hpre
    exact ⟨pre, post, h⟩
  · rintro ⟨pre, post, rfl, hpre, hpost⟩
    refine ⟨pre, ⟨post, List.append_assoc ..⟩, ?_⟩
    rintro x ⟨y, hxy⟩
    rw [List.append_assoc] at hxy
    rcases append_eq_append_cases hxy with ⟨e, rfl, he⟩ | ⟨e, hne, rfl, he⟩
    · by_cases hne : e = []
      · rw [hne, List.append_nil]
      · exact absurd List.infix_append_left (not_marked_behind hpost he hne)
    · rcases append_eq_append_cases he.symm with ⟨k, rfl, -⟩ | ⟨k, hk, hm, he⟩
      · exact absurd (List.infix_append' x marker k) hpre
      · -- the rest of the one marker would be the beginning of the other
        have hlen : k.length ≤ marker.length := by
          rw [hm, List.length_append]
          exact Nat.le_add_left _ _
        have hpref : k <+: marker :=
          List.prefix_of_prefix_length_le ⟨y, he.symm⟩ (List.prefix_append marker post) hlen
        rcases marker_border hpref ⟨e, hm.symm⟩ with h₀ | h₁
        · exact absurd h₀ hk
        · rw [h₁] at hm
          exact absurd (List.append_left_eq_self.mp hm.symm) hne

/-! ## The length in bytes -/

theorem foldl_utf8Size (n : Nat) (cs : List Char) :
    cs.foldl (fun n c => n + c.utf8Size) n = n + byteLength cs := by
  induction cs generalizing n with
  | nil => rfl
  | cons c cs ih =>
    rw [byteLength, List.foldl_cons, List.foldl_cons, ih, ih, Nat.zero_add, Nat.add_assoc]

@[simp] theorem byteLength_cons (c : Char) (cs : List Char) :
    byteLength (c :: cs) = c.utf8Size + byteLength cs := by
  rw [byteLength, List.foldl_cons, foldl_utf8Size, Nat.zero_add]

@[simp] theorem byteLength_append (cs ds : List Char) :
    byteLength (cs ++ ds) = byteLength cs + byteLength ds := by
  rw [byteLength, List.foldl_append, foldl_utf8Size]
  rfl

theorem byteLength_le_of_suffix (h : cs <:+ ds) : byteLength cs ≤ byteLength ds := by
  obtain ⟨x, rfl⟩ := h
  rw [byteLength_append]
  exact Nat.le_add_left _ _

/-! ## Overflow -/

theorem lastMarked_of_not_marked (found : Option (List Char)) (h : ¬Marked cs) :
    lastMarked found cs = found := by
  induction cs with
  | nil => rfl
  | cons c cs ih =>
    have hc : ¬marker.isPrefixOf (c :: cs) := fun hp =>
      h (List.isPrefixOf_iff_prefix.mp hp).isInfix
    rw [lastMarked, if_neg hc]
    exact ih fun hm => h (hm.mono (List.infix_cons List.infix_rfl))

/-- The last marker is found, if there is none behind it. -/
theorem lastMarked_append (found : Option (List Char)) (pre : List Char) (hpost : ¬Marked post) :
    lastMarked found (pre ++ (marker ++ post)) = some (marker ++ post) := by
  induction pre generalizing found with
  | nil =>
    obtain ⟨c, m, hm⟩ := List.exists_cons_of_ne_nil marker_ne_nil
    have hp : marker.isPrefixOf (c :: (m ++ post)) := by
      rw [List.isPrefixOf_iff_prefix, hm]
      exact List.prefix_append _ post
    rw [List.nil_append, hm, List.cons_append, lastMarked, if_pos hp]
    have hm' : [c] ++ m = marker := hm.symm
    exact lastMarked_of_not_marked _ (not_marked_rest_append hpost hm' (List.cons_ne_nil _ _))
  | cons c pre ih => exact ih _

theorem suffix_of_lastMarked {found : Option (List Char)} {kept : List Char}
    (h : lastMarked found cs = some kept) : found = some kept ∨ kept <:+ cs := by
  induction cs generalizing found with
  | nil => exact .inl h
  | cons c cs ih =>
    rcases ih h with hf | hs
    · split_ifs at hf
      · exact .inr (Option.some.inj hf ▸ List.suffix_refl _)
      · exact .inl hf
    · exact .inr (hs.trans (List.suffix_cons c cs))

theorem overflow_of_le (h : byteLength cs ≤ capacity) : overflow cs = cs := if_pos h

/-- What is kept of a text is its end. -/
theorem overflow_suffix (cs : List Char) : overflow cs <:+ cs := by
  unfold overflow
  split_ifs
  · exact List.suffix_refl cs
  · cases hk : lastMarked none cs with
    | none => exact List.nil_suffix
    | some kept =>
      dsimp only
      split_ifs
      · exact (suffix_of_lastMarked hk).resolve_left nofun
      · exact List.nil_suffix

/-- Nothing is kept of a text without a marker. -/
theorem overflow_of_not_marked (h : ¬Marked cs) (hl : capacity < byteLength cs) :
    overflow cs = [] := by
  rw [overflow, if_neg (Nat.not_le.mpr hl), lastMarked_of_not_marked none h]

/-- **Of a text with a marker, the text is kept from the marker on**, if there is none behind. -/
theorem overflow_append (pre : List Char) (hpost : ¬Marked post)
    (hl : byteLength (marker ++ post) ≤ capacity) :
    ∃ pre', pre' <:+ pre ∧ overflow (pre ++ (marker ++ post)) = pre' ++ (marker ++ post) := by
  unfold overflow
  split_ifs
  · exact ⟨pre, List.suffix_refl pre, rfl⟩
  · rw [lastMarked_append none pre hpost]
    exact ⟨[], List.nil_suffix, if_pos hl⟩

end PinBench
