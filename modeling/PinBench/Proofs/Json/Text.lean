import PinBench.Proofs.Json.Wording

/-!
# Written texts are read as what was written

* `Json.outline`: a value as a reader meets it, whole.
* `Json.Fits`: every number of a value has 64 bits.
* `Wording.of`: a value as the writer writes it.
* `Document.read_text`: **a written text is read as the value that was written**.
* `Json.printable_text`: **a written text has no control characters**, and so no line feeds.
-/

namespace PinBench.Json

/-! ## Values as they are met -/

mutual

/-- A value as a reader meets it, with no bracket left open. -/
def outline : Json → Outline
  | null => .null
  | bool b => .bool b
  | int n => .num (.ok (.whole n))
  | str s => .str (.ok s)
  | arr items => .arr (itemOutlines items) none
  | obj members => .obj (memberOutlines members) none

def itemOutlines : List Json → List Outline
  | [] => []
  | j :: js => outline j :: itemOutlines js

def memberOutlines : List (String × Json) → List (Key × Outline)
  | [] => []
  | (name, j) :: ms => (.ok name, outline j) :: memberOutlines ms

end

mutual

/-- Every number of the value has 64 bits. -/
def Fits : Json → Prop
  | int n => Literal.InRange n
  | arr items => ItemsFit items
  | obj members => MembersFit members
  | _ => True

def ItemsFit : List Json → Prop
  | [] => True
  | j :: js => Fits j ∧ ItemsFit js

def MembersFit : List (String × Json) → Prop
  | [] => True
  | (_, j) :: ms => Fits j ∧ MembersFit ms

end

/-! ## Reading -/

def Gap.none : Gap := ⟨[], nofun⟩

namespace Wording

mutual

/-- A value as the writer writes it. -/
def of : Json → Wording
  | .null => null
  | .bool b => bool b
  | .int n => num (.ofInt n)
  | .str s => str (.of s)
  | .arr items => arr .none (itemsOf items)
  | .obj members => obj .none (membersOf members)

def itemsOf : List Json → List Wording
  | [] => []
  | j :: js => of j :: itemsOf js

def membersOf : List (String × Json) → List (MemberName × Wording)
  | [] => []
  | (name, j) :: ms => (⟨.none, .of name, .none⟩, of j) :: membersOf ms

end

mutual

theorem text_of : ∀ j : Json, (of j).text = j.text
  | .null => by rw [of, text, Json.text]
  | .bool true => by rw [of, text, Json.text]
  | .bool false => by rw [of, text, Json.text]
  | .int n => by rw [of, text, Json.text, Figure.text_ofInt]
  | .str s => by rw [of, text, Json.text, Spelling.text_of]
  | .arr items => by
    rw [of, text, Json.text, itemTexts_of items]
    rfl
  | .obj members => by
    rw [of, text, Json.text, memberTexts_of members]
    rfl

theorem itemTexts_of : ∀ js : List Json, itemTexts (itemsOf js) = Json.itemTexts js
  | [] => by rw [itemsOf, itemTexts, Json.itemTexts]
  | j :: js => by rw [itemsOf, itemTexts, Json.itemTexts, text_of j, itemTexts_of js]

theorem memberTexts_of : ∀ ms : List (String × Json),
    memberTexts (membersOf ms) = Json.memberTexts ms
  | [] => by rw [membersOf, memberTexts, Json.memberTexts]
  | (name, j) :: ms => by
    have hname : MemberName.text ⟨.none, .of name, .none⟩ = quoted name := by
      simp [MemberName.text, Gap.none, Spelling.text_of]
    rw [membersOf, memberTexts, Json.memberTexts, text_of j, memberTexts_of ms, hname]

end

mutual

theorem outline_of : ∀ j : Json, j.Fits → (of j).outline = j.outline
  | .null, _ => by rw [of, outline, Json.outline]
  | .bool b, _ => by rw [of, outline, Json.outline]
  | .int n, hn => by
    rw [Fits] at hn
    rw [of, outline, Json.outline, Token.number]
    show Outline.num (match (Literal.ofInt n).value? with
      | some n => .ok n
      | none => .error .malformed) = _
    rw [Literal.value?_ofInt hn]
  | .str s, _ => by rw [of, outline, Json.outline, Spelling.string_of]
  | .arr items, hfit => by
    rw [Fits] at hfit
    rw [of, outline, Json.outline, itemOutlines_of items hfit]
  | .obj members, hfit => by
    rw [Fits] at hfit
    rw [of, outline, Json.outline, memberOutlines_of members hfit]

theorem itemOutlines_of : ∀ js : List Json, ItemsFit js →
    itemOutlines (itemsOf js) = Json.itemOutlines js
  | [], _ => by rw [itemsOf, itemOutlines, Json.itemOutlines]
  | j :: js, hfit => by
    rw [ItemsFit] at hfit
    rw [itemsOf, itemOutlines, Json.itemOutlines, outline_of j hfit.1, itemOutlines_of js hfit.2]

theorem memberOutlines_of : ∀ ms : List (String × Json), MembersFit ms →
    memberOutlines (membersOf ms) = Json.memberOutlines ms
  | [], _ => by rw [membersOf, memberOutlines, Json.memberOutlines]
  | (name, j) :: ms, hfit => by
    rw [MembersFit] at hfit
    rw [membersOf, memberOutlines, Json.memberOutlines, outline_of j hfit.1,
      memberOutlines_of ms hfit.2, Spelling.string_of]

end

end Wording

/-- **A written text is read as the value that was written**, and nothing follows it. -/
theorem Document.read_text {j : Json} (h : j.Fits) : Document.read j.text = ⟨j.outline, false⟩ := by
  rw [← Wording.text_of, Wording.read_text, Wording.outline_of j h]

/-! ## What is never written -/

/-- A text without control characters. -/
def Printable (cs : List Char) : Prop := ∀ c ∈ cs, 0x20 ≤ c.toNat

instance (cs : List Char) : Decidable (Printable cs) :=
  List.decidableBAll _ cs

theorem printable_append {cs ds : List Char} :
    Printable (cs ++ ds) ↔ Printable cs ∧ Printable ds :=
  List.forall_mem_append

theorem printable_cons {c : Char} {cs : List Char} :
    Printable (c :: cs) ↔ 0x20 ≤ c.toNat ∧ Printable cs :=
  List.forall_mem_cons

theorem printable_escaped (c : Char) : Printable (escaped c) := by
  unfold escaped
  cases hs : shortEscape? c with
  | some e =>
    obtain ⟨-, he⟩ := unescape?_shortEscape hs
    intro d hd
    simp only [List.mem_cons, List.not_mem_nil, or_false] at hd
    rcases hd with rfl | rfl
    · decide
    · exact he
  | none =>
    by_cases hc : c.toNat < 0x20
    · have all : ∀ n : Fin 0x20,
          Printable ('\\' :: 'u' :: '0' :: '0' :: Text.hexPair n.val.toUInt8) := by
        decide +kernel
      rw [if_pos hc]
      exact all ⟨c.toNat, hc⟩
    · rw [if_neg hc]
      intro d hd
      rw [List.mem_singleton.mp hd]
      omega

theorem printable_quoted (s : String) : Printable (quoted s) := by
  have hbody : Printable (s.toList.flatMap escaped) := by
    intro d hd
    obtain ⟨c, -, hc⟩ := List.mem_flatMap.mp hd
    exact printable_escaped c d hc
  rw [quoted, List.cons_append, printable_cons, printable_append]
  exact ⟨by decide, hbody, by decide⟩

theorem printable_intText (n : Int) : Printable (intText n) := by
  have hdigits : Printable (Nat.toDigits 10 n.natAbs) := by
    intro c hc
    have hd := Nat.isDigit_of_mem_toDigits (by decide) (by decide) hc
    simp only [Char.isDigit, Bool.and_eq_true, decide_eq_true_eq] at hd
    exact Nat.le_trans (by decide) (UInt32.le_iff_toNat_le.mp hd.1)
  unfold intText
  split
  · exact printable_cons.mpr ⟨by decide, hdigits⟩
  · exact hdigits

theorem printable_separated {ps : List (List Char)} (h : ∀ p ∈ ps, Printable p) :
    Printable (separated ps) := by
  induction ps with
  | nil => nofun
  | cons p ps ih =>
    rw [List.forall_mem_cons] at h
    cases ps with
    | nil => exact h.1
    | cons q qs => exact printable_append.mpr ⟨h.1, printable_cons.mpr ⟨by decide, ih h.2⟩⟩

/-- Parts between two brackets. -/
theorem printable_bracketed {l r : Char} (hl : 0x20 ≤ l.toNat) (hr : 0x20 ≤ r.toNat)
    {ps : List (List Char)} (h : ∀ p ∈ ps, Printable p) :
    Printable (l :: separated ps ++ [r]) :=
  printable_append.mpr ⟨printable_cons.mpr ⟨hl, printable_separated h⟩,
    printable_cons.mpr ⟨hr, nofun⟩⟩

mutual

/-- **A written text has no control characters.** -/
theorem printable_text : ∀ j : Json, Printable j.text
  | null => by decide
  | bool true => by decide
  | bool false => by decide
  | int n => printable_intText n
  | str s => printable_quoted s
  | arr items => printable_bracketed (by decide) (by decide) (printable_itemTexts items)
  | obj members => printable_bracketed (by decide) (by decide) (printable_memberTexts members)

theorem printable_itemTexts : ∀ (js : List Json), ∀ p ∈ itemTexts js, Printable p
  | [] => nofun
  | j :: js => List.forall_mem_cons.mpr ⟨printable_text j, printable_itemTexts js⟩

theorem printable_memberTexts : ∀ (ms : List (String × Json)), ∀ p ∈ memberTexts ms, Printable p
  | [] => nofun
  | (key, j) :: ms => List.forall_mem_cons.mpr
    ⟨printable_append.mpr ⟨printable_quoted key, printable_cons.mpr ⟨by decide, printable_text j⟩⟩,
      printable_memberTexts ms⟩

end

end PinBench.Json
