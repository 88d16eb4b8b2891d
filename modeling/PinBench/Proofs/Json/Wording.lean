import PinBench.Json.Outline
import PinBench.Proofs.Json.Token

/-!
# Texts of JSON

A text of JSON is a value with all that is left to its writer: blanks between the tokens, and the
spelling of strings and numbers.

* `Gap`: blanks; `MemberName`: a name with the blanks around it.
* `Wording`: a value as it is written, with its `text`.
* `Wording.outline`: the same as a reader meets it.
* `Wording.run_text`: **the text of a value takes a reader that wants a value past it**, whatever
  follows.  A list or an object goes part by part, each with what has been read of its bracket so
  far.
* `Wording.read_text`: **the text of a value is read as that value**.
* `Wording.hold_outline`: **a value can be held back** if all its numbers have values and not too
  many of its brackets are open at once.
-/

namespace PinBench.Json

/-- Blanks between two tokens. -/
structure Gap where
  chars : List Char
  blank : ∀ c ∈ chars, isGap c = true

/-- The name of a member as it is written, with the blanks around it. -/
structure MemberName where
  before : Gap
  spelling : Spelling
  after : Gap

def MemberName.text (n : MemberName) : List Char :=
  n.before.chars ++ (n.spelling.text ++ n.after.chars)

/-- A value as it is written. -/
inductive Wording where
  | null
  | bool (b : Bool)
  | num (f : Figure)
  | str (w : Spelling)
  /-- The blanks stand after the bracket. -/
  | arr (gap : Gap) (items : List Wording)
  | obj (gap : Gap) (members : List (MemberName × Wording))
  | spaced (before : Gap) (value : Wording) (after : Gap)

namespace Wording

mutual

def text : Wording → List Char
  | null => "null".toList
  | bool true => "true".toList
  | bool false => "false".toList
  | num f => f.text
  | str w => w.text
  | arr gap items => '[' :: (gap.chars ++ (separated (itemTexts items) ++ [']']))
  | obj gap members => '{' :: (gap.chars ++ (separated (memberTexts members) ++ ['}']))
  | spaced before w after => before.chars ++ (text w ++ after.chars)

def itemTexts : List Wording → List (List Char)
  | [] => []
  | w :: ws => text w :: itemTexts ws

def memberTexts : List (MemberName × Wording) → List (List Char)
  | [] => []
  | (key, w) :: ms => (key.text ++ ':' :: text w) :: memberTexts ms

end

mutual

/-- A value as a reader meets it, with no bracket left open. -/
def outline : Wording → Outline
  | null => .null
  | bool b => .bool b
  | num f => .num (Token.number f.literal)
  | str w => .str (.ok w.string)
  | arr _ items => .arr (itemOutlines items) none
  | obj _ members => .obj (memberOutlines members) none
  | spaced _ w _ => outline w

def itemOutlines : List Wording → List Outline
  | [] => []
  | w :: ws => outline w :: itemOutlines ws

def memberOutlines : List (MemberName × Wording) → List (Key × Outline)
  | [] => []
  | (key, w) :: ms => (.ok key.spelling.string, outline w) :: memberOutlines ms

end

mutual

/-- All numbers of a value. -/
def numbers : Wording → List Literal
  | num f => [f.literal]
  | arr _ items => itemNumbers items
  | obj _ members => memberNumbers members
  | spaced _ w _ => numbers w
  | _ => []

def itemNumbers : List Wording → List Literal
  | [] => []
  | w :: ws => numbers w ++ itemNumbers ws

def memberNumbers : List (MemberName × Wording) → List Literal
  | [] => []
  | (_, w) :: ms => numbers w ++ memberNumbers ms

end

mutual

/-- How many brackets are open at once within a value. -/
def depth : Wording → Nat
  | arr _ items => itemDepth items + 1
  | obj _ members => memberDepth members + 1
  | spaced _ w _ => depth w
  | _ => 0

def itemDepth : List Wording → Nat
  | [] => 0
  | w :: ws => max (depth w) (itemDepth ws)

def memberDepth : List (MemberName × Wording) → Nat
  | [] => 0
  | (_, w) :: ms => max (depth w) (memberDepth ms)

end

end Wording

/-! ## Stages -/

theorem Token.next?_gap (g : Gap) (cs : List Char) : next? (g.chars ++ cs) = next? cs := by
  simp only [next?, List.dropWhile_append_of_pos g.blank]

namespace Stage

theorem run_of_next {cs rest : List Char} {t : Token} (h : Token.next? cs = some (t, rest))
    (s : Stage) : s.run cs = (s.step t).run rest := by
  rw [run.eq_def]
  split
  · next hn =>
    rw [h] at hn
    cases hn
  · next hn =>
    rw [h] at hn
    cases hn
    rfl

theorem run_of_no_next {cs : List Char} (h : Token.next? cs = none) (s : Stage) : s.run cs = s := by
  rw [run.eq_def]
  split
  · rfl
  · next hn =>
    rw [h] at hn
    cases hn

theorem run_nil (s : Stage) : s.run [] = s := run_of_no_next rfl s

/-- Blanks are passed over. -/
theorem run_gap (s : Stage) (g : Gap) (cs : List Char) : s.run (g.chars ++ cs) = s.run cs := by
  cases h : Token.next? cs with
  | none => rw [run_of_no_next h, run_of_no_next ((Token.next?_gap g cs).trans h)]
  | some x => rw [run_of_next h, run_of_next ((Token.next?_gap g cs).trans h)]

/-- A value may come next, within the brackets `around`. -/
def WantsValue (s : Stage) (around : List Frame) : Prop :=
  ∀ t, t ≠ .closeArray → s.step t = stepValue around t

/-- The name of a member may come next. -/
def WantsName (s : Stage) (parts : List (Key × Outline)) (around : List Frame) : Prop :=
  ∀ key, s.step (.str key) = colon parts key around

theorem wantsValue_value (around : List Frame) : (value around).WantsValue around :=
  fun _ _ => rfl

theorem wantsValue_first (parts : List Outline) (around : List Frame) :
    (first (.items parts) around).WantsValue (.item parts :: around) := by
  intro t ht
  cases t with
  | closeArray => exact absurd rfl ht
  | _ => rfl

theorem WantsValue.run {s : Stage} {around : List Frame} (hs : s.WantsValue around)
    {cs rest : List Char} {t : Token} (h : Token.next? cs = some (t, rest)) (ht : t ≠ .closeArray) :
    s.run cs = (stepValue around t).run rest := by
  rw [run_of_next h, hs t ht]

theorem wantsName_first (parts : List (Key × Outline)) (around : List Frame) :
    (first (.members parts) around).WantsName parts around :=
  fun _ => rfl

theorem wantsName_name (parts : List (Key × Outline)) (around : List Frame) :
    (name parts around).WantsName parts around :=
  fun _ => rfl

/-- A name and its colon take a reader that wants a name to the value. -/
theorem WantsName.run {s : Stage} {parts : List (Key × Outline)} {around : List Frame}
    (hs : s.WantsName parts around) (n : MemberName) (cs : List Char) :
    s.run (n.text ++ ':' :: cs) =
      (value (.member parts (.ok n.spelling.string) :: around)).run cs := by
  have htext : n.text ++ ':' :: cs =
      n.before.chars ++ (n.spelling.text ++ (n.after.chars ++ ':' :: cs)) := by
    simp [MemberName.text]
  rw [htext, run_gap, run_of_next (Token.next?_spelling _ _), hs, run_gap,
    run_of_next (t := .colon) rfl]
  rfl

end Stage

open Stage

theorem ends_cons {c : Char} (h : c.isDigit = false ∧ c ≠ '.' ∧ c ≠ 'e' ∧ c ≠ 'E')
    (cs : List Char) : Ends (c :: cs) := by
  intro d hd
  cases hd
  exact h

theorem ends_gap {rest : List Char} (g : Gap) (h : Ends rest) : Ends (g.chars ++ rest) := by
  obtain ⟨cs, hcs⟩ := g
  cases cs with
  | nil => exact h
  | cons c cs =>
    refine ends_cons ?_ _
    have hc := hcs c List.mem_cons_self
    simp only [isGap, Bool.or_eq_true, decide_eq_true_eq] at hc
    rcases hc with ((rfl | rfl) | rfl) | rfl <;> decide

/-! ## Reading -/

namespace Wording

mutual

/-- **The text of a value takes a reader that wants a value past it.** -/
theorem run_text : ∀ (w : Wording) {s : Stage} {around : List Frame},
    s.WantsValue around → ∀ {rest : List Char}, Ends rest →
    s.run (w.text ++ rest) = (accept w.outline around).run rest
  | null, s, around, hs, rest, _ => by
    rw [text, hs.run (Token.next?_null rest) nofun, outline]
    rfl
  | bool true, s, around, hs, rest, _ => by
    rw [text, hs.run (Token.next?_true rest) nofun, outline]
    rfl
  | bool false, s, around, hs, rest, _ => by
    rw [text, hs.run (Token.next?_false rest) nofun, outline]
    rfl
  | num f, s, around, hs, rest, hr => by
    rw [text, hs.run (Token.next?_figure f hr) nofun, outline]
    rfl
  | str x, s, around, hs, rest, _ => by
    rw [text, hs.run (Token.next?_spelling x rest) nofun, outline]
    rfl
  | arr gap items, s, around, hs, rest, hr => by
    have hopen : s.run ((arr gap items).text ++ rest) =
        (first (.items []) around).run (separated (itemTexts items) ++ ']' :: rest) := by
      have htext : (arr gap items).text ++ rest =
          '[' :: (gap.chars ++ (separated (itemTexts items) ++ ']' :: rest)) := by
        simp [text]
      rw [htext, hs.run (t := .openArray) rfl nofun]
      exact run_gap _ gap _
    rw [hopen, outline]
    cases items with
    | nil => exact run_of_next (t := .closeArray) rfl _
    | cons w ws => exact run_items (w :: ws) (by simp) (wantsValue_first [] around)
  | obj gap members, s, around, hs, rest, hr => by
    have hopen : s.run ((obj gap members).text ++ rest) =
        (first (.members []) around).run (separated (memberTexts members) ++ '}' :: rest) := by
      have htext : (obj gap members).text ++ rest =
          '{' :: (gap.chars ++ (separated (memberTexts members) ++ '}' :: rest)) := by
        simp [text]
      rw [htext, hs.run (t := .openObject) rfl nofun]
      exact run_gap _ gap _
    rw [hopen, outline]
    cases members with
    | nil => exact run_of_next (t := .closeObject) rfl _
    | cons m ms => exact run_members (m :: ms) (by simp) (wantsName_first [] around)
  | spaced before w after, s, around, hs, rest, hr => by
    have htext : (spaced before w after).text ++ rest =
        before.chars ++ (w.text ++ (after.chars ++ rest)) := by
      simp [text]
    rw [htext, run_gap, run_text w hs (ends_gap after hr), run_gap, outline]

/-- The items of a list, up to its end, after `parts`. -/
theorem run_items : ∀ (ws : List Wording), ws ≠ [] →
    ∀ {s : Stage} {parts : List Outline} {around : List Frame},
    s.WantsValue (.item parts :: around) → ∀ {rest : List Char},
    s.run (separated (itemTexts ws) ++ ']' :: rest) =
      (accept (.arr (parts.reverse ++ itemOutlines ws) none) around).run rest
  | [], hne, _, _, _, _, _ => absurd rfl hne
  | [w], _, s, parts, around, hs, rest => by
    rw [itemTexts, itemTexts, separated, run_text w hs (ends_cons (by decide) rest),
      run_of_next (t := .closeArray) rfl]
    simp [accept, Frame.add, step, itemOutlines]
  | w :: x :: ws, _, s, parts, around, hs, rest => by
    have htext : separated (itemTexts (w :: x :: ws)) ++ ']' :: rest =
        w.text ++ ',' :: (separated (itemTexts (x :: ws)) ++ ']' :: rest) := by
      simp [itemTexts, separated]
    have hnext : (accept w.outline (.item parts :: around)).run
        (',' :: (separated (itemTexts (x :: ws)) ++ ']' :: rest)) =
          (value (.item (w.outline :: parts) :: around)).run
            (separated (itemTexts (x :: ws)) ++ ']' :: rest) :=
      run_of_next (t := .comma) rfl _
    rw [htext, run_text w hs (ends_cons (by decide) _), hnext,
      run_items (x :: ws) (by simp) (wantsValue_value _)]
    simp [itemOutlines]

/-- The members of an object, likewise. -/
theorem run_members : ∀ (ms : List (MemberName × Wording)), ms ≠ [] →
    ∀ {s : Stage} {parts : List (Key × Outline)} {around : List Frame},
    s.WantsName parts around → ∀ {rest : List Char},
    s.run (separated (memberTexts ms) ++ '}' :: rest) =
      (accept (.obj (parts.reverse ++ memberOutlines ms) none) around).run rest
  | [], hne, _, _, _, _, _ => absurd rfl hne
  | [(key, w)], _, s, parts, around, hs, rest => by
    have htext : separated (memberTexts [(key, w)]) ++ '}' :: rest =
        key.text ++ ':' :: (w.text ++ '}' :: rest) := by
      simp [memberTexts, separated]
    rw [htext, hs.run, run_text w (wantsValue_value _) (ends_cons (by decide) rest),
      run_of_next (t := .closeObject) rfl]
    simp [accept, Frame.add, step, memberOutlines]
  | (key, w) :: m :: ms, _, s, parts, around, hs, rest => by
    have htext : separated (memberTexts ((key, w) :: m :: ms)) ++ '}' :: rest =
        key.text ++ ':' ::
          (w.text ++ ',' :: (separated (memberTexts (m :: ms)) ++ '}' :: rest)) := by
      obtain ⟨key', x⟩ := m
      simp [memberTexts, separated]
    have hnext : (accept w.outline (.member parts (.ok key.spelling.string) :: around)).run
        (',' :: (separated (memberTexts (m :: ms)) ++ '}' :: rest)) =
          (Stage.name ((.ok key.spelling.string, w.outline) :: parts) around).run
            (separated (memberTexts (m :: ms)) ++ '}' :: rest) :=
      run_of_next (t := .comma) rfl _
    rw [htext, hs.run, run_text w (wantsValue_value _) (ends_cons (by decide) _), hnext,
      run_members (m :: ms) (by simp) (wantsName_name _ _)]
    simp [memberOutlines]

end

/-- **The text of a value is read as that value**, and nothing follows it. -/
theorem read_text (w : Wording) : Document.read w.text = ⟨w.outline, false⟩ := by
  have hends : Ends [] := nofun
  have hrun := run_text w (wantsValue_value []) hends
  rw [List.append_nil, run_nil] at hrun
  unfold Document.read
  rw [hrun]
  rfl

/-! ## Holding back -/

/-- All numbers have values. -/
def Valued (ls : List Literal) : Prop := ∀ l ∈ ls, l.value?.isSome

theorem valued_append {ls ms : List Literal} : Valued (ls ++ ms) ↔ Valued ls ∧ Valued ms :=
  List.forall_mem_append

mutual

/-- **A value can be held back** if all its numbers have values and there is room for its
brackets. -/
theorem hold_outline : ∀ (w : Wording), Valued w.numbers → ∀ {room : Nat}, w.depth ≤ room →
    w.outline.hold room = .ok ()
  | null, _, room, _ => by rw [outline, Outline.hold]
  | bool b, _, room, _ => by rw [outline, Outline.hold]
  | str x, _, room, _ => by
    rw [outline, Outline.hold]
    rfl
  | num f, hn, room, _ => by
    obtain ⟨n, hn⟩ := Option.isSome_iff_exists.mp (hn f.literal (by simp [numbers]))
    rw [outline, Outline.hold, Token.number, hn]
    rfl
  | arr gap items, hn, room, hd => by
    obtain ⟨room, rfl⟩ : ∃ k, room = k + 1 := ⟨room - 1, by rw [depth] at hd; omega⟩
    rw [depth, Nat.add_le_add_iff_right] at hd
    rw [numbers] at hn
    rw [outline, Outline.hold, hold_items items hn hd]
    rfl
  | obj gap members, hn, room, hd => by
    obtain ⟨room, rfl⟩ : ∃ k, room = k + 1 := ⟨room - 1, by rw [depth] at hd; omega⟩
    rw [depth, Nat.add_le_add_iff_right] at hd
    rw [numbers] at hn
    rw [outline, Outline.hold, hold_members members hn hd]
    rfl
  | spaced before w after, hn, room, hd => by
    rw [numbers] at hn
    rw [depth] at hd
    rw [outline, hold_outline w hn hd]

theorem hold_items : ∀ (ws : List Wording), Valued (itemNumbers ws) → ∀ {room : Nat},
    itemDepth ws ≤ room → Outline.holdItems room (itemOutlines ws) = .ok ()
  | [], _, room, _ => by rw [itemOutlines, Outline.holdItems]
  | w :: ws, hn, room, hd => by
    rw [itemNumbers, valued_append] at hn
    rw [itemDepth, Nat.max_le] at hd
    rw [itemOutlines, Outline.holdItems, hold_outline w hn.1 hd.1, ok_bind,
      hold_items ws hn.2 hd.2]

theorem hold_members : ∀ (ms : List (MemberName × Wording)), Valued (memberNumbers ms) →
    ∀ {room : Nat}, memberDepth ms ≤ room → Outline.holdMembers room (memberOutlines ms) = .ok ()
  | [], _, room, _ => by rw [memberOutlines, Outline.holdMembers]
  | (key, w) :: ms, hn, room, hd => by
    rw [memberNumbers, valued_append] at hn
    rw [memberDepth, Nat.max_le] at hd
    rw [memberOutlines, Outline.holdMembers, ok_bind, hold_outline w hn.1 hd.1, ok_bind,
      hold_members ms hn.2 hd.2]

end

end Wording

end PinBench.Json
