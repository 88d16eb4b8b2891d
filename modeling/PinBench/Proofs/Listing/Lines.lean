import PinBench.Proofs.Listing.Marker

/-!
# Lines and listings

A text is a run of complete lines, each with a line feed behind it, and a last line that is under
way.  The first line that holds the marker decides which listing is found.

* `ended`: complete lines as a text; `exists_ended`: every text begins with its complete lines.
* `completeLines_ended_append`: **the complete lines are told apart**.
* `Listing`: a whole listing; `Listing.FirstIn`: it is the first one of a text.
* `listing?_eq_some_iff`: **what is found is the first listing of the text**.
* `listing?_append`: it is found all the same when more text follows.
* `listing?_unmarked_append`: **what stands before the marker does not matter**.
-/

namespace PinBench

/-- Complete lines as a text. -/
def ended (ls : List (List Char)) : List Char := ls.flatMap (· ++ ['\n'])

theorem ended_cons_append (l : List Char) (ls : List (List Char)) (cs : List Char) :
    ended (l :: ls) ++ cs = l ++ '\n' :: (ended ls ++ cs) := by
  simp [ended, List.append_assoc]

theorem infix_ended {l : List Char} {ls : List (List Char)} (h : l ∈ ls) : l <:+: ended ls :=
  List.infix_append_left.trans (List.infix_of_mem_flatten (List.mem_map_of_mem h))

/-- Every text is a run of complete lines and a line under way. -/
theorem exists_ended (cs : List Char) :
    ∃ ls last, cs = ended ls ++ last ∧ (∀ l ∈ ls, '\n' ∉ l) ∧ '\n' ∉ last := by
  induction cs with
  | nil => exact ⟨[], [], rfl, nofun, List.not_mem_nil⟩
  | cons c cs ih =>
    obtain ⟨ls, last, rfl, hls, hlast⟩ := ih
    by_cases hc : c = '\n'
    · subst hc
      exact ⟨[] :: ls, last, rfl, List.forall_mem_cons.mpr ⟨List.not_mem_nil, hls⟩, hlast⟩
    · have hmem : ∀ {l : List Char}, '\n' ∉ l → '\n' ∉ c :: l := fun h =>
        List.not_mem_cons_of_ne_of_not_mem (Ne.symm hc) h
      cases ls with
      | nil => exact ⟨[], c :: last, rfl, nofun, hmem hlast⟩
      | cons l ls =>
        obtain ⟨hl, hls⟩ := List.forall_mem_cons.mp hls
        exact ⟨(c :: l) :: ls, last, rfl, List.forall_mem_cons.mpr ⟨hmem hl, hls⟩, hlast⟩

/-! ## Complete lines -/

namespace Lines

theorem foldl_push_of_not_mem {l : List Char} (h : '\n' ∉ l) (s : Lines) :
    l.foldl push s = ⟨s.complete, l.reverse ++ s.last⟩ := by
  induction l generalizing s with
  | nil => rfl
  | cons c l ih =>
    obtain ⟨hc, hl⟩ := List.ne_and_not_mem_of_not_mem_cons h
    rw [List.foldl_cons, ih hl, push, if_neg hc.symm, List.reverse_cons, List.append_assoc]
    rfl

theorem complete_foldl_push (cs : List Char) (s : Lines) :
    (cs.foldl push s).complete = (cs.foldl push ⟨[], s.last⟩).complete ++ s.complete := by
  induction cs generalizing s with
  | nil => rfl
  | cons c cs ih =>
    rw [List.foldl_cons, List.foldl_cons, ih, ih (push ⟨[], s.last⟩ c)]
    unfold push
    split_ifs
    · exact (List.append_assoc _ [s.last.reverse] s.complete).symm
    · rw [List.append_nil]

end Lines

theorem completeLines_of_not_mem {cs : List Char} (h : '\n' ∉ cs) : completeLines cs = [] := by
  rw [completeLines, Lines.foldl_push_of_not_mem h]
  rfl

theorem completeLines_cons {l : List Char} (h : '\n' ∉ l) (cs : List Char) :
    completeLines (l ++ '\n' :: cs) = withoutReturn l :: completeLines cs := by
  have hl : (l ++ '\n' :: cs).foldl Lines.push ⟨[], []⟩ = cs.foldl Lines.push ⟨[l], []⟩ := by
    rw [List.foldl_append, Lines.foldl_push_of_not_mem h, List.foldl_cons, Lines.push,
      if_pos rfl, List.append_nil, List.reverse_reverse]
  rw [completeLines, hl, Lines.complete_foldl_push, List.reverse_append]
  rfl

/-- **The complete lines of a text are told apart.** -/
theorem completeLines_ended_append {ls : List (List Char)} (h : ∀ l ∈ ls, '\n' ∉ l)
    (cs : List Char) :
    completeLines (ended ls ++ cs) = ls.map withoutReturn ++ completeLines cs := by
  induction ls with
  | nil => rfl
  | cons l ls ih =>
    obtain ⟨hl, hls⟩ := List.forall_mem_cons.mp h
    rw [ended_cons_append, completeLines_cons hl, ih hls]
    rfl

theorem withoutReturn_concat (l : List Char) : withoutReturn (l ++ ['\r']) = l := by
  rw [withoutReturn, List.getLast?_concat, if_pos rfl, List.dropLast_concat]

theorem withoutReturn_of_ne {l : List Char} (h : l.getLast? ≠ some '\r') : withoutReturn l = l :=
  if_neg h

/-- No carriage return is part of the marker. -/
theorem marked_withoutReturn (l : List Char) : Marked (withoutReturn l) ↔ Marked l := by
  by_cases hr : l.getLast? = some '\r'
  · obtain ⟨x, rfl⟩ := List.getLast?_eq_some_iff.mp hr
    rw [withoutReturn_concat]
    refine ⟨fun h => h.mono List.infix_append_left, fun h => ?_⟩
    rcases List.infix_concat_iff.mp h with ⟨y, hy⟩ | h
    · have hcolon : marker.getLast? = some ':' := by decide
      have hlast := congrArg List.getLast? hy
      rw [List.getLast?_concat, List.getLast?_append, hcolon, Option.some_or] at hlast
      exact absurd (Option.some.inj hlast) (by decide)
    · exact h
  · rw [withoutReturn_of_ne hr]

/-! ## Looking for a listing -/

/-- The lines of inputs among the lines after a marker. -/
def inputs? : List (List Char) → Option (List Char × List Char)
  | _ :: _ :: a :: b :: _ => if a.isEmpty || b.isEmpty then none else some (a, b)
  | _ => none

variable {l cs ds pre : List Char}

theorem listing?_of_not_mem (h : '\n' ∉ cs) : listing? cs = none := by
  rw [listing?, completeLines_of_not_mem h]
  rfl

/-- A line without a marker is passed over. -/
theorem listing?_line (h : '\n' ∉ l) (hm : ¬Marked l) (cs : List Char) :
    listing? (l ++ '\n' :: cs) = listing? cs := by
  have hl : (!hasMarker (withoutReturn l)) = true := by
    rw [Bool.not_eq_true', Bool.eq_false_iff, ne_eq, hasMarker_iff, marked_withoutReturn]
    exact hm
  rw [listing?, completeLines_cons h,
    List.dropWhile_cons_of_pos (p := fun line => !hasMarker line) hl, listing?]

/-- After a line with a marker, the next lines decide. -/
theorem listing?_marked_line (h : '\n' ∉ l) (hm : Marked l) (cs : List Char) :
    listing? (l ++ '\n' :: cs) = inputs? (completeLines cs) := by
  have hl : ¬(!hasMarker (withoutReturn l)) = true := by
    rw [Bool.not_eq_true', Bool.eq_false_iff, not_not, hasMarker_iff, marked_withoutReturn]
    exact hm
  rw [listing?, completeLines_cons h,
    List.dropWhile_cons_of_neg (p := fun line => !hasMarker line) hl]
  rcases completeLines cs with _ | ⟨_, _ | ⟨_, _ | ⟨_, _ | _⟩⟩⟩ <;> rfl

theorem listing?_ended {ls : List (List Char)} (h : ∀ l ∈ ls, '\n' ∉ l ∧ ¬Marked l)
    (cs : List Char) : listing? (ended ls ++ cs) = listing? cs := by
  induction ls with
  | nil => rfl
  | cons l ls ih =>
    obtain ⟨hl, hls⟩ := List.forall_mem_cons.mp h
    rw [ended_cons_append, listing?_line hl.1 hl.2, ih hls]

/-- Complete lines without a marker are passed over. -/
theorem listing?_unmarked_lines (h : ¬Marked pre) (cs : List Char) :
    listing? (pre ++ '\n' :: cs) = listing? cs := by
  obtain ⟨ls, last, rfl, hls, hlast⟩ := exists_ended pre
  have hm : ∀ l ∈ ls, ¬Marked l := fun l hl hm =>
    h (hm.mono ((infix_ended hl).trans List.infix_append_left))
  rw [List.append_assoc, listing?_ended fun l hl => ⟨hls l hl, hm l hl⟩,
    listing?_line hlast fun hm => h (hm.mono List.infix_append_right)]

/-- **What stands before the marker does not matter.** -/
theorem listing?_unmarked_append (hpre : ¬Marked pre) (post : List Char) :
    listing? (pre ++ (marker ++ post)) = listing? (marker ++ post) := by
  obtain ⟨ls, last, rfl, hls, hlast⟩ := exists_ended pre
  have hm : ∀ l ∈ ls, ¬Marked l := fun l hl hm =>
    hpre (hm.mono ((infix_ended hl).trans List.infix_append_left))
  rw [List.append_assoc, listing?_ended fun l hl => ⟨hls l hl, hm l hl⟩]
  have hmarker : '\n' ∉ marker := by decide
  -- the line of the marker is cut, and the lines after it are the same
  obtain ⟨_ | ⟨q, qs⟩, rest, hpost, hq, hrest⟩ := exists_ended post
  · obtain rfl : post = rest := hpost
    have hno : '\n' ∉ marker ++ post := List.not_mem_append hmarker hrest
    exact (listing?_of_not_mem (List.not_mem_append hlast hno)).trans
      (listing?_of_not_mem hno).symm
  · have hmq : '\n' ∉ marker ++ q := List.not_mem_append hmarker (hq q List.mem_cons_self)
    have hmark : Marked (marker ++ q) := List.infix_append_left
    rw [hpost, ended_cons_append, ← List.append_assoc marker, ← List.append_assoc last,
      listing?_marked_line (List.not_mem_append hlast hmq) (hmark.mono List.infix_append_right),
      listing?_marked_line hmq hmark]

/-! ## Listings -/

/-- The reading of a device that two lines of inputs make. -/
def Reading.ofInputs (device : String) (x : List Char × List Char) : Reading :=
  ⟨device, String.ofList x.1, String.ofList x.2⟩

/-- A listing: a line that holds the marker, two lines of headings and two lines of inputs, neither
of which is empty. -/
structure Listing where
  announcement : List Char
  heading₁ : List Char
  heading₂ : List Char
  first : List Char
  second : List Char
  marked : Marked announcement
  lines : ∀ l ∈ [announcement, heading₁, heading₂, first, second], '\n' ∉ l
  first_ne : withoutReturn first ≠ []
  second_ne : withoutReturn second ≠ []

namespace Listing

def text (L : Listing) : List Char :=
  ended [L.announcement, L.heading₁, L.heading₂, L.first, L.second]

/-- The two lines of inputs. -/
def inputs (L : Listing) : List Char × List Char :=
  (withoutReturn L.first, withoutReturn L.second)

/-- What is read of it. -/
def reading (L : Listing) (device : String) : Reading := .ofInputs device L.inputs

/-- The text begins with complete lines that do not hold the marker, and then with the listing. -/
def FirstIn (L : Listing) (cs : List Char) : Prop :=
  ∃ before after, cs = ended before ++ (L.text ++ after) ∧ ∀ l ∈ before, '\n' ∉ l ∧ ¬Marked l

theorem FirstIn.append {L : Listing} (h : L.FirstIn cs) (ds : List Char) : L.FirstIn (cs ++ ds) := by
  obtain ⟨before, after, rfl, hb⟩ := h
  exact ⟨before, after ++ ds, by simp only [List.append_assoc], hb⟩

theorem inputs?_completeLines (L : Listing) (cs : List Char) :
    inputs? (completeLines (ended [L.heading₁, L.heading₂, L.first, L.second] ++ cs)) =
      some L.inputs := by
  have hls : ∀ l ∈ [L.heading₁, L.heading₂, L.first, L.second], '\n' ∉ l :=
    (List.forall_mem_cons.mp L.lines).2
  rw [completeLines_ended_append hls]
  have ha : (withoutReturn L.first).isEmpty = false := List.isEmpty_eq_false_iff.mpr L.first_ne
  have hb : (withoutReturn L.second).isEmpty = false := List.isEmpty_eq_false_iff.mpr L.second_ne
  simp only [List.map_cons, List.cons_append, inputs?, ha, hb, Bool.or_self, Bool.false_eq_true,
    if_false, inputs]

theorem FirstIn.listing? {L : Listing} (h : L.FirstIn cs) : listing? cs = some L.inputs := by
  obtain ⟨before, after, rfl, hb⟩ := h
  rw [listing?_ended hb, text, ended_cons_append,
    listing?_marked_line (L.lines _ List.mem_cons_self) L.marked, L.inputs?_completeLines]

theorem text_firstIn (L : Listing) (cs : List Char) : L.FirstIn (L.text ++ cs) :=
  ⟨[], cs, rfl, nofun⟩

theorem getLast?_text (L : Listing) : L.text.getLast? = some '\n' := by
  have h : L.text =
      ended [L.announcement, L.heading₁, L.heading₂, L.first] ++ L.second ++ ['\n'] := by
    simp [text, ended]
  rw [h, List.getLast?_concat]

theorem marked_text (L : Listing) : Marked L.text := by
  refine L.marked.mono ?_
  rw [text, ← List.append_nil (ended _), ended_cons_append]
  exact List.infix_append_left

/-- A listing is found from its marker on. -/
theorem listing?_marker {L : Listing} {post : List Char} (h : L.text = pre ++ (marker ++ post))
    (hpre : ¬Marked pre) : PinBench.listing? (marker ++ post) = some L.inputs := by
  rw [← listing?_unmarked_append hpre, ← h, ← List.append_nil L.text]
  exact (L.text_firstIn []).listing?

end Listing

/-- The lines of a listing after a marker. -/
theorem exists_of_inputs? {ls : List (List Char)} {x : List Char × List Char}
    (h : inputs? (ls.map withoutReturn) = some x) :
    ∃ h₁ h₂ a b after, ls = h₁ :: h₂ :: a :: b :: after ∧ withoutReturn a ≠ [] ∧
      withoutReturn b ≠ [] ∧ x = (withoutReturn a, withoutReturn b) := by
  rcases ls with _ | ⟨h₁, _ | ⟨h₂, _ | ⟨a, _ | ⟨b, after⟩⟩⟩⟩ <;> try cases h
  simp only [List.map_cons, inputs?] at h
  split_ifs at h with he
  rw [Bool.or_eq_true, not_or, List.isEmpty_iff, List.isEmpty_iff] at he
  exact ⟨h₁, h₂, a, b, after, rfl, he.1, he.2, (Option.some.inj h).symm⟩

/-- **What is found is the first listing of the text.** -/
theorem listing?_eq_some_iff {x : List Char × List Char} :
    listing? cs = some x ↔ ∃ L : Listing, L.FirstIn cs ∧ L.inputs = x := by
  constructor
  · intro h
    obtain ⟨ls, last, rfl, hls, hlast⟩ := exists_ended cs
    induction ls with
    | nil => cases (listing?_of_not_mem hlast).symm.trans h
    | cons l ls ih =>
      obtain ⟨hl, hls⟩ := List.forall_mem_cons.mp hls
      rw [ended_cons_append] at h ⊢
      by_cases hm : Marked l
      · rw [listing?_marked_line hl hm, completeLines_ended_append hls,
          completeLines_of_not_mem hlast, List.append_nil] at h
        obtain ⟨h₁, h₂, a, b, after, rfl, ha, hb, rfl⟩ := exists_of_inputs? h
        have hlines : ∀ k ∈ [l, h₁, h₂, a, b], '\n' ∉ k := by
          simp only [List.forall_mem_cons] at hls ⊢
          exact ⟨hl, hls.1, hls.2.1, hls.2.2.1, hls.2.2.2.1, nofun⟩
        refine ⟨⟨l, h₁, h₂, a, b, hm, hlines, ha, hb⟩, ⟨[], ended after ++ last, ?_, nofun⟩, rfl⟩
        simp [Listing.text, ended, List.append_assoc]
      · rw [listing?_line hl hm] at h
        obtain ⟨L, ⟨before, after, heq, hb⟩, hx⟩ := ih h hls
        exact ⟨L, ⟨l :: before, after, by rw [ended_cons_append, heq],
          List.forall_mem_cons.mpr ⟨⟨hl, hm⟩, hb⟩⟩, hx⟩
  · rintro ⟨L, hL, rfl⟩
    exact hL.listing?

/-- The listing that is found stays the same when more text follows. -/
theorem listing?_append {x : List Char × List Char} (h : listing? cs = some x) (ds : List Char) :
    listing? (cs ++ ds) = some x := by
  obtain ⟨L, hL, rfl⟩ := listing?_eq_some_iff.mp h
  exact (hL.append ds).listing?

theorem marked_of_listing? {x : List Char × List Char} (h : listing? cs = some x) : Marked cs := by
  obtain ⟨L, ⟨before, after, rfl, -⟩, -⟩ := listing?_eq_some_iff.mp h
  exact L.marked_text.mono (List.infix_append' _ _ _)

theorem listing?_of_not_marked (h : ¬Marked cs) : listing? cs = none :=
  Option.eq_none_iff_forall_ne_some.mpr fun _ hx => h (marked_of_listing? hx)

end PinBench
