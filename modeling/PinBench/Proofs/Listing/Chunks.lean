import PinBench.Proofs.Listing.Last
import PinBench.Proofs.Text.Torn

/-!
# A listing in chunks of bytes

Each chunk is decoded on its own.  Characters that are cut come as replacements, but the marker and
the ends of lines are single bytes, and so the listing is found all the same.  Only what its lines
of inputs say may differ.

* `Spoiled.marked_iff`, `Spoiled.line`, `Spoiled.withoutReturn`: a spoiled text has the markers and
  the lines of the text.
* `Listing.exists_spoiled`: **a listing in which characters are cut is a listing still**.
* `Receiver.reading_in_chunks`: **the reading is that of the whole text if and only if no character
  of its lines of inputs is cut**.
* `Receiver.reading_torn`: a line of one character that is cut.
-/

namespace PinBench

open Text

/-! ## Spoiled lines -/

theorem length_encode_ended_cons (l : List Char) (ls : List (List Char)) :
    (encode (ended (l :: ls))).length =
      (encode (l ++ ['\n'])).length + (encode (ended ls)).length := by
  rw [← List.length_append, ← encode_append]
  rfl

namespace Text.Spoiled

variable {cut : Nat → Prop} {o : Nat} {cs ds l : List Char}

theorem marked_iff (h : Spoiled cut o cs ds) : Marked ds ↔ Marked cs := by
  refine ⟨fun hm => h.infix_sent hm (by decide), ?_⟩
  rintro ⟨x, y, rfl⟩
  rw [List.append_assoc] at h
  obtain ⟨x', y', rfl, -, -⟩ := h.around (by decide)
  exact List.infix_append' x' marker y'

theorem markedOnce (h : Spoiled cut o cs ds) (once : MarkedOnce cs) : MarkedOnce ds := by
  obtain ⟨x, y, rfl, hx, hy⟩ := markedOnce_iff.mp once
  obtain ⟨x', y', rfl, hx', hy'⟩ := h.around (by decide)
  exact markedOnce_iff.mpr
    ⟨x', y', rfl, mt hx'.marked_iff.mp hx, mt hy'.marked_iff.mp hy⟩

theorem lineFeed_not_mem (h : Spoiled cut o cs ds) (hcs : '\n' ∉ cs) : '\n' ∉ ds := fun hm =>
  (h.mem hm).elim hcs (by decide)

/-- The end of a line is not cut. -/
theorem line (h : Spoiled cut o (l ++ '\n' :: cs) ds) :
    ∃ l' ds', ds = l' ++ '\n' :: ds' ∧ Spoiled cut o l l' ∧
      Spoiled cut (o + (encode (l ++ ['\n'])).length) cs ds' := by
  rw [← List.singleton_append] at h
  exact h.around (by decide)

/-- Nor is a carriage return. -/
theorem withoutReturn (h : Spoiled cut o cs ds) :
    Spoiled cut o (withoutReturn cs) (withoutReturn ds) := by
  rcases List.eq_nil_or_concat cs with rfl | ⟨x, c, rfl⟩
  · cases h
    exact .nil
  · rw [List.concat_eq_append] at h ⊢
    obtain ⟨x', c', rfl, hx, hc⟩ := h.append
    by_cases hr : c = '\r'
    · subst hr
      obtain rfl := hc.eq_of_ascii (by decide)
      rwa [withoutReturn_concat, withoutReturn_concat]
    · have hne : c' ≠ [] := hc.ne_nil (List.cons_ne_nil c [])
      have hr' : c'.getLast? ≠ some '\r' := fun h =>
        (hc.mem (List.mem_of_getLast? h)).elim
          (fun h => hr (List.mem_singleton.mp h).symm) (by decide)
      have hlast : (x ++ [c]).getLast? ≠ some '\r' := by
        rw [List.getLast?_concat]
        exact fun h => hr (Option.some.inj h)
      rw [withoutReturn_of_ne hlast, withoutReturn_of_ne]
      · exact h
      · rwa [List.getLast?_append_of_ne_nil _ hne]

/-- Lines without a marker stay lines without a marker. -/
theorem unmarked_lines {ls : List (List Char)} (h : Spoiled cut o (ended ls ++ cs) ds)
    (hls : ∀ l ∈ ls, '\n' ∉ l ∧ ¬Marked l) :
    ∃ ls' ds', ds = ended ls' ++ ds' ∧ (∀ l ∈ ls', '\n' ∉ l ∧ ¬Marked l) ∧
      Spoiled cut (o + (encode (ended ls)).length) cs ds' := by
  induction ls generalizing o ds with
  | nil => exact ⟨[], ds, rfl, nofun, h⟩
  | cons l ls ih =>
    obtain ⟨hl, hls⟩ := List.forall_mem_cons.mp hls
    rw [ended_cons_append] at h
    obtain ⟨l', rest, rfl, hl', hrest⟩ := h.line
    obtain ⟨ls', ds', rfl, hls', hds'⟩ := ih hrest hls
    refine ⟨l' :: ls', ds', (ended_cons_append ..).symm, List.forall_mem_cons.mpr
      ⟨⟨hl'.lineFeed_not_mem hl.1, mt hl'.marked_iff.mp hl.2⟩, hls'⟩, ?_⟩
    rwa [length_encode_ended_cons, ← Nat.add_assoc]

end Text.Spoiled

/-! ## Spoiled listings -/

namespace Listing

/-- Where the first line of inputs begins, in bytes. -/
def firstPlace (L : Listing) : Nat :=
  (encode (ended [L.announcement, L.heading₁, L.heading₂])).length

/-- Where the second line of inputs begins, in bytes. -/
def secondPlace (L : Listing) : Nat :=
  (encode (ended [L.announcement, L.heading₁, L.heading₂, L.first])).length

/-- **A listing in which characters are cut is a listing still.** -/
theorem exists_spoiled {cut : Nat → Prop} {o : Nat} {L : Listing} {cs ds : List Char}
    (h : Spoiled cut o (L.text ++ cs) ds) :
    ∃ (L' : Listing) (ds' : List Char), ds = L'.text ++ ds' ∧
      Spoiled cut (o + L.firstPlace) L.inputs.1 L'.inputs.1 ∧
      Spoiled cut (o + L.secondPlace) L.inputs.2 L'.inputs.2 := by
  have hlines := L.lines
  simp only [List.forall_mem_cons] at hlines
  obtain ⟨ha, hh₁, hh₂, hfirst, hsecond, -⟩ := hlines
  rw [text] at h
  simp only [ended_cons_append] at h
  obtain ⟨a', r₁, rfl, ha', h⟩ := h.line
  obtain ⟨h₁', r₂, rfl, hh₁', h⟩ := h.line
  obtain ⟨h₂', r₃, rfl, hh₂', h⟩ := h.line
  obtain ⟨f', r₄, rfl, hf', h⟩ := h.line
  obtain ⟨s', r₅, rfl, hs', -⟩ := h.line
  have hnil : (encode (ended [])).length = 0 := rfl
  have hplace₁ : o + L.firstPlace = o + (encode (L.announcement ++ ['\n'])).length +
      (encode (L.heading₁ ++ ['\n'])).length + (encode (L.heading₂ ++ ['\n'])).length := by
    simp only [firstPlace, length_encode_ended_cons, hnil, Nat.add_assoc, Nat.add_zero]
  have hplace₂ : o + L.secondPlace = o + L.firstPlace + (encode (L.first ++ ['\n'])).length := by
    simp only [firstPlace, secondPlace, length_encode_ended_cons, hnil, Nat.add_assoc,
      Nat.add_zero]
  rw [← hplace₁] at hf' hs'
  rw [← hplace₂] at hs'
  refine ⟨⟨a', h₁', h₂', f', s', ha'.marked_iff.mpr L.marked, ?_,
    hf'.withoutReturn.ne_nil L.first_ne, hs'.withoutReturn.ne_nil L.second_ne⟩, r₅, ?_,
    hf'.withoutReturn, hs'.withoutReturn⟩
  · simp only [List.forall_mem_cons]
    exact ⟨ha'.lineFeed_not_mem ha, hh₁'.lineFeed_not_mem hh₁, hh₂'.lineFeed_not_mem hh₂,
      hf'.lineFeed_not_mem hfirst, hs'.lineFeed_not_mem hsecond, List.forall_mem_nil _⟩
  · simp [text, ended]

end Listing

theorem Reading.ofInputs_inj {device : String} {x y : List Char × List Char} :
    ofInputs device x = ofInputs device y ↔ x.1 = y.1 ∧ x.2 = y.2 := by
  simp [ofInputs, String.ofList_inj]

namespace Receiver

/-- **Chunks of a text that is read as a whole.**  If no character is cut, the reading is that of
the whole text.  If some are, there is at most one reading still, and one unless what is heard is
too long; and it is that of the whole text if and only if no character of the lines of inputs is
cut. -/
theorem reading_in_chunks {device : String} {cs : List Char} {g : Reading}
    {chunks : List (List UInt8)} (fits : byteLength cs ≤ capacity) (once : MarkedOnce cs)
    (whole : ((ofDevice device).feed (encode cs)).1 = some g) (sent : chunks.flatten = encode cs) :
    let gs := ((ofDevice device).feedAll chunks).1
    (¬Torn (Cut chunks) 0 cs → gs = [g]) ∧
      ∃ before after, ∃ L : Listing, cs = ended before ++ (L.text ++ after) ∧
        L.reading device = g ∧
        let place := (encode (ended before)).length
        (∀ g' ∈ gs, gs = [g'] ∧
          (g' = g ↔ ¬Torn (Cut chunks) (place + L.firstPlace) L.inputs.1 ∧
            ¬Torn (Cut chunks) (place + L.secondPlace) L.inputs.2)) ∧
        (byteLength (heard chunks) ≤ capacity → gs ≠ []) := by
  intro gs
  obtain ⟨x, hx, rfl⟩ := feed_eq_some_iff.mp whole
  rw [decodeLossy_encode] at hx
  have hspoiled := spoiled_heard sent
  refine ⟨fun h => ?_, ?_⟩
  · have hheard : heard chunks = cs := hspoiled.eq_iff.mpr h
    subst hheard
    exact feedAll_of_once rfl once fits hx
  · obtain ⟨L, ⟨before, after, rfl, hbefore⟩, rfl⟩ := listing?_eq_some_iff.mp hx
    obtain ⟨before', rest, hheard, hbefore', hrest⟩ := hspoiled.unmarked_lines hbefore
    obtain ⟨L', after', rfl, hfirst, hsecond⟩ := Listing.exists_spoiled hrest
    rw [Nat.zero_add] at hfirst hsecond
    have honce : MarkedOnce (heard chunks) := hspoiled.markedOnce once
    have hx' : listing? (heard chunks) = some L'.inputs :=
      Listing.FirstIn.listing? ⟨before', after', hheard, hbefore'⟩
    refine ⟨before, after, L, rfl, rfl, fun g' hg' => ?_, fun hfits => ?_⟩
    · have hgs : gs = [.ofInputs device L'.inputs] :=
        (feedAll_eq_nil_or rfl honce hx').resolve_left (List.ne_nil_of_mem hg')
      obtain rfl : g' = .ofInputs device L'.inputs := List.mem_singleton.mp (hgs ▸ hg')
      exact ⟨hgs, Reading.ofInputs_inj.trans (and_congr hfirst.eq_iff hsecond.eq_iff)⟩
    · rw [show gs = _ from feedAll_of_once rfl honce hfits hx']
      exact List.cons_ne_nil _ _

/-- The chunks end within the marker, behind a character of two bytes and between the two ends of a
line, but within no character. -/
theorem reading_in_chunks_cut :
    let cs := "Etat des entrées — Etat des entrees:\r\nh\nh\né 0\r\n1 é\r\n".toList
    let g : Reading := ⟨"d", "é 0", "1 é"⟩
    let chunks := [encode "Etat des entrées — Etat d".toList,
      encode "es entrees:\r\nh\nh\né".toList, encode " 0\r\n1 é\r".toList, encode ['\n']]
    byteLength cs ≤ capacity ∧ MarkedOnce cs ∧
      ((ofDevice "d").feed (encode cs)).1 = some g ∧ chunks.flatten = encode cs ∧
      ((ofDevice "d").feedAll chunks).1 = [g] := by
  intro cs g chunks
  have fits : byteLength cs ≤ capacity := by decide +kernel
  have once : MarkedOnce cs := markedOnce_iff.mpr
    ⟨"Etat des entrées — ".toList, "\r\nh\nh\né 0\r\n1 é\r\n".toList, by decide +kernel,
      by decide +kernel, by decide +kernel⟩
  have whole : ((ofDevice "d").feed (encode cs)).1 = some g := by decide +kernel
  have sent : chunks.flatten = encode cs := by decide +kernel
  have heard_eq : heard chunks = cs := by decide +kernel
  refine ⟨fits, once, whole, sent, (reading_in_chunks fits once whole sent).1 ?_⟩
  exact (spoiled_heard sent).eq_iff.mp heard_eq

/-- A chunk ends within the one character of the first line of inputs. -/
theorem reading_torn :
    let cs := "Etat des entrees:\nh\nh\né\nB\n".toList
    let chunks := [(encode cs).take 23, (encode cs).drop 23]
    byteLength cs ≤ capacity ∧ MarkedOnce cs ∧
      ((ofDevice "d").feed (encode cs)).1 = some ⟨"d", "é", "B"⟩ ∧
      chunks.flatten = encode cs ∧ ((ofDevice "d").feedAll chunks).1 ≠ [⟨"d", "é", "B"⟩] ∧
      ((ofDevice "d").feedAll chunks).1 = [⟨"d", "\uFFFD\uFFFD", "B"⟩] := by
  intro cs chunks
  have once : MarkedOnce cs := markedOnce_iff.mpr
    ⟨[], "\nh\nh\né\nB\n".toList, by decide +kernel, by decide +kernel, by decide +kernel⟩
  exact ⟨by decide +kernel, once, by decide +kernel, by decide +kernel, by decide +kernel,
    by decide +kernel⟩

end Receiver

end PinBench
