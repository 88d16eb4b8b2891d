import PinBench.Proofs.Listing.Lines

/-!
# Framing

A receiver finds the first listing of the text it has heard, wherever the chunks of that text end.

* `Receiver.feedAll`: chunks in turn, and the readings they complete.
* `Receiver.feedAll_of_waiting`: as long as there is no reading, the text is kept.
* `Receiver.head?_feedAll`: **the first reading is that of the first listing of the text**.
* `Receiver.framing`: **a chunk completes a reading if and only if the text now holds a whole first
  listing**, and two ways to cut a text give the same first reading.
-/

namespace PinBench

open Text

namespace Receiver

/-- Chunks in turn: the readings they complete, and what is left of the receiver. -/
def feedAll (r : Receiver) : List (List UInt8) → List Reading × Receiver
  | [] => ([], r)
  | c :: chunks =>
    let x := r.feed c
    let rest := x.2.feedAll chunks
    (x.1.toList ++ rest.1, rest.2)

variable {r : Receiver} {c : List UInt8} {chunks : List (List UInt8)} {x : List Char × List Char}

theorem feed_of_some (h : listing? (r.buffer ++ decodeLossy c) = some x) :
    r.feed c = (some (.ofInputs r.device x), r.reset) := by
  rw [feed, feedText, h]
  rfl

theorem feed_of_none (h : listing? (r.buffer ++ decodeLossy c) = none) :
    r.feed c = (none, ⟨r.device, overflow (r.buffer ++ decodeLossy c)⟩) := by
  rw [feed, feedText, h]

theorem feed_eq_some_iff {g : Reading} :
    (r.feed c).1 = some g ↔
      ∃ x, listing? (r.buffer ++ decodeLossy c) = some x ∧ .ofInputs r.device x = g := by
  cases h : listing? (r.buffer ++ decodeLossy c) with
  | none => simp [feed_of_none h]
  | some y => simp [feed_of_some h]

theorem feedAll_cons_of_some (h : listing? (r.buffer ++ decodeLossy c) = some x)
    (chunks : List (List UInt8)) :
    r.feedAll (c :: chunks) =
      (.ofInputs r.device x :: (r.reset.feedAll chunks).1, (r.reset.feedAll chunks).2) := by
  rw [feedAll, feed_of_some h]
  rfl

theorem feedAll_cons_of_none (h : listing? (r.buffer ++ decodeLossy c) = none)
    (chunks : List (List UInt8)) :
    r.feedAll (c :: chunks) =
      (⟨r.device, overflow (r.buffer ++ decodeLossy c)⟩ : Receiver).feedAll chunks := by
  rw [feedAll, feed_of_none h]
  rfl

/-- As long as no listing is complete and the text is not too long, all of it is kept. -/
theorem feedAll_of_waiting (h : (r.feedAll chunks).1 = [])
    (hl : byteLength (r.buffer ++ heard chunks) ≤ capacity) :
    (r.feedAll chunks).2 = ⟨r.device, r.buffer ++ heard chunks⟩ := by
  induction chunks generalizing r with
  | nil =>
    rw [feedAll, heard, List.flatMap_nil, List.append_nil]
  | cons c chunks ih =>
    rw [heard_cons, ← List.append_assoc] at hl ⊢
    cases hx : listing? (r.buffer ++ decodeLossy c) with
    | some x =>
      rw [feedAll_cons_of_some hx] at h
      cases h
    | none =>
      have hle : byteLength (r.buffer ++ decodeLossy c) ≤ capacity := by
        rw [byteLength_append] at hl
        exact Nat.le_of_add_right_le hl
      rw [feedAll_cons_of_none hx, overflow_of_le hle] at h ⊢
      exact ih h hl

/-- **The first reading is that of the first listing of the text**, wherever the chunks end. -/
theorem head?_feedAll (h : listing? r.buffer = none)
    (hl : byteLength (r.buffer ++ heard chunks) ≤ capacity) :
    (r.feedAll chunks).1.head? =
      (listing? (r.buffer ++ heard chunks)).map (.ofInputs r.device) := by
  induction chunks generalizing r with
  | nil =>
    rw [heard, List.flatMap_nil, List.append_nil, h]
    rfl
  | cons c chunks ih =>
    rw [heard_cons, ← List.append_assoc] at hl ⊢
    cases hx : listing? (r.buffer ++ decodeLossy c) with
    | some x =>
      rw [feedAll_cons_of_some hx, listing?_append hx]
      rfl
    | none =>
      have hle : byteLength (r.buffer ++ decodeLossy c) ≤ capacity := by
        rw [byteLength_append] at hl
        exact Nat.le_of_add_right_le hl
      rw [feedAll_cons_of_none hx, overflow_of_le hle]
      exact ih hx hl

/-- **A chunk completes a reading if and only if the text that has come by then begins with whole
lines without a marker and a listing.**  After a reading nothing is kept, and otherwise the whole
text, if it is not too long.  So two ways to cut a text give the same first reading. -/
theorem framing {done : List (List UInt8)} (hr : r.buffer = [])
    (hd : (r.feedAll done).1 = []) (hl : byteLength (heard done) ≤ capacity) (c : List UInt8) :
    let text := heard (done ++ [c])
    let y := (r.feedAll done).2.feed c
    (∀ g, y.1 = some g ↔ ∃ L : Listing, L.FirstIn text ∧ L.reading r.device = g) ∧
      (y.1 ≠ none → y.2.buffer = []) ∧
      (y.1 = none → byteLength text ≤ capacity → y.2.buffer = text) ∧
      ∀ chunks chunks', heard chunks = heard chunks' → byteLength (heard chunks) ≤ capacity →
        (r.feedAll chunks).1.head? = (r.feedAll chunks').1.head? := by
  intro text y
  have hbuf : (r.feedAll done).2 = ⟨r.device, heard done⟩ := by
    rw [feedAll_of_waiting hd (by rw [hr]; exact hl), hr, List.nil_append]
  have htext : (⟨r.device, heard done⟩ : Receiver).buffer ++ decodeLossy c = text := by
    rw [← heard_singleton, ← heard_append]
  have hy : y = (⟨r.device, heard done⟩ : Receiver).feed c := congrArg (·.feed c) hbuf
  have hsome : ∀ x, listing? text = some x → y = (some (.ofInputs r.device x), r.reset) := by
    intro x hx
    rw [← htext] at hx
    rw [hy, feed_of_some hx]
    rfl
  have hnone : listing? text = none → y = (none, ⟨r.device, overflow text⟩) := by
    intro hx
    rw [← htext] at hx
    rw [hy, feed_of_none hx, htext]
  refine ⟨fun g => ?_, ?_, ?_, ?_⟩
  · rw [hy, feed_eq_some_iff, htext]
    constructor
    · rintro ⟨x, hx, rfl⟩
      obtain ⟨L, hL, rfl⟩ := listing?_eq_some_iff.mp hx
      exact ⟨L, hL, rfl⟩
    · rintro ⟨L, hL, rfl⟩
      exact ⟨L.inputs, hL.listing?, rfl⟩
  · intro hg
    cases hx : listing? text with
    | none => exact absurd (congrArg Prod.fst (hnone hx)) hg
    | some x => exact congrArg (·.2.buffer) (hsome x hx)
  · intro hg hle
    cases hx : listing? text with
    | none => rw [hnone hx, overflow_of_le hle]
    | some x => cases hg.symm.trans (congrArg Prod.fst (hsome x hx))
  · intro chunks chunks' hc hle
    have hno : listing? r.buffer = none := by rw [hr]; rfl
    rw [head?_feedAll hno (by rw [hr]; exact hle),
      head?_feedAll hno (by rw [hr, ← hc]; exact hle), hc]

/-- A listing that is cut within the marker and between the two ends of a line. -/
theorem framing_cut :
    let r := ofDevice "eye"
    let done := [encode "lsen\r\nEtat des ent".toList, encode "rees:\r\n E1 E2\r\n -----\r".toList]
    let c := encode "\n  0  1\r\n  1  0\r\n> ".toList
    (r.feedAll done).1 = [] ∧ byteLength (heard done) ≤ capacity ∧
      ∃ L : Listing, L.FirstIn (heard (done ++ [c])) ∧
        L.reading "eye" = ⟨"eye", "  0  1", "  1  0"⟩ := by
  intro r done c
  have hd : (r.feedAll done).1 = [] := by decide +kernel
  have hl : byteLength (heard done) ≤ capacity := by decide +kernel
  exact ⟨hd, hl, ((framing rfl hd hl c).1 _).mp (by decide +kernel)⟩

end Receiver

end PinBench
