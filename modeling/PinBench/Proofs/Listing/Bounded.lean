import Mathlib.Data.List.Induction
import PinBench.Proofs.Listing.Last

/-!
# What waits in a receiver

Chunks come and the receiver is reset, in any order.  What waits is never too long, and it is the
end of what has come since it was last cleared.

* `FromLastMarker`: the text from its last marker on.
* `overflow_cases`: **of a text that is too long, that is kept if it fits, and else nothing**.
* `Receiver.Call`, `Receiver.callAll`: chunks and resets, one and several in turn.
* `Receiver.Since`, `Receiver.exists_since`: the chunks that have come since the receiver was last
  cleared.
* `Receiver.suffix_of_since`: **what waits is the end of their text**.
* `Receiver.waits_bounded`: **what waits after any calls, and what one more chunk makes of it**.
-/

namespace PinBench

open Text

variable {cs ds kept : List Char}

/-! ## The last marker -/

/-- The text from its last marker on. -/
structure FromLastMarker (cs kept : List Char) : Prop where
  marker : marker <+: kept
  suffix : kept <:+ cs
  least : ∀ ds, PinBench.marker <+: ds → ds <:+ cs → kept <:+ ds

theorem exists_marker_append (h : Marked cs) :
    ∃ pre post, cs = pre ++ (marker ++ post) ∧ ¬Marked post := by
  induction cs with
  | nil => exact absurd (List.infix_nil.mp h) marker_ne_nil
  | cons c cs ih =>
    by_cases hcs : Marked cs
    · obtain ⟨pre, post, rfl, hpost⟩ := ih hcs
      exact ⟨c :: pre, post, rfl, hpost⟩
    · obtain ⟨post, hpost⟩ := (List.infix_cons_iff.mp h).resolve_right hcs
      refine ⟨[], post, hpost.symm, fun hm => hcs ?_⟩
      -- the marker is not empty, and so what stands behind it is behind the first character
      obtain ⟨m, ms, hmarker⟩ := List.exists_cons_of_ne_nil marker_ne_nil
      rw [hmarker, List.cons_append] at hpost
      rw [← (List.cons.inj hpost).2]
      exact hm.mono List.infix_append_right

theorem fromLastMarker_append (pre : List Char) {post : List Char} (hpost : ¬Marked post) :
    FromLastMarker (pre ++ (marker ++ post)) (marker ++ post) := by
  refine ⟨List.prefix_append _ post, List.suffix_append pre _, fun ds hm hds => ?_⟩
  rcases List.suffix_or_suffix_of_suffix (List.suffix_append pre _) hds with h | ⟨e, he⟩
  · exact h
  · by_cases hne : e = []
    · rw [← he, hne]
      exact List.suffix_refl ds
    · exact absurd hm.isInfix (not_marked_behind hpost he.symm hne)

theorem FromLastMarker.marked (h : FromLastMarker cs kept) : Marked cs :=
  h.marker.isInfix.trans h.suffix.isInfix

theorem FromLastMarker.unique (h : FromLastMarker cs kept) (h' : FromLastMarker cs ds) :
    kept = ds :=
  (h.least ds h'.marker h'.suffix).eq_of_length_le (h'.least kept h.marker h.suffix).length_le

/-- **Of a text that is too long, what stands from the last marker on is kept if that is not too
long as well**, and else nothing. -/
theorem overflow_cases (hl : capacity < byteLength cs) :
    (FromLastMarker cs (overflow cs) ∧ byteLength (overflow cs) ≤ capacity) ∨
      overflow cs = [] ∧ ∀ kept, FromLastMarker cs kept → capacity < byteLength kept := by
  by_cases hm : Marked cs
  · obtain ⟨pre, post, rfl, hpost⟩ := exists_marker_append hm
    have hlast := fromLastMarker_append pre hpost
    rw [overflow, if_neg (Nat.not_le.mpr hl), lastMarked_append none pre hpost]
    dsimp only
    split_ifs with hle
    · exact .inl ⟨hlast, hle⟩
    · refine .inr ⟨rfl, fun kept hk => ?_⟩
      rw [hk.unique hlast]
      exact Nat.lt_of_not_le hle
  · exact .inr ⟨overflow_of_not_marked hm hl, fun kept hk => absurd hk.marked hm⟩

theorem byteLength_overflow_le (cs : List Char) : byteLength (overflow cs) ≤ capacity := by
  rcases Nat.lt_or_ge capacity (byteLength cs) with hl | hl
  · rcases overflow_cases hl with ⟨-, h⟩ | ⟨h, -⟩
    · exact h
    · rw [h]
      exact Nat.zero_le _
  · rw [overflow_of_le hl]
    exact hl

/-! ## Readings -/

namespace Reading

/-- Neither line is empty or holds a line feed. -/
structure Whole (g : Reading) : Prop where
  first_ne : g.first ≠ ""
  second_ne : g.second ≠ ""
  first_line : '\n' ∉ g.first.toList
  second_line : '\n' ∉ g.second.toList

end Reading

theorem withoutReturn_subset (l : List Char) : withoutReturn l ⊆ l := by
  unfold withoutReturn
  split_ifs
  · exact List.dropLast_subset l
  · exact List.Subset.refl l

theorem Listing.whole_reading (L : Listing) (device : String) : (L.reading device).Whole := by
  have hne : ∀ {l : List Char}, l ≠ [] → String.ofList l ≠ "" := fun h he =>
    h (String.ofList_injective he)
  have hline : ∀ {l : List Char}, '\n' ∉ l → '\n' ∉ (String.ofList (withoutReturn l)).toList := by
    intro l h hm
    rw [String.toList_ofList] at hm
    exact h (withoutReturn_subset l hm)
  have hlines := L.lines
  simp only [List.forall_mem_cons] at hlines
  exact ⟨hne L.first_ne, hne L.second_ne, hline hlines.2.2.2.1, hline hlines.2.2.2.2.1⟩

namespace Receiver

theorem whole_feed {r : Receiver} {c : List UInt8} {g : Reading} (h : (r.feed c).1 = some g) :
    g.Whole := by
  obtain ⟨x, hx, rfl⟩ := feed_eq_some_iff.mp h
  obtain ⟨L, -, rfl⟩ := listing?_eq_some_iff.mp hx
  exact L.whole_reading r.device

/-! ## Calls -/

/-- What may be done to a receiver. -/
inductive Call where
  | feed (chunk : List UInt8)
  | reset

/-- One call: the reading that it completes, and what is left of the receiver. -/
def call (r : Receiver) : Call → Option Reading × Receiver
  | .feed chunk => r.feed chunk
  | .reset => (none, r.reset)

/-- Calls in turn: the readings that they complete, and what is left of the receiver. -/
def callAll (r : Receiver) : List Call → List Reading × Receiver
  | [] => ([], r)
  | c :: calls =>
    let x := r.call c
    let rest := x.2.callAll calls
    (x.1.toList ++ rest.1, rest.2)

variable {r : Receiver} {calls : List Call} {c : Call}

theorem callAll_append (r : Receiver) (before after : List Call) :
    r.callAll (before ++ after) =
      ((r.callAll before).1 ++ ((r.callAll before).2.callAll after).1,
        ((r.callAll before).2.callAll after).2) := by
  induction before generalizing r with
  | nil => rfl
  | cons c before ih => simp only [List.cons_append, callAll, ih, List.append_assoc]

theorem callAll_concat (r : Receiver) (calls : List Call) (c : Call) :
    r.callAll (calls ++ [c]) =
      ((r.callAll calls).1 ++ ((r.callAll calls).2.call c).1.toList,
        ((r.callAll calls).2.call c).2) := by
  rw [callAll_append]
  simp only [callAll, List.append_nil]

theorem callAll_feeds (r : Receiver) (chunks : List (List UInt8)) :
    r.callAll (chunks.map .feed) = r.feedAll chunks := by
  induction chunks generalizing r with
  | nil => rfl
  | cons c chunks ih => simp only [List.map_cons, callAll, feedAll, call, ih]

/-- The call is a reset or completes a reading. -/
def Clears (r : Receiver) (c : Call) : Prop := c = .reset ∨ (r.call c).1 ≠ none

/-- These chunks have come since the receiver was last cleared, or since it is there: they complete
no reading, and if there is a call before them, it is one that clears. -/
def Since (r : Receiver) (calls : List Call) (chunks : List (List UInt8)) : Prop :=
  ∃ before, calls = before ++ chunks.map .feed ∧ ((r.callAll before).2.feedAll chunks).1 = [] ∧
    (before = [] ∨ ∃ b c, before = b ++ [c] ∧ (r.callAll b).2.Clears c)

/-- One call clears the receiver, or it is a chunk and the text is kept up to overflow. -/
theorem call_cases (r : Receiver) (c : Call) :
    (r.Clears c ∧ (r.call c).2 = ⟨r.device, []⟩) ∨
      ∃ chunk, c = .feed chunk ∧
        r.call c = (none, ⟨r.device, overflow (r.buffer ++ decodeLossy chunk)⟩) := by
  cases c with
  | reset => exact .inl ⟨.inl rfl, rfl⟩
  | feed chunk =>
    cases hx : listing? (r.buffer ++ decodeLossy chunk) with
    | some x =>
      have h := feed_of_some hx
      exact .inl ⟨.inr (by rw [call, h]; exact Option.some_ne_none _), by rw [call, h]; rfl⟩
    | none => exact .inr ⟨chunk, rfl, feed_of_none hx⟩

theorem buffer_of_clears (h : r.Clears c) : (r.call c).2.buffer = [] := by
  rcases r.call_cases c with ⟨-, h'⟩ | ⟨chunk, rfl, h'⟩
  · rw [h']
  · rcases h with h | h
    · cases h
    · rw [h'] at h
      exact absurd rfl h

/-! ## Runs -/

/-- **Of any calls the last ones are the chunks that have come since the receiver was cleared.** -/
theorem exists_since (r : Receiver) (calls : List Call) : ∃ chunks, r.Since calls chunks := by
  induction calls using List.reverseRecOn with
  | nil => exact ⟨[], [], rfl, rfl, .inl rfl⟩
  | append_singleton calls c ih =>
    rcases (r.callAll calls).2.call_cases c with ⟨h, -⟩ | ⟨chunk, rfl, h⟩
    · exact ⟨[], calls ++ [c], (List.append_nil _).symm, rfl, .inr ⟨calls, c, rfl, h⟩⟩
    · obtain ⟨chunks, before, rfl, hnone, hbefore⟩ := ih
      refine ⟨chunks ++ [chunk], before, by simp, ?_, hbefore⟩
      have hrun := callAll_concat (r.callAll before).2 (chunks.map .feed) (.feed chunk)
      rw [callAll_append, callAll_feeds] at h
      rw [callAll_feeds, ← List.map_singleton, ← List.map_append, callAll_feeds] at hrun
      rw [hrun, hnone]
      exact congrArg (·.1.toList) h

/-- **What waits is the end of what has come since the receiver was cleared.** -/
theorem suffix_of_since {chunks : List (List UInt8)} (hr : r.buffer = [])
    (h : r.Since calls chunks) : (r.callAll calls).2.buffer <:+ heard chunks := by
  obtain ⟨before, rfl, -, hbefore⟩ := h
  have hempty : (r.callAll before).2.buffer = [] := by
    rcases hbefore with rfl | ⟨b, c, rfl, hc⟩
    · exact hr
    · rw [callAll_concat]
      exact buffer_of_clears hc
  rw [callAll_append, callAll_feeds, ← List.nil_append (heard chunks), ← hempty]
  exact buffer_feedAll_suffix

theorem byteLength_callAll_le (h : byteLength r.buffer ≤ capacity) (calls : List Call) :
    byteLength (r.callAll calls).2.buffer ≤ capacity := by
  induction calls using List.reverseRecOn with
  | nil => exact h
  | append_singleton calls c ih =>
    rw [callAll_concat]
    rcases (r.callAll calls).2.call_cases c with ⟨-, hc⟩ | ⟨chunk, -, hc⟩
    · rw [hc]
      exact Nat.zero_le _
    · rw [hc]
      exact byteLength_overflow_le _

theorem whole_callAll (r : Receiver) (calls : List Call) : ∀ g ∈ (r.callAll calls).1, g.Whole := by
  induction calls using List.reverseRecOn with
  | nil => exact fun g hg => absurd hg List.not_mem_nil
  | append_singleton calls c ih =>
    rw [callAll_concat, List.forall_mem_append]
    refine ⟨ih, fun g hg => ?_⟩
    cases c with
    | reset => cases hg
    | feed chunk => exact whole_feed (Option.mem_toList.mp hg)

/-- **After any chunks and resets what waits is not too long, and it is the end of what has come
since the receiver was cleared**, which a reading does.  One more chunk without a reading leaves the
whole text if it is not too long, else what is found from its last marker on if that is not, and
else nothing.  **What is read are two lines, neither of them empty.** -/
theorem waits_bounded (device : String) (calls : List Call) :
    let x := (ofDevice device).callAll calls
    byteLength x.2.buffer ≤ capacity ∧
    (∃ chunks, (ofDevice device).Since calls chunks) ∧
    (∀ chunks, (ofDevice device).Since calls chunks → x.2.buffer <:+ heard chunks) ∧
    (∀ g ∈ x.1, g.Whole) ∧
    ∀ chunk, let text := x.2.buffer ++ decodeLossy chunk
      ((x.2.feed chunk).1 ≠ none → (x.2.feed chunk).2.buffer = []) ∧
      ((x.2.feed chunk).1 = none →
        (byteLength text ≤ capacity → (x.2.feed chunk).2.buffer = text) ∧
        (capacity < byteLength text →
          (FromLastMarker text (x.2.feed chunk).2.buffer ∧
              byteLength (x.2.feed chunk).2.buffer ≤ capacity) ∨
            (x.2.feed chunk).2.buffer = [] ∧
              ∀ kept, FromLastMarker text kept → capacity < byteLength kept)) := by
  intro x
  refine ⟨byteLength_callAll_le (Nat.zero_le _) calls, exists_since _ calls,
    fun chunks h => suffix_of_since rfl h, whole_callAll _ calls, fun chunk => ?_⟩
  refine ⟨fun h => buffer_of_clears (c := .feed chunk) (.inr h), fun h => ?_⟩
  have hbuf : (x.2.feed chunk).2.buffer = overflow (x.2.buffer ++ decodeLossy chunk) := by
    cases hx : listing? (x.2.buffer ++ decodeLossy chunk) with
    | some y =>
      rw [feed_of_some hx] at h
      cases h
    | none => rw [feed_of_none hx]
  rw [hbuf]
  exact ⟨overflow_of_le, overflow_cases⟩

end Receiver

end PinBench
