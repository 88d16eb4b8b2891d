import PinBench.Proofs.Listing.Framing

/-!
# The last listing of a text

Two things can cost a listing.  A chunk that completes an earlier listing is dropped with the
buffer, and the beginning of the marker with it; and a text that is too long is dropped if its
marker has come in part only.  Nothing else does.

* `Receiver.Overtakes`, `Receiver.Drops`, `Receiver.Beheads`: the two things.
* `Finished`: every listing that is begun in a text is finished there.
* `Receiver.feedAll_of_not_marked`: without a marker, nothing is read.
* `Receiver.feedAll_of_marked`: **once the whole marker waits, its listing is read**.
* `Receiver.feedAll_of_begun`: once a part of it waits, the listing is read unless it is beheaded.
* `Receiver.feedAll_last`: **the last listing of a text is read unless one of the two happens**,
  and all readings before it are of earlier text.
* `Receiver.feedAll_only`, `Receiver.feedAll_of_once`, `Receiver.feedAll_eq_nil_or`: **texts with
  one marker** are read once, unless they are too long.
-/

namespace PinBench

open Text

/-- Every listing that is begun in the text is finished there, wherever one starts to read. -/
def Finished (cs : List Char) : Prop := ∀ v, v <:+ cs → Marked v → listing? v ≠ none

theorem Finished.suffix {cs ds : List Char} (h : Finished cs) (hd : ds <:+ cs) : Finished ds :=
  fun v hv => h v (hv.trans hd)

theorem finished_of_not_marked {cs : List Char} (h : ¬Marked cs) : Finished cs :=
  fun _ hv hm => absurd (hm.mono hv.isInfix) h

/-- The reading is that of the first listing of some part of the text. -/
def ReadIn (device : String) (cs : List Char) (g : Reading) : Prop :=
  ∃ v x, v <:+: cs ∧ listing? v = some x ∧ g = .ofInputs device x

theorem ReadIn.marked {device : String} {cs : List Char} {g : Reading} (h : ReadIn device cs g) :
    Marked cs := by
  obtain ⟨v, x, hv, hx, -⟩ := h
  exact (marked_of_listing? hx).mono hv

theorem ReadIn.mono {device : String} {cs ds : List Char} {g : Reading} (h : ReadIn device cs g)
    (hd : cs <:+: ds) : ReadIn device ds g := by
  obtain ⟨v, x, hv, hx, hg⟩ := h
  exact ⟨v, x, hv.trans hd, hx, hg⟩

namespace Receiver

/-- The chunk that brings the character of number `p` completes a listing with the text before. -/
def Overtakes (r : Receiver) (chunks : List (List UInt8)) (p : Nat) : Prop :=
  ∃ done c rest, chunks = done ++ c :: rest ∧ (heard done).length ≤ p ∧
    p < (heard (done ++ [c])).length ∧
    listing? ((r.feedAll done).2.buffer ++ (decodeLossy c).take (p - (heard done).length)) ≠ none

/-- A chunk ends between two places of the text and makes the waiting text too long. -/
def Drops (r : Receiver) (chunks : List (List UInt8)) (low high : Nat) : Prop :=
  ∃ done c rest, chunks = done ++ c :: rest ∧ low ≤ (heard (done ++ [c])).length ∧
    (heard (done ++ [c])).length < high ∧
    capacity < byteLength ((r.feedAll done).2.buffer ++ decodeLossy c)

/-- A chunk ends within the marker whose first character is that of number `p`, and makes the
waiting text too long. -/
def Beheads (r : Receiver) (chunks : List (List UInt8)) (p : Nat) : Prop :=
  r.Drops chunks (p + 1) (p + marker.length)

variable {r : Receiver} {c : List UInt8} {chunks : List (List UInt8)} {p low high : Nat}

theorem overtakes_cons_iff :
    r.Overtakes (c :: chunks) p ↔
      p < (decodeLossy c).length ∧ listing? (r.buffer ++ (decodeLossy c).take p) ≠ none ∨
      (decodeLossy c).length ≤ p ∧
        (r.feed c).2.Overtakes chunks (p - (decodeLossy c).length) := by
  constructor
  · rintro ⟨_ | ⟨d, done⟩, e, rest, h, hp, hp', hx⟩
    · obtain ⟨rfl, rfl⟩ := List.cons_eq_cons.mp h
      rw [List.nil_append, heard_singleton] at hp'
      exact .inl ⟨hp', hx⟩
    · obtain ⟨rfl, rfl⟩ := List.cons_eq_cons.mp (h.trans (List.cons_append ..))
      rw [List.cons_append, heard_cons, List.length_append] at hp'
      rw [heard_cons, List.length_append] at hp hx
      rw [← Nat.sub_sub] at hx
      exact .inr ⟨by omega, done, e, rest, rfl, by omega, by omega, hx⟩
  · rintro (⟨hp, hx⟩ | ⟨hp, done, e, rest, rfl, hq, hq', hx⟩)
    · refine ⟨[], c, chunks, rfl, Nat.zero_le p, ?_, hx⟩
      rwa [List.nil_append, heard_singleton]
    · refine ⟨c :: done, e, rest, rfl, ?_, ?_, ?_⟩
      · rw [heard_cons, List.length_append]
        omega
      · rw [List.cons_append, heard_cons, List.length_append]
        omega
      · rw [heard_cons, List.length_append, ← Nat.sub_sub]
        exact hx

theorem drops_cons_iff :
    r.Drops (c :: chunks) low high ↔
      (low ≤ (decodeLossy c).length ∧ (decodeLossy c).length < high) ∧
        capacity < byteLength (r.buffer ++ decodeLossy c) ∨
      (r.feed c).2.Drops chunks (low - (decodeLossy c).length)
        (high - (decodeLossy c).length) := by
  constructor
  · rintro ⟨_ | ⟨d, done⟩, e, rest, h, hl, hh, hx⟩
    · obtain ⟨rfl, rfl⟩ := List.cons_eq_cons.mp h
      rw [List.nil_append, heard_singleton] at hl hh
      exact .inl ⟨⟨hl, hh⟩, hx⟩
    · obtain ⟨rfl, rfl⟩ := List.cons_eq_cons.mp (h.trans (List.cons_append ..))
      rw [List.cons_append, heard_cons, List.length_append] at hl hh
      exact .inr ⟨done, e, rest, rfl, by omega, by omega, hx⟩
  · rintro (⟨⟨hl, hh⟩, hx⟩ | ⟨done, e, rest, rfl, hl, hh, hx⟩)
    · refine ⟨[], c, chunks, rfl, ?_, ?_, hx⟩ <;> rwa [List.nil_append, heard_singleton]
    · refine ⟨c :: done, e, rest, rfl, ?_, ?_, hx⟩ <;>
        · rw [List.cons_append, heard_cons, List.length_append]
          omega

instance decidableOvertakes : (r : Receiver) → (chunks : List (List UInt8)) → (p : Nat) →
    Decidable (r.Overtakes chunks p)
  | _, [], _ => isFalse fun ⟨_, _, _, h, _⟩ =>
    List.append_ne_nil_of_right_ne_nil _ (List.cons_ne_nil _ _) h.symm
  | r, c :: chunks, p =>
    haveI := decidableOvertakes (r.feed c).2 chunks (p - (decodeLossy c).length)
    decidable_of_iff' _ overtakes_cons_iff

instance decidableDrops : (r : Receiver) → (chunks : List (List UInt8)) → (low high : Nat) →
    Decidable (r.Drops chunks low high)
  | _, [], _, _ => isFalse fun ⟨_, _, _, h, _⟩ =>
    List.append_ne_nil_of_right_ne_nil _ (List.cons_ne_nil _ _) h.symm
  | r, c :: chunks, low, high =>
    haveI := decidableDrops (r.feed c).2 chunks (low - (decodeLossy c).length)
      (high - (decodeLossy c).length)
    decidable_of_iff' _ drops_cons_iff

instance (r : Receiver) (chunks : List (List UInt8)) (p : Nat) : Decidable (r.Beheads chunks p) :=
  decidableDrops r chunks (p + 1) (p + marker.length)

theorem not_drops (h : high ≤ low) : ¬r.Drops chunks low high := by
  rintro ⟨_, _, _, _, hl, hh, _⟩
  omega

/-- No chunk ends before its own end. -/
theorem not_drops_cons (h : high ≤ (decodeLossy c).length) : ¬r.Drops (c :: chunks) low high := by
  rw [drops_cons_iff]
  rintro (⟨⟨-, hh⟩, -⟩ | hd)
  · omega
  · exact not_drops (by omega) hd

/-- What waits is the end of what has come. -/
theorem buffer_feedAll_suffix : (r.feedAll chunks).2.buffer <:+ r.buffer ++ heard chunks := by
  induction chunks generalizing r with
  | nil =>
    rw [heard, List.flatMap_nil, List.append_nil]
    exact List.suffix_refl _
  | cons c chunks ih =>
    rw [heard_cons, ← List.append_assoc]
    cases hx : listing? (r.buffer ++ decodeLossy c) with
    | some x =>
      rw [feedAll_cons_of_some hx]
      exact ih.trans (List.suffix_append _ (heard chunks))
    | none =>
      rw [feedAll_cons_of_none hx]
      exact ih.trans (List.suffix_append_self_iff.mpr (overflow_suffix _))

/-- Nothing overtakes where no marker stands before. -/
theorem not_overtakes {ahead rest : List Char} (h : ¬Marked (r.buffer ++ ahead))
    (hc : heard chunks = ahead ++ rest) : ¬r.Overtakes chunks ahead.length := by
  rintro ⟨done, c, chunks, rfl, hp, hp', hx⟩
  rw [heard_append, List.length_append, heard_singleton] at hp'
  rw [heard_append, heard_cons] at hc
  have hahead : ahead = heard done ++ (decodeLossy c).take (ahead.length - (heard done).length) := by
    have htake := congrArg (List.take ahead.length) hc
    rw [List.take_left, List.take_append, List.take_of_length_le hp,
      List.take_append_of_le_length (by omega)] at htake
    exact htake.symm
  refine hx (listing?_of_not_marked fun hm => h ?_)
  rw [hahead, ← List.append_assoc]
  exact hm.mono (List.suffix_append_self_iff.mpr buffer_feedAll_suffix).isInfix

/-- Nothing is dropped of a text that is not too long as a whole. -/
theorem not_drops_of_le (h : byteLength (r.buffer ++ heard chunks) ≤ capacity) :
    ¬r.Drops chunks low high := by
  rintro ⟨done, c, rest, rfl, -, -, hc⟩
  have hbuf : byteLength (r.feedAll done).2.buffer ≤ byteLength (r.buffer ++ heard done) :=
    byteLength_le_of_suffix buffer_feedAll_suffix
  rw [heard_append, heard_cons] at h
  simp only [byteLength_append] at h hc hbuf
  omega

/-! ## Texts without and with a marker -/

/-- Without a marker, nothing is read. -/
theorem feedAll_of_not_marked (h : ¬Marked (r.buffer ++ heard chunks)) :
    (r.feedAll chunks).1 = [] := by
  induction chunks generalizing r with
  | nil => rfl
  | cons c chunks ih =>
    rw [heard_cons, ← List.append_assoc] at h
    have hx : listing? (r.buffer ++ decodeLossy c) = none :=
      listing?_of_not_marked fun hm => h (hm.mono List.infix_append_left)
    rw [feedAll_cons_of_none hx]
    have hs : overflow (r.buffer ++ decodeLossy c) ++ heard chunks <:+
        r.buffer ++ decodeLossy c ++ heard chunks :=
      List.suffix_append_self_iff.mpr (overflow_suffix _)
    exact ih fun hm => h (hm.mono hs.isInfix)

section Marker

variable {post : List Char} {x : List Char × List Char} (hpost : ¬Marked post)
  (hx : listing? (marker ++ post) = some x) (hcap : byteLength (marker ++ post) ≤ capacity)
include hpost hx hcap

/-- **Once the whole marker waits, its listing is read**, and nothing after it. -/
theorem feedAll_of_marked {pre post₁ : List Char} (hpre : ¬Marked pre)
    (hw : r.buffer ++ decodeLossy c = pre ++ (marker ++ post₁))
    (hrest : post = post₁ ++ heard chunks) :
    (r.feedAll (c :: chunks)).1 = [.ofInputs r.device x] := by
  induction chunks generalizing r c pre post₁ with
  | nil =>
    obtain rfl : post = post₁ := hrest.trans (List.append_nil _)
    have hfull : listing? (r.buffer ++ decodeLossy c) = some x := by
      rw [hw, listing?_unmarked_append hpre, hx]
    rw [feedAll_cons_of_some hfull]
    rfl
  | cons d chunks ih =>
    have hpost₁ : ¬Marked post₁ := fun hm => hpost (hm.mono (hrest ▸ List.infix_append_left))
    have hle : byteLength (marker ++ post₁) ≤ capacity := by
      rw [hrest, ← List.append_assoc, byteLength_append] at hcap
      exact Nat.le_of_add_right_le hcap
    cases hy : listing? (r.buffer ++ decodeLossy c) with
    | some y =>
      have hxy : x = y := by
        rw [hw, listing?_unmarked_append hpre] at hy
        have := listing?_append hy (heard (d :: chunks))
        rw [List.append_assoc, ← hrest, hx] at this
        exact Option.some.inj this
      rw [feedAll_cons_of_some hy, hxy, feedAll_of_not_marked]
      exact fun hm => hpost (hm.mono (hrest ▸ List.infix_append_right))
    | none =>
      obtain ⟨pre', hpre', hover⟩ := overflow_append pre hpost₁ hle
      rw [feedAll_cons_of_none hy, hw, hover]
      have hw' : pre' ++ (marker ++ post₁) ++ decodeLossy d =
          pre' ++ (marker ++ (post₁ ++ decodeLossy d)) := by simp only [List.append_assoc]
      refine ih (fun hm => hpre (hm.mono hpre'.isInfix)) hw' ?_
      rw [hrest, heard_cons, List.append_assoc]

/-- Once a part of the marker waits, its listing is lost if the text grows too long before the
marker is whole, and read otherwise. -/
theorem feedAll_of_begun {pre m₁ m₂ : List Char} (hpre : ¬Marked pre) (hm : m₁ ++ m₂ = marker)
    (h₁ : m₁ ≠ []) (h₂ : m₂ ≠ []) (hw : r.buffer ++ decodeLossy c = pre ++ m₁)
    (hrest : heard chunks = m₂ ++ post) :
    let lost := capacity < byteLength (r.buffer ++ decodeLossy c) ∨
      (r.feed c).2.Drops chunks 0 m₂.length
    (¬lost → (r.feedAll (c :: chunks)).1 = [.ofInputs r.device x]) ∧
      (lost → (r.feedAll (c :: chunks)).1 = []) := by
  induction chunks generalizing r c m₁ m₂ with
  | nil => exact absurd (List.append_eq_nil_iff.mp hrest.symm).1 h₂
  | cons d chunks ih =>
    intro lost
    have hno : ¬Marked (r.buffer ++ decodeLossy c) := hw ▸ not_marked_append_begun hpre hm h₂
    have hnone := listing?_of_not_marked hno
    rw [show lost = (_ ∨ _) from rfl, feed_of_none hnone, feedAll_cons_of_none hnone]
    by_cases hle : byteLength (r.buffer ++ decodeLossy c) ≤ capacity
    · rw [or_iff_right (Nat.not_lt.mpr hle), overflow_of_le hle, hw]
      rcases append_eq_append_cases hrest with ⟨post₁, hd, hpost₁⟩ | ⟨n, hn, rfl, hnext⟩
      · -- the marker is whole with the next chunk
        refine ⟨fun _ => feedAll_of_marked hpost hx hcap hpre ?_ hpost₁,
          fun h => absurd h (not_drops_cons ?_)⟩
        · rw [hd, List.append_assoc, ← List.append_assoc m₁, hm]
        · rw [hd, List.length_append]
          exact Nat.le_add_right _ _
      · have hn₀ : 0 < n.length := List.length_pos_of_ne_nil hn
        have hlt : 0 ≤ (decodeLossy d).length ∧
            (decodeLossy d).length < (decodeLossy d ++ n).length := by
          rw [List.length_append]
          omega
        rw [drops_cons_iff, Nat.zero_sub, List.length_append, Nat.add_sub_cancel_left,
          ← List.length_append, and_iff_right hlt]
        have hm' : m₁ ++ decodeLossy d ++ n = marker := by rw [List.append_assoc, hm]
        exact ih hm' (List.append_ne_nil_of_left_ne_nil h₁ _) hn (List.append_assoc ..) hnext
    · have hlong := Nat.lt_of_not_le hle
      refine ⟨fun h => absurd (.inl hlong) h, fun _ => ?_⟩
      rw [overflow_of_not_marked hno hlong]
      refine feedAll_of_not_marked ?_
      rw [List.nil_append, hrest]
      exact not_marked_rest_append hpost hm h₁

end Marker

/-- A chunk that ends before the marker neither overtakes nor beheads it. -/
theorem overtakes_append_iff {next : List Char} :
    r.Overtakes (c :: chunks) (decodeLossy c ++ next).length ↔
      (r.feed c).2.Overtakes chunks next.length := by
  rw [overtakes_cons_iff, List.length_append, Nat.add_sub_cancel_left]
  constructor
  · rintro (⟨h, -⟩ | ⟨-, h⟩)
    · omega
    · exact h
  · exact fun h => .inr ⟨Nat.le_add_right _ _, h⟩

theorem beheads_append_iff {next : List Char} :
    r.Beheads (c :: chunks) (decodeLossy c ++ next).length ↔
      (r.feed c).2.Beheads chunks next.length := by
  rw [Beheads, Beheads, drops_cons_iff, List.length_append, Nat.add_assoc, Nat.add_assoc,
    Nat.add_sub_cancel_left, Nat.add_sub_cancel_left]
  constructor
  · rintro (⟨⟨h, -⟩, -⟩ | h)
    · omega
    · exact h
  · exact .inr

/-- The chunk that brings the character overtakes it if the text up to there holds a listing. -/
theorem overtakes_of_append_iff {ahead e : List Char} (hc : decodeLossy c = ahead ++ e)
    (he : e ≠ []) : r.Overtakes (c :: chunks) ahead.length ↔ listing? (r.buffer ++ ahead) ≠ none := by
  have hpos : 0 < e.length := List.length_pos_of_ne_nil he
  rw [overtakes_cons_iff, hc, List.take_left, List.length_append]
  constructor
  · rintro (⟨-, h⟩ | ⟨h, -⟩)
    · exact h
    · omega
  · exact fun h => .inl ⟨by omega, h⟩

/-- The chunk that brings a part of the marker beheads it, or one of those before the rest. -/
theorem beheads_begun_iff {ahead m₁ m₂ : List Char} (hc : decodeLossy c = ahead ++ m₁)
    (h₁ : m₁ ≠ []) (h₂ : m₂ ≠ []) (hm : m₁ ++ m₂ = marker) :
    r.Beheads (c :: chunks) ahead.length ↔
      capacity < byteLength (r.buffer ++ decodeLossy c) ∨
        (r.feed c).2.Drops chunks 0 m₂.length := by
  have hpos₁ : 0 < m₁.length := List.length_pos_of_ne_nil h₁
  have hpos₂ : 0 < m₂.length := List.length_pos_of_ne_nil h₂
  have hlen : (decodeLossy c).length = ahead.length + m₁.length := by rw [hc, List.length_append]
  have hmarker : marker.length = m₁.length + m₂.length := by rw [← hm, List.length_append]
  have hin : ahead.length + 1 ≤ (decodeLossy c).length ∧
      (decodeLossy c).length < ahead.length + marker.length := by omega
  have hlow : ahead.length + 1 - (decodeLossy c).length = 0 := by omega
  have hhigh : ahead.length + marker.length - (decodeLossy c).length = m₂.length := by omega
  rw [Beheads, drops_cons_iff, hlow, hhigh, and_iff_right hin]

/-- The chunk that brings the first character of the marker, if nothing is complete before it. -/
theorem feedAll_of_beginning {ahead post e : List Char} {x : List Char × List Char}
    (hpost : ¬Marked post) (hx : listing? (marker ++ post) = some x)
    (hcap : byteLength (marker ++ post) ≤ capacity) (hno : ¬Marked (r.buffer ++ ahead))
    (hc : decodeLossy c = ahead ++ e) (he : e ≠ []) (hrest : marker ++ post = e ++ heard chunks) :
    (¬r.Beheads (c :: chunks) ahead.length →
        (r.feedAll (c :: chunks)).1 = [.ofInputs r.device x]) ∧
      (r.Beheads (c :: chunks) ahead.length → (r.feedAll (c :: chunks)).1 = []) := by
  have hw : r.buffer ++ decodeLossy c = r.buffer ++ ahead ++ e := by rw [hc, List.append_assoc]
  rcases append_eq_append_cases hrest.symm with ⟨post₁, rfl, hpost₁⟩ | ⟨m₂, hm₂, hm, hd⟩
  · -- it brings the whole marker
    refine ⟨fun _ => feedAll_of_marked hpost hx hcap hno hw hpost₁,
      fun h => absurd h (not_drops_cons ?_)⟩
    rw [hc, List.length_append, List.length_append]
    omega
  · rw [beheads_begun_iff hc he hm₂ hm.symm]
    exact feedAll_of_begun hpost hx hcap hno hm.symm he hm₂ hw hd

/-- **The last listing of a text is read unless a chunk overtakes or beheads it**; all other
readings are of earlier text. -/
theorem feedAll_last {ahead post : List Char} {x : List Char × List Char} (hpost : ¬Marked post)
    (hx : listing? (marker ++ post) = some x) (hcap : byteLength (marker ++ post) ≤ capacity)
    (hahead : Finished (r.buffer ++ ahead)) (hc : heard chunks = ahead ++ (marker ++ post)) :
    let lost := r.Overtakes chunks ahead.length ∨ r.Beheads chunks ahead.length
    ∃ es, (∀ g ∈ es, ReadIn r.device (r.buffer ++ ahead) g) ∧
      (¬lost → (r.feedAll chunks).1 = es ++ [.ofInputs r.device x]) ∧
      (lost → (r.feedAll chunks).1 = es) := by
  induction chunks generalizing r ahead with
  | nil =>
    have hnil := (List.append_eq_nil_iff.mp hc.symm).2
    exact absurd (List.append_eq_nil_iff.mp hnil).1 marker_ne_nil
  | cons c chunks ih =>
    intro lost
    rw [heard_cons] at hc
    rcases append_eq_append_cases hc.symm with ⟨next, rfl, hnext⟩ | ⟨e, he, hce, hrest⟩
    · -- the marker has not begun: what waits after the chunk is finished as before
      rw [show lost ↔ _ from or_congr overtakes_append_iff beheads_append_iff,
        ← List.append_assoc]
      rw [← List.append_assoc] at hahead
      cases hy : listing? (r.buffer ++ decodeLossy c) with
      | some y =>
        have hs : next <:+ r.buffer ++ decodeLossy c ++ next := List.suffix_append _ next
        rw [feedAll_cons_of_some hy, feed_of_some hy]
        obtain ⟨es, hes, h⟩ := ih (r := r.reset) (hahead.suffix hs) hnext
        refine ⟨.ofInputs r.device y :: es, List.forall_mem_cons.mpr ⟨?_, fun g hg => ?_⟩,
          fun hl => congrArg (_ :: ·) (h.1 hl), fun hl => congrArg (_ :: ·) (h.2 hl)⟩
        · exact ⟨_, y, List.infix_append_left, hy, rfl⟩
        · exact (hes g hg).mono hs.isInfix
      | none =>
        have hs : overflow (r.buffer ++ decodeLossy c) ++ next <:+ r.buffer ++ decodeLossy c ++ next :=
          List.suffix_append_self_iff.mpr (overflow_suffix _)
        rw [feedAll_cons_of_none hy, feed_of_none hy]
        obtain ⟨es, hes, h⟩ := ih (r := ⟨r.device, overflow (r.buffer ++ decodeLossy c)⟩)
          (hahead.suffix hs) hnext
        exact ⟨es, fun g hg => (hes g hg).mono hs.isInfix, h⟩
    · have hover : r.Overtakes (c :: chunks) ahead.length ↔ listing? (r.buffer ++ ahead) ≠ none :=
        overtakes_of_append_iff hce he
      cases hy : listing? (r.buffer ++ ahead) with
      | some y =>
        have hfull : listing? (r.buffer ++ decodeLossy c) = some y := by
          rw [hce, ← List.append_assoc]
          exact listing?_append hy e
        have hlost : lost := .inl (hover.mpr (hy ▸ Option.some_ne_none y))
        have hrest : (r.reset.feedAll chunks).1 = [] :=
          feedAll_of_not_marked (not_marked_behind hpost hrest he)
        rw [feedAll_cons_of_some hfull, hrest]
        refine ⟨[.ofInputs r.device y], List.forall_mem_singleton.mpr ?_,
          fun hl => absurd hlost hl, fun _ => rfl⟩
        exact ⟨_, y, List.infix_rfl, hy, rfl⟩
      | none =>
        have hno : ¬Marked (r.buffer ++ ahead) := fun hm =>
          hahead _ (List.suffix_refl _) hm hy
        have hlost : lost ↔ r.Beheads (c :: chunks) ahead.length :=
          or_iff_right fun h => hover.mp h hy
        rw [hlost]
        exact ⟨[], nofun, feedAll_of_beginning hpost hx hcap hno hce he hrest⟩

/-- **If no marker stands before it, the listing is read unless a chunk beheads it**, and nothing
else is read. -/
theorem feedAll_only {ahead post : List Char} {x : List Char × List Char} (hpost : ¬Marked post)
    (hx : listing? (marker ++ post) = some x) (hcap : byteLength (marker ++ post) ≤ capacity)
    (hahead : ¬Marked (r.buffer ++ ahead)) (hc : heard chunks = ahead ++ (marker ++ post)) :
    (¬r.Beheads chunks ahead.length → (r.feedAll chunks).1 = [.ofInputs r.device x]) ∧
      (r.Beheads chunks ahead.length → (r.feedAll chunks).1 = []) := by
  obtain ⟨es, hes, hread, hlost⟩ :=
    feedAll_last hpost hx hcap (finished_of_not_marked hahead) hc
  obtain rfl : es = [] :=
    List.eq_nil_iff_forall_not_mem.mpr fun g hg => hahead (hes g hg).marked
  exact ⟨fun h => hread (not_or_intro (not_overtakes hahead hc) h), fun h => hlost (.inr h)⟩

/-- **A text with one marker is read once**, wherever the chunks end, if it is not too long. -/
theorem feedAll_of_once {x : List Char × List Char} (hr : r.buffer = [])
    (once : MarkedOnce (heard chunks)) (fits : byteLength (heard chunks) ≤ capacity)
    (hx : listing? (heard chunks) = some x) : (r.feedAll chunks).1 = [.ofInputs r.device x] := by
  obtain ⟨ahead, post, hheard, hahead, hpost⟩ := markedOnce_iff.mp once
  rw [hheard, listing?_unmarked_append hahead] at hx
  have hcap : byteLength (marker ++ post) ≤ capacity :=
    (byteLength_le_of_suffix ⟨ahead, hheard.symm⟩).trans fits
  have hno : ¬Marked (r.buffer ++ ahead) := by rwa [hr]
  refine (feedAll_only hpost hx hcap hno hheard).1 (not_drops_of_le ?_)
  rwa [hr]

/-- What is read of a text with one marker is its listing or nothing. -/
theorem feedAll_of_marked_text {pre post : List Char} {x : List Char × List Char}
    (hpost : ¬Marked post) (hx : listing? (marker ++ post) = some x) (hpre : ¬Marked pre)
    (hc : r.buffer ++ heard chunks = pre ++ (marker ++ post)) :
    (r.feedAll chunks).1 = [] ∨ (r.feedAll chunks).1 = [.ofInputs r.device x] := by
  induction chunks generalizing r pre with
  | nil => exact .inl rfl
  | cons c chunks ih =>
    rw [heard_cons, ← List.append_assoc] at hc
    cases hy : listing? (r.buffer ++ decodeLossy c) with
    | some y =>
      have hxy : some x = some y := by
        rw [← hx, ← listing?_unmarked_append hpre, ← hc]
        exact listing?_append hy (heard chunks)
      have hw : Marked (r.buffer ++ decodeLossy c) := marked_of_listing? hy
      have hrest : ¬Marked (r.reset.buffer ++ heard chunks) := by
        rcases append_eq_append_cases hc with ⟨e, he, hd⟩ | ⟨e, -, rfl, -⟩
        · refine not_marked_behind hpost hd ?_
          rintro rfl
          rw [he, List.append_nil] at hw
          exact hpre hw
        · exact absurd (hw.mono List.infix_append_left) hpre
      rw [feedAll_cons_of_some hy, feedAll_of_not_marked hrest, Option.some.inj hxy]
      exact .inr rfl
    | none =>
      -- what is kept is an end of the text, with the whole marker or without
      rw [feedAll_cons_of_none hy]
      obtain ⟨gone, hgone⟩ := overflow_suffix (r.buffer ++ decodeLossy c)
      rw [← hgone, List.append_assoc] at hc
      rcases append_eq_append_cases hc with ⟨e, rfl, he⟩ | ⟨pre', -, rfl, hkept⟩
      · by_cases hne : e = []
        · subst hne
          have hnil : ¬Marked [] := by decide
          exact ih hnil he.symm
        · exact .inl (feedAll_of_not_marked (not_marked_behind hpost he hne))
      · exact ih (fun h => hpre (h.mono List.infix_append_right)) hkept

/-- **Of a text with one marker, nothing but its listing is read**, however long it is. -/
theorem feedAll_eq_nil_or {x : List Char × List Char} (hr : r.buffer = [])
    (once : MarkedOnce (heard chunks)) (hx : listing? (heard chunks) = some x) :
    (r.feedAll chunks).1 = [] ∨ (r.feedAll chunks).1 = [.ofInputs r.device x] := by
  obtain ⟨ahead, post, hheard, hahead, hpost⟩ := markedOnce_iff.mp once
  rw [hheard, listing?_unmarked_append hahead] at hx
  exact feedAll_of_marked_text hpost hx hahead (by rw [hr, hheard]; rfl)

end Receiver

end PinBench
