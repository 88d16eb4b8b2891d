import PinBench.Proofs.Listing.Noise
import PinBench.Station.Writes

/-!
# The latest listing

Of several listings in turn the last one is read, and its reading is the one that is kept, unless a
chunk overtakes or beheads it.

* `exists_listing_of_suffix`: **where listings follow each other, each marker is that of a whole
  one**; so all before the last marker is `Finished`.
* `Station.find?_storeAll_concat`: **the last reading of a device is the one that is kept**.
* `Receiver.latest_read`: **the latest listing is read and kept, unless it is lost in a chunk**.
* `Receiver.latest_overtaken`: of two listings in one chunk only the first is read.
-/

namespace PinBench

open Text

/-! ## Listings in turn -/

variable {L : Listing} {init : List Listing} {pre : List Char}

/-- The end of a listing holds it if it holds the marker. -/
theorem Listing.listing?_of_suffix (once : MarkedOnce L.text) {cs : List Char} (h : cs <:+ L.text)
    (hm : Marked cs) : listing? cs = some L.inputs := by
  obtain ⟨ahead, post, htext, hahead, hpost⟩ := markedOnce_iff.mp once
  obtain ⟨gone, hgone⟩ := h
  rcases append_eq_append_cases (hgone.trans htext) with ⟨e, rfl, he⟩ | ⟨e, -, rfl, rfl⟩
  · by_cases hne : e = []
    · subst hne
      rw [← List.nil_append cs, ← he]
      exact Listing.listing?_marker htext hahead
    · exact absurd hm (not_marked_behind hpost he hne)
  · rw [listing?_unmarked_append fun h => hahead (h.mono List.infix_append_right)]
    exact Listing.listing?_marker htext hahead

/-- **Where listings follow each other, each marker is that of a whole one.** -/
theorem exists_listing_of_suffix (once : ∀ K ∈ init, MarkedOnce K.text) (hpre : ¬Marked pre)
    {cs : List Char} (h : cs <:+ init.flatMap Listing.text ++ pre) (hm : Marked cs) :
    ∃ K ∈ init, listing? cs = some K.inputs := by
  induction init generalizing cs with
  | nil => exact absurd (hm.mono h.isInfix) hpre
  | cons K init ih =>
    obtain ⟨hK, hinit⟩ := List.forall_mem_cons.mp once
    have later : ∀ {ds : List Char}, ds <:+ init.flatMap Listing.text ++ pre → Marked ds →
        ∃ J ∈ K :: init, listing? ds = some J.inputs := fun hds hm => by
      obtain ⟨J, hJ, hx⟩ := ih hinit hds hm
      exact ⟨J, List.mem_cons_of_mem K hJ, hx⟩
    rw [List.flatMap_cons, List.append_assoc] at h
    obtain ⟨gone, hgone⟩ := h
    rcases append_eq_append_cases hgone with ⟨e, -, he⟩ | ⟨e, hne, htext, rfl⟩
    · exact later ⟨e, he.symm⟩ hm
    · by_cases hme : Marked e
      · exact ⟨K, List.mem_cons_self,
          listing?_append (Listing.listing?_of_suffix hK ⟨gone, htext.symm⟩ hme) _⟩
      · -- complete lines are left of this one
        have hlast : e.getLast? = some '\n' := by
          rw [← K.getLast?_text, htext, List.getLast?_append_of_ne_nil _ hne]
        obtain ⟨lines, rfl⟩ := List.getLast?_eq_some_iff.mp hlast
        rw [List.append_assoc, List.singleton_append] at hm ⊢
        have hlines : ¬Marked lines := fun h => hme (h.mono List.infix_append_left)
        rw [listing?_unmarked_lines hlines]
        exact later (List.suffix_refl _) ((marked_append_lineFeed_iff.mp hm).resolve_left hlines)

/-- So each listing that is begun before the last marker is finished there. -/
theorem finished_listings (once : ∀ K ∈ init, MarkedOnce K.text) (hpre : ¬Marked pre) :
    Finished (init.flatMap Listing.text ++ pre) := by
  intro cs h hm
  obtain ⟨K, -, hx⟩ := exists_listing_of_suffix once hpre h hm
  rw [hx]
  exact Option.some_ne_none _

theorem ReadIn.exists_listing {device : String} {g : Reading}
    (h : ReadIn device (init.flatMap Listing.text ++ pre) g)
    (once : ∀ K ∈ init, MarkedOnce K.text) (hpre : ¬Marked pre) :
    ∃ K ∈ init, K.reading device = g := by
  obtain ⟨cs, x, ⟨gone, behind, hcs⟩, hx, rfl⟩ := h
  have hsuffix : cs ++ behind <:+ init.flatMap Listing.text ++ pre :=
    ⟨gone, by rw [← hcs, List.append_assoc]⟩
  have hfull := listing?_append hx behind
  obtain ⟨K, hK, hy⟩ := exists_listing_of_suffix once hpre hsuffix (marked_of_listing? hfull)
  exact ⟨K, hK, congrArg (Reading.ofInputs device) (Option.some.inj (hy.symm.trans hfull))⟩

/-! ## What is kept -/

theorem Reading.find?_insert (g : Reading) (gs : List Reading) :
    (g.insert gs).find? (·.device == g.device) = some g := by
  induction gs with
  | nil => simp [Reading.insert]
  | cons h gs ih =>
    unfold Reading.insert
    split_ifs with he
    · simp
    · simp
    · rw [List.find?_cons_of_neg (by simpa using Ne.symm he), ih]

namespace Station

variable {β : Type}

/-- Readings in turn, each kept if the bench has its device. -/
def storeAll (s : Station) (l : Link β) (gs : List Reading) : Station × Link β :=
  gs.foldl (fun x g => (x.1.store g x.2).2) (s, l)

theorem bench_store (s : Station) (g : Reading) (l : Link β) :
    (s.store g l).2.1.bench = s.bench := by
  unfold store
  split_ifs <;> rfl

theorem bench_storeAll (s : Station) (l : Link β) (gs : List Reading) :
    (s.storeAll l gs).1.bench = s.bench := by
  induction gs generalizing s l with
  | nil => rfl
  | cons g gs ih => exact (ih _ _).trans (bench_store s g l)

theorem find?_store {s : Station} {g : Reading} (h : s.bench.devices.any (·.name == g.device))
    (l : Link β) : (s.store g l).2.1.readings.find? (·.device == g.device) = some g := by
  rw [store, if_pos h]
  exact Reading.find?_insert g s.readings

/-- **The last reading of a device is the one that is kept.** -/
theorem find?_storeAll_concat {s : Station} {g : Reading}
    (h : s.bench.devices.any (·.name == g.device)) (l : Link β) (gs : List Reading) :
    (s.storeAll l (gs ++ [g])).1.readings.find? (·.device == g.device) = some g := by
  rw [storeAll, List.foldl_append]
  exact find?_store (by rw [← storeAll, bench_storeAll]; exact h) _

end Station

namespace Receiver

/-- **Of several listings the latest is read and kept, unless it is lost in a chunk**: the chunk
with the first character of its marker completes an earlier listing with what stands before, or a
chunk ends within the marker and makes the waiting text too long.  Other readings are those of
earlier listings; and no text that fits as a whole is too long. -/
theorem latest_read {device : String} {chunks : List (List UInt8)}
    (ascii : ∀ K ∈ init ++ [L], Ascii K.text) (once : ∀ K ∈ init ++ [L], MarkedOnce K.text)
    (fits : byteLength L.text ≤ capacity)
    (sent : chunks.flatten = encode ((init ++ [L]).flatMap Listing.text))
    (hpre : pre ++ marker <+: L.text) :
    let r := ofDevice device
    let place := (init.flatMap Listing.text ++ pre).length
    let lost := r.Overtakes chunks place ∨ r.Beheads chunks place
    ∃ earlier, (∀ g ∈ earlier, ∃ K ∈ init, K.reading device = g) ∧
      (¬lost → (r.feedAll chunks).1 = earlier ++ [L.reading device] ∧
        ∀ {β : Type} (s : Station) (l : Link β), s.bench.devices.any (·.name == device) →
          (s.storeAll l (r.feedAll chunks).1).1.readings.find? (·.device == device) =
            some (L.reading device)) ∧
      (lost → (r.feedAll chunks).1 = earlier) ∧
      (byteLength ((init ++ [L]).flatMap Listing.text) ≤ capacity → ¬r.Beheads chunks place) := by
  intro r place lost
  rw [List.flatMap_append, List.flatMap_singleton] at sent ⊢
  rw [List.forall_mem_append] at ascii once
  obtain ⟨post, htext, hno, hpost⟩ := (once.2 L List.mem_cons_self).exists_eq hpre
  have hascii : Ascii (init.flatMap Listing.text ++ L.text) := ascii_append_iff.mpr
    ⟨List.forall_mem_flatMap.mpr ascii.1, ascii.2 L List.mem_cons_self⟩
  have hwhole : heard chunks = init.flatMap Listing.text ++ L.text := heard_of_ascii sent hascii
  have hheard : heard chunks = init.flatMap Listing.text ++ pre ++ (marker ++ post) := by
    rw [hwhole, htext, List.append_assoc]
  have hcap : byteLength (marker ++ post) ≤ capacity :=
    (byteLength_le_of_suffix ⟨pre, htext.symm⟩).trans fits
  obtain ⟨earlier, hearlier, hread, hlost⟩ := feedAll_last (r := r) hpost
    (Listing.listing?_marker htext hno) hcap (finished_listings once.1 hno) hheard
  refine ⟨earlier, fun g hg => (hearlier g hg).exists_listing once.1 hno,
    fun h => ⟨hread h, fun s l hs => ?_⟩, hlost, fun h => not_drops_of_le ?_⟩
  · rw [hread h]
    exact Station.find?_storeAll_concat (g := L.reading device) hs l earlier
  · rw [hwhole]
    exact h

/-- Two listings, the second of which begins with a chunk. -/
theorem latest_read_second :
    let K : Listing := ⟨"Etat des entrees:".toList, ['h'], ['h'], "0 1".toList, "1 0".toList,
      by decide, by decide, by decide, by decide⟩
    let L : Listing := ⟨"Etat des entrees:".toList, ['h'], ['h'], "1 1".toList, "0 0".toList,
      by decide, by decide, by decide, by decide⟩
    let chunks := [encode "Etat des entrees:\nh\nh\n0 1\n1 ".toList, encode "0\n".toList,
      encode "Etat des ent".toList, encode "rees:\nh\nh\n1 1\n0 0\n".toList]
    let place := K.text.length
    (∀ J ∈ [K] ++ [L], Ascii J.text) ∧ (∀ J ∈ [K] ++ [L], MarkedOnce J.text) ∧
      byteLength L.text ≤ capacity ∧
      chunks.flatten = encode (([K] ++ [L]).flatMap Listing.text) ∧ [] ++ marker <+: L.text ∧
      ¬((ofDevice "d").Overtakes chunks place ∨ (ofDevice "d").Beheads chunks place) ∧
      ((ofDevice "d").feedAll chunks).1.getLast? = some ⟨"d", "1 1", "0 0"⟩ := by
  intro K L chunks place
  have ascii : ∀ J ∈ [K] ++ [L], Ascii J.text := by decide +kernel
  have once : ∀ J ∈ [K] ++ [L], MarkedOnce J.text := by
    simp only [List.cons_append, List.nil_append, List.forall_mem_cons, markedOnce_iff]
    refine ⟨⟨[], K.text.drop marker.length, ?_⟩, ⟨[], L.text.drop marker.length, ?_⟩, nofun⟩
    all_goals decide +kernel
  have fits : byteLength L.text ≤ capacity := by decide +kernel
  have sent : chunks.flatten = encode (([K] ++ [L]).flatMap Listing.text) := by decide +kernel
  have hpre : [] ++ marker <+: L.text := by decide +kernel
  have whole : ¬((ofDevice "d").Overtakes chunks place ∨ (ofDevice "d").Beheads chunks place) := by
    decide +kernel
  obtain ⟨earlier, -, hread, -⟩ := @latest_read L [K] [] "d" chunks ascii once fits sent hpre
  refine ⟨ascii, once, fits, sent, hpre, whole, ?_⟩
  rw [(hread whole).1, List.getLast?_concat]
  decide +kernel

/-- Two listings in one chunk: only the first is read. -/
theorem latest_overtaken :
    let K : Listing := ⟨"Etat des entrees:".toList, ['h'], ['h'], "0 1".toList, "1 0".toList,
      by decide, by decide, by decide, by decide⟩
    let L : Listing := ⟨"Etat des entrees:".toList, ['h'], ['h'], "1 1".toList, "0 0".toList,
      by decide, by decide, by decide, by decide⟩
    let chunks := [encode ([K, L].flatMap Listing.text)]
    (∀ J ∈ [K, L], Ascii J.text ∧ MarkedOnce J.text) ∧
      byteLength ([K, L].flatMap Listing.text) ≤ capacity ∧
      chunks.flatten = encode ([K, L].flatMap Listing.text) ∧
      ((ofDevice "d").feedAll chunks).1 = [K.reading "d"] ∧ K.reading "d" ≠ L.reading "d" := by
  intro K L chunks
  refine ⟨?_, by decide +kernel, List.append_nil _, by decide +kernel, by decide +kernel⟩
  simp only [List.forall_mem_cons, markedOnce_iff]
  refine ⟨⟨?_, [], K.text.drop marker.length, ?_⟩, ⟨?_, [], L.text.drop marker.length, ?_⟩, nofun⟩
  all_goals decide +kernel

end Receiver

end PinBench
