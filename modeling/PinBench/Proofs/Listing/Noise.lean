import PinBench.Proofs.Listing.Last
import PinBench.Proofs.Text.Torn

/-!
# Noise before a listing

However much text comes before a listing, it costs the listing in one case only: the text becomes
too long while a part of the marker has come.  Then that part is dropped with the noise.

* `Listing.exists_of_noise`: where the marker stands.
* `Receiver.read_behind_noise`: **the listing is read, unless a chunk beheads it**.
* `Receiver.beheaded_by_noise`: a listing that is lost behind a long line.
-/

namespace PinBench

open Text

variable {noise pre : List Char} {L : Listing}

/-- The one marker of noise and a listing is that of the listing. -/
theorem Listing.exists_of_noise (h : MarkedOnce (noise ++ L.text))
    (hpre : pre ++ marker <+: noise ++ L.text) :
    ∃ ahead post, pre = noise ++ ahead ∧ L.text = ahead ++ (marker ++ post) ∧
      ¬Marked pre ∧ ¬Marked post := by
  obtain ⟨ahead, behind, htext⟩ := L.marked_text
  have hahead : noise ++ ahead ++ marker <+: noise ++ L.text := by
    rw [← htext]
    exact ⟨behind, by simp only [List.append_assoc]⟩
  obtain rfl : pre = noise ++ ahead := h.unique hpre hahead
  obtain ⟨post, heq, hno, hpost⟩ := h.exists_eq hpre
  rw [List.append_assoc] at heq
  exact ⟨ahead, post, rfl, List.append_cancel_left heq, hno, hpost⟩

theorem Text.Ascii.byteLength_eq {cs : List Char} (h : Ascii cs) : byteLength cs = cs.length := by
  induction cs with
  | nil => rfl
  | cons c cs ih =>
    obtain ⟨hc, hcs⟩ := List.forall_mem_cons.mp h
    rw [byteLength_cons, hc, ih hcs, List.length_cons, Nat.add_comm]

namespace Receiver

/-- **A listing behind noise is read, unless a chunk ends within its marker and makes the waiting
text too long.**  Then there is no reading at all. -/
theorem read_behind_noise {device : String} {chunks : List (List UInt8)}
    (ascii : Ascii (noise ++ L.text)) (once : MarkedOnce (noise ++ L.text))
    (fits : byteLength L.text ≤ capacity) (sent : chunks.flatten = encode (noise ++ L.text))
    (hpre : pre ++ marker <+: noise ++ L.text) :
    let r := ofDevice device
    (¬r.Beheads chunks pre.length → (r.feedAll chunks).1 = [L.reading device]) ∧
      (r.Beheads chunks pre.length → (r.feedAll chunks).1 = []) := by
  intro r
  obtain ⟨ahead, post, rfl, htext, hno, hpost⟩ := Listing.exists_of_noise once hpre
  have hheard : heard chunks = noise ++ ahead ++ (marker ++ post) := by
    rw [heard_of_ascii sent ascii, htext, List.append_assoc]
  have hlisting : listing? (marker ++ post) = some L.inputs :=
    Listing.listing?_marker htext fun hm => hno (hm.mono List.infix_append_right)
  have hcap : byteLength (marker ++ post) ≤ capacity :=
    (byteLength_le_of_suffix ⟨ahead, htext.symm⟩).trans fits
  exact feedAll_only hpost hlisting hcap hno hheard

/-- A prompt before the listing, and a cut within the marker. -/
theorem read_behind_prompt :
    let L : Listing := ⟨"Etat des entrees:\r".toList, " E1 E2\r".toList, " -----\r".toList,
      "  0  1\r".toList, "  1  0\r".toList, by decide, by decide, by decide, by decide⟩
    let noise := "eye> ls\r\n".toList
    let chunks := [encode "eye> ls\r\nEtat des ent".toList,
      encode "rees:\r\n E1 E2\r\n -----\r\n  0  1\r\n  1  0\r\n".toList]
    Ascii (noise ++ L.text) ∧ MarkedOnce (noise ++ L.text) ∧ byteLength L.text ≤ capacity ∧
      chunks.flatten = encode (noise ++ L.text) ∧ noise ++ marker <+: noise ++ L.text ∧
      ¬(ofDevice "eye").Beheads chunks noise.length ∧
      ((ofDevice "eye").feedAll chunks).1 = [⟨"eye", "  0  1", "  1  0"⟩] := by
  intro L noise chunks
  have ascii : Ascii (noise ++ L.text) := by decide +kernel
  have once : MarkedOnce (noise ++ L.text) := markedOnce_iff.mpr
    ⟨noise, L.text.drop marker.length, by decide +kernel, by decide +kernel, by decide +kernel⟩
  have fits : byteLength L.text ≤ capacity := by decide +kernel
  have sent : chunks.flatten = encode (noise ++ L.text) := by decide +kernel
  have hpre : noise ++ marker <+: noise ++ L.text := by decide +kernel
  have whole : ¬(ofDevice "eye").Beheads chunks noise.length := not_drops_of_le (by decide +kernel)
  exact ⟨ascii, once, fits, sent, hpre, whole,
    ((read_behind_noise ascii once fits sent hpre).1 whole).trans (by decide +kernel)⟩

/-- A line of noise that alone is as long as what may wait, and a chunk that ends with it and the
first four characters of the marker. -/
theorem beheaded_by_noise :
    let L : Listing := ⟨"Etat des entrees:".toList, ['h'], ['h'], "0 1".toList, "1 0".toList,
      by decide, by decide, by decide, by decide⟩
    let noise := List.replicate capacity 'x' ++ ['\n']
    let chunks := [encode (noise ++ "Etat".toList),
      encode " des entrees:\nh\nh\n0 1\n1 0\n".toList]
    Ascii (noise ++ L.text) ∧ MarkedOnce (noise ++ L.text) ∧ byteLength L.text ≤ capacity ∧
      chunks.flatten = encode (noise ++ L.text) ∧ ((ofDevice "d").feedAll chunks).1 = [] := by
  intro L noise chunks
  have hnoise : ¬Marked noise := by
    rw [marked_append_lineFeed_iff, not_or]
    refine ⟨fun h => ?_, by decide⟩
    exact absurd (List.eq_of_mem_replicate (h.subset (List.head_mem marker_ne_nil))) (by decide)
  have hascii : Ascii noise := by
    refine ascii_append_iff.mpr ⟨fun c hc => ?_, by decide⟩
    obtain rfl := List.eq_of_mem_replicate hc
    decide
  have hdecode : (ofDevice "d").buffer ++ decodeLossy (encode (noise ++ "Etat".toList)) =
      noise ++ "Etat".toList := by
    rw [decodeLossy_encode]
    exact List.nil_append _
  have hlong : capacity < byteLength (noise ++ "Etat".toList) := by
    rw [byteLength_append, hascii.byteLength_eq, List.length_append, List.length_replicate,
      Nat.add_assoc]
    exact Nat.lt_add_of_pos_right (by decide)
  have hbegun : ¬Marked (noise ++ "Etat".toList) := by
    have hm : "Etat".toList ++ " des entrees:".toList = marker := by decide
    exact not_marked_append_begun hnoise hm (by decide)
  refine ⟨ascii_append_iff.mpr ⟨hascii, by decide⟩,
    markedOnce_iff.mpr ⟨noise, L.text.drop marker.length, congrArg (noise ++ ·) (by decide),
      hnoise, by decide⟩, by decide +kernel, ?_, ?_⟩
  · have htext : L.text = "Etat".toList ++ " des entrees:\nh\nh\n0 1\n1 0\n".toList := by decide
    rw [htext, ← List.append_assoc, encode_append (noise ++ _), List.flatten_cons,
      List.flatten_singleton]
  · -- the whole text that waits is dropped, and what comes has no marker
    have hnone := listing?_of_not_marked hbegun
    rw [← hdecode] at hnone hbegun hlong
    rw [feedAll_cons_of_none hnone, overflow_of_not_marked hbegun hlong]
    exact feedAll_of_not_marked (by decide +kernel)

end Receiver

end PinBench
