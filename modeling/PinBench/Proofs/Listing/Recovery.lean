import PinBench.Proofs.Listing.Noise

/-!
# Recovery

A listing that comes again and again is read soon, whatever waits in the receiver: the beginning of
another listing, or one that can never be finished because a line of inputs is empty.  Either the
text that waits makes a reading with what comes, and nothing waits then; or it grows until it is too
long, and what is kept of it begins with the marker of the listing that came last.

* `Receiver.Poised`: the next time a text comes, its listing is read.
* `Receiver.feed_again`: **one more listing leaves the receiver poised, unless the text that waits
  grows by it**.
* `Receiver.exists_poised`: as many listings as are too long together leave the receiver poised.
* `Receiver.recovers`: **the next listing is read**.
-/

namespace PinBench

open Text

theorem length_encode (cs : List Char) : (encode cs).length = byteLength cs := by
  induction cs with
  | nil => rfl
  | cons c cs ih =>
    rw [length_encode_cons, byteLength_cons, ih]

namespace Receiver

variable {r : Receiver} {c : List UInt8} {cs pre post : List Char} {x : List Char × List Char}

theorem device_feed (r : Receiver) (c : List UInt8) : (r.feed c).2.device = r.device := by
  cases hx : listing? (r.buffer ++ decodeLossy c) with
  | none => rw [feed_of_none hx]
  | some x => rw [feed_of_some hx, reset]

theorem device_feedAll (r : Receiver) (chunks : List (List UInt8)) :
    (r.feedAll chunks).2.device = r.device := by
  induction chunks generalizing r with
  | nil => rfl
  | cons c chunks ih => exact (ih _).trans (device_feed r c)

/-- The next time the text comes, `x` is read. -/
def Poised (r : Receiver) (cs : List Char) (x : List Char × List Char) : Prop :=
  listing? (r.buffer ++ cs) = some x

theorem Poised.feed (h : r.Poised cs x) :
    r.feed (encode cs) = (some (.ofInputs r.device x), r.reset) := by
  apply feed_of_some
  rw [decodeLossy_encode]
  exact h

section Again

variable (hpre : ¬Marked pre) (hpost : ¬Marked post) (hcs : cs = pre ++ (marker ++ post))
  (hx : listing? (marker ++ post) = some x) (hcap : byteLength (marker ++ post) ≤ capacity)
include hpre hpost hcs hx hcap

/-- **One more listing leaves the receiver poised, unless the text that waits grows by it.** -/
theorem feed_again (r : Receiver) :
    (r.feed (encode cs)).2.Poised cs x ∨
      byteLength (r.buffer ++ cs) ≤ capacity ∧
        r.feed (encode cs) = (none, ⟨r.device, r.buffer ++ cs⟩) := by
  have htext : r.buffer ++ decodeLossy (encode cs) = r.buffer ++ cs := by rw [decodeLossy_encode]
  cases hy : listing? (r.buffer ++ cs) with
  | some y =>
    -- nothing waits then, and so the listing is the first one
    left
    rw [feed_of_some (by rw [htext, hy])]
    show listing? cs = some x
    rw [hcs, listing?_unmarked_append hpre, hx]
  | none =>
    have hfeed : r.feed (encode cs) = (none, ⟨r.device, overflow (r.buffer ++ cs)⟩) := by
      rw [feed_of_none (by rw [htext, hy]), htext]
    rw [hfeed]
    by_cases hle : byteLength (r.buffer ++ cs) ≤ capacity
    · right
      rw [overflow_of_le hle]
      exact ⟨hle, rfl⟩
    · -- the text from the last marker on waits, and that is a whole listing
      left
      have hkept : overflow (r.buffer ++ cs) = marker ++ post := by
        rw [overflow, if_neg hle, hcs, ← List.append_assoc r.buffer,
          lastMarked_append none (r.buffer ++ pre) hpost]
        exact if_pos hcap
      rw [hkept]
      exact listing?_append hx cs

/-- **As many listings as are too long together leave the receiver poised**, or even fewer, and make
one other reading at most. -/
theorem exists_poised (r : Receiver) (n : Nat)
    (h : capacity < byteLength r.buffer + (n + 1) * byteLength cs) :
    ∃ k ≤ n + 1, (r.feedAll (List.replicate k (encode cs))).1.length ≤ 1 ∧
      (r.feedAll (List.replicate k (encode cs))).2.Poised cs x := by
  have hone : ∀ (s : Receiver) (m : Nat), (s.feed (encode cs)).2.Poised cs x →
      ∃ k ≤ m + 1, (s.feedAll (List.replicate k (encode cs))).1.length ≤ 1 ∧
        (s.feedAll (List.replicate k (encode cs))).2.Poised cs x := by
    intro s m hp
    refine ⟨1, by omega, ?_, hp⟩
    simp [feedAll, Option.length_toList_le]
  induction n generalizing r with
  | zero =>
    rcases feed_again hpre hpost hcs hx hcap r with hp | ⟨hle, -⟩
    · exact hone r 0 hp
    · rw [byteLength_append] at hle
      omega
  | succ n ih =>
    rcases feed_again hpre hpost hcs hx hcap r with hp | ⟨hle, hfeed⟩
    · exact hone r (n + 1) hp
    · have hlt : capacity < byteLength (r.buffer ++ cs) + (n + 1) * byteLength cs := by
        rw [byteLength_append]
        rw [Nat.succ_mul] at h
        omega
      obtain ⟨k, hk, hlen, hp⟩ := ih ⟨r.device, r.buffer ++ cs⟩ hlt
      refine ⟨k + 1, by omega, ?_⟩
      rw [List.replicate_succ, feedAll, hfeed]
      exact ⟨hlen, hp⟩

end Again

/-- **A listing that comes again and again is read**, whatever waits in the receiver: when the
receiver has heard it as often as makes the waiting text too long, if not earlier.  There is one
reading of other lines before it at most, and nothing waits afterwards. -/
theorem recovers {noise : List Char} {L : Listing} (once : MarkedOnce (noise ++ L.text))
    (fits : byteLength (noise ++ L.text) ≤ capacity) (r : Receiver) :
    let chunk := encode (noise ++ L.text)
    ∃ k ≤ capacity / chunk.length + 1,
      let y := r.feedAll (List.replicate k chunk)
      y.1.length ≤ 1 ∧ y.2.feed chunk = (some (L.reading r.device), ⟨r.device, []⟩) := by
  intro chunk
  obtain ⟨pre, hpre, -⟩ := id once
  obtain ⟨ahead, post, rfl, htext, hno, hpost⟩ := Listing.exists_of_noise once hpre
  have hcs : noise ++ L.text = noise ++ ahead ++ (marker ++ post) := by
    rw [htext, List.append_assoc]
  have hx : listing? (marker ++ post) = some L.inputs :=
    Listing.listing?_marker htext fun hm => hno (hm.mono List.infix_append_right)
  have hcap : byteLength (marker ++ post) ≤ capacity := by
    rw [hcs, byteLength_append] at fits
    omega
  have hlen : chunk.length = byteLength (noise ++ L.text) := length_encode _
  have hpos : 0 < chunk.length := by
    have hm : 0 < byteLength marker := by decide
    rw [hlen, hcs, byteLength_append, byteLength_append marker]
    omega
  have hlong : capacity < byteLength r.buffer +
      (capacity / chunk.length + 1) * byteLength (noise ++ L.text) := by
    have h := Nat.lt_mul_div_succ capacity hpos
    rw [Nat.mul_comm] at h
    rw [← hlen]
    omega
  obtain ⟨k, hk, hother, hp⟩ := exists_poised hno hpost hcs hx hcap r _ hlong
  refine ⟨k, hk, hother, ?_⟩
  rw [hp.feed, device_feedAll, reset, device_feedAll]
  rfl

/-- A listing with an empty line of inputs waits, which is never finished, and a whole listing comes
behind a prompt. -/
theorem recovers_blocked :
    let L : Listing := ⟨"Etat des entrees:\r".toList, " E1 E2\r".toList, " -----\r".toList,
      "  0  1\r".toList, "  1  0\r".toList, by decide, by decide, by decide, by decide⟩
    let noise := "é> ls\r\n".toList
    let r := ((ofDevice "d").feed (encode "Etat des entrees:\nh\nh\n\nB\n".toList)).2
    let chunk := encode (noise ++ L.text)
    MarkedOnce (noise ++ L.text) ∧ byteLength (noise ++ L.text) ≤ capacity ∧
      (r.feed chunk).1 = none ∧
      ∃ k ≤ capacity / chunk.length + 1,
        ((r.feedAll (List.replicate k chunk)).2.feed chunk).1 =
          some ⟨"d", "  0  1", "  1  0"⟩ := by
  intro L noise r chunk
  have once : MarkedOnce (noise ++ L.text) := markedOnce_iff.mpr
    ⟨noise, L.text.drop marker.length, by decide +kernel, by decide +kernel, by decide +kernel⟩
  have fits : byteLength (noise ++ L.text) ≤ capacity := by decide +kernel
  obtain ⟨k, hk, -, hread⟩ := recovers once fits r
  have hdev : r.device = "d" := device_feed _ _
  refine ⟨once, fits, by decide +kernel, k, hk, ?_⟩
  rw [hread, hdev]
  decide +kernel

end Receiver

end PinBench
