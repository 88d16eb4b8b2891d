import PinBench.Text.Utf8
import Mathlib.Data.List.Basic
import Mathlib.Tactic.SplitIfs

/-!
# Encoded text is read back

A character is one byte, or a first byte that announces the others.  A byte that may not continue a
character starts afresh, whatever went before, and so bytes can be read in parts.

* `encode`: the bytes of a text.
* `IsTail`: the bytes that only continue a character.
* `Awaits`: what completes the character under way; `lead_utf8EncodeChar`: how a character begins.
* `decodeLossy_append`: **bytes can be read in two parts**, if no character is cut.
* `decodeLossy_encode`: **the bytes of a text are read as that text**.
* `decodeLossy_of_tails`, `decodeLossy_of_begun`: what becomes of the parts of a character.
* `heard`: chunks as text, each read on its own.
-/

namespace PinBench.Text

/-- The bytes of a text. -/
def encode (cs : List Char) : List UInt8 := cs.flatMap String.utf8EncodeChar

theorem encode_cons (c : Char) (cs : List Char) :
    encode (c :: cs) = String.utf8EncodeChar c ++ encode cs := rfl

theorem encode_append (cs ds : List Char) : encode (cs ++ ds) = encode cs ++ encode ds :=
  List.flatMap_append

/-- A byte that continues a character and cannot start one. -/
def IsTail (b : UInt8) : Prop := 0x80 ≤ b ∧ b ≤ 0xBF

/-! ## First bytes -/

theorem Lead.of_isTail {b : UInt8} (h : IsTail b) : Lead.of b = .invalid := by
  have h₁ : ¬b < 0x80 := UInt8.not_lt.mpr h.1
  have h₂ : b < 0xC2 := by
    have h := h.2
    rw [UInt8.le_iff_toNat_le] at h
    rw [UInt8.lt_iff_toNat_lt]
    exact Nat.lt_of_le_of_lt h (by decide)
  rw [Lead.of, if_neg h₁, if_pos h₂]

theorem Lead.of_two {b : UInt8} (h : 0xC2 ≤ b.toNat) (h' : b.toNat < 0xE0) :
    Lead.of b = .multi ⟨1, 0x80, 0xBF, b.toNat - 0xC0⟩ := by
  simp only [Lead.of, UInt8.lt_iff_toNat_lt, UInt8.reduceToNat]
  rw [if_neg (by omega), if_neg (by omega), if_pos h']

theorem Lead.of_three {b : UInt8} (h : 0xE0 ≤ b.toNat) (h' : b.toNat < 0xF0) :
    Lead.of b = .multi ⟨2, if b.toNat = 0xE0 then 0xA0 else 0x80,
      if b.toNat = 0xED then 0x9F else 0xBF, b.toNat - 0xE0⟩ := by
  simp only [Lead.of, UInt8.lt_iff_toNat_lt, ← UInt8.toNat_inj, UInt8.reduceToNat]
  rw [if_neg (by omega), if_neg (by omega), if_neg (by omega)]
  split_ifs <;> simp_all

theorem Lead.of_four {b : UInt8} (h : 0xF0 ≤ b.toNat) (h' : b.toNat ≤ 0xF4) :
    Lead.of b = .multi ⟨3, if b.toNat = 0xF0 then 0x90 else 0x80,
      if b.toNat = 0xF4 then 0x8F else 0xBF, b.toNat - 0xF0⟩ := by
  simp only [Lead.of, UInt8.lt_iff_toNat_lt, ← UInt8.toNat_inj, UInt8.reduceToNat]
  rw [if_neg (by omega), if_neg (by omega), if_neg (by omega), if_neg (by omega), if_neg (by omega),
    if_neg (by omega)]
  split_ifs <;> first | omega | simp_all

/-! ## Characters -/

/-- The bytes that complete the character under way to the code point `v`. -/
inductive Awaits (v : Nat) : Partial → List UInt8 → Prop where
  | last {low high b : UInt8} {bits : Nat} (h : low ≤ b ∧ b ≤ high)
      (hv : bits * 64 + (b.toNat - 0x80) = v) : Awaits v ⟨1, low, high, bits⟩ [b]
  | more {low high b : UInt8} {owed bits : Nat} {rest : List UInt8} (h : low ≤ b ∧ b ≤ high)
      (hrest : Awaits v ⟨owed + 1, 0x80, 0xBF, bits * 64 + (b.toNat - 0x80)⟩ rest) :
      Awaits v ⟨owed + 2, low, high, bits⟩ (b :: rest)

theorem toNat_ofNat {n : Nat} (h : n < 256) : (UInt8.ofNat n).toNat = n := by
  rw [UInt8.toNat_ofNat', Nat.mod_eq_of_lt h]

theorem toNat_tail (n : Nat) : (UInt8.ofNat (n % 64 + 128)).toNat = n % 64 + 128 :=
  toNat_ofNat (by omega)

theorem isTail_tail (n : Nat) : IsTail (UInt8.ofNat (n % 64 + 128)) := by
  simp only [IsTail, UInt8.le_iff_toNat_le, toNat_tail, UInt8.reduceToNat]
  omega

/-- A character is one byte, or a first byte that announces the others. -/
theorem lead_utf8EncodeChar (c : Char) :
    (∃ b, String.utf8EncodeChar c = [b] ∧ Lead.of b = .ascii c) ∨
      ∃ b rest p, String.utf8EncodeChar c = b :: rest ∧ Lead.of b = .multi p ∧
        Awaits c.toNat p rest := by
  have hc : c.toNat < 0xD800 ∨ 0xDFFF < c.toNat ∧ c.toNat < 0x110000 := c.valid
  have hof : Char.ofNat c.toNat = c := Char.ofNat_toNat c
  rw [String.utf8EncodeChar.eq_1, show c.val.toNat = c.toNat from rfl]
  generalize c.toNat = v at *
  have h₀ := toNat_tail v
  have h₁ := toNat_tail (v / 64)
  have h₂ := toNat_tail (v / 4096)
  split_ifs with one two three
  · refine .inl ⟨_, rfl, ?_⟩
    have hb : (UInt8.ofNat v).toNat = v := toNat_ofNat (by omega)
    have hlt : UInt8.ofNat v < 0x80 := by
      rw [UInt8.lt_iff_toNat_lt, hb]
      exact Nat.lt_succ_of_le one
    rw [Lead.of, if_pos hlt, hb, hof]
  · have hb : (UInt8.ofNat (v / 64 % 32 + 192)).toNat = v / 64 % 32 + 192 := toNat_ofNat (by omega)
    exact .inr ⟨_, _, _, rfl, Lead.of_two (by omega) (by omega),
      .last (isTail_tail _) (by omega)⟩
  · have hb : (UInt8.ofNat (v / 4096 % 16 + 224)).toNat = v / 4096 % 16 + 224 :=
      toNat_ofNat (by omega)
    refine .inr ⟨_, _, _, rfl, Lead.of_three (by omega) (by omega),
      .more ?_ (.last (isTail_tail _) (by omega))⟩
    -- the second byte is held to a narrower range after `E0` and `ED`
    simp only [UInt8.le_iff_toNat_le, apply_ite UInt8.toNat, UInt8.reduceToNat]
    split_ifs <;> omega
  · have hb : (UInt8.ofNat (v / 262144 % 8 + 240)).toNat = v / 262144 % 8 + 240 :=
      toNat_ofNat (by omega)
    refine .inr ⟨_, _, _, rfl, Lead.of_four (by omega) (by omega),
      .more ?_ (.more (isTail_tail _) (.last (isTail_tail _) (by omega)))⟩
    simp only [UInt8.le_iff_toNat_le, apply_ite UInt8.toNat, UInt8.reduceToNat]
    split_ifs <;> omega

/-! ## The decoder -/

/-- The next byte may be a tail only. -/
def Partial.Sound (p : Partial) : Prop := 0x80 ≤ p.low ∧ p.high ≤ 0xBF

theorem Lead.sound {b : UInt8} {p : Partial} (h : Lead.of b = .multi p) : p.Sound := by
  unfold Lead.of at h
  split_ifs at h <;> cases h <;> simp [Partial.Sound]

namespace Decoder

/-- The same decoder, if it had read `text` before. -/
def after (d : Decoder) (text : List Char) : Decoder := ⟨d.text ++ text, d.underWay⟩

theorem startChar_after (text old : List Char) (b : UInt8) :
    startChar (text ++ old) b = (startChar text b).after old := by
  unfold startChar
  cases Lead.of b <;> rfl

theorem feed_after (d : Decoder) (old : List Char) (b : UInt8) :
    (d.after old).feed b = (d.feed b).after old := by
  unfold feed after
  cases d.underWay with
  | none => exact startChar_after _ _ b
  | some p =>
    dsimp only
    split_ifs
    · rfl
    · rfl
    · exact startChar_after (replacement :: d.text) _ b

theorem foldl_after (d : Decoder) (old : List Char) (bs : List UInt8) :
    bs.foldl feed (d.after old) = (bs.foldl feed d).after old := by
  induction bs generalizing d with
  | nil => rfl
  | cons b bs ih => rw [List.foldl_cons, feed_after, ih, List.foldl_cons]

theorem finish_after (d : Decoder) (old : List Char) :
    (d.after old).finish = old.reverse ++ d.finish := by
  unfold finish after
  cases d.underWay <;> simp

/-- No character is under way, or the next byte may be a tail only. -/
def Sound (d : Decoder) : Prop := ∀ p, d.underWay = some p → p.Sound

theorem sound_startChar (text : List Char) (b : UInt8) : (startChar text b).Sound := by
  intro p h
  unfold startChar at h
  cases hb : Lead.of b <;> rw [hb] at h <;> cases h
  exact Lead.sound hb

theorem sound_feed (d : Decoder) (b : UInt8) : (d.feed b).Sound := by
  unfold feed
  split
  · exact sound_startChar _ b
  · dsimp only
    split_ifs
    · intro p h; cases h
    · intro p h; cases h; simp [Partial.Sound]
    · exact sound_startChar _ b

theorem sound_foldl {d : Decoder} (h : d.Sound) (bs : List UInt8) : (bs.foldl feed d).Sound := by
  induction bs generalizing d with
  | nil => exact h
  | cons b bs ih => exact ih (d.sound_feed b)

/-- A byte that is no tail ends the character under way and starts afresh. -/
theorem feed_of_not_isTail {d : Decoder} (h : d.Sound) {b : UInt8} (hb : ¬IsTail b) :
    d.feed b = (start.feed b).after d.finish.reverse := by
  have hs : ∀ text, startChar text b = (startChar [] b).after text := fun text =>
    startChar_after [] text b
  unfold feed finish start
  cases hp : d.underWay with
  | none =>
    dsimp only
    rw [hs, List.reverse_reverse]
  | some p =>
    have hlow : ¬(p.low ≤ b ∧ b ≤ p.high) := fun hr =>
      hb ⟨UInt8.le_trans (h p hp).1 hr.1, UInt8.le_trans hr.2 (h p hp).2⟩
    dsimp only
    rw [if_neg hlow, hs, List.reverse_reverse]

end Decoder

/-! ## Bytes in parts -/

/-- **Bytes can be read in two parts** if the second does not begin with a tail. -/
theorem decodeLossy_append (a : List UInt8) {b : List UInt8} (hb : ∀ x ∈ b.head?, ¬IsTail x) :
    decodeLossy (a ++ b) = decodeLossy a ++ decodeLossy b := by
  unfold decodeLossy
  have hs : (a.foldl Decoder.feed .start).Sound := Decoder.sound_foldl (by intro p h; cases h) a
  rw [List.foldl_append]
  generalize a.foldl Decoder.feed .start = d at hs
  cases b with
  | nil => exact (List.append_nil _).symm
  | cons x b =>
    rw [List.foldl_cons, Decoder.feed_of_not_isTail hs (hb x rfl), Decoder.foldl_after,
      Decoder.finish_after, List.reverse_reverse, List.foldl_cons]

/-- Tails at the start of a chunk are no characters. -/
theorem decodeLossy_of_tails {bs : List UInt8} (h : ∀ b ∈ bs, IsTail b) :
    decodeLossy bs = List.replicate bs.length replacement := by
  have hf : ∀ text : List Char, bs.foldl Decoder.feed ⟨text, none⟩ =
      ⟨List.replicate bs.length replacement ++ text, none⟩ := by
    induction bs with
    | nil => intro text; rfl
    | cons b bs ih =>
      intro text
      have hb : Decoder.feed ⟨text, none⟩ b = ⟨replacement :: text, none⟩ := by
        simp only [Decoder.feed, Decoder.startChar, Lead.of_isTail (h b List.mem_cons_self)]
      rw [List.foldl_cons, hb, ih fun b hb => h b (List.mem_cons_of_mem _ hb), List.length_cons,
        List.replicate_succ', List.append_assoc]
      rfl
  rw [decodeLossy, Decoder.start, hf, List.append_nil, Decoder.finish, List.reverse_replicate]

namespace Awaits

variable {v : Nat} {p : Partial} {bs : List UInt8}

/-- The bytes that complete a character do so. -/
theorem foldl_feed (h : Awaits v p bs) (text : List Char) :
    bs.foldl Decoder.feed ⟨text, some p⟩ = ⟨Char.ofNat v :: text, none⟩ := by
  induction h with
  | last h hv => simp only [List.foldl_cons, List.foldl_nil, Decoder.feed, if_pos h, hv,
      Nat.le_refl, if_true]
  | more h _ ih =>
    rw [List.foldl_cons, ← ih]
    simp [Decoder.feed, h]

/-- Fewer bytes leave the character under way. -/
theorem foldl_feed_of_lt (h : Awaits v p bs) (text : List Char) {x y : List UInt8}
    (hxy : bs = x ++ y) (hy : y ≠ []) :
    ∃ q, x.foldl Decoder.feed ⟨text, some p⟩ = ⟨text, some q⟩ := by
  induction h generalizing x with
  | last h hv =>
    cases x with
    | nil => exact ⟨_, rfl⟩
    | cons b x => simp_all
  | more h _ ih =>
    cases x with
    | nil => exact ⟨_, rfl⟩
    | cons b x =>
      obtain ⟨rfl, hrest⟩ := List.cons_eq_cons.mp (hxy.trans (List.cons_append ..))
      obtain ⟨q, hq⟩ := ih hrest
      refine ⟨q, ?_⟩
      rw [List.foldl_cons, ← hq]
      simp [Decoder.feed, h]

theorem isTail (h : Awaits v p bs) (hp : p.Sound) : ∀ b ∈ bs, IsTail b := by
  have hr : ∀ {p : Partial} {b : UInt8}, p.Sound → p.low ≤ b ∧ b ≤ p.high → IsTail b :=
    fun hp h => ⟨UInt8.le_trans hp.1 h.1, UInt8.le_trans h.2 hp.2⟩
  induction h with
  | last h hv => exact List.forall_mem_singleton.mpr (hr hp h)
  | more h _ ih => exact List.forall_mem_cons.mpr ⟨hr hp h, ih (by simp [Partial.Sound])⟩

end Awaits

/-! ## Encoded text -/

theorem head_utf8EncodeChar (c : Char) :
    ∀ b ∈ (String.utf8EncodeChar c).head?, ¬IsTail b := by
  intro b hb ht
  have hinv := Lead.of_isTail ht
  obtain ⟨b', he, hl⟩ | ⟨b', rest, p, he, hl, -⟩ := lead_utf8EncodeChar c <;>
    · rw [he, List.head?_cons, Option.mem_some_iff] at hb
      subst hb
      rw [hl] at hinv
      cases hinv

theorem head_encode (cs : List Char) : ∀ b ∈ (encode cs).head?, ¬IsTail b := by
  cases cs with
  | nil => intro b hb; cases hb
  | cons c cs =>
    have hc := head_utf8EncodeChar c
    rw [encode_cons, List.head?_append_of_ne_nil _ String.utf8EncodeChar_ne_nil]
    exact hc

theorem tail_utf8EncodeChar (c : Char) {x y : List UInt8} (h : String.utf8EncodeChar c = x ++ y)
    (hx : x ≠ []) : ∀ b ∈ y, IsTail b := by
  obtain ⟨x₀, x, rfl⟩ := List.exists_cons_of_ne_nil hx
  obtain ⟨b, he, -⟩ | ⟨b, rest, p, he, hl, ha⟩ := lead_utf8EncodeChar c
  · rw [he, List.cons_append] at h
    have hy : x ++ y = [] := (List.cons_eq_cons.mp h).2.symm
    rw [(List.append_eq_nil_iff.mp hy).2]
    exact fun b hb => (List.not_mem_nil hb).elim
  · rw [he, List.cons_append] at h
    obtain ⟨-, rfl⟩ := List.cons_eq_cons.mp h
    exact fun b hb => ha.isTail (Lead.sound hl) b (List.mem_append_right x hb)

theorem decodeLossy_utf8EncodeChar (c : Char) : decodeLossy (String.utf8EncodeChar c) = [c] := by
  unfold decodeLossy
  obtain ⟨b, he, hl⟩ | ⟨b, rest, p, he, hl, ha⟩ := lead_utf8EncodeChar c
  · rw [he, List.foldl_cons, Decoder.feed, Decoder.start]
    simp [Decoder.startChar, hl, Decoder.finish]
  · have hb : Decoder.start.feed b = ⟨[], some p⟩ := by
      simp [Decoder.feed, Decoder.start, Decoder.startChar, hl]
    rw [he, List.foldl_cons, hb, ha.foldl_feed, Char.ofNat_toNat]
    rfl

/-- The beginning of a character, if nothing more of it comes. -/
theorem decodeLossy_of_begun (c : Char) {x y : List UInt8} (h : String.utf8EncodeChar c = x ++ y)
    (hx : x ≠ []) (hy : y ≠ []) : decodeLossy x = [replacement] := by
  obtain ⟨x₀, x, rfl⟩ := List.exists_cons_of_ne_nil hx
  obtain ⟨b, he, -⟩ | ⟨b, rest, p, he, hl, ha⟩ := lead_utf8EncodeChar c
  · rw [he, List.cons_append] at h
    exact absurd (List.append_eq_nil_iff.mp (List.cons_eq_cons.mp h).2.symm).2 hy
  · rw [he, List.cons_append] at h
    obtain ⟨rfl, hr⟩ := List.cons_eq_cons.mp h
    have hb : Decoder.start.feed b = ⟨[], some p⟩ := by
      simp [Decoder.feed, Decoder.start, Decoder.startChar, hl]
    obtain ⟨q, hq⟩ := ha.foldl_feed_of_lt [] hr hy
    rw [decodeLossy, List.foldl_cons, hb, hq]
    rfl

/-- **The bytes of a text are read as that text.** -/
theorem decodeLossy_encode (cs : List Char) : decodeLossy (encode cs) = cs := by
  induction cs with
  | nil => rfl
  | cons c cs ih =>
    rw [encode_cons, decodeLossy_append _ (head_encode cs), decodeLossy_utf8EncodeChar, ih]
    rfl

/-! ## Chunks -/

/-- Chunks as text, each read on its own. -/
def heard (chunks : List (List UInt8)) : List Char := chunks.flatMap decodeLossy

theorem heard_cons (c : List UInt8) (chunks : List (List UInt8)) :
    heard (c :: chunks) = decodeLossy c ++ heard chunks := rfl

theorem heard_append (chunks chunks' : List (List UInt8)) :
    heard (chunks ++ chunks') = heard chunks ++ heard chunks' := List.flatMap_append

theorem heard_singleton (c : List UInt8) : heard [c] = decodeLossy c := List.append_nil _

end PinBench.Text
