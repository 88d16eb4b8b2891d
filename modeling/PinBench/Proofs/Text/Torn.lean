import PinBench.Proofs.Text.Utf8

/-!
# Characters that are cut

The chunks of a text may end within a character.  Each part of it is then read as no character, so
that two replacements or more stand in its place, and the rest of the text is read as it is.

* `Cut`: a chunk ends after so many bytes; `Torn`: one ends within a character of a text.
* `Spoiled`: what a text becomes if some of its characters are cut.
* `spoiled_heard`: **what is heard of a text in chunks**.
* `Spoiled.eq_iff`: **it is the text itself if and only if no character is cut**.
* `heard_of_ascii`: a text without longer characters may be cut anywhere.
-/

namespace PinBench.Text

/-- A chunk ends after `n` bytes. -/
def Cut (chunks : List (List UInt8)) (n : Nat) : Prop :=
  ∃ done rest, chunks = done ++ rest ∧ done.flatten.length = n

/-- There is a cut within the character `c` whose first byte is that of number `o`. -/
def Tears (cut : Nat → Prop) (o : Nat) (c : Char) : Prop :=
  ∃ n, cut n ∧ o < n ∧ n < o + c.utf8Size

/-- There is a cut within a character of the text `cs` whose first byte is that of number `o`. -/
def Torn (cut : Nat → Prop) (o : Nat) (cs : List Char) : Prop :=
  ∃ x c y, cs = x ++ c :: y ∧ Tears cut (o + (encode x).length) c

theorem length_encode_cons (c : Char) (cs : List Char) :
    (encode (c :: cs)).length = c.utf8Size + (encode cs).length := by
  rw [encode_cons, List.length_append, String.length_utf8EncodeChar]

theorem torn_cons_iff {cut : Nat → Prop} {o : Nat} {c : Char} {cs : List Char} :
    Torn cut o (c :: cs) ↔ Tears cut o c ∨ Torn cut (o + c.utf8Size) cs := by
  constructor
  · rintro ⟨_ | ⟨d, x⟩, e, y, h, ht⟩
    · obtain ⟨rfl, rfl⟩ := List.cons_eq_cons.mp h
      exact .inl ht
    · obtain ⟨rfl, rfl⟩ := List.cons_eq_cons.mp (h.trans (List.cons_append ..))
      rw [length_encode_cons, ← Nat.add_assoc] at ht
      exact .inr ⟨x, e, y, rfl, ht⟩
  · rintro (h | ⟨x, e, y, rfl, ht⟩)
    · exact ⟨[], c, cs, rfl, h⟩
    · refine ⟨c :: x, e, y, rfl, ?_⟩
      rw [length_encode_cons, ← Nat.add_assoc]
      exact ht

/-! ## Cuts -/

variable {chunks : List (List UInt8)}

theorem cut_cons_iff {c : List UInt8} {n : Nat} :
    Cut (c :: chunks) n ↔ n = 0 ∨ ∃ m, Cut chunks m ∧ n = c.length + m := by
  constructor
  · rintro ⟨_ | ⟨d, done⟩, rest, h, rfl⟩
    · exact .inl rfl
    · obtain ⟨rfl, rfl⟩ := List.cons_eq_cons.mp (h.trans (List.cons_append ..))
      exact .inr ⟨_, ⟨done, rest, rfl, rfl⟩, by rw [List.flatten_cons, List.length_append]⟩
  · rintro (rfl | ⟨m, ⟨done, rest, rfl, rfl⟩, rfl⟩)
    · exact ⟨[], _, rfl, rfl⟩
    · exact ⟨c :: done, rest, rfl, by rw [List.flatten_cons, List.length_append]⟩

/-- **Chunks can be divided where a character begins.** -/
theorem exists_divided {a b : List UInt8} (h : chunks.flatten = a ++ b)
    (hb : ∀ x ∈ b.head?, ¬IsTail x) :
    ∃ as bs, as.flatten = a ∧ bs.flatten = b ∧ heard chunks = heard as ++ heard bs ∧
      (∀ n < a.length, Cut chunks n ↔ Cut as n) ∧
      ∀ n, 0 < n → (Cut chunks (a.length + n) ↔ Cut bs n) := by
  induction chunks generalizing a with
  | nil =>
    obtain ⟨rfl, rfl⟩ := List.append_eq_nil_iff.mp h.symm
    exact ⟨[], [], rfl, rfl, rfl, fun _ _ => Iff.rfl, fun n _ => by
      rw [List.length_nil, Nat.zero_add]⟩
  | cons c chunks ih =>
    rw [List.flatten_cons] at h
    rcases List.append_eq_append_iff.mp h with ⟨a', rfl, hrest⟩ | ⟨b', rfl, rfl⟩
    · obtain ⟨as, bs, rfl, hbs, hheard, hcut, hcut'⟩ := ih hrest
      refine ⟨c :: as, bs, rfl, hbs, ?_, fun n hn => ?_, fun n hn => ?_⟩
      · rw [heard_cons, heard_cons, hheard, List.append_assoc]
      · rw [List.length_append] at hn
        rw [cut_cons_iff, cut_cons_iff]
        refine or_congr_right (exists_congr fun m => and_congr_left fun hm => hcut m (by omega))
      · rw [List.length_append, Nat.add_assoc, cut_cons_iff, ← hcut' n hn]
        constructor
        · rintro (h₀ | ⟨m, hm, he⟩)
          · omega
          · rwa [Nat.add_left_cancel he]
        · exact fun hm => .inr ⟨_, hm, rfl⟩
    · have hb' : ∀ x ∈ b'.head?, ¬IsTail x := by
        intro x hx
        refine hb x ?_
        rw [List.head?_append, Option.mem_def.mp hx]
        rfl
      refine ⟨[a], b' :: chunks, List.append_nil a, rfl, ?_, fun n hn => ?_, fun n hn => ?_⟩
      · rw [heard_cons, heard_singleton, heard_cons, decodeLossy_append a hb', List.append_assoc]
      · rw [cut_cons_iff, cut_cons_iff, List.length_append]
        constructor <;>
          · rintro (h₀ | ⟨m, -, he⟩)
            · exact .inl h₀
            · omega
      · rw [cut_cons_iff, cut_cons_iff, List.length_append]
        constructor
        · rintro (h₀ | ⟨m, hm, he⟩)
          · omega
          · exact .inr ⟨m, hm, by omega⟩
        · rintro (h₀ | ⟨m, hm, he⟩)
          · omega
          · exact .inr ⟨m, hm, by omega⟩

theorem heard_of_tails (h : ∀ b ∈ chunks.flatten, IsTail b) :
    heard chunks = List.replicate chunks.flatten.length replacement := by
  induction chunks with
  | nil => rfl
  | cons c chunks ih =>
    rw [List.flatten_cons] at h
    rw [heard_cons, decodeLossy_of_tails fun b hb => h b (List.mem_append_left _ hb),
      ih fun b hb => h b (List.mem_append_right c hb), List.flatten_cons, List.length_append,
      List.replicate_append_replicate]

/-- A character in chunks: it is read, or there is a cut in it and nothing but replacements. -/
theorem heard_utf8EncodeChar {c : Char} (h : chunks.flatten = String.utf8EncodeChar c) :
    heard chunks = [c] ∧ ¬Tears (Cut chunks) 0 c ∨
      ∃ k, 2 ≤ k ∧ heard chunks = List.replicate k replacement ∧ Tears (Cut chunks) 0 c := by
  have hlen : (String.utf8EncodeChar c).length = c.utf8Size := String.length_utf8EncodeChar c
  induction chunks with
  | nil => exact absurd h.symm String.utf8EncodeChar_ne_nil
  | cons x chunks ih =>
    rw [List.flatten_cons] at h
    by_cases hx : x = []
    · subst hx
      have htears : Tears (Cut ([] :: chunks)) 0 c ↔ Tears (Cut chunks) 0 c := by
        refine exists_congr fun n => and_congr_left fun hn => ?_
        simp only [cut_cons_iff, List.length_nil, Nat.zero_add, exists_eq_right']
        exact or_iff_right (by omega)
      rw [htears, heard_cons]
      exact ih h
    · by_cases hrest : chunks.flatten = []
      · rw [hrest, List.append_nil] at h
        subst h
        refine .inl ⟨?_, ?_⟩
        · rw [heard_cons, decodeLossy_utf8EncodeChar, heard_of_tails (by rw [hrest]; nofun), hrest]
          rfl
        · rintro ⟨n, hn, h₀, h₁⟩
          rcases cut_cons_iff.mp hn with h | ⟨m, -, h⟩ <;> omega
      · have hbegun := decodeLossy_of_begun c h.symm hx hrest
        have htails := heard_of_tails (tail_utf8EncodeChar c h.symm hx)
        rw [← h, List.length_append] at hlen
        have hx₀ : 0 < x.length := List.length_pos_of_ne_nil hx
        have hrest₀ : 0 < chunks.flatten.length := List.length_pos_of_ne_nil hrest
        refine .inr ⟨1 + chunks.flatten.length, by omega, ?_, x.length, ?_, by omega, by omega⟩
        · rw [heard_cons, hbegun, htails, ← List.replicate_append_replicate]
          rfl
        · exact cut_cons_iff.mpr (.inr ⟨0, ⟨[], chunks, rfl, rfl⟩, rfl⟩)

/-! ## Spoiled texts -/

/-- Every character of the text is a single byte. -/
def Ascii (cs : List Char) : Prop := ∀ c ∈ cs, c.utf8Size = 1

instance (cs : List Char) : Decidable (Ascii cs) := List.decidableBAll _ cs

theorem ascii_append_iff {cs ds : List Char} : Ascii (cs ++ ds) ↔ Ascii cs ∧ Ascii ds :=
  List.forall_mem_append

/-- What becomes of a text whose first byte is that of number `o`: a character with a cut in it is
replaced. -/
inductive Spoiled (cut : Nat → Prop) : Nat → List Char → List Char → Prop where
  | nil {o : Nat} : Spoiled cut o [] []
  | whole {o : Nat} {c : Char} {cs ds : List Char} (h : ¬Tears cut o c)
      (hcs : Spoiled cut (o + c.utf8Size) cs ds) : Spoiled cut o (c :: cs) (c :: ds)
  | torn {o k : Nat} {c : Char} {cs ds : List Char} (h : Tears cut o c) (hk : 2 ≤ k)
      (hcs : Spoiled cut (o + c.utf8Size) cs ds) :
      Spoiled cut o (c :: cs) (List.replicate k replacement ++ ds)

/-- **What is heard of a text in chunks** is the text with the characters replaced that are cut. -/
theorem spoiled_heard {cs : List Char} (h : chunks.flatten = encode cs) :
    Spoiled (Cut chunks) 0 cs (heard chunks) := by
  -- for the rest of a text, the cuts are counted from an earlier byte
  have general : ∀ (cut : Nat → Prop) (o : Nat), (∀ n, 0 < n → (cut (o + n) ↔ Cut chunks n)) →
      Spoiled cut o cs (heard chunks) := by
    intro cut o hcut
    induction cs generalizing chunks o with
    | nil =>
      have hflat : chunks.flatten = [] := h
      rw [heard_of_tails (by rw [hflat]; nofun), hflat]
      exact .nil
    | cons c cs ih =>
      obtain ⟨as, bs, has, hbs, hheard, hcut₁, hcut₂⟩ := exists_divided h (head_encode cs)
      rw [String.length_utf8EncodeChar] at hcut₁ hcut₂
      have hrest : Spoiled cut (o + c.utf8Size) cs (heard bs) := by
        refine ih hbs _ fun n hn => ?_
        rw [Nat.add_assoc, hcut _ (by omega), hcut₂ n hn]
      have htears : Tears cut o c ↔ Tears (Cut as) 0 c := by
        constructor
        · rintro ⟨n, hn, ho, hc⟩
          obtain ⟨m, rfl⟩ := Nat.exists_eq_add_of_le (Nat.le_of_lt ho)
          exact ⟨m, (hcut₁ m (by omega)).mp ((hcut m (by omega)).mp hn), by omega, by omega⟩
        · rintro ⟨m, hm, h₀, hc⟩
          exact ⟨o + m, (hcut m h₀).mpr ((hcut₁ m (by omega)).mpr hm), by omega, by omega⟩
      rw [hheard]
      rcases heard_utf8EncodeChar has with ⟨hc, ht⟩ | ⟨k, hk, hc, ht⟩
      · rw [hc]
        exact .whole (fun h => ht (htears.mp h)) hrest
      · rw [hc]
        exact .torn (htears.mpr ht) hk hrest
  exact general _ 0 fun n _ => by rw [Nat.zero_add]

namespace Spoiled

variable {cut : Nat → Prop} {o : Nat} {cs ds x y : List Char}

theorem append (h : Spoiled cut o (x ++ y) ds) :
    ∃ x' y', ds = x' ++ y' ∧ Spoiled cut o x x' ∧
      Spoiled cut (o + (encode x).length) y y' := by
  induction x generalizing o ds with
  | nil => exact ⟨[], ds, rfl, .nil, h⟩
  | cons c x ih =>
    rw [length_encode_cons, ← Nat.add_assoc]
    cases h with
    | whole ht h =>
      obtain ⟨x', y', rfl, hx, hy⟩ := ih h
      exact ⟨c :: x', y', rfl, .whole ht hx, hy⟩
    | torn ht hk h =>
      obtain ⟨x', y', rfl, hx, hy⟩ := ih h
      exact ⟨_, y', (List.append_assoc ..).symm, .torn ht hk hx, hy⟩

/-- A character of one byte cannot be cut. -/
theorem eq_of_ascii (h : Spoiled cut o cs ds) (hcs : Ascii cs) : ds = cs := by
  induction h with
  | nil => rfl
  | whole _ _ ih => rw [ih fun c hc => hcs c (List.mem_cons_of_mem _ hc)]
  | torn ht _ _ _ =>
    obtain ⟨n, -, h₀, h₁⟩ := ht
    rw [hcs _ List.mem_cons_self] at h₁
    omega

/-- What is heard around a part that cannot be cut. -/
theorem around {m : List Char} (hm : Ascii m) (h : Spoiled cut o (x ++ (m ++ y)) ds) :
    ∃ x' y', ds = x' ++ (m ++ y') ∧ Spoiled cut o x x' ∧
      Spoiled cut (o + (encode (x ++ m)).length) y y' := by
  rw [← List.append_assoc] at h
  obtain ⟨w, y', rfl, hw, hy'⟩ := h.append
  obtain ⟨x', n, rfl, hx', hn⟩ := hw.append
  obtain rfl := hn.eq_of_ascii hm
  exact ⟨x', y', List.append_assoc .., hx', hy'⟩

theorem mem (h : Spoiled cut o cs ds) {c : Char} (hc : c ∈ ds) : c ∈ cs ∨ c = replacement := by
  induction h with
  | nil => cases hc
  | whole _ _ ih =>
    rcases List.mem_cons.mp hc with rfl | hc
    · exact .inl List.mem_cons_self
    · exact (ih hc).imp_left (List.mem_cons_of_mem _)
  | torn _ _ _ ih =>
    rcases List.mem_append.mp hc with hc | hc
    · exact .inr (List.eq_of_mem_replicate hc)
    · exact (ih hc).imp_left (List.mem_cons_of_mem _)

theorem length_le (h : Spoiled cut o cs ds) : cs.length ≤ ds.length := by
  induction h with
  | nil => exact Nat.le_refl 0
  | whole _ _ ih => exact Nat.succ_le_succ ih
  | torn _ hk _ ih =>
    rw [List.length_cons, List.length_append, List.length_replicate]
    omega

/-- **A text is read as it is if and only if none of its characters is cut.** -/
theorem eq_iff (h : Spoiled cut o cs ds) : ds = cs ↔ ¬Torn cut o cs := by
  induction h with
  | nil =>
    refine iff_of_true rfl ?_
    rintro ⟨x, c, y, h, -⟩
    exact List.append_ne_nil_of_right_ne_nil x (List.cons_ne_nil c y) h.symm
  | whole ht _ ih => rw [List.cons_inj_right, ih, torn_cons_iff, or_iff_right ht]
  | torn ht hk hcs _ =>
    refine iff_of_false (fun he => ?_) (not_not_intro (torn_cons_iff.mpr (.inl ht)))
    have hlen := congrArg List.length he
    rw [List.length_append, List.length_replicate, List.length_cons] at hlen
    have := hcs.length_le
    omega

theorem ne_nil (h : Spoiled cut o cs ds) (hcs : cs ≠ []) : ds ≠ [] :=
  List.ne_nil_of_length_pos
    (Nat.lt_of_lt_of_le (List.length_pos_of_ne_nil hcs) h.length_le)

theorem prefix_sent (h : Spoiled cut o cs ds) {m : List Char} (hm : m <+: ds)
    (hr : replacement ∉ m) : m <+: cs := by
  induction m generalizing o cs ds with
  | nil => exact List.nil_prefix
  | cons d m ih =>
    obtain ⟨hd, hr⟩ := List.ne_and_not_mem_of_not_mem_cons hr
    cases h with
    | nil => exact absurd (List.prefix_nil.mp hm) (List.cons_ne_nil d m)
    | whole _ h =>
      obtain ⟨rfl, hrest⟩ := List.cons_prefix_cons.mp hm
      exact List.cons_prefix_cons.mpr ⟨rfl, ih h hrest hr⟩
    | torn _ hk _ =>
      obtain ⟨k, rfl⟩ := Nat.exists_eq_add_of_le' (Nat.le_of_succ_le hk)
      exact absurd (List.cons_prefix_cons.mp hm).1.symm hd

/-- Of what is heard, a part without replacements was sent as it is. -/
theorem infix_sent (h : Spoiled cut o cs ds) {m : List Char} (hm : m <:+: ds)
    (hr : replacement ∉ m) : m <:+: cs := by
  have skip : ∀ {k : Nat} {ds : List Char}, m <:+: List.replicate k replacement ++ ds →
      m <:+: ds := by
    intro k ds hm
    induction k with
    | zero => exact hm
    | succ k ih =>
      rcases List.infix_cons_iff.mp hm with hm | hm
      · cases m with
        | nil => exact List.nil_infix
        | cons d m =>
          obtain rfl := (List.cons_prefix_cons.mp hm).1
          exact absurd List.mem_cons_self hr
      · exact ih hm
  induction h with
  | nil => exact hm
  | whole ht h ih =>
    rcases List.infix_cons_iff.mp hm with hm | hm
    · exact ((whole ht h).prefix_sent hm hr).isInfix
    · exact List.infix_cons (ih hm)
  | torn _ _ _ ih => exact List.infix_cons (ih (skip hm))

end Spoiled

/-- A text without longer characters may be cut anywhere. -/
theorem heard_of_ascii {cs : List Char} (h : chunks.flatten = encode cs) (hcs : Ascii cs) :
    heard chunks = cs :=
  (spoiled_heard h).eq_of_ascii hcs

end PinBench.Text
