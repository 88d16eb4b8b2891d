import PinBench.Json.Record
import PinBench.Proofs.Fault
import PinBench.Proofs.Json.HexByte
import PinBench.Proofs.Json.Text

/-!
# Lawful codecs

A codec is **lawful** if it reads whatever it writes.  What is written by a lawful codec is read
back from its text too, and codecs that are composed of lawful ones are lawful.

* `Codec.Lawful`, and `Codec.Lawful.decode_encode`: **what is written comes back from its text**.
* `Codec.lawful_bool` and so on: scalars.
* `Codec.Lawful.list`, `Codec.Lawful.optional`: composed codecs.
* `Field.Lawful`, `Fields.Lawful`: fields that are told apart by their names; one that is not
  written has the value that it has when it is not given.
* `Fields.ofMembers_members`: **the members that are written are read back**.
* `Codec.Lawful.record`: **a record of such fields is lawful**.
-/

namespace PinBench.Json

/-- The codec reads what it writes, and writes no number of more than 64 bits. -/
structure Codec.Lawful {α : Type} (c : Codec α) : Prop where
  fits (a : α) : (c.write a).Fits
  read_write (a : α) : c.read (c.write a).outline = .ok a

namespace Codec

variable {α β : Type} {c : Codec α}

/-- **What a lawful codec writes comes back from its text.** -/
theorem Lawful.decode_encode (h : c.Lawful) (a : α) : c.decode (c.encode a) = .ok a := by
  unfold decode encode
  rw [Document.read_text (h.fits a)]
  dsimp only
  rw [h.read_write, ok_bind]
  rfl

/-! ## Scalars -/

theorem lawful_bool : bool.Lawful := ⟨fun _ => trivial, fun _ => rfl⟩

theorem lawful_text : text.Lawful := ⟨fun _ => trivial, fun _ => rfl⟩

theorem lawful_whole {of? : Int → Option α} {toInt : α → Int}
    (hr : ∀ a, Literal.InRange (toInt a)) (h : ∀ a, of? (toInt a) = some a) :
    (whole of? toInt).Lawful := by
  refine ⟨hr, fun a => ?_⟩
  simp only [whole, outline, h]

/-- A number without a sign, of 64 bits at most. -/
theorem lawful_unsigned {toNat : α → Nat} {ofNat : Nat → α} {bound : Int}
    (hlt : ∀ a, (toNat a : Int) < bound) (hbound : bound ≤ 0x10000000000000000)
    (h : ∀ a, ofNat (toNat a) = a) :
    (whole (fun n => if 0 ≤ n ∧ n < bound then some (ofNat n.toNat) else none)
      fun a => toNat a).Lawful := by
  apply lawful_whole
  · intro a
    have ha := hlt a
    constructor <;> omega
  · intro a
    have ha := hlt a
    rw [if_pos (by omega), Int.toNat_natCast, h]

theorem lawful_byte : byte.Lawful := by
  apply lawful_unsigned
  · intro b
    have hb := b.toNat_lt
    omega
  · decide
  · intro b
    simp

theorem lawful_word16 : word16.Lawful := by
  apply lawful_unsigned
  · intro b
    have hb := b.toNat_lt
    omega
  · decide
  · intro b
    simp

theorem lawful_word64 : word64.Lawful := by
  apply lawful_unsigned
  · intro b
    have hb := b.toNat_lt
    omega
  · decide
  · intro b
    simp

theorem lawful_int32 : int32.Lawful := by
  apply lawful_whole
  · intro n
    have hlow := n.le_toInt
    have hhigh := n.toInt_lt
    constructor <;> omega
  · intro n
    have hlow := n.le_toInt
    have hhigh := n.toInt_lt
    rw [if_pos (by omega)]
    simp

theorem lawful_hexByte : hexByte.Lawful := by
  refine ⟨fun _ => trivial, fun b => ?_⟩
  simp only [hexByte, outline, text, ok_bind, hexByte?_hexText]

/-! ## Composed codecs -/

theorem Lawful.readAll (h : c.Lawful) (as : List α) :
    c.readAll (itemOutlines (as.map c.write)) = .ok as := by
  induction as with
  | nil => rfl
  | cons a as ih =>
    rw [List.map_cons, itemOutlines, Codec.readAll, h.read_write, ok_bind, ih]
    rfl

theorem Lawful.readUpTo (h : c.Lawful) {room : Nat} {as : List α} (hl : as.length ≤ room) :
    c.readUpTo room (itemOutlines (as.map c.write)) = .ok as := by
  induction as generalizing room with
  | nil => simp [itemOutlines, Codec.readUpTo]
  | cons a as ih =>
    cases room with
    | zero => exact absurd hl (Nat.not_succ_le_zero _)
    | succ room =>
      rw [List.map_cons, itemOutlines, Codec.readUpTo, h.read_write, ok_bind,
        ih (Nat.le_of_succ_le_succ hl)]
      rfl

theorem Lawful.itemsFit (h : c.Lawful) (as : List α) : ItemsFit (as.map c.write) := by
  induction as with
  | nil => trivial
  | cons a as ih => exact ⟨h.fits a, ih⟩

theorem Lawful.list (h : c.Lawful) : c.list.Lawful := by
  refine ⟨h.itemsFit, fun as => ?_⟩
  show (do
    let xs ← c.readAll (itemOutlines (as.map c.write))
    closing none
    Except.ok xs) = _
  rw [h.readAll]
  rfl

/-- Null is kept for the value that is absent. -/
theorem Lawful.optional (h : c.Lawful) (hn : ∀ a, (c.write a).outline ≠ .null) :
    c.optional.Lawful := by
  refine ⟨fun a => ?_, fun a => ?_⟩
  · cases a with
    | none => trivial
    | some a => exact h.fits a
  · cases a with
    | none => rfl
    | some a =>
      have hread : c.optional.read (c.write a).outline = (c.read (c.write a).outline).map some := by
        unfold Codec.optional
        dsimp only
        split
        · next hnull => exact absurd hnull (hn a)
        · rfl
      show c.optional.read (c.write a).outline = _
      rw [hread, h.read_write]
      rfl

end Codec

/-! ## Fields -/

/-- What is not written is what stands for an absent field. -/
structure Field.Lawful {α : Type} (f : Field α) : Prop where
  codec : f.codec.Lawful
  absent (a : α) : f.hidden a = true → f.absent = some a

namespace Field

variable {α : Type} {c : Codec α}

theorem lawful_required (h : c.Lawful) (name : String) : (required name c).Lawful :=
  ⟨h, nofun⟩

theorem lawful_withDefault (h : c.Lawful) (name : String) (a : α) :
    (withDefault name c a).Lawful :=
  ⟨h, nofun⟩

theorem lawful_ofOption (h : c.Lawful) (hn : ∀ a, (c.write a).outline ≠ .null) (name : String) :
    (ofOption name c).Lawful := by
  refine ⟨h.optional hn, fun a ha => ?_⟩
  cases a with
  | none => rfl
  | some a => cases ha

end Field

namespace Fields

variable {α : Type} {αs : List Type}

def names : {αs : List Type} → Fields αs → List String
  | _, nil => []
  | _, cons f fs => f.name :: fs.names

/-- Lawful fields without a common name. -/
inductive Lawful : {αs : List Type} → Fields αs → Prop where
  | nil : Lawful nil
  | cons {α : Type} {αs : List Type} {f : Field α} {fs : Fields αs} (hf : f.Lawful)
      (hn : f.name ∉ fs.names) (h : Lawful fs) : Lawful (cons f fs)

theorem names_members (fs : Fields αs) (as : Values αs) :
    ∀ m ∈ fs.members as, m.1 ∈ fs.names := by
  induction fs with
  | nil => nofun
  | cons f fs ih =>
    obtain ⟨a, as⟩ := as
    intro m hm
    rw [members] at hm
    split at hm
    · exact List.mem_cons_of_mem _ (ih as m hm)
    · rcases List.mem_cons.mp hm with rfl | hm
      · exact List.mem_cons_self
      · exact List.mem_cons_of_mem _ (ih as m hm)

theorem put_of_eq {f : Field α} {name : String} (h : f.name = name) (fs : Fields αs) (v : Outline)
    (slots : Slots αs) :
    (cons f fs).put name v (none, slots) = (f.codec.read v).map fun a => (some a, slots) := by
  rw [put.eq_def]
  dsimp only
  rw [if_pos h]
  cases f.codec.read v <;> rfl

theorem put_of_ne {f : Field α} {name : String} (h : f.name ≠ name) (fs : Fields αs) (v : Outline)
    (slot : Option α) (slots : Slots αs) :
    (cons f fs).put name v (slot, slots) =
      (fs.put name v slots).map fun slots => (slot, slots) := by
  rw [put.eq_def]
  dsimp only
  rw [if_neg h]
  cases fs.put name v slots <;> rfl

theorem complete_cons (f : Field α) (fs : Fields αs) (slot : Option α) (slots : Slots αs) :
    (cons f fs).complete (slot, slots) = (do
      let a ← match slot with
        | some a => .ok a
        | none => f.getDefault (.missingField f.name)
      let as ← fs.complete slots
      .ok (a, as)) :=
  rfl

/-- The member does not stand under the name. -/
def Other (name : String) (m : Key × Outline) : Prop := ∃ key, m.1 = .ok key ∧ name ≠ key

/-- Members of other names leave the slot of a field alone. -/
theorem putAll_cons (f : Field α) (fs : Fields αs) {ms : List (Key × Outline)}
    (h : ∀ m ∈ ms, Other f.name m) (slot : Option α) (slots : Slots αs) :
    (cons f fs).putAll ms (slot, slots) =
      (fs.putAll ms slots).map fun slots => (slot, slots) := by
  induction ms generalizing slots with
  | nil => rfl
  | cons m ms ih =>
    rw [List.forall_mem_cons] at h
    obtain ⟨⟨name, hm, hne⟩, h⟩ := h
    obtain ⟨key, v⟩ := m
    obtain rfl : key = .ok name := hm
    show (do
      let slots ← (cons f fs).put name v (slot, slots)
      (cons f fs).putAll ms slots) = (do
      let slots ← fs.put name v slots
      fs.putAll ms slots).map _
    rw [put_of_ne hne]
    cases fs.put name v slots with
    | error e => rfl
    | ok slots => exact ih h slots

theorem other_memberOutlines {name : String} {ms : List (String × Json)}
    (h : ∀ m ∈ ms, name ≠ m.1) : ∀ m ∈ memberOutlines ms, Other name m := by
  induction ms with
  | nil => nofun
  | cons m ms ih =>
    rw [List.forall_mem_cons] at h
    exact List.forall_mem_cons.mpr ⟨⟨m.1, rfl, h.1⟩, ih h.2⟩

/-- The slots once everything that is written has been read. -/
def filled : {αs : List Type} → Fields αs → Values αs → Slots αs
  | _, nil, _ => ()
  | _, cons f fs, (a, as) => (if f.hidden a then none else some a, fs.filled as)

theorem Lawful.putAll_members {fs : Fields αs} (h : fs.Lawful) (as : Values αs) :
    fs.putAll (memberOutlines (fs.members as)) fs.empty = .ok (fs.filled as) := by
  induction h with
  | nil => rfl
  | @cons α αs f fs hf hn h ih =>
    obtain ⟨a, as⟩ := as
    have hother : ∀ m ∈ memberOutlines (fs.members as), Other f.name m :=
      other_memberOutlines fun m hm he => hn (he ▸ fs.names_members as m hm)
    rw [members, empty, filled]
    by_cases ha : f.hidden a = true
    · rw [if_pos ha, if_pos ha, putAll_cons f fs hother, ih]
      rfl
    · rw [if_neg ha, if_neg ha]
      show (do
        let slots ← (Fields.cons f fs).put f.name (f.codec.write a).outline (none, fs.empty)
        (Fields.cons f fs).putAll (memberOutlines (fs.members as)) slots) = _
      rw [put_of_eq rfl, hf.codec.read_write, Except.map, ok_bind, putAll_cons f fs hother, ih]
      rfl

theorem Lawful.complete_filled {fs : Fields αs} (h : fs.Lawful) (as : Values αs) :
    fs.complete (fs.filled as) = .ok as := by
  induction h with
  | nil => rfl
  | @cons α αs f fs hf hn h ih =>
    obtain ⟨a, as⟩ := as
    rw [filled, complete_cons, ih]
    by_cases ha : f.hidden a = true
    · rw [if_pos ha, Field.getDefault, hf.absent a ha]
      rfl
    · rw [if_neg ha]
      rfl

/-- **The members that are written are read back.** -/
theorem Lawful.ofMembers_members {fs : Fields αs} (h : fs.Lawful) (as : Values αs) :
    fs.ofMembers (memberOutlines (fs.members as)) none = .ok as := by
  rw [ofMembers, h.putAll_members, ok_bind]
  exact h.complete_filled as

theorem Lawful.membersFit {fs : Fields αs} (h : fs.Lawful) (as : Values αs) :
    MembersFit (fs.members as) := by
  induction h with
  | nil => trivial
  | @cons α αs f fs hf hn h ih =>
    obtain ⟨a, as⟩ := as
    rw [members]
    split
    · exact ih as
    · exact ⟨hf.codec.fits a, ih as⟩

end Fields

/-- **A record of lawful fields is lawful**, if it is no more than its fields. -/
theorem Codec.Lawful.record {α : Type} {αs : List Type} {fs : Fields αs} (h : fs.Lawful)
    {pack : Values αs → α} {unpack : α → Values αs} (hp : ∀ a, pack (unpack a) = a) :
    (fs.record pack unpack).Lawful := by
  refine ⟨fun a => h.membersFit (unpack a), fun a => ?_⟩
  show (fs.ofMembers (memberOutlines (fs.members (unpack a))) none).map pack = _
  rw [h.ofMembers_members, Except.map, hp]

end PinBench.Json
