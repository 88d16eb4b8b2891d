import Mathlib.Data.List.Forall2
import PinBench.Proofs.Json.Codec

/-!
# Variations of what is written

The members of a record may be given in any order, and others may stand among them.  A reader
tolerates this if it reads the same value all the same.

* `Outline.Whole`: a value that can be held back, and so nothing is wrong with it anywhere.
* `Variation`: which values may be given instead of what is written.
* `Variation.list`, `Variation.record`: item by item, and **the members of a record in any order,
  each of them varied, with others of unknown names among them**.
* `Codec.Tolerant`: a reader that tolerates a variation.
* `Fields.Tolerant.putAll`: **every field is read, wherever it stands**.
* `Codec.Tolerant.record`: **a record of tolerant fields is tolerant**.
-/

namespace PinBench.Json

/-! ## Any order -/

section Perm

variable {β : Type} {x y : β} {all rest : List β}

theorem exists_of_perm_cons (h : all.Perm (x :: rest)) :
    ∃ before after, all = before ++ x :: after ∧ (before ++ after).Perm rest := by
  obtain ⟨before, after, rfl⟩ := List.append_of_mem (h.mem_iff.mpr List.mem_cons_self)
  exact ⟨before, after, rfl, (List.perm_middle.symm.trans h).cons_inv⟩

/-- Two elements stand in one order or the other. -/
theorem exists_of_perm_cons_cons (h : all.Perm (x :: y :: rest)) :
    ∃ before between after, (all = before ++ x :: (between ++ y :: after) ∨
      all = before ++ y :: (between ++ x :: after)) ∧
        (before ++ (between ++ after)).Perm rest := by
  obtain ⟨before, after, rfl, hrest⟩ := exists_of_perm_cons h
  obtain ⟨front, back, hsplit, hback⟩ := exists_of_perm_cons hrest
  rcases List.append_eq_append_iff.mp hsplit with ⟨e, rfl, rfl⟩ | ⟨e, rfl, he⟩
  · exact ⟨before, e, back, .inl rfl, by rwa [← List.append_assoc]⟩
  · rcases List.cons_eq_append_iff.mp he with ⟨rfl, rfl⟩ | ⟨e, rfl, rfl⟩
    · exact ⟨front, [], back, .inl (by simp), hback⟩
    · exact ⟨front, e, after, .inr (by simp), hback⟩

end Perm

/-! ## Whole values -/

namespace Outline

/-- A value that can be held back. -/
def Whole (o : Outline) : Prop := ∃ room, o.hold room = .ok ()

variable {vs : List Outline} {ms : List (Key × Outline)} {cut : Option Break} {room : Nat}

theorem forall_of_holdItems (h : holdItems room vs = .ok ()) :
    ∀ v ∈ vs, v.hold room = .ok () := by
  induction vs with
  | nil => nofun
  | cons v vs ih =>
    rw [holdItems] at h
    obtain ⟨⟨⟩, hv, hvs⟩ := ok_of_bind h
    exact List.forall_mem_cons.mpr ⟨hv, ih hvs⟩

theorem forall_of_holdMembers (h : holdMembers room ms = .ok ()) :
    ∀ m ∈ ms, m.2.hold room = .ok () := by
  induction ms with
  | nil => nofun
  | cons m ms ih =>
    obtain ⟨key, v⟩ := m
    rw [holdMembers] at h
    obtain ⟨name, -, h⟩ := ok_of_bind h
    obtain ⟨⟨⟩, hv, hms⟩ := ok_of_bind h
    exact List.forall_mem_cons.mpr ⟨hv, ih hms⟩

theorem hold_items (h : (arr vs cut).hold (room + 1) = .ok ()) :
    cut = none ∧ ∀ v ∈ vs, v.hold room = .ok () := by
  rw [hold] at h
  obtain ⟨⟨⟩, hitems, hcut⟩ := ok_of_bind h
  refine ⟨?_, forall_of_holdItems hitems⟩
  cases cut with
  | none => rfl
  | some b => cases hcut

theorem hold_members (h : (obj ms cut).hold (room + 1) = .ok ()) :
    cut = none ∧ ∀ m ∈ ms, m.2.hold room = .ok () := by
  rw [hold] at h
  obtain ⟨⟨⟩, hmembers, hcut⟩ := ok_of_bind h
  refine ⟨?_, forall_of_holdMembers hmembers⟩
  cases cut with
  | none => rfl
  | some b => cases hcut

theorem Whole.items (h : (arr vs cut).Whole) : cut = none ∧ ∀ v ∈ vs, v.Whole := by
  obtain ⟨room, h⟩ := h
  cases room with
  | zero =>
    rw [hold] at h
    cases h
  | succ room => exact ⟨(hold_items h).1, fun v hv => ⟨room, (hold_items h).2 v hv⟩⟩

theorem Whole.members (h : (obj ms cut).Whole) : cut = none ∧ ∀ m ∈ ms, m.2.Whole := by
  obtain ⟨room, h⟩ := h
  cases room with
  | zero =>
    rw [hold] at h
    cases h
  | succ room => exact ⟨(hold_members h).1, fun m hm => ⟨room, (hold_members h).2 m hm⟩⟩

/-- What can be held back can be skipped too. -/
theorem Whole.skip {o : Outline} (h : o.Whole) : o.skip = .ok () := by
  cases o with
  | missing b =>
    obtain ⟨room, h⟩ := h
    cases room <;> (rw [hold] at h; cases h)
  | arr items cut =>
    rw [h.items.1]
    rfl
  | obj members cut =>
    rw [h.members.1]
    rfl
  | null => rfl
  | bool b => rfl
  | num n => rfl
  | str s => rfl

end Outline

/-! ## Variations -/

/-- Which values may be given instead of one that is written. -/
abbrev Variation := Outline → Outline → Prop

namespace Variation

def same : Variation := fun o o' => o = o'

/-- Item by item. -/
def list (r : Variation) : Variation := fun o o' =>
  ∃ vs vs', o = .arr vs none ∧ o' = .arr vs' none ∧ List.Forall₂ r vs vs'

/-- The same member of a record, with its value varied. -/
def Member (fields : List (String × Variation)) (m m' : Key × Outline) : Prop :=
  ∃ name r, (name, r) ∈ fields ∧ m.1 = .ok name ∧ m'.1 = .ok name ∧ r m.2 m'.2

/-- A member that the record does not have. -/
def Unknown (fields : List (String × Variation)) (m : Key × Outline) : Prop :=
  ∃ name, m.1 = .ok name ∧ name ∉ fields.map Prod.fst

/-- The members of a record, each of them varied, and others of unknown names, in any order. -/
def record (fields : List (String × Variation)) : Variation := fun o o' =>
  ∃ ms ms' extra all, o = .obj ms none ∧ o' = .obj all none ∧
    List.Forall₂ (Member fields) ms ms' ∧ (∀ m ∈ extra, Unknown fields m) ∧
    all.Perm (ms' ++ extra)

end Variation

open Variation

/-! ## Codecs -/

/-- A lawful codec that reads whatever may be given instead of what it writes. -/
structure Codec.Tolerant {α : Type} (c : Codec α) (r : Variation) : Prop extends c.Lawful where
  read_varied (a : α) (o : Outline) : r (c.write a).outline o → o.Whole → c.read o = .ok a

namespace Codec

variable {α : Type} {c : Codec α} {r : Variation}

theorem Lawful.tolerant (h : c.Lawful) : c.Tolerant same where
  toLawful := h
  read_varied a o ho _ := by
    rw [← ho]
    exact h.read_write a

theorem Tolerant.readAll (h : c.Tolerant r) {as : List α} {vs : List Outline}
    (hvs : List.Forall₂ r (itemOutlines (as.map c.write)) vs) (hw : ∀ v ∈ vs, v.Whole) :
    c.readAll vs = .ok as := by
  induction as generalizing vs with
  | nil =>
    cases hvs
    rfl
  | cons a as ih =>
    obtain ⟨v, vs, hv, hrest, rfl⟩ := List.forall₂_cons_left_iff.mp hvs
    obtain ⟨hwv, hw⟩ := List.forall_mem_cons.mp hw
    rw [Codec.readAll, h.read_varied a v hv hwv, ok_bind, ih hrest hw]
    rfl

theorem Tolerant.list (h : c.Tolerant r) : c.list.Tolerant (Variation.list r) where
  toLawful := h.toLawful.list
  read_varied as o ho hw := by
    obtain ⟨vs, vs', hvs, rfl, hall⟩ := ho
    obtain rfl : itemOutlines (as.map c.write) = vs := (Outline.arr.inj hvs).1
    show (do
      let xs ← c.readAll vs'
      closing none
      Except.ok xs) = _
    rw [h.readAll hall hw.items.2]
    rfl

end Codec

/-! ## Fields -/

/-- What is not written is what stands for an absent field, and what is written may be varied. -/
structure Field.Tolerant {α : Type} (f : Field α) (r : Variation) : Prop where
  codec : f.codec.Tolerant r
  absent (a : α) : f.hidden a = true → f.absent = some a

namespace Field

variable {α : Type} {f : Field α} {c : Codec α} {r : Variation}

theorem Tolerant.lawful (h : f.Tolerant r) : f.Lawful := ⟨h.codec.toLawful, h.absent⟩

theorem Lawful.tolerant (h : f.Lawful) : f.Tolerant same := ⟨h.codec.tolerant, h.absent⟩

theorem tolerant_required (h : c.Tolerant r) (name : String) : (required name c).Tolerant r :=
  ⟨h, nofun⟩

theorem tolerant_withDefault (h : c.Tolerant r) (name : String) (a : α) :
    (withDefault name c a).Tolerant r :=
  ⟨h, nofun⟩

end Field

namespace Fields

variable {α : Type} {αs : List Type}

theorem putAll_append (fs : Fields αs) (ms ms' : List (Key × Outline)) (slots : Slots αs) :
    fs.putAll (ms ++ ms') slots = (do
      let slots ← fs.putAll ms slots
      fs.putAll ms' slots) := by
  induction ms generalizing slots with
  | nil => rfl
  | cons m ms ih =>
    obtain ⟨key, v⟩ := m
    show (do
      let name ← Flaw.lift key
      let slots ← fs.put name v slots
      fs.putAll (ms ++ ms') slots) = (do
      let slots ← (do
        let name ← Flaw.lift key
        let slots ← fs.put name v slots
        fs.putAll ms slots)
      fs.putAll ms' slots)
    cases Flaw.lift key with
    | error e => rfl
    | ok name =>
      rw [ok_bind, ok_bind]
      cases fs.put name v slots with
      | error e => rfl
      | ok slots => exact ih slots

/-- The one member of a field is read in its place among the members of the others. -/
theorem putAll_cons_of_mem {f : Field α} {fs : Fields αs} {before after : List (Key × Outline)}
    (h : ∀ m ∈ before ++ after, Other f.name m) {v : Outline} {a : α} (hv : f.codec.read v = .ok a)
    (slots : Slots αs) :
    (cons f fs).putAll (before ++ (.ok f.name, v) :: after) (none, slots) =
      (fs.putAll (before ++ after) slots).map fun slots => (some a, slots) := by
  obtain ⟨hbefore, hafter⟩ := List.forall_mem_append.mp h
  rw [putAll_append, putAll_append, putAll_cons f fs hbefore]
  cases fs.putAll before slots with
  | error e => rfl
  | ok slots =>
    show (do
      let slots ← (cons f fs).put f.name v (none, slots)
      (cons f fs).putAll after slots) = _
    rw [put_of_eq rfl, hv]
    exact putAll_cons f fs hafter (some a) slots

/-- Tolerant fields without a common name, with the variations that they tolerate. -/
inductive Tolerant : {αs : List Type} → Fields αs → List (String × Variation) → Prop where
  | nil : Tolerant nil []
  | cons {α : Type} {αs : List Type} {f : Field α} {fs : Fields αs} {r : Variation}
      {rs : List (String × Variation)} (hf : f.Tolerant r) (hn : f.name ∉ rs.map Prod.fst)
      (h : Tolerant fs rs) : Tolerant (cons f fs) ((f.name, r) :: rs)

theorem Tolerant.map_fst {fs : Fields αs} {rs : List (String × Variation)} (h : fs.Tolerant rs) :
    rs.map Prod.fst = fs.names := by
  induction h with
  | nil => rfl
  | cons hf hn h ih => exact congrArg (_ :: ·) ih

theorem Tolerant.lawful {fs : Fields αs} {rs : List (String × Variation)} (h : fs.Tolerant rs) :
    fs.Lawful := by
  induction h with
  | nil => exact .nil
  | cons hf hn h ih => exact .cons hf.lawful (h.map_fst ▸ hn) ih

theorem Lawful.tolerant {fs : Fields αs} (h : fs.Lawful) :
    fs.Tolerant (fs.names.map fun name => (name, same)) := by
  induction h with
  | nil => exact .nil
  | cons hf hn h ih =>
    refine .cons hf.tolerant ?_ ih
    rw [List.map_map]
    simpa using hn

section Member

variable {name : String} {r : Variation} {rs : List (String × Variation)}

/-- A member of another name than that of the first field is one of the others. -/
theorem member_of_other {m m' : Key × Outline} (h : Member ((name, r) :: rs) m m')
    (hm : Other name m) : Member rs m m' := by
  obtain ⟨key, r', hmem, hkey, hkey', hr'⟩ := h
  obtain ⟨key', hm, hne⟩ := hm
  obtain rfl : key = key' := Except.ok.inj (hkey.symm.trans hm)
  rcases List.mem_cons.mp hmem with h | h
  · cases h
    exact absurd rfl hne
  · exact ⟨key, r', h, hkey, hkey', hr'⟩

theorem members_of_others {ms ms' : List (Key × Outline)}
    (h : List.Forall₂ (Member ((name, r) :: rs)) ms ms') (hms : ∀ m ∈ ms, Other name m) :
    List.Forall₂ (Member rs) ms ms' :=
  ((List.forall₂_and_left ms ms').mpr ⟨hms, h⟩).imp fun _ _ h => member_of_other h.2 h.1

/-- The member of the first field is varied as that field may be. -/
theorem member_of_first {m m' : Key × Outline} (hn : name ∉ rs.map Prod.fst)
    (h : Member ((name, r) :: rs) m m') (hm : m.1 = .ok name) : m'.1 = .ok name ∧ r m.2 m'.2 := by
  obtain ⟨key, r', hmem, hkey, hkey', hr'⟩ := h
  obtain rfl : name = key := Except.ok.inj (hm.symm.trans hkey)
  rcases List.mem_cons.mp hmem with h | h
  · cases h
    exact ⟨hkey', hr'⟩
  · exact absurd (List.mem_map_of_mem h) hn

theorem others_of_members {ms ms' : List (Key × Outline)} (hn : name ∉ rs.map Prod.fst)
    (h : List.Forall₂ (Member rs) ms ms') : ∀ m ∈ ms', Other name m := by
  induction h with
  | nil => nofun
  | cons hm _ ih =>
    obtain ⟨key, r', hmem, -, hkey', -⟩ := hm
    have hne : name ≠ key := fun he => hn (he ▸ List.mem_map_of_mem hmem)
    exact List.forall_mem_cons.mpr ⟨⟨key, hkey', hne⟩, ih⟩

theorem other_of_unknown {m : Key × Outline} (h : Unknown ((name, r) :: rs) m) : Other name m := by
  obtain ⟨key, hm, hkey⟩ := h
  exact ⟨key, hm, fun he => hkey (he ▸ List.mem_cons_self)⟩

theorem unknown_tail {m : Key × Outline} (h : Unknown ((name, r) :: rs) m) : Unknown rs m := by
  obtain ⟨key, hm, hkey⟩ := h
  exact ⟨key, hm, fun h => hkey (List.mem_cons_of_mem _ h)⟩

end Member

/-- A record without fields skips all members. -/
theorem putAll_nil {ms : List (Key × Outline)} (hkey : ∀ m ∈ ms, ∃ name, m.1 = .ok name)
    (hw : ∀ m ∈ ms, m.2.Whole) : nil.putAll ms () = .ok () := by
  induction ms with
  | nil => rfl
  | cons m ms ih =>
    obtain ⟨⟨name, hm⟩, hrest⟩ := List.forall_mem_cons.mp hkey
    obtain ⟨hwm, hwrest⟩ := List.forall_mem_cons.mp hw
    obtain ⟨key, v⟩ := m
    obtain rfl : key = .ok name := hm
    show (do
      let slots ← (do
        Flaw.lift v.skip
        Except.ok ())
      nil.putAll ms slots) = _
    rw [hwm.skip]
    exact ih hrest hwrest

/-- **Every field is read, wherever its member stands**, and what the record does not have is
skipped. -/
theorem Tolerant.putAll {fs : Fields αs} {rs : List (String × Variation)} (h : fs.Tolerant rs)
    (as : Values αs) {ms extra all : List (Key × Outline)}
    (hms : List.Forall₂ (Member rs) (memberOutlines (fs.members as)) ms)
    (hextra : ∀ m ∈ extra, Unknown rs m) (hall : all.Perm (ms ++ extra))
    (hw : ∀ m ∈ all, m.2.Whole) : fs.putAll all fs.empty = .ok (fs.filled as) := by
  induction h generalizing ms extra all with
  | nil =>
    cases hms
    refine putAll_nil (fun m hm => ?_) hw
    obtain ⟨name, hm, -⟩ := hextra m (hall.mem_iff.mp hm)
    exact ⟨name, hm⟩
  | @cons α αs f fs r rs hf hn h ih =>
    obtain ⟨a, as⟩ := as
    have hnames : ∀ m ∈ memberOutlines (fs.members as), Other f.name m :=
      other_memberOutlines fun m hm he => hn (h.map_fst ▸ he ▸ fs.names_members as m hm)
    have hunknown : ∀ m ∈ extra, Unknown rs m := fun m hm => unknown_tail (hextra m hm)
    have hother : ∀ {ms}, List.Forall₂ (Member rs) (memberOutlines (fs.members as)) ms →
        ∀ m ∈ ms ++ extra, Other f.name m := fun hms => List.forall_mem_append.mpr
      ⟨others_of_members hn hms, fun m hm => other_of_unknown (hextra m hm)⟩
    rw [members] at hms
    rw [empty, filled]
    by_cases ha : f.hidden a = true
    · rw [if_pos ha] at hms ⊢
      have hvaried := members_of_others hms hnames
      rw [putAll_cons f fs fun m hm => hother hvaried m (hall.mem_iff.mp hm),
        ih as hvaried hunknown hall hw]
      rfl
    · rw [if_neg ha] at hms ⊢
      obtain ⟨m, ms, hm, htail, rfl⟩ := List.forall₂_cons_left_iff.mp hms
      have hvaried := members_of_others htail hnames
      obtain ⟨hkey, hr'⟩ := member_of_first hn hm rfl
      obtain ⟨key, v⟩ := m
      obtain rfl : key = .ok f.name := hkey
      -- the member of the field is taken out of its place
      obtain ⟨before, after, rfl, hrest⟩ := exists_of_perm_cons hall
      have hwv : v.Whole := hw (.ok f.name, v) (List.mem_append_right _ List.mem_cons_self)
      have hv : f.codec.read v = .ok a := hf.codec.read_varied a v hr' hwv
      have hw' : ∀ m ∈ before ++ after, m.2.Whole := fun m hm => hw m (by
        rw [List.mem_append, List.mem_cons]
        exact (List.mem_append.mp hm).imp_right .inr)
      rw [putAll_cons_of_mem (fun m hm => hother hvaried m (hrest.mem_iff.mp hm)) hv,
        ih as hvaried hunknown hrest hw']
      rfl

theorem Tolerant.ofMembers {fs : Fields αs} {rs : List (String × Variation)} (h : fs.Tolerant rs)
    (as : Values αs) {o : Outline}
    (ho : Variation.record rs (.obj (memberOutlines (fs.members as)) none) o) (hw : o.Whole) :
    ∃ all, o = .obj all none ∧ fs.ofMembers all none = .ok as := by
  obtain ⟨ms, ms', extra, all, heq, rfl, hms, hextra, hall⟩ := ho
  obtain rfl := (Outline.obj.inj heq).1
  refine ⟨all, rfl, ?_⟩
  rw [Fields.ofMembers, h.putAll as hms hextra hall hw.members.2, ok_bind]
  exact h.lawful.complete_filled as

end Fields

/-- **A record of tolerant fields is tolerant**, if it is no more than its fields. -/
theorem Codec.Tolerant.record {α : Type} {αs : List Type} {fs : Fields αs}
    {rs : List (String × Variation)} (h : fs.Tolerant rs) {pack : Values αs → α}
    {unpack : α → Values αs} (hp : ∀ a, pack (unpack a) = a) :
    (fs.record pack unpack).Tolerant (Variation.record rs) where
  toLawful := .record h.lawful hp
  read_varied a o ho hw := by
    obtain ⟨all, rfl, hall⟩ := h.ofMembers (unpack a) ho hw
    show (fs.ofMembers all none).map pack = _
    rw [hall, Except.map, hp]

end PinBench.Json
