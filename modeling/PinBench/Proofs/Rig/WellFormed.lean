import Mathlib.Data.List.Nodup
import Mathlib.Data.List.Pairwise
import PinBench.Proofs.Rig.Site

/-!
# Well-formed rigs

A rig is **well-formed** if no two expanders, cards, groups or card pins claim the same thing, and
every group has its register on every expander.  In such a rig one register bit belongs to one
expander pin, and one expander pin to one card pin at most.

* `Rig.WellFormed`, `Rig.WellFormed.of_shape`: it depends on the shape alone.
* `Rig.WellFormed.apart`: **two pins have two places**.
* `Rig.setPin_eq_setWired`: **the one card pin that is named is all that is wired there**, if no
  two cards share a name and no two card pins a wiring.
* `Rig.settle`: a register bit and the card pin wired to it take a level together.
* `Rig.WellFormed.bit?_settle`: **that bit has the level then, and every other bit is as before**.
-/

namespace PinBench

theorem updateFirst_eq_map {α κ : Type} [DecidableEq κ] {p : α → Bool} {f : α → α} (g : α → κ)
    {l : List α} (hn : (l.map g).Nodup) {a : α} (ha : l.find? p = some a) :
    updateFirst p f l = l.map fun b => if g b = g a then f b else b := by
  induction l with
  | nil => cases ha
  | cons b bs ih =>
    rw [List.map_cons, List.nodup_cons] at hn
    rw [updateFirst, List.map_cons]
    cases hp : p b with
    | true =>
      rw [List.find?_cons_of_pos hp, Option.some.injEq] at ha
      subst ha
      rw [if_pos rfl, if_pos rfl]
      congr 1
      refine (List.map_id' bs).symm.trans (List.map_congr_left fun d hd => ?_)
      have hne : g d ≠ g b := fun h => hn.1 (h ▸ List.mem_map_of_mem hd)
      rw [if_neg hne]
    | false =>
      rw [List.find?_cons_of_neg (by rw [hp]; exact Bool.false_ne_true)] at ha
      have hne : g b ≠ g a := fun h =>
        hn.1 (h ▸ List.mem_map_of_mem (List.mem_of_find?_eq_some ha))
      rw [if_neg Bool.false_ne_true, if_neg hne, ih hn.2 ha]

theorem find?_of_mem {α κ : Type} [BEq κ] [LawfulBEq κ] (g : α → κ) {l : List α}
    (hn : (l.map g).Nodup) {a : α} (ha : a ∈ l) : l.find? (g · == g a) = some a := by
  have hs : (l.find? (g · == g a)).isSome := List.find?_isSome.mpr ⟨a, ha, beq_self_eq_true _⟩
  obtain ⟨b, hb⟩ := Option.isSome_iff_exists.mp hs
  have hg : g b = g a := beq_iff_eq.mp (List.find?_some (p := (g · == g a)) hb)
  rw [hb, List.inj_on_of_nodup_map hn (List.mem_of_find?_eq_some hb) ha hg]

/-- Without repetitions, an element comes from one place. -/
theorem eq_of_mem_flatMap {α γ : Type} {f : α → List γ} {l : List α} (hn : (l.flatMap f).Nodup)
    {a b : α} (ha : a ∈ l) (hb : b ∈ l) {x : γ} (hxa : x ∈ f a) (hxb : x ∈ f b) : a = b := by
  by_contra hne
  rw [List.nodup_flatMap] at hn
  have : Std.Symm (Function.onFun List.Disjoint f) := ⟨fun _ _ h _ hx hy => h hy hx⟩
  exact hn.2.forall ha hb hne hxa hxb

/-- The pin of a bit, in a group that fits its register. -/
theorem PinGroup.getElem?_of_bitOf? {g : PinGroup} (hg : g.pins.length ≤ 8) {pin b : UInt8}
    (h : g.bitOf? pin = some b) : g.pins[b.toNat]? = some pin := by
  obtain ⟨i, hi, rfl⟩ := Option.map_eq_some_iff.mp h
  obtain ⟨hlt, hp, -⟩ := List.findIdx?_eq_some_iff_getElem.mp hi
  have hb : (Nat.toUInt8 i).toNat = i := by
    rw [Nat.toUInt8, UInt8.toNat_ofNat']
    omega
  rw [hb, List.getElem?_eq_getElem hlt, beq_iff_eq.mp hp]

/-- The bit of a pin, in a group that fits its register and does not repeat it. -/
theorem PinGroup.bitOf?_of_getElem? {g : PinGroup} (hg : g.pins.length ≤ 8) (hn : g.pins.Nodup)
    {i : Nat} {pin : UInt8} (h : g.pins[i]? = some pin) :
    ∃ b, g.bitOf? pin = some b ∧ b.toNat = i := by
  obtain ⟨hi, hp⟩ := List.getElem?_eq_some_iff.mp h
  have hf : g.pins.findIdx? (· == pin) = some i := by
    refine List.findIdx?_eq_some_iff_getElem.mpr ⟨hi, beq_iff_eq.mpr hp, ?_⟩
    intro j hj hb
    have hji := hn.getElem_inj_iff.mp ((beq_iff_eq.mp hb).trans hp.symm)
    omega
  refine ⟨i.toUInt8, by rw [bitOf?, hf]; rfl, ?_⟩
  rw [Nat.toUInt8, UInt8.toNat_ofNat']
  omega

namespace Rig

/-- The card pins, card by card. -/
def pins (t : Rig) : List CardPin := t.cards.flatMap Card.pins

/-- Whatever is looked up by a name or a number is there once, and the registers are there. -/
structure WellFormed (t : Rig) : Prop where
  numbers : (t.expanders.map Expander.number).Nodup
  sizes : ∀ g ∈ t.groups, g.pins.length ≤ 8
  /-- No pin number is repeated, within a group or across groups. -/
  pinNumbers : (t.groups.flatMap PinGroup.pins).Nodup
  registers : (t.groups.map PinGroup.register).Nodup
  present : ∀ g ∈ t.groups, ∀ e ∈ t.expanders, g.register.toNat < e.registers.bytes.length
  names : (t.cards.map Card.name).Nodup
  wirings : (t.pins.map CardPin.wiring).Nodup

/-! ## The shape decides -/

theorem pins_shape (t : Rig) : t.shape.pins = t.pins.map CardPin.shape := by
  rw [pins, pins, List.map_flatMap]
  exact List.flatMap_map ..

theorem wirings_shape (t : Rig) :
    t.shape.pins.map CardPin.wiring = t.pins.map CardPin.wiring := by
  rw [pins_shape]
  exact List.map_map

theorem wirings_of_shape {t t' : Rig} (h : t'.shape = t.shape) :
    t'.pins.map CardPin.wiring = t.pins.map CardPin.wiring := by
  rw [← wirings_shape, h, wirings_shape]

theorem wellFormed_shape {t : Rig} : t.shape.WellFormed ↔ t.WellFormed := by
  have hn : t.shape.expanders.map Expander.number = t.expanders.map Expander.number :=
    List.map_map
  have hc : t.shape.cards.map Card.name = t.cards.map Card.name := List.map_map
  have hw := t.wirings_shape
  have he : (∀ g ∈ t.groups, ∀ e ∈ t.shape.expanders, g.register.toNat < e.registers.bytes.length) ↔
      ∀ g ∈ t.groups, ∀ e ∈ t.expanders, g.register.toNat < e.registers.bytes.length := by
    have hl : ∀ e : Expander, e.shape.registers.bytes.length = e.registers.bytes.length :=
      fun e => List.length_replicate
    refine forall₂_congr fun g _ => ?_
    show (∀ e ∈ t.expanders.map Expander.shape, _) ↔ _
    rw [List.forall_mem_map]
    exact forall₂_congr fun e _ => by rw [hl]
  constructor
  · intro h
    exact ⟨hn ▸ h.numbers, h.sizes, h.pinNumbers, h.registers, he.mp h.present, hc ▸ h.names,
      hw ▸ h.wirings⟩
  · intro h
    exact ⟨hn ▸ h.numbers, h.sizes, h.pinNumbers, h.registers, he.mpr h.present, hc ▸ h.names,
      hw ▸ h.wirings⟩

theorem WellFormed.of_shape {t t' : Rig} (h : t.WellFormed) (hs : t'.shape = t.shape) :
    t'.WellFormed := by
  rw [← wellFormed_shape, hs, wellFormed_shape]
  exact h

/-! ## One place, one pin -/

/-- The group of a place holds the pin at its bit, if the groups fit their registers. -/
theorem group_of_locate {t : Rig} (h : ∀ g ∈ t.groups, g.pins.length ≤ 8) {pin : UInt8}
    {o : Origin} {place : BitPlace} (hl : t.locate pin o = .ok place) :
    ∃ g ∈ t.groups, g.pins[place.bit.val]? = some pin ∧ place.register = g.register.toNat ∧
      place.dataAddress = g.dataAddress := by
  obtain ⟨g, b, hg, hb, hbit, hr, hd⟩ := locate_eq_ok_iff.mp hl
  have hm := List.mem_of_find?_eq_some hg
  refine ⟨g, hm, ?_, hr, hd⟩
  rw [← hbit]
  exact PinGroup.getElem?_of_bitOf? (h g hm) hb

/-- **Every pin of a group is located there**, if the groups fit their registers and no pin number
is repeated. -/
theorem locate_of_mem {t : Rig} (h : ∀ g ∈ t.groups, g.pins.length ≤ 8)
    (hn : (t.groups.flatMap PinGroup.pins).Nodup) {g : PinGroup} (hg : g ∈ t.groups) {i : Bit}
    {pin : UInt8} (hp : g.pins[i.val]? = some pin) (o : Origin) :
    t.locate pin o = .ok ⟨g.register.toNat, g.dataAddress, i⟩ := by
  have hm := List.mem_of_getElem? hp
  have hsome : (t.groups.find? (·.pins.contains pin)).isSome :=
    List.find?_isSome.mpr ⟨g, hg, List.contains_iff_mem.mpr hm⟩
  obtain ⟨g', hf⟩ := Option.isSome_iff_exists.mp hsome
  have hc := List.find?_some (p := fun g : PinGroup => g.pins.contains pin) hf
  obtain rfl := eq_of_mem_flatMap hn (List.mem_of_find?_eq_some hf) hg
    (List.contains_iff_mem.mp hc) hm
  obtain ⟨b, hb, hbi⟩ :=
    PinGroup.bitOf?_of_getElem? (h g' hg) ((List.nodup_flatMap.mp hn).1 g' hg) hp
  exact locate_eq_ok_iff.mpr ⟨g', b, hf, hb, hbi, rfl, rfl⟩

theorem WellFormed.group_of_locate {t : Rig} (h : t.WellFormed) {pin : UInt8} {o : Origin}
    {place : BitPlace} (hl : t.locate pin o = .ok place) :
    ∃ g ∈ t.groups, g.pins[place.bit.val]? = some pin ∧ place.register = g.register.toNat ∧
      place.dataAddress = g.dataAddress :=
  Rig.group_of_locate h.sizes hl

theorem WellFormed.apart {t : Rig} (h : t.WellFormed) : t.Apart := by
  intro p q a b ha hb hr hbit
  obtain ⟨g, hg, hp, hgr, -⟩ := h.group_of_locate ha
  obtain ⟨g', hg', hq, hgr', -⟩ := h.group_of_locate hb
  have hreg : g.register = g'.register := by
    apply UInt64.toNat_inj.mp
    rw [← hgr, ← hgr', hr]
  obtain rfl := List.inj_on_of_nodup_map h.registers hg hg' hreg
  rw [hbit, hq, Option.some.injEq] at hp
  exact hp.symm

/-! ## One expander pin, one card pin -/

theorem pins_setWired (t : Rig) (w : Wiring) (level : Bool) :
    (t.setWired w level).pins =
      t.pins.map fun p => if p.wiring = w then { p with level? := some level } else p := by
  rw [pins, pins, List.map_flatMap]
  exact List.flatMap_map ..

/-- Card pins that are wired alike are on one card. -/
theorem card_of_wiring {t : Rig} (h : (t.pins.map CardPin.wiring).Nodup) {c d : Card}
    (hc : c ∈ t.cards) (hd : d ∈ t.cards) {p q : CardPin} (hp : p ∈ c.pins) (hq : q ∈ d.pins)
    (hw : p.wiring = q.wiring) : c = d := by
  rw [pins, List.map_flatMap] at h
  exact eq_of_mem_flatMap h hc hd (List.mem_map_of_mem hp) (hw ▸ List.mem_map_of_mem hq)

/-- A card pin is found under its names if the labels of each card are told apart. -/
theorem WellFormed.pin_of_mem {t : Rig} (h : t.WellFormed)
    (hl : ∀ c ∈ t.cards, (c.pins.map CardPin.label).Nodup) {p : CardPin} (hp : p ∈ t.pins) :
    ∃ card label, t.pin card label = .ok p := by
  obtain ⟨c, hc, hpc⟩ := List.mem_flatMap.mp hp
  exact ⟨c.name, p.label, pin_ok_iff.mpr
    ⟨c, find?_of_mem Card.name h.names hc, find?_of_mem CardPin.label (hl c hc) hpc⟩⟩

theorem mem_pins_of_pin {t : Rig} {card label : String} {p : CardPin}
    (h : t.pin card label = .ok p) : p ∈ t.pins := by
  obtain ⟨c, hc, hp⟩ := pin_ok_iff.mp h
  exact List.mem_flatMap.mpr
    ⟨c, List.mem_of_find?_eq_some hc, List.mem_of_find?_eq_some hp⟩

theorem mem_pins_setWired {t : Rig} {w : Wiring} {level : Bool} {p : CardPin}
    (h : p ∈ (t.setWired w level).pins) :
    p.wiring = w ∧ p.level? = some level ∨ p.wiring ≠ w ∧ p ∈ t.pins := by
  rw [pins_setWired] at h
  obtain ⟨q, hq, rfl⟩ := List.mem_map.mp h
  by_cases hw : q.wiring = w
  · rw [if_pos hw]
    exact .inl ⟨hw, rfl⟩
  · rw [if_neg hw]
    exact .inr ⟨hw, hq⟩

/-- **The one card pin that is named is all that is wired there.** -/
theorem setPin_eq_setWired {t : Rig} (hn : (t.cards.map Card.name).Nodup)
    (hw : (t.pins.map CardPin.wiring).Nodup) {card label : String} {p : CardPin}
    (hp : t.pin card label = .ok p) (level : Bool) :
    t.setPin card label level = t.setWired p.wiring level := by
  obtain ⟨c, hc, hcp⟩ := pin_ok_iff.mp hp
  have hcm := List.mem_of_find?_eq_some hc
  have hpm := List.mem_of_find?_eq_some hcp
  have hcards := hw
  rw [pins, List.map_flatMap, List.nodup_flatMap] at hcards
  rw [setPin, setWired, updateFirst_eq_map Card.name hn hc]
  congr 1
  refine List.map_congr_left fun d hd => ?_
  by_cases hdc : d.name = c.name
  · -- the card that was found
    obtain rfl := List.inj_on_of_nodup_map hn hd hcm hdc
    rw [if_pos rfl, updateFirst_eq_map CardPin.wiring (hcards.1 d hd) hcp]
  · -- no other card has a pin that is wired there
    have hmap : (d.pins.map fun q => if q.wiring = p.wiring then { q with level? := some level }
        else q) = d.pins := by
      refine (List.map_congr_left fun q hq => ?_).trans (List.map_id' d.pins)
      have hne : q.wiring ≠ p.wiring := fun he =>
        hdc (congrArg Card.name (card_of_wiring hw hd hcm hq hpm he))
      rw [if_neg hne]
    rw [if_neg hdc, hmap]

theorem WellFormed.setPin_eq_setWired {t : Rig} (h : t.WellFormed) {card label : String}
    {p : CardPin} (hp : t.pin card label = .ok p) (level : Bool) :
    t.setPin card label level = t.setWired p.wiring level :=
  Rig.setPin_eq_setWired h.names h.wirings hp level

/-! ## A bit and its card pin together -/

/-- The bit behind an expander pin and every card pin that is wired to it take a level. -/
def settle (t : Rig) (w : Wiring) (s : Site) (level : Bool) : Rig :=
  (t.setWired w level).setRegister w.expander s.place.register (s.write level).value

@[simp] theorem shape_settle (t : Rig) (w : Wiring) (s : Site) (level : Bool) :
    (t.settle w s level).shape = t.shape := by
  rw [settle, shape_setRegister, shape_setWired]

/-- **The bit has the level, and every other bit is as before.** -/
theorem WellFormed.bit?_settle {t : Rig} (h : t.WellFormed) {w : Wiring} {s : Site}
    (hs : t.site? w = some s) (level : Bool) (v : Wiring) :
    (t.settle w s level).bit? v = if v = w then some level else t.bit? v := by
  have hw : (t.setWired w level).WellFormed := h.of_shape (shape_setWired t w level)
  by_cases hv : v = w
  · rw [if_pos hv, hv]
    exact bit?_setRegister_self (t := t.setWired w level) hs level
  · rw [if_neg hv]
    exact hw.apart.bit?_setRegister_of_ne (t := t.setWired w level) hs hv level

end Rig

end PinBench
