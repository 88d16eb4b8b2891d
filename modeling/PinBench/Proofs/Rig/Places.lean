import PinBench.Proofs.Rig.Site
import PinBench.Proofs.Search

/-!
# Places of pins

A pin is located by the first group that holds its number, and by its first place there.  The place
becomes a byte before it is compared with the width of a register: from 256 on it starts over, and a
pin far beyond the register may seem to be within it.

* `Rig.Mapped`: some group holds the pin number.
* `Rig.FirstAt`: the first group with the pin, and the first place of the pin there.
* `Rig.FirstAt.locate_eq`: **a pin is located at its first place**, as a byte, if the register has
  that bit.
* `Rig.locate_exact`: **where every pin is located, and why it is not**, with groups of any length.
* `Rig.place_starts_over`: a group of 257 pins, the last of which is located at the lowest bit.
-/

namespace PinBench

/-! ## First places -/

/-- The first place of the pin in the group. -/
def PinGroup.FirstAt (g : PinGroup) (pin : UInt8) (i : Nat) : Prop :=
  g.pins[i]? = some pin ∧ ∀ j < i, g.pins[j]? ≠ some pin

theorem PinGroup.findIdx?_eq_some_iff {g : PinGroup} {pin : UInt8} {i : Nat} :
    g.pins.findIdx? (· == pin) = some i ↔ g.FirstAt pin i := by
  unfold FirstAt
  rw [List.findIdx?_eq_some_iff_getElem, List.getElem?_eq_some_iff]
  constructor
  · rintro ⟨hi, hp, hj⟩
    refine ⟨⟨hi, beq_iff_eq.mp hp⟩, fun j hji he => ?_⟩
    obtain ⟨hj', he⟩ := List.getElem?_eq_some_iff.mp he
    exact hj j hji (beq_iff_eq.mpr he)
  · rintro ⟨⟨hi, hp⟩, hj⟩
    refine ⟨hi, beq_iff_eq.mpr hp, fun j hji he => hj j hji ?_⟩
    rw [List.getElem?_eq_getElem (Nat.lt_trans hji hi), beq_iff_eq.mp he]

theorem toNat_toUInt8 (n : Nat) : n.toUInt8.toNat = n % 256 := by
  rw [Nat.toUInt8, UInt8.toNat_ofNat']

namespace Rig

variable {t : Rig} {pin : UInt8} {g : PinGroup} {i : Nat}

/-- Some group holds the pin number. -/
def Mapped (t : Rig) (pin : UInt8) : Prop := ∃ g ∈ t.groups, pin ∈ g.pins

/-- The first group that holds the pin, and the first place of the pin there. -/
def FirstAt (t : Rig) (pin : UInt8) (g : PinGroup) (i : Nat) : Prop :=
  IsFirst (pin ∈ PinGroup.pins ·) t.groups g ∧ g.FirstAt pin i

theorem find?_groups_eq_some_iff : t.groups.find? (·.pins.contains pin) = some g ↔
    IsFirst (pin ∈ PinGroup.pins ·) t.groups g := by
  rw [find?_eq_some_iff_isFirst]
  simp only [List.contains_iff_mem]

/-- A pin number that some group holds has a first place. -/
theorem Mapped.exists_firstAt (h : t.Mapped pin) : ∃ g i, t.FirstAt pin g i := by
  obtain ⟨g, hg, hp⟩ := h
  have hsome : (t.groups.find? (·.pins.contains pin)).isSome :=
    List.find?_isSome.mpr ⟨g, hg, List.contains_iff_mem.mpr hp⟩
  obtain ⟨g', hf⟩ := Option.isSome_iff_exists.mp hsome
  have hfirst := find?_groups_eq_some_iff.mp hf
  have hidx : (g'.pins.findIdx? (· == pin)).isSome := by
    rw [List.findIdx?_isSome, List.any_eq_true]
    exact ⟨pin, hfirst.holds, beq_self_eq_true pin⟩
  obtain ⟨i, hi⟩ := Option.isSome_iff_exists.mp hidx
  exact ⟨g', i, hfirst, PinGroup.findIdx?_eq_some_iff.mp hi⟩

theorem FirstAt.mapped (h : t.FirstAt pin g i) : t.Mapped pin := ⟨g, h.1.mem, h.1.holds⟩

/-! ## Locating -/

/-- A pin that no group holds is the fault of who has named it. -/
theorem locate_of_not_mapped (hm : ¬t.Mapped pin) (o : Origin) :
    t.locate pin o = .error (.unmappedPin pin o) := by
  have hf : t.groups.find? (·.pins.contains pin) = none := by
    rw [List.find?_eq_none]
    intro g hg hc
    exact hm ⟨g, hg, List.contains_iff_mem.mp hc⟩
  unfold locate
  rw [hf]

/-- **A pin is located at its first place**, as a byte, if the register has that bit. -/
theorem FirstAt.locate_eq (h : t.FirstAt pin g i) (o : Origin) :
    t.locate pin o =
      if hi : i % 256 < 8 then .ok ⟨g.register.toNat, g.dataAddress, ⟨i % 256, hi⟩⟩
      else .error (.unmappedPin pin .configuration) := by
  obtain ⟨hg, hp⟩ := h
  have hb : g.bitOf? pin = some i.toUInt8 := by
    rw [PinGroup.bitOf?, PinGroup.findIdx?_eq_some_iff.mpr hp]
    rfl
  unfold locate
  rw [find?_groups_eq_some_iff.mpr hg]
  dsimp only
  rw [hb]
  simp only [toNat_toUInt8]

theorem FirstAt.locate_eq_ok_iff (h : t.FirstAt pin g i) {o : Origin} {place : BitPlace} :
    t.locate pin o = .ok place ↔ i % 256 = place.bit ∧ place.register = g.register.toNat ∧
      place.dataAddress = g.dataAddress := by
  rw [h.locate_eq o]
  obtain ⟨register, dataAddress, bit⟩ := place
  by_cases hi : i % 256 < 8
  · rw [dif_pos hi, Except.ok.injEq, BitPlace.mk.injEq, Fin.ext_iff]
    exact ⟨fun ⟨hr, hd, hb⟩ => ⟨hb, hr.symm, hd.symm⟩, fun ⟨hb, hr, hd⟩ => ⟨hr.symm, hd.symm, hb⟩⟩
  · rw [dif_neg hi]
    refine iff_of_false (by simp) ?_
    rintro ⟨hb, -⟩
    exact hi (hb ▸ bit.isLt)

theorem FirstAt.locate_eq_error_iff (h : t.FirstAt pin g i) {o : Origin} {f : Fault} :
    t.locate pin o = .error f ↔ 8 ≤ i % 256 ∧ f = .unmappedPin pin .configuration := by
  rw [h.locate_eq o]
  by_cases hi : i % 256 < 8
  · rw [dif_pos hi]
    exact iff_of_false (by simp) fun hn => absurd hn.1 (Nat.not_le.mpr hi)
  · rw [dif_neg hi, Except.error.injEq, and_iff_right (Nat.not_lt.mp hi), eq_comm]

/-- There is one first place. -/
theorem FirstAt.unique (h : t.FirstAt pin g i) {g' : PinGroup} {j : Nat}
    (h' : t.FirstAt pin g' j) : g = g' ∧ i = j := by
  have hg := (find?_groups_eq_some_iff.mpr h.1).symm.trans (find?_groups_eq_some_iff.mpr h'.1)
  obtain rfl := Option.some.inj hg
  have hi := (PinGroup.findIdx?_eq_some_iff.mpr h.2).symm.trans
    (PinGroup.findIdx?_eq_some_iff.mpr h'.2)
  exact ⟨rfl, Option.some.inj hi⟩

/-- What is true of some first place is true of the first place. -/
theorem FirstAt.exists_iff (h : t.FirstAt pin g i) {P : PinGroup → Nat → Prop} :
    (∃ g i, t.FirstAt pin g i ∧ P g i) ↔ P g i := by
  constructor
  · rintro ⟨g', j, h', hp⟩
    obtain ⟨rfl, rfl⟩ := h.unique h'
    exact hp
  · intro hp
    exact ⟨g, i, h, hp⟩

/-- **A pin is located at its first place in the first group that holds it.**  The place counts as a
byte, so one from 256 on starts over; up to there it is just the bit. -/
theorem locate_exact (t : Rig) (pin : UInt8) (o : Origin) :
    (∀ place, t.locate pin o = .ok place ↔ ∃ g i, t.FirstAt pin g i ∧ i % 256 = place.bit ∧
      place.register = g.register.toNat ∧ place.dataAddress = g.dataAddress) ∧
    (∀ f, t.locate pin o = .error f ↔
      (∀ g ∈ t.groups, pin ∉ g.pins) ∧ f = .unmappedPin pin o ∨
        ∃ g i, t.FirstAt pin g i ∧ 8 ≤ i % 256 ∧ f = .unmappedPin pin .configuration) ∧
    ∀ g i, t.FirstAt pin g i → i < 256 →
      (∀ place, t.locate pin o = .ok place ↔ i = place.bit ∧
        place.register = g.register.toNat ∧ place.dataAddress = g.dataAddress) ∧
      ∀ f, t.locate pin o = .error f ↔ 8 ≤ i ∧ f = .unmappedPin pin .configuration := by
  have hmapped : (∀ g ∈ t.groups, pin ∉ g.pins) ↔ ¬t.Mapped pin := by simp [Mapped]
  rw [hmapped]
  refine ⟨?_, ?_, ?_⟩
  · intro place
    by_cases hm : t.Mapped pin
    · obtain ⟨g, i, h⟩ := hm.exists_firstAt
      rw [h.locate_eq_ok_iff, h.exists_iff]
    · rw [locate_of_not_mapped hm]
      refine iff_of_false (by simp) ?_
      rintro ⟨g, i, h, -⟩
      exact hm h.mapped
  · intro f
    by_cases hm : t.Mapped pin
    · obtain ⟨g, i, h⟩ := hm.exists_firstAt
      rw [h.locate_eq_error_iff, or_iff_right fun hn => hn.1 hm, h.exists_iff]
    · rw [locate_of_not_mapped hm, Except.error.injEq, and_iff_right hm, or_iff_left]
      · exact eq_comm
      · rintro ⟨g, i, h, -⟩
        exact hm h.mapped
  · intro g i h hi
    have hmod : i % 256 = i := Nat.mod_eq_of_lt hi
    refine ⟨fun place => ?_, fun f => ?_⟩
    · rw [h.locate_eq_ok_iff, hmod]
    · rw [h.locate_eq_error_iff, hmod]

/-- A pin that stands twice in its group and once more in another, and one beyond the register. -/
theorem locate_exact_repeated :
    let g : PinGroup := ⟨[5, 12, 7, 12, 0, 1, 2, 3, 4], 0, 0x12, 0x00, 0⟩
    let t : Rig := ⟨[], [g, ⟨[12, 4], 1, 0x13, 0x01, 0⟩], [], false⟩
    t.FirstAt 12 g 1 ∧ t.locate 12 .caller = .ok ⟨0, 0x12, 1⟩ ∧
      t.FirstAt 4 g 8 ∧ t.locate 4 .caller = .error (.unmappedPin 4 .configuration) := by
  intro g t
  have h12 : t.FirstAt 12 g 1 :=
    ⟨find?_groups_eq_some_iff.mp rfl, PinGroup.findIdx?_eq_some_iff.mp rfl⟩
  have h4 : t.FirstAt 4 g 8 :=
    ⟨find?_groups_eq_some_iff.mp rfl, PinGroup.findIdx?_eq_some_iff.mp rfl⟩
  obtain ⟨-, -, hat12⟩ := locate_exact t 12 .caller
  obtain ⟨-, -, hat4⟩ := locate_exact t 4 .caller
  exact ⟨h12, ((hat12 g 1 h12 (by decide)).1 _).mpr ⟨rfl, rfl, rfl⟩, h4,
    ((hat4 g 8 h4 (by decide)).2 _).mpr ⟨by decide, rfl⟩⟩

/-- A group of 257 pins.  The last of them is not among those before, so its first place is far
beyond the register; and yet it is located at the lowest bit. -/
theorem place_starts_over :
    let g : PinGroup := ⟨List.replicate 256 0 ++ [1], 0, 0x12, 0x00, 0⟩
    let t : Rig := ⟨[], [g], [], false⟩
    t.FirstAt 1 g 256 ∧ t.locate 1 .caller = .ok ⟨0, 0x12, 0⟩ := by
  intro g t
  have h : t.FirstAt 1 g 256 :=
    ⟨find?_groups_eq_some_iff.mp (by decide +kernel),
      PinGroup.findIdx?_eq_some_iff.mp (by decide +kernel)⟩
  exact ⟨h, h.locate_eq .caller⟩

end Rig

end PinBench
