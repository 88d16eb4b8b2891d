import PinBench.Proofs.Bit
import PinBench.Proofs.Rig.Shape

/-!
# Register bits

The register bit behind an expander pin, and what becomes of it when a register is written.

* `Site`: a register bit with the byte that holds it, and `Site.write`, the write that moves it.
* `Rig.site?`, `Rig.bit?`: the bit of an expander pin, if it has one.
* `Rig.locate_eq_ok_iff`: where a pin is located, in terms of its group.
* `Rig.bit?_setRegister_self`: a written bit has the level that was written.
* `Rig.Apart`: no two pins are located at one bit, and `Rig.Apart.bit?_setRegister_of_ne`: **such a
  rig has one bit moved at a time**.
-/

namespace PinBench

/-- A register bit, with the byte that holds it. -/
structure Site where
  /-- The address of the device. -/
  address : UInt8
  place : BitPlace
  byte : UInt8
  deriving DecidableEq

namespace Site

/-- The level of the bit. -/
def level (s : Site) : Bool := s.place.bit.test s.byte

/-- The masked write that brings the bit to a level. -/
def write (s : Site) (level : Bool) : RegisterWrite :=
  ⟨s.address, s.place.dataAddress, s.place.bit.write s.byte level⟩

end Site

namespace Rig

/-- The register bit of an expander pin, if expander, place and register are all there. -/
def site? (t : Rig) (w : Wiring) : Option Site :=
  match t.expander w.expander .caller, t.locate w.pin .caller with
  | .ok e, .ok place => (e.registers.get? place.register).map fun r => ⟨e.address, place, r⟩
  | _, _ => none

/-- The level of that bit. -/
def bit? (t : Rig) (w : Wiring) : Option Bool := (t.site? w).map Site.level

/-! ## Who asks does not matter where all is found -/

theorem expander_ok_origin {t : Rig} {number : UInt8} {e : Expander} {o : Origin} (o' : Origin)
    (h : t.expander number o = .ok e) : t.expander number o' = .ok e :=
  expander_ok_iff.mpr (expander_ok_iff.mp h)

/-- The place of a pin is its index in the first group that has it, as a byte below eight. -/
theorem locate_eq_ok_iff {t : Rig} {pin : UInt8} {o : Origin} {place : BitPlace} :
    t.locate pin o = .ok place ↔
      ∃ g b, t.groups.find? (·.pins.contains pin) = some g ∧ g.bitOf? pin = some b ∧
        b.toNat = place.bit ∧ place.register = g.register.toNat ∧
        place.dataAddress = g.dataAddress := by
  unfold locate
  constructor
  · intro h
    split at h
    · cases h
    · next g hg =>
      split at h
      · cases h
      · next b hb =>
        split at h
        · next hlt =>
          cases h
          exact ⟨g, b, hg, hb, rfl, rfl, rfl⟩
        · cases h
  · rintro ⟨g, b, hg, hb, hbit, hr, hd⟩
    have hlt : b.toNat < 8 := by rw [hbit]; exact place.bit.isLt
    simp only [hg, hb, dif_pos hlt, Except.ok.injEq]
    cases place
    simp only [BitPlace.mk.injEq] at *
    exact ⟨hr.symm, hd.symm, Fin.ext hbit⟩

theorem locate_ok_origin {t : Rig} {pin : UInt8} {place : BitPlace} {o : Origin} (o' : Origin)
    (h : t.locate pin o = .ok place) : t.locate pin o' = .ok place :=
  locate_eq_ok_iff.mpr (locate_eq_ok_iff.mp h)

theorem site?_eq_some_iff {t : Rig} {w : Wiring} {s : Site} (o o' : Origin) :
    t.site? w = some s ↔
      ∃ e, t.expander w.expander o = .ok e ∧ t.locate w.pin o' = .ok s.place ∧
        e.registers.get? s.place.register = some s.byte ∧ s.address = e.address := by
  unfold site?
  constructor
  · intro h
    split at h
    · next e place he hp =>
      obtain ⟨r, hr, rfl⟩ := Option.map_eq_some_iff.mp h
      exact ⟨e, expander_ok_origin o he, locate_ok_origin o' hp, hr, rfl⟩
    · cases h
  · rintro ⟨e, he, hp, hr, ha⟩
    rw [expander_ok_origin .caller he, locate_ok_origin .caller hp]
    show (e.registers.get? s.place.register).map _ = _
    rw [hr, Option.map_some, ← ha]

/-! ## Changing a register -/

theorem locate_setRegister (t : Rig) (number : UInt8) (i : Nat) (b : UInt8) (pin : UInt8)
    (o : Origin) : (t.setRegister number i b).locate pin o = t.locate pin o := rfl

theorem expander_setRegister_self {t : Rig} {number : UInt8} {o : Origin} {e : Expander}
    (h : t.expander number o = .ok e) (i : Nat) (b : UInt8) :
    (t.setRegister number i b).expander number o =
      .ok { e with registers := e.registers.set i b } := by
  rw [expander_ok_iff] at h ⊢
  have hf := find?_updateFirst_self (p := fun e : Expander => e.number == number)
    (f := fun e => { e with registers := e.registers.set i b }) (fun _ => rfl) t.expanders
  rw [setRegister, hf, h]
  rfl

theorem expander_setRegister_of_ne {number n : UInt8} (h : n ≠ number) (t : Rig) (o : Origin)
    (i : Nat) (b : UInt8) : (t.setRegister number i b).expander n o = t.expander n o := by
  have hf := find?_updateFirst_of_disjoint (p := fun e : Expander => e.number == number)
    (q := fun e => e.number == n) (f := fun e => { e with registers := e.registers.set i b })
    (fun _ => rfl)
    (fun e he => by rw [beq_iff_eq.mp he, beq_eq_false_iff_ne]; exact h.symm) t.expanders
  unfold expander setRegister
  rw [hf]

/-- A written bit has the level that was written. -/
theorem site?_setRegister_self {t : Rig} {w : Wiring} {s : Site} (h : t.site? w = some s)
    (b : UInt8) :
    (t.setRegister w.expander s.place.register b).site? w = some { s with byte := b } := by
  obtain ⟨e, he, hp, hr, ha⟩ := (site?_eq_some_iff .caller .caller).mp h
  exact (site?_eq_some_iff .caller .caller).mpr
    ⟨_, expander_setRegister_self he _ _, hp, RegisterBank.get?_set_self hr b, ha⟩

theorem bit?_setRegister_self {t : Rig} {w : Wiring} {s : Site} (h : t.site? w = some s)
    (level : Bool) :
    (t.setRegister w.expander s.place.register (s.write level).value).bit? w = some level := by
  rw [bit?, site?_setRegister_self h, Option.map_some, Site.level, Site.write,
    Bit.test_write_self]

/-! ## Bits of their own -/

/-- No two pin numbers are located at one register bit. -/
def Apart (t : Rig) : Prop :=
  ∀ (p q : UInt8) (a b : BitPlace), t.locate p .caller = .ok a → t.locate q .caller = .ok b →
    a.register = b.register → a.bit = b.bit → p = q

/-- A bit is moved alone. -/
theorem Apart.bit?_setRegister_of_ne {t : Rig} (h : t.Apart) {w v : Wiring} {s : Site}
    (hs : t.site? w = some s) (hv : v ≠ w) (level : Bool) :
    (t.setRegister w.expander s.place.register (s.write level).value).bit? v = t.bit? v := by
  obtain ⟨e, he, hp, hr, -⟩ := (site?_eq_some_iff .caller .caller).mp hs
  by_cases hx : v.expander = w.expander
  · have hpin : v.pin ≠ w.pin := fun hpin => hv (by cases v; cases w; cases hx; cases hpin; rfl)
    unfold bit? site?
    rw [locate_setRegister, hx, expander_setRegister_self he, he]
    cases hq : t.locate v.pin .caller with
    | error f => rfl
    | ok place =>
      by_cases hreg : s.place.register = place.register
      · -- the same byte, so another bit of it
        have hbit : place.bit ≠ s.place.bit := fun hb =>
          hpin (h v.pin w.pin place s.place hq hp hreg.symm hb)
        have hset := RegisterBank.get?_set_self hr (s.write level).value
        dsimp only
        rw [← hreg, hset, hr]
        exact congrArg some (Bit.test_write_of_ne hbit s.byte level)
      · dsimp only
        rw [RegisterBank.get?_set_of_ne _ hreg]
  · unfold bit? site?
    rw [locate_setRegister, expander_setRegister_of_ne hx]

end Rig

end PinBench
