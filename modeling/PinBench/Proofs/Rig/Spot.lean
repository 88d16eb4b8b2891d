import PinBench.Proofs.Rig.Site

/-!
# Spots

A spot is a register bit of the rig, by the number of its expander.  Several pin numbers may lead to
one spot, and then they share its level.

* `Spot`, and `Site.spot`: the spot of a bit that has been found.
* `Rig.levelAt?`, `Rig.setBit`: the level of a spot, and the rig with a spot at a level.
* `Rig.setRegister_eq_setBit`: **the masked write of a register is a change of one spot**.
* `Rig.levelAt?_setBit_self`, `Rig.levelAt?_setBit_of_ne`: **a spot that is set is at its level, and
  every other spot is as before**.
* `Rig.setBit_setBit`, `Rig.setBit_levelAt?`, `Rig.setBit_comm`: the last level counts, the present
  level changes nothing, and **changes of two spots commute**.
-/

namespace PinBench

/-- A register bit, by the number of its expander. -/
structure Spot where
  expander : UInt8
  /-- The number of the register in the bank. -/
  register : Nat
  bit : Bit
  deriving DecidableEq

/-- The spot of a bit on the expander of a number. -/
def Site.spot (s : Site) (number : UInt8) : Spot := ⟨number, s.place.register, s.place.bit⟩

/-- Two spots of one expander differ by register or bit. -/
theorem Spot.ne_of_expander {a b : Spot} (he : a.expander = b.expander) (h : a ≠ b) :
    a.register ≠ b.register ∨ a.bit ≠ b.bit := by
  obtain ⟨n, r, i⟩ := a
  obtain ⟨m, s, j⟩ := b
  by_cases hr : r = s
  · refine .inr ?_
    rintro rfl
    cases he
    cases hr
    exact h rfl
  · exact .inl hr

/-! ## Banks -/

namespace RegisterBank

/-- The bank with the byte in register `i` replaced by its image, if it has that register. -/
def modify (r : RegisterBank) (i : Nat) (f : UInt8 → UInt8) : RegisterBank :=
  ⟨r.bytes.modify i f, by rw [List.length_modify]; exact r.size_le⟩

theorem eq_of_bytes {r s : RegisterBank} (h : r.bytes = s.bytes) : r = s := by
  cases r
  cases s
  cases h
  rfl

variable {r : RegisterBank} {i j : Nat} {f g : UInt8 → UInt8}

theorem get?_modify_self : (r.modify i f).get? i = (r.get? i).map f := by
  simp [get?, modify]

theorem get?_modify_of_ne (h : i ≠ j) : (r.modify i f).get? j = r.get? j := by
  simp [get?, modify, h]

theorem set_eq_modify {b : UInt8} (h : r.get? i = some b) : r.set i (f b) = r.modify i f := by
  apply eq_of_bytes
  have hb : r.bytes[i]? = some b := h
  simp [set, modify, List.modify_eq_set, hb]

theorem modify_modify : (r.modify i f).modify i g = r.modify i (g ∘ f) :=
  eq_of_bytes (List.modify_modify_eq f g i r.bytes)

theorem modify_comm (h : i ≠ j) : (r.modify i f).modify j g = (r.modify j g).modify i f :=
  eq_of_bytes (List.modify_modify_ne f g r.bytes h)

theorem modify_eq_self (h : ∀ b, r.get? i = some b → f b = b) : r.modify i f = r := by
  apply eq_of_bytes
  apply List.ext_getElem?
  intro j
  show (r.modify i f).get? j = r.get? j
  by_cases hj : i = j
  · subst hj
    rw [get?_modify_self]
    cases hb : r.get? i with
    | none => rfl
    | some b => rw [Option.map_some, h b hb]
  · exact get?_modify_of_ne hj

end RegisterBank

/-! ## Expanders -/

namespace Expander

/-- The level of a register bit, if there is the register. -/
def levelAt? (e : Expander) (a : Spot) : Option Bool := (e.registers.get? a.register).map a.bit.test

/-- Gives a register bit a level. -/
def setBit (a : Spot) (level : Bool) (e : Expander) : Expander :=
  { e with registers := e.registers.modify a.register (a.bit.write · level) }

variable {e : Expander} {a b : Spot}

theorem levelAt?_setBit_self (level : Bool) :
    (e.setBit a level).levelAt? a = (e.levelAt? a).map fun _ => level := by
  rw [levelAt?, setBit, RegisterBank.get?_modify_self, levelAt?, Option.map_map, Option.map_map]
  congr 1
  funext r
  exact Bit.test_write_self a.bit r level

theorem levelAt?_setBit_of_ne (h : b.register ≠ a.register ∨ b.bit ≠ a.bit) (level : Bool) :
    (e.setBit a level).levelAt? b = e.levelAt? b := by
  rw [levelAt?, setBit, levelAt?]
  by_cases hr : a.register = b.register
  · have hb := h.resolve_left fun hn => hn hr.symm
    rw [← hr, RegisterBank.get?_modify_self, Option.map_map]
    congr 1
    funext r
    exact Bit.test_write_of_ne hb r level
  · rw [RegisterBank.get?_modify_of_ne hr]

theorem setBit_setBit (level level' : Bool) :
    (e.setBit a level).setBit a level' = e.setBit a level' := by
  have hw : (a.bit.write · level') ∘ (a.bit.write · level) = (a.bit.write · level') := by
    funext r
    exact Bit.write_write a.bit r level level'
  rw [setBit, setBit, RegisterBank.modify_modify, hw, setBit]

theorem setBit_levelAt? {level : Bool} (h : e.levelAt? a = some level) : e.setBit a level = e := by
  rw [setBit, RegisterBank.modify_eq_self]
  intro r hr
  rw [levelAt?, hr, Option.map_some, Option.some.injEq] at h
  rw [← h, Bit.write_test]

theorem setBit_comm (h : b.register ≠ a.register ∨ b.bit ≠ a.bit) (level level' : Bool) :
    (e.setBit a level).setBit b level' = (e.setBit b level').setBit a level := by
  rw [setBit, setBit, setBit, setBit]
  congr 1
  by_cases hr : a.register = b.register
  · -- one byte, so two bits of it
    have hb := h.resolve_left fun hn => hn hr.symm
    have hw : (b.bit.write · level') ∘ (a.bit.write · level) =
        (a.bit.write · level) ∘ (b.bit.write · level') := by
      funext r
      exact Bit.write_comm hb r level' level
    rw [hr, RegisterBank.modify_modify, hw, RegisterBank.modify_modify]
  · exact RegisterBank.modify_comm hr

end Expander

/-! ## Rigs -/

namespace Rig

/-- The level of a spot, if the rig has it. -/
def levelAt? (t : Rig) (a : Spot) : Option Bool :=
  (t.expanders.find? (·.number == a.expander)).bind (·.levelAt? a)

/-- Gives a spot a level. -/
def setBit (t : Rig) (a : Spot) (level : Bool) : Rig :=
  { t with expanders := updateFirst (·.number == a.expander) (.setBit a level) t.expanders }

variable {t : Rig} {a b : Spot}

/-- The spot of a bit that is found has its level. -/
theorem levelAt?_spot {w : Wiring} {s : Site} (h : t.site? w = some s) :
    t.levelAt? (s.spot w.expander) = some s.level := by
  obtain ⟨e, he, -, hr, -⟩ := (site?_eq_some_iff .caller .caller).mp h
  rw [levelAt?, Site.spot, expander_ok_iff.mp he, Option.bind_some, Expander.levelAt?, hr]
  rfl

/-- **The masked write of a register is a change of one spot.** -/
theorem setRegister_eq_setBit {w : Wiring} {s : Site} (h : t.site? w = some s) (level : Bool) :
    t.setRegister w.expander s.place.register (s.write level).value =
      t.setBit (s.spot w.expander) level := by
  obtain ⟨e, he, -, hr, -⟩ := (site?_eq_some_iff .caller .caller).mp h
  rw [setRegister, setBit]
  congr 1
  apply updateFirst_congr
  intro e' he'
  obtain rfl := Option.some.inj ((expander_ok_iff.mp he).symm.trans he')
  have hset := RegisterBank.set_eq_modify (f := (s.place.bit.write · level)) hr
  exact congrArg (fun bank => { e with registers := bank }) hset

theorem find?_setBit (t : Rig) (a : Spot) (level : Bool) :
    (t.setBit a level).expanders.find? (·.number == a.expander) =
      (t.expanders.find? (·.number == a.expander)).map (.setBit a level) :=
  find?_updateFirst_self (p := fun e : Expander => e.number == a.expander)
    (f := .setBit a level) (fun _ => rfl) t.expanders

/-- **A spot that is set is at its level**, if the rig has it. -/
theorem levelAt?_setBit_self (level : Bool) :
    (t.setBit a level).levelAt? a = (t.levelAt? a).map fun _ => level := by
  rw [levelAt?, find?_setBit, levelAt?]
  cases t.expanders.find? (·.number == a.expander) with
  | none => rfl
  | some e => exact Expander.levelAt?_setBit_self level

/-- **Every other spot is as before.** -/
theorem levelAt?_setBit_of_ne (h : b ≠ a) (level : Bool) :
    (t.setBit a level).levelAt? b = t.levelAt? b := by
  by_cases he : b.expander = a.expander
  · rw [levelAt?, he, find?_setBit, levelAt?, he]
    cases t.expanders.find? (·.number == a.expander) with
    | none => rfl
    | some e => exact Expander.levelAt?_setBit_of_ne (Spot.ne_of_expander he h) level
  · have hf := find?_updateFirst_of_disjoint (p := fun e : Expander => e.number == a.expander)
      (q := fun e => e.number == b.expander) (f := .setBit a level) (fun _ => rfl)
      (fun e hn => by rw [beq_iff_eq.mp hn, beq_eq_false_iff_ne]; exact Ne.symm he) t.expanders
    rw [levelAt?, setBit, hf, levelAt?]

/-- Two spots of one expander change together. -/
theorem expanders_setBit_setBit (h : b.expander = a.expander) (level level' : Bool) :
    ((t.setBit a level).setBit b level').expanders = updateFirst (·.number == a.expander)
      (fun e => (e.setBit a level).setBit b level') t.expanders := by
  rw [setBit, h]
  exact updateFirst_comp (f := Expander.setBit a level) (fun _ => rfl) t.expanders

theorem setBit_setBit (level level' : Bool) :
    (t.setBit a level).setBit a level' = t.setBit a level' := by
  have hes := t.expanders_setBit_setBit (a := a) rfl level level'
  simp only [Expander.setBit_setBit] at hes
  exact congrArg (fun es => { t with expanders := es }) hes

theorem setBit_levelAt? {level : Bool} (h : t.levelAt? a = some level) :
    t.setBit a level = t := by
  rw [setBit, updateFirst_eq_self]
  intro e he
  rw [levelAt?, he] at h
  exact Expander.setBit_levelAt? h

/-- **Changes of two spots commute.** -/
theorem setBit_comm (h : b ≠ a) (level level' : Bool) :
    (t.setBit a level).setBit b level' = (t.setBit b level').setBit a level := by
  have hes : ((t.setBit a level).setBit b level').expanders =
      ((t.setBit b level').setBit a level).expanders := by
    by_cases he : b.expander = a.expander
    · rw [expanders_setBit_setBit he, expanders_setBit_setBit he.symm, he]
      apply updateFirst_congr
      intro e _
      exact Expander.setBit_comm (Spot.ne_of_expander he h) level level'
    · refine updateFirst_comm (f := Expander.setBit b level') (g := Expander.setBit a level)
        (fun _ => rfl) (fun _ => rfl) ?_ t.expanders
      intro e hn
      rw [beq_iff_eq.mp hn, beq_eq_false_iff_ne]
      exact he
  exact congrArg (fun es => { t with expanders := es }) hes

end Rig

end PinBench
