import Mathlib.Algebra.Group.Nat.Defs
import PinBench.BringUp
import PinBench.Proofs.PinWrite.Call

/-!
# Strict writes

A byte is shifted, a register is stored and a selector is added without a look at whether the step
is meant for its operands.  Here the write path is followed once more, and each of these steps is
refused where it is not: a selector for a bit beyond the byte, a sum or a difference that reaches
another bit, a register that the expander does not have.

* `Mishap`, `Strict`: a step that is refused, and what may end in one.
* `Strict.selector`, `Strict.move`, `Strict.store`: the steps.
* `PinCall.strictPlan`, `PinCall.strictRun`, `strictInitialisePins`: the write path with these steps.
* `PinCall.strictPlan_eq`: **no step of a plan is refused**.
* `PinCall.strictRun_eq`, `strictInitialisePins_eq`: **nor is one in a run**, and the strict path
  does the same as the other.
-/

namespace PinBench

/-! ## Steps that may be refused -/

/-- A step that is not meant for its operands. -/
inductive Mishap where
  /-- The byte has no such bit. -/
  | noBit (bit : UInt8)
  /-- Another bit would change. -/
  | spill (r selector : UInt8) (level : Bool)
  /-- The expander that is looked up before a register is stored is not there. -/
  | noExpander (number : UInt8)
  /-- That expander has no such register. -/
  | noRegister (number : UInt8) (register : Nat)
  deriving DecidableEq

/-- Why a strict path ends early. -/
inductive Stop where
  | fault (f : Fault)
  | mishap (m : Mishap)
  deriving DecidableEq

abbrev Strict (α : Type) := Except Stop α

/-- Adding `b` to `a` carries into bit `i`, which from 8 on is out of the byte. -/
def Carries (a b : UInt8) (i : Nat) : Prop := 2 ^ i ≤ a.toNat % 2 ^ i + b.toNat % 2 ^ i

/-- Taking `b` from `a` borrows from bit `i`. -/
def Borrows (a b : UInt8) (i : Nat) : Prop := a.toNat % 2 ^ i < b.toNat % 2 ^ i

instance (a b : UInt8) (i : Nat) : Decidable (Carries a b i) := inferInstanceAs (Decidable (_ ≤ _))

instance (a b : UInt8) (i : Nat) : Decidable (Borrows a b i) := inferInstanceAs (Decidable (_ < _))

/-- A place as it is found, with any byte for its bit. -/
structure LoosePlace where
  register : Nat
  dataAddress : UInt8
  bit : UInt8

def BitPlace.loose (p : BitPlace) : LoosePlace := ⟨p.register, p.dataAddress, p.bit.val.toUInt8⟩

namespace Strict

/-- Only a fault may end it. -/
def ofFault {α : Type} (x : Except Fault α) : Strict α := x.mapError .fault

def selector (bit : UInt8) : Strict UInt8 :=
  if bit < 8 then .ok (1 <<< bit) else .error (.mishap (.noBit bit))

/-- The byte with the selector added or taken away, where no other bit is reached. -/
def move (r selector : UInt8) (level : Bool) : Strict UInt8 :=
  if level then
    if ∃ i ≤ 8, Carries r selector i then .error (.mishap (.spill r selector level))
    else .ok (r + selector)
  else
    if ∃ i ≤ 8, Borrows r selector i then .error (.mishap (.spill r selector level))
    else .ok (r - selector)

/-- The place of a pin; its bit is kept if it is within the byte. -/
def locate (t : Rig) (pin : UInt8) (origin : Origin) : Except Fault LoosePlace :=
  match t.groups.find? (·.pins.contains pin) with
  | none => .error (.unmappedPin pin origin)
  | some g =>
    match (g.bitOf? pin).filter (· < 8) with
    | none => .error (.unmappedPin pin .configuration)
    | some b => .ok ⟨g.register.toNat, g.dataAddress, b⟩

/-- The byte that brings a register bit to a level, none if it is there. -/
def prepare (t : Rig) (w : Wiring) (place : LoosePlace) (level : Bool) (origin : Origin) :
    Strict (Option UInt8) := do
  let e ← ofFault (t.expander w.expander origin)
  match e.registers.get? place.register with
  | none => .error (.fault (.unknownExpander w.expander .configuration))
  | some r => do
    let s ← selector place.bit
    if holds r s level then .ok none
    else do
      let b ← move r s level
      .ok (some b)

/-- The change that stores a byte.  The expander is looked up anew, in a rig in which the levels have
changed since. -/
def store (t : Rig) (w : Wiring) (place : LoosePlace) (b : UInt8) (origin : Origin) :
    Strict Change :=
  match t.expander w.expander origin with
  | .error _ => .error (.mishap (.noExpander w.expander))
  | .ok e =>
    if place.register < e.registers.bytes.length then
      .ok ⟨w, t.setRegister w.expander place.register b, ⟨e.address, place.dataAddress, b⟩⟩
    else .error (.mishap (.noRegister w.expander place.register))

/-- What is to be changed at a place: nothing if the bit is at its level, else what is stored in the
rig `t'`, in which the card pins that follow have their level. -/
def bitChange (t t' : Rig) (w : Wiring) (place : LoosePlace) (level : Bool) (origin : Origin) :
    Strict (Option Change) := do
  match ← prepare t w place level origin with
  | none => .ok none
  | some b => do
    let c ← store t' w place b origin
    .ok (some c)

end Strict

/-! ## The strict path -/

namespace PinCall

open Strict in
def strictPlan (t : Rig) : PinCall → Strict (Option Change)
  | card c label level => do
    let p ← ofFault (t.pin c label)
    let _ ← ofFault (t.expander p.wiring.expander .configuration)
    let place ← ofFault (locate t p.wiring.pin .configuration)
    bitChange t (t.setPin c label level) p.wiring place level .configuration
  | expander number pin level => do
    let place ← ofFault (locate t pin .caller)
    let _ ← ofFault (t.expander number .caller)
    bitChange t (t.setWired ⟨number, pin⟩ level) ⟨number, pin⟩ place level .caller

end PinCall

variable {β : Type} [Bus β]

/-- What was planned, if no step was refused. -/
def strictCarryOut (t : Rig) (l : Link β) (what : String) (level : Bool) :
    Strict (Option Change) → Except Mishap (Run Rig β Outcome)
  | .error (.mishap m) => .error m
  | .error (.fault f) => .ok (carryOut t l what level (.error f))
  | .ok change? => .ok (carryOut t l what level (.ok change?))

def PinCall.strictRun (t : Rig) (l : Link β) (q : PinCall) : Except Mishap (Run Rig β Outcome) :=
  match q with
  | card c label level => strictCarryOut t l s!"{c}/{label}" level (q.strictPlan t)
  | expander number pin level =>
    strictCarryOut t l s!"module {number} pin {pin}" level (q.strictPlan t)

def strictApplyLevels (t : Rig) (l : Link β) (count : Nat) :
    List (String × String × Bool) → Except Mishap (Run Rig β Nat)
  | [] => .ok ⟨.ok count, t, l⟩
  | (card, label, level) :: rest =>
    match t.pin card label with
    | .error f => .ok ⟨.error f, t, l⟩
    | .ok _ => do
      let r ← (PinCall.card card label level).strictRun (t.setPin card label level) l
      match r.result with
      | .error f => .ok ⟨.error f, r.state, r.link⟩
      | .ok o => strictApplyLevels r.state r.link (count + o.count) rest

def strictInitialisePins (t : Rig) (l : Link β) : Except Mishap (Run Rig β Nat) := do
  let r ← strictApplyLevels t l 0 t.initialLevels
  match r.result with
  | .error _ => .ok r
  | .ok count =>
    .ok { r with link := r.link.note .info s!"gpio: pins initialised ({count} register writes)" }

/-! ## No step is refused -/

namespace Strict

theorem ofFault_ok {α : Type} (a : α) : ofFault (.ok a) = .ok a := rfl

/-- The bit that is found is within the byte. -/
theorem locate_eq (t : Rig) (pin : UInt8) (o : Origin) :
    locate t pin o = (t.locate pin o).map BitPlace.loose := by
  unfold locate Rig.locate
  cases t.groups.find? (·.pins.contains pin) with
  | none => rfl
  | some g =>
    dsimp only
    cases g.bitOf? pin with
    | none => rfl
    | some b =>
      have hbit : (some b).filter (fun b => decide (b < 8)) =
          if b.toNat < 8 then some b else none := by
        simp [Option.filter_some, UInt8.lt_iff_toNat_lt]
      dsimp only
      rw [hbit]
      by_cases hb : b.toNat < 8
      · rw [if_pos hb, dif_pos hb]
        simp [Except.map, BitPlace.loose]
      · rw [if_neg hb, dif_neg hb]
        rfl

theorem selector_loose (place : BitPlace) :
    selector place.loose.bit = .ok place.bit.selector := by
  have hlt : ∀ b : Bit, b.val.toUInt8 < 8 := by decide
  exact if_pos (hlt place.bit)

section Below

variable {r : UInt8} {b : Bit} {i : Nat}

/-- What a selector has below bit `i`: all of it or nothing. -/
theorem selector_mod (b : Bit) (i : Nat) :
    b.selector.toNat % 2 ^ i = if b.val < i then 2 ^ b.val else 0 := by
  have hselector : ∀ b : Bit, b.selector.toNat = 2 ^ b.val := by decide
  rw [hselector]
  split
  · next h => exact Nat.mod_eq_of_lt (Nat.pow_lt_pow_right (by decide) h)
  · next h => exact Nat.mod_eq_zero_of_dvd (Nat.pow_dvd_pow 2 (Nat.le_of_not_lt h))

theorem testBit_mod (hi : b.val < i) : (r.toNat % 2 ^ i).testBit b = b.test r := by
  rw [Nat.testBit_mod_two_pow, decide_eq_true hi, Bool.true_and, Bit.test]

theorem two_pow_le_of_test (hi : b.val < i) (h : b.test r = true) :
    2 ^ b.val ≤ r.toNat % 2 ^ i :=
  Nat.ge_two_pow_of_testBit ((testBit_mod hi).trans h)

/-- There is room for a bit that is clear. -/
theorem add_two_pow_lt (hi : b.val < i) (h : b.test r = false) :
    r.toNat % 2 ^ i + 2 ^ b.val < 2 ^ i := by
  have hpos : 0 < 2 ^ b.val := Nat.two_pow_pos b
  have hpow : 2 ^ i = 2 ^ (i - b.val) * 2 ^ b.val := by
    rw [← Nat.pow_add, Nat.sub_add_cancel (Nat.le_of_lt hi)]
  have hquotient : r.toNat % 2 ^ i / 2 ^ b.val < 2 ^ (i - b.val) := by
    rw [Nat.div_lt_iff_lt_mul hpos, ← hpow]
    exact Nat.mod_lt _ (Nat.two_pow_pos i)
  have heven : ¬r.toNat % 2 ^ i / 2 ^ b.val % 2 = 1 := by
    rw [← decide_eq_false_iff_not, ← Nat.testBit_eq_decide_div_mod_eq, testBit_mod hi, h]
  have hdvd : 2 ^ 1 ∣ 2 ^ (i - b.val) := Nat.pow_dvd_pow 2 (by omega)
  -- the quotient is even and so is the power above it, which leaves room for one more
  rw [hpow, ← Nat.div_lt_iff_lt_mul hpos, ← hpow, Nat.add_div_right _ hpos]
  omega

end Below

/-- A selector that is added reaches another bit where its own is set already. -/
theorem carries_iff (r : UInt8) (b : Bit) :
    (∃ i ≤ 8, Carries r b.selector i) ↔ b.test r = true := by
  have hb : b.val < b.val + 1 := Nat.lt_succ_self b.val
  constructor
  · rintro ⟨i, -, h⟩
    have hlow : r.toNat % 2 ^ i < 2 ^ i := Nat.mod_lt _ (Nat.two_pow_pos i)
    rw [Carries, selector_mod] at h
    split at h
    · next hi =>
      rw [← Bool.not_eq_false]
      intro hclear
      have hroom := add_two_pow_lt hi hclear
      omega
    · omega
  · intro h
    refine ⟨b.val + 1, b.isLt, ?_⟩
    have hset := two_pow_le_of_test hb h
    rw [Carries, selector_mod, if_pos hb]
    omega

/-- A selector that is taken away reaches another bit where its own is clear already. -/
theorem borrows_iff (r : UInt8) (b : Bit) :
    (∃ i ≤ 8, Borrows r b.selector i) ↔ b.test r = false := by
  have hb : b.val < b.val + 1 := Nat.lt_succ_self b.val
  constructor
  · rintro ⟨i, -, h⟩
    rw [Borrows, selector_mod] at h
    split at h
    · next hi =>
      rw [← Bool.not_eq_true]
      intro hset
      have hlow := two_pow_le_of_test hi hset
      omega
    · omega
  · intro h
    refine ⟨b.val + 1, b.isLt, ?_⟩
    have hroom := add_two_pow_lt hb h
    rw [Borrows, selector_mod, if_pos hb]
    omega

/-- **A bit that is not at its level is moved alone.** -/
theorem move_eq {r : UInt8} {b : Bit} {level : Bool} (h : holds r b.selector level = false) :
    move r b.selector level = .ok (moved r b.selector level) := by
  have hlevel : b.test r ≠ level := by
    intro hl
    rw [holds_iff_test.mpr hl] at h
    cases h
  cases level with
  | true => exact if_neg fun hc => hlevel ((carries_iff r b).mp hc)
  | false => exact if_neg fun hb => hlevel ((borrows_iff r b).mp hb)

/-- **No step is refused when a byte is prepared.** -/
theorem prepare_eq (t : Rig) (w : Wiring) (place : BitPlace) (level : Bool) (o : Origin) :
    prepare t w place.loose level o =
      ofFault ((t.bitWrite? w place level o).map (Option.map RegisterWrite.value)) := by
  unfold prepare Rig.bitWrite?
  cases t.expander w.expander o with
  | error f => rfl
  | ok e =>
    rw [ok_bind]
    show (match e.registers.get? place.register with
      | none => _
      | some r => _) = _
    cases e.registers.get? place.register with
    | none => rfl
    | some r =>
      dsimp only
      rw [selector_loose, ok_bind]
      cases hh : holds r place.bit.selector level with
      | true => rfl
      | false =>
        rw [move_eq hh]
        rfl

/-- What is written to a bit that is not at its level. -/
theorem bitWrite?_eq_some {t : Rig} {w : Wiring} {place : BitPlace} {level : Bool} {o : Origin}
    {x : RegisterWrite} (h : t.bitWrite? w place level o = .ok (some x)) :
    ∃ e, t.expander w.expander o = .ok e ∧ place.register < e.registers.bytes.length ∧
      x = ⟨e.address, place.dataAddress, x.value⟩ := by
  obtain ⟨e, he, h⟩ := ok_of_bind h
  refine ⟨e, he, ?_⟩
  split at h
  · cases h
  · next r hr =>
    obtain ⟨hlt, -⟩ := List.getElem?_eq_some_iff.mp hr
    split at h <;> cases h
    exact ⟨hlt, rfl⟩

/-- **Nor when it is stored**: the levels of card pins leave the expanders as they were. -/
theorem store_eq {t t' : Rig} (ht : t'.expanders = t.expanders) {w : Wiring} {place : BitPlace}
    {level : Bool} {o : Origin} {x : RegisterWrite}
    (h : t.bitWrite? w place level o = .ok (some x)) :
    store t' w place.loose x.value o =
      .ok ⟨w, t'.setRegister w.expander place.register x.value, x⟩ := by
  obtain ⟨e, he, hlt, hx⟩ := bitWrite?_eq_some h
  have he' : t'.expander w.expander o = .ok e := by
    rw [← he]
    unfold Rig.expander
    rw [ht]
  unfold store
  rw [he', hx]
  exact if_pos hlt

/-- **At a place that was found, no step is refused.** -/
theorem bitChange_eq {t t' : Rig} (ht : t'.expanders = t.expanders) (w : Wiring) (place : BitPlace)
    (level : Bool) (o : Origin) :
    bitChange t t' w place.loose level o =
      ofFault (t.bitWrite? w place level o >>= fun write? => .ok (write?.map fun x =>
        ⟨w, t'.setRegister w.expander place.register x.value, x⟩)) := by
  rw [bitChange, prepare_eq]
  cases h : t.bitWrite? w place level o with
  | error f => rfl
  | ok write? =>
    cases write? with
    | none => rfl
    | some x =>
      show (store t' w place.loose x.value o >>= fun c => .ok (some c)) = _
      rw [store_eq ht h]
      rfl

end Strict

/-- **No step of a plan is refused.** -/
theorem PinCall.strictPlan_eq (t : Rig) (q : PinCall) :
    q.strictPlan t = Strict.ofFault (q.plan t) := by
  cases q with
  | card c label level =>
    show _ = Strict.ofFault (t.planCard? c label level)
    rw [strictPlan, Rig.planCard?]
    cases t.pin c label with
    | error f => rfl
    | ok p =>
      rw [Strict.ofFault_ok, ok_bind, ok_bind, Strict.locate_eq]
      cases t.expander p.wiring.expander .configuration with
      | error f => rfl
      | ok e =>
        rw [Strict.ofFault_ok, ok_bind, ok_bind]
        cases t.locate p.wiring.pin .configuration with
        | error f => rfl
        | ok place =>
          have hexpanders : (t.setPin c label level).expanders = t.expanders := rfl
          exact Strict.bitChange_eq hexpanders p.wiring place level .configuration
  | expander number pin level =>
    show _ = Strict.ofFault (t.planPin? ⟨number, pin⟩ level)
    rw [strictPlan, Rig.planPin?, Strict.locate_eq]
    cases t.locate pin .caller with
    | error f => rfl
    | ok place =>
      rw [ok_bind]
      cases t.expander number .caller with
      | error f => rfl
      | ok e =>
        have hexpanders : (t.setWired ⟨number, pin⟩ level).expanders = t.expanders := rfl
        exact Strict.bitChange_eq hexpanders ⟨number, pin⟩ place level .caller

theorem strictCarryOut_ofFault (t : Rig) (l : Link β) (what : String) (level : Bool)
    (plan : Except Fault (Option Change)) :
    strictCarryOut t l what level (Strict.ofFault plan) = .ok (carryOut t l what level plan) := by
  cases plan <;> rfl

/-- **No step of a pin write is refused.** -/
theorem PinCall.strictRun_eq (t : Rig) (l : Link β) (q : PinCall) :
    q.strictRun t l = .ok (q.run t l) := by
  cases q with
  | card c label level =>
    rw [strictRun, strictPlan_eq, strictCarryOut_ofFault]
    rfl
  | expander number pin level =>
    rw [strictRun, strictPlan_eq, strictCarryOut_ofFault]
    rfl

/-- Each card pin is written in the rig that the ones before it have left. -/
theorem strictApplyLevels_eq (t : Rig) (l : Link β) (count : Nat)
    (xs : List (String × String × Bool)) :
    strictApplyLevels t l count xs = .ok (applyLevels t l count xs) := by
  induction xs generalizing t l count with
  | nil => rfl
  | cons x xs ih =>
    obtain ⟨card, label, level⟩ := x
    rw [strictApplyLevels, applyLevels]
    cases t.pin card label with
    | error f => rfl
    | ok p =>
      dsimp only
      rw [PinCall.strictRun_eq, ok_bind]
      show (match (writeCard (t.setPin card label level) l card label level).result with
        | .error f => _
        | .ok o => _) = _
      cases (writeCard (t.setPin card label level) l card label level).result with
      | error f => rfl
      | ok o => exact ih _ _ _

/-- **No step of a bring-up is refused.** -/
theorem strictInitialisePins_eq (t : Rig) (l : Link β) :
    strictInitialisePins t l = .ok (initialisePins t l) := by
  rw [strictInitialisePins, strictApplyLevels_eq, ok_bind, initialisePins]
  cases (applyLevels t l 0 t.initialLevels).result <;> rfl

/-- **No step of the write path is refused**, on any rig: every selector is that of a bit below
eight, every register is stored in an expander that has it, and no sum or difference reaches another
bit. -/
theorem no_mishap (t : Rig) (l : Link β) :
    (∀ q : PinCall, q.strictRun t l = .ok (q.run t l)) ∧
      strictInitialisePins t l = .ok (initialisePins t l) :=
  ⟨PinCall.strictRun_eq t l, strictInitialisePins_eq t l⟩

end PinBench
