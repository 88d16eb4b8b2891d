import Mathlib.Data.List.Basic
import PinBench.Bus.Interrupted
import PinBench.Bus.Simulated
import PinBench.Proofs.PinWrite.Call

/-!
# Pin writes as masked writes

Seen from the registers, a run of pin writes is a run of masked writes.  `Masked` is a machine that
knows nothing but register bytes and the bus: what a call is aimed at is looked up once and for all
in the rig at first, and a write sets or clears one bit of one byte.

* `PinCall.aim`: the bit that a call is aimed at, in the rig at first.
* `Masked.step`, `Masked.runAll`: the machine.
* `Masked.ofRig`: what the machine sees of a rig and its link.
* `PinCall.aim_of_shape`: rigs of one shape are aimed at alike.
* `PinCall.runAll_eq_masked`: **the machine tells the outcomes, the registers and the attempts of
  any run, and no run changes the shape of the rig**.
-/

namespace PinBench

/-! ## The machine -/

/-- The register bytes of every expander, in the order of the rig. -/
abbrev Memory := List (List UInt8)

/-- A register bit by the position of its expander. -/
structure Aim where
  index : Nat
  address : UInt8
  place : BitPlace
  deriving DecidableEq

/-- What a call is aimed at: a bit of the first expander of its number. -/
def PinCall.aim (t : Rig) (q : PinCall) : Except Fault Aim :=
  (q.site t).map fun (w, s) =>
    ⟨t.expanders.findIdx (·.number == w.expander), s.address, s.place⟩

/-- Register bytes, a bus, and the writes tried on it so far. -/
structure Masked (β : Type) where
  memory : Memory
  bus : β
  attempts : List (RegisterWrite × Option String)

namespace Masked

variable {β : Type} [Bus β]

/-- The byte that holds the bit. -/
def byte (m : Masked β) (a : Aim) : UInt8 := (m.memory.getD a.index []).getD a.place.register 0

/-- One bit is brought to a level by a masked write of its byte, unless it is there.  The byte stays
if the bus fails. -/
def write (m : Masked β) (a : Aim) (level : Bool) : Except Fault Outcome × Masked β :=
  if a.place.bit.test (m.byte a) = level then (.ok .unchanged, m)
  else
    let w : RegisterWrite := ⟨a.address, a.place.dataAddress, a.place.bit.write (m.byte a) level⟩
    let reply := Bus.write m.bus w
    (match reply.failure? with
      | none => .ok (.written w)
      | some reason => .error (.bus (w.failure reason)),
    { memory := m.memory.modify a.index (·.set a.place.register w.value)
      bus := reply.bus
      attempts := m.attempts ++ [(w, reply.failure?)] })

/-- A call on the rig `t`. -/
def step (t : Rig) (m : Masked β) (q : PinCall) : Except Fault Outcome × Masked β :=
  match q.aim t with
  | .error f => (.error f, m)
  | .ok a => m.write a q.level

/-- Calls in turn, all aimed in the rig `t`, with their outcomes. -/
def runAll (t : Rig) (m : Masked β) : List PinCall → List (Except Fault Outcome) × Masked β
  | [] => ([], m)
  | q :: qs =>
    let (o, m) := m.step t q
    let (os, m) := m.runAll t qs
    (o :: os, m)

/-- What the machine sees of a rig and its link. -/
def ofRig (t : Rig) (l : Link β) : Masked β :=
  ⟨t.expanders.map (·.registers.bytes), l.bus, l.journal.attempts⟩

end Masked

/-- Calls in turn, with their outcomes, the rig and the link after them. -/
def PinCall.runAll {β : Type} [Bus β] (t : Rig) (l : Link β) :
    List PinCall → List (Except Fault Outcome) × Rig × Link β
  | [] => ([], t, l)
  | q :: qs =>
    let r := q.run t l
    let (os, t, l) := runAll r.state r.link qs
    (r.result :: os, t, l)

/-! ## Aims depend on the shape -/

theorem Expander.site_shape (e : Expander) (number : UInt8) (place : BitPlace) :
    e.shape.site number place = (e.site number place).map fun s => { s with byte := 0 } := by
  have h : e.shape.registers.get? place.register =
      (e.registers.get? place.register).map fun _ => 0 := by
    show (List.replicate e.registers.bytes.length (0 : UInt8))[place.register]? =
      (e.registers.bytes[place.register]?).map fun _ => 0
    rw [← List.map_const', List.getElem?_map]
  unfold site
  rw [h]
  cases e.registers.get? place.register <;> rfl

namespace PinCall

theorem site_shape (t : Rig) (q : PinCall) :
    q.site t.shape = (q.site t).map fun (w, s) => (w, { s with byte := 0 }) := by
  cases q with
  | card c label level =>
    rw [site, site, Rig.pin_shape]
    cases t.pin c label with
    | error f => rfl
    | ok p =>
      rw [ok_bind, Except.map, ok_bind, Rig.expander_shape]
      show (do
        let e ← (t.expander p.wiring.expander .configuration).map Expander.shape
        let place ← t.locate p.wiring.pin .configuration
        let s ← e.site p.wiring.expander place
        Except.ok (p.wiring, s)) = _
      cases t.expander p.wiring.expander .configuration with
      | error f => rfl
      | ok e =>
        rw [ok_bind, Except.map, ok_bind]
        cases t.locate p.wiring.pin .configuration with
        | error f => rfl
        | ok place =>
          rw [ok_bind, ok_bind, Expander.site_shape]
          cases e.site p.wiring.expander place <;> rfl
  | expander number pin level =>
    rw [site, site, Rig.locate_shape, Rig.expander_shape]
    cases t.locate pin .caller with
    | error f => rfl
    | ok place =>
      rw [ok_bind, ok_bind]
      cases t.expander number .caller with
      | error f => rfl
      | ok e =>
        rw [ok_bind, Except.map, ok_bind, Expander.site_shape]
        cases e.site number place <;> rfl

theorem aim_shape (t : Rig) (q : PinCall) : q.aim t.shape = q.aim t := by
  have h : ∀ number : UInt8, t.shape.expanders.findIdx (·.number == number) =
      t.expanders.findIdx (·.number == number) :=
    fun number => List.findIdx_map t.expanders Expander.shape _
  rw [aim, aim, site_shape]
  cases q.site t with
  | error f => rfl
  | ok x => exact congrArg (fun i => Except.ok (Aim.mk i _ _)) (h x.1.expander)

/-- Rigs of one shape are aimed at alike. -/
theorem aim_of_shape {t t' : Rig} (h : t'.shape = t.shape) (q : PinCall) : q.aim t' = q.aim t := by
  rw [← aim_shape, h, aim_shape]

end PinCall

/-! ## One call -/

namespace Masked

variable {β : Type} {t : Rig} {q : PinCall} {w : Wiring} {s : Site}

theorem aim_of_site (h : q.site t = .ok (w, s)) :
    q.aim t = .ok ⟨t.expanders.findIdx (·.number == w.expander), s.address, s.place⟩ := by
  rw [PinCall.aim, h]
  rfl

theorem byte_of_site (h : q.site t = .ok (w, s)) (l : Link β) :
    (ofRig t l).byte ⟨t.expanders.findIdx (·.number == w.expander), s.address, s.place⟩ =
      s.byte := by
  obtain ⟨e, he, -, hr, -⟩ :=
    (Rig.site?_eq_some_iff .caller .caller).mp (PinCall.site?_of_site h)
  rw [Rig.expander_ok_iff, List.find?_eq_getElem?_findIdx] at he
  rw [byte, ofRig, List.getD_eq_getElem?_getD, List.getD_eq_getElem?_getD, List.getElem?_map, he,
    Option.map_some, Option.getD_some]
  show (e.registers.get? s.place.register).getD 0 = s.byte
  rw [hr, Option.getD_some]

/-- Levels are not seen, and a register is written in the first expander of its number. -/
theorem memory_change (t : Rig) (q : PinCall) (w : Wiring) (s : Site) :
    (q.change t w s).after.expanders.map (·.registers.bytes) =
      (t.expanders.map (·.registers.bytes)).modify
        (t.expanders.findIdx (·.number == w.expander))
        (·.set s.place.register (s.write q.level).value) := by
  have he : (q.levelled t).expanders = t.expanders := by
    cases q <;> rfl
  rw [PinCall.change, ← he, Rig.setRegister]
  exact map_updateFirst_modify (g := fun e : Expander => e.registers.bytes)
    (k := (·.set s.place.register (s.write q.level).value)) (fun _ => rfl) _

variable [Bus β]

section Write

variable {m : Masked β} {i : Nat}

theorem write_idle (hb : m.byte ⟨i, s.address, s.place⟩ = s.byte) {level : Bool}
    (hl : s.level = level) : m.write ⟨i, s.address, s.place⟩ level = (.ok .unchanged, m) := by
  rw [write, hb]
  exact if_pos hl

theorem write_moved (hb : m.byte ⟨i, s.address, s.place⟩ = s.byte) {level : Bool}
    (hl : s.level ≠ level) :
    m.write ⟨i, s.address, s.place⟩ level =
      (match (Bus.write m.bus (s.write level)).failure? with
        | none => .ok (.written (s.write level))
        | some reason => .error (.bus ((s.write level).failure reason)),
      ⟨m.memory.modify i (·.set s.place.register (s.write level).value),
        (Bus.write m.bus (s.write level)).bus,
        m.attempts ++ [(s.write level, (Bus.write m.bus (s.write level)).failure?)]⟩) := by
  rw [write, hb]
  exact if_neg hl

end Write

/-- **A call does to registers and bus what the machine does.** -/
theorem run_eq_step (t : Rig) (l : Link β) (q : PinCall) :
    ((q.run t l).result, ofRig (q.run t l).state (q.run t l).link) = (ofRig t l).step t q := by
  have h := q.run_ending t l
  generalize q.run t l = r at h ⊢
  cases h with
  | refused h =>
    rw [step, PinCall.aim, h]
    rfl
  | @idle w s h hl =>
    rw [step, aim_of_site h]
    refine Eq.trans ?_ (write_idle (byte_of_site h l) hl).symm
    rw [ofRig, ofRig, Link.attempts_note, Link.bus_note]
  | @moved w s h hl =>
    rw [step, aim_of_site h]
    refine Eq.trans ?_ (write_moved (byte_of_site h l) hl).symm
    rw [ofRig, ofRig, memory_change, Link.attempts_note, Link.attempts_write, Link.bus_note,
      Link.bus_write, Link.outcome]
    cases (Bus.write l.bus (s.write q.level)).failure? <;> rfl

theorem step_of_shape {t' : Rig} (h : t'.shape = t.shape) (m : Masked β)
    (q : PinCall) : m.step t' q = m.step t q := by
  rw [step, step, PinCall.aim_of_shape h]

end Masked

/-! ## Runs -/

namespace PinCall

variable {β : Type} [Bus β]

/-- **Pin writes are masked writes.**  Whatever is called for, in any order and however the bus
answers, the outcomes, the register bytes and the attempts are those of the machine, and the rig
keeps its shape. -/
theorem runAll_eq_masked (t : Rig) (l : Link β) (qs : List PinCall) :
    (runAll t l qs).1 = ((Masked.ofRig t l).runAll t qs).1 ∧
      Masked.ofRig (runAll t l qs).2.1 (runAll t l qs).2.2 = ((Masked.ofRig t l).runAll t qs).2 ∧
      (runAll t l qs).2.1.shape = t.shape := by
  -- the machine goes on aiming in the rig at first, so the shape is carried along
  suffices h : ∀ (t₀ : Rig), t.shape = t₀.shape →
      (runAll t l qs).1 = ((Masked.ofRig t l).runAll t₀ qs).1 ∧
        Masked.ofRig (runAll t l qs).2.1 (runAll t l qs).2.2 =
          ((Masked.ofRig t l).runAll t₀ qs).2 ∧
        (runAll t l qs).2.1.shape = t₀.shape from h t rfl
  induction qs generalizing t l with
  | nil => exact fun t₀ ht => ⟨rfl, rfl, ht⟩
  | cons q qs ih =>
    intro t₀ ht
    have hstep := (Masked.run_eq_step t l q).trans (Masked.step_of_shape ht _ q)
    have ho := congrArg Prod.fst hstep
    have hm := congrArg Prod.snd hstep
    dsimp only at ho hm
    obtain ⟨hos, hms, hs⟩ := ih (q.run t l).state (q.run t l).link t₀ ((shape_run t l q).trans ht)
    rw [hm] at hos hms
    refine ⟨?_, hms, hs⟩
    show (q.run t l).result :: (runAll (q.run t l).state (q.run t l).link qs).1 =
      ((Masked.ofRig t l).step t₀ q).1 :: (((Masked.ofRig t l).step t₀ q).2.runAll t₀ qs).1
    rw [hos, ← ho]

/-- Three bits of two expanders: two are raised and one of them is lowered again, one write is lost,
one call is idle, and one is for a card that is not there. -/
theorem runAll_eq_masked_lost :
    let t : Rig := ⟨[⟨1, 0x20, .single⟩, ⟨2, 0x21, .single⟩], [⟨[0, 1], 0, 0x12, 0x00, 0⟩],
      [⟨"J1", [⟨"A", ⟨1, 0⟩, none⟩, ⟨"B", ⟨2, 1⟩, none⟩]⟩], false⟩
    let l := Link.ofBus (InterruptedBus.mk SimulatedBus.empty 0 (· == 1) "no answer")
    let qs := [card "J1" "A" true, expander 1 1 true, card "J1" "A" true, expander 1 0 false,
      card "J9" "A" true, card "J1" "B" true]
    let x := runAll t l qs
    x.1 = [.ok (.written ⟨0x20, 0x12, 1⟩),
        .error (.bus (RegisterWrite.failure ⟨0x20, 0x12, 3⟩ "no answer")), .ok .unchanged,
        .ok (.written ⟨0x20, 0x12, 2⟩), .error (.unknownCard "J9"),
        .ok (.written ⟨0x21, 0x12, 2⟩)] ∧
      x.2.1.expanders.map (·.registers.bytes) = [[2], [2]] ∧
      x.2.2.journal.attempts =
        [(⟨0x20, 0x12, 1⟩, none), (⟨0x20, 0x12, 3⟩, some "no answer"), (⟨0x20, 0x12, 2⟩, none),
          (⟨0x21, 0x12, 2⟩, none)] ∧
      x.2.1.shape = t.shape := by
  intro t l qs x
  have hx : x.1 = _ ∧ Masked.ofRig x.2.1 x.2.2 = _ ∧ x.2.1.shape = _ := runAll_eq_masked t l qs
  clear_value x
  obtain ⟨houtcomes, hmachine, hshape⟩ := hx
  have hmemory : x.2.1.expanders.map (·.registers.bytes) = _ := congrArg Masked.memory hmachine
  have hattempts : x.2.2.journal.attempts = _ := congrArg Masked.attempts hmachine
  rw [houtcomes, hmemory, hattempts]
  exact ⟨by decide +kernel, by decide +kernel, by decide +kernel, hshape⟩

end PinCall

end PinBench
