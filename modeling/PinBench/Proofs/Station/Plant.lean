import PinBench.Proofs.Configuration.Check
import PinBench.Proofs.InStep
import PinBench.Proofs.Station.Faithful
import PinBench.Proofs.Station.Moves

/-!
# A station and its devices

A station runs on a simulated bus that keeps what its devices have.  Bringing the bench up gives
every card pin its level here, but writes only the bits that are not there yet as far as is known
here.  A device whose register is out of step keeps its byte.

* `Plant`: a station, its bus, and what has happened to the registers so far.
* `Plant.take`: an operation, or a device that is taken off the bus or put back.
* `Configuration.Separate`: registers and card pins that are told apart, and bytes that are zero.
* `Plant.Sound.take`: **in every run the registers in step have the bytes of their devices**.
* `Plant.bringUp_device`: **after a bring-up that ends well, a device has the level of a card pin if
  and only if its register is in step, or the device had that level before**.
* `device_left_behind`: a switch of the bench may leave a device behind.
-/

namespace PinBench

namespace Operation

/-- What has happened to the registers when an operation sets out: a switch starts them over. -/
def past (s : Station) (op : Operation) (past : List Mark) : List Mark :=
  match op.target? s with
  | some _ => .restart :: past
  | none => past

end Operation

/-- A station on a simulated bus. -/
structure Plant where
  station : Station
  bus : SimulatedBus
  /-- What has happened to the registers, the newest first. -/
  past : List Mark

/-- What may happen to a plant. -/
inductive Turn where
  | perform (now : Nat) (op : Operation)
  | offline (device : UInt8) (off : Bool)

namespace Plant

/-- The plant of a station on which nothing has been done. -/
def new (s : Station) : Plant := ⟨s, .empty, []⟩

def perform (s : Plant) (now : Nat) (op : Operation) : Run Station SimulatedBus Value :=
  s.station.perform now (.ofBus s.bus) op

def take (s : Plant) : Turn → Plant
  | .perform now op =>
    let r := s.perform now op
    ⟨r.state, r.link.bus, Mark.ofJournal r.link.journal ++ op.past s.station s.past⟩
  | .offline device off => { s with bus := s.bus.setOffline device off }

def takeAll (s : Plant) (turns : List Turn) : Plant := turns.foldl take s

/-- Whether a register bit is in step with its device. -/
def InStep (s : Plant) (site : Site) : Prop :=
  Mark.inStep site.address site.place.dataAddress s.past = true

/-- The level of a register bit on its device. -/
def device (s : Plant) (site : Site) : Bool :=
  site.place.bit.test (s.bus.byte site.address site.place.dataAddress)

end Plant

/-- Registers and card pins are told apart, and the registers are zero in the file. -/
structure Configuration.Separate (c : Configuration) : Prop where
  addresses : (c.hardware.expanders.map Expander.address).Nodup
  numbers : (c.hardware.groups.map PinGroup.register).Nodup
  registers : (c.hardware.groups.flatMap fun g => [g.dataAddress, g.directionAddress]).Nodup
  labels : ∀ b ∈ c.benches, ∀ d ∈ b.cards, (d.pins.map CardPin.label).Nodup
  zero : ∀ e ∈ c.hardware.expanders, ∀ r ∈ e.registers.bytes, r = 0

theorem Configuration.Separate.rig {c : Configuration} (h : c.Separate) {b : Bench}
    (hb : b ∈ c.benches) : (c.rig b).Separate :=
  ⟨h.addresses, h.registers, h.labels b hb⟩

namespace Plant

/-! ## Runs -/

/-- What holds of a plant at any time. -/
structure Sound (c : Configuration) (s : Plant) : Prop where
  faithful : s.station.Faithful c
  wellFormed : s.station.rig.WellFormed
  separate : s.station.rig.Separate
  agrees : s.station.rig.Agrees s.bus s.past

variable {c : Configuration} {s : Plant}

theorem sound_new (hc : c.Separate) {name? : Option String} {s₀ : Station}
    (h : Station.ofConfiguration c name? = .ok s₀) : (new s₀).Sound c := by
  obtain ⟨hu, b, hb, rfl⟩ := Station.entered h
  refine ⟨Station.faithful_enter hb, Configuration.wellFormed_rig hu hc.numbers hb, hc.rig hb, ?_⟩
  intro e he g hg r hr hin
  exact (hc.zero e he r (List.mem_of_getElem? hr)).symm

/-- Before an operation moves anything, all is well with the rig that it starts from. -/
theorem Sound.start (h : s.Sound c) (hu : c.check = .ok ()) (hc : c.Separate) (op : Operation) :
    (op.rig s.station).WellFormed ∧ (op.rig s.station).Separate ∧
      (op.rig s.station).Agrees s.bus (op.past s.station s.past) := by
  unfold Operation.past
  cases ht : op.target? s.station with
  | none =>
    rw [Station.rig_of_no_target ht]
    exact ⟨h.wellFormed, h.separate, h.agrees⟩
  | some b =>
    have hb := Operation.mem_of_target ht
    rw [Station.rig_of_target ht]
    rw [h.faithful.configuration] at hb ⊢
    refine ⟨Configuration.wellFormed_rig hu hc.numbers hb, hc.rig hb, ?_⟩
    -- nothing is in step when the registers have started over
    intro e he g hg r hr hin
    cases hin

theorem Sound.take (h : s.Sound c) (hu : c.check = .ok ()) (hc : c.Separate) (turn : Turn) :
    (s.take turn).Sound c := by
  cases turn with
  | offline device off => exact ⟨h.faithful, h.wellFormed, h.separate, h.agrees⟩
  | perform now op =>
    obtain ⟨hw, hs, ha⟩ := h.start hu hc op
    have hm := Station.moves_perform hw now (.ofBus s.bus)
    exact ⟨h.faithful.perform now _ op, hw.of_shape hm.shape, hs.of_shape hm.shape,
      hm.agrees hw hs ha⟩

theorem Sound.takeAll (h : s.Sound c) (hu : c.check = .ok ()) (hc : c.Separate)
    (turns : List Turn) : (s.takeAll turns).Sound c := by
  induction turns generalizing s with
  | nil => exact h
  | cons turn turns ih => exact ih (h.take hu hc turn)

/-! ## After a bring-up -/

/-- A bit whose register agrees has the level of its device. -/
theorem Sound.device_eq (h : s.Sound c) {w : Wiring} {site : Site}
    (hs : s.station.rig.site? w = some site) (hin : s.InStep site) :
    s.device site = site.level := by
  obtain ⟨e, he, hp, hr, ha⟩ := (Rig.site?_eq_some_iff .caller .caller).mp hs
  obtain ⟨g, hg, -, hgr, hgd⟩ := h.wellFormed.group_of_locate hp
  have hem := List.mem_of_find?_eq_some (Rig.expander_ok_iff.mp he)
  unfold InStep at hin
  rw [ha, hgd] at hin
  rw [hgr] at hr
  rw [device, ha, hgd, h.agrees e hem g hg site.byte hr hin, Site.level]

/-- An operation that brings the bench up and ends well leaves a register out of step only if it
does not touch it. -/
theorem Sound.device_of_not_inStep (h : s.Sound c) (hu : c.check = .ok ()) (hc : c.Separate)
    {op : Operation} (hop : op.bringsUp) {now : Nat} {v : Value}
    (hr : (s.perform now op).result = .ok v) {site : Site}
    (hin : ¬(s.take (.perform now op)).InStep site) :
    (s.take (.perform now op)).device site = s.device site := by
  obtain ⟨hw, -, -⟩ := h.start hu hc op
  have hm := Station.moves_perform hw now (.ofBus s.bus)
  have hsm : (s.perform now op).link.Smooth :=
    Station.smooth_perform hw hop hr fun a ha => (by cases ha)
  have hut : (s.perform now op).link.Untouched site.address site.place.dataAddress := by
    by_contra hut
    exact hin (Mark.inStep_of_smooth hsm hut _)
  have hb := hm.byte_of_untouched hut
  exact congrArg site.place.bit.test hb

/-- **After a bring-up that ends well, every card pin has a level, which is that of its bit here;
the device has it too if and only if its register is in step, or it had that level before.** -/
theorem bringUp_device (hc : c.Separate) {name? : Option String} {s₀ : Station}
    (h₀ : Station.ofConfiguration c name? = .ok s₀) (turns : List Turn) {op : Operation}
    (hop : op.bringsUp) (now : Nat) {v : Value}
    (hr : (((new s₀).takeAll turns).perform now op).result = .ok v) :
    let before := (new s₀).takeAll turns
    let after := before.take (.perform now op)
    ∀ p ∈ after.station.rig.pins, ∃ site, after.station.rig.site? p.wiring = some site ∧
      p.level? = some site.level ∧
      (after.device site = site.level ↔ after.InStep site ∨ before.device site = site.level) := by
  intro before after p hp
  obtain ⟨u, hu, -⟩ := ok_of_bind h₀
  have hb : before.Sound c := (sound_new hc h₀).takeAll hu hc turns
  have ha : after.Sound c := hb.take hu hc _
  obtain ⟨hw, hs, -⟩ := hb.start hu hc op
  have hm := Station.moves_perform hw now (.ofBus before.bus)
  have hp₀ : p.wiring ∈ (op.rig before.station).pins.map CardPin.wiring := by
    rw [← Rig.wirings_of_shape hm.shape]
    exact List.mem_map_of_mem hp
  obtain ⟨q, hq, hqw⟩ := List.mem_map.mp hp₀
  obtain ⟨level, hbit, hlev⟩ := Station.levelled_perform hw hop hr hs.labels hq
  obtain ⟨site, hsite, rfl⟩ := Option.map_eq_some_iff.mp hbit
  rw [hqw] at hsite hlev
  refine ⟨site, hsite, hlev p hp rfl, ?_⟩
  by_cases hin : after.InStep site
  · exact iff_of_true (ha.device_eq hsite hin) (.inl hin)
  · rw [hb.device_of_not_inStep hu hc hop hr hin]
    exact ⟨.inr, fun h => h.resolve_left hin⟩

/-- A bench with one card pin. -/
def twin (name : String) : Bench := ⟨name, [⟨"J1", [⟨"A", ⟨1, 0⟩, none⟩]⟩], [], [], []⟩

/-- Two benches that differ by name only. -/
def twins : Configuration :=
  ⟨"a", ⟨false, [⟨1, 0x20, .single⟩], [⟨[0], 0, 0x12, 0x00, 0⟩]⟩, [twin "a", twin "b"]⟩

theorem separate_twins : twins.Separate := by
  refine ⟨by decide, by decide, by decide, by decide, ?_⟩
  intro e he r hr
  rw [List.mem_singleton.mp he] at hr
  exact List.mem_singleton.mp hr

/-- A write is lost, and the bench is brought up again when the device is back. -/
theorem bringUp_device_twins :
    let s₀ := Station.enter twins (twin "a")
    let turns := [.perform 0 .start, .offline 0x20 true,
      .perform 0 (.write (.card "J1" "A" true)), .offline 0x20 false]
    let before := (new s₀).takeAll turns
    let after := before.take (.perform 0 .update)
    twins.Separate ∧ Station.ofConfiguration twins none = .ok s₀ ∧
      (before.perform 0 .update).result = .ok .done ∧
      ∀ p ∈ after.station.rig.pins, ∃ site, after.station.rig.site? p.wiring = some site ∧
        p.level? = some site.level ∧
        (after.device site = site.level ↔
          after.InStep site ∨ before.device site = site.level) := by
  have h₀ : Station.ofConfiguration twins none = .ok (Station.enter twins (twin "a")) := rfl
  exact ⟨separate_twins, h₀, rfl, bringUp_device separate_twins h₀ _ rfl 0 rfl⟩

/-- A switch of the bench leaves a device behind: the card pin is low, its register starts over low,
and so the high bit on the device is not written. -/
theorem device_left_behind :
    let s₀ := Station.enter twins (twin "a")
    let before := (new s₀).takeAll [.perform 0 .start, .perform 0 (.write (.card "J1" "A" true))]
    let after := before.take (.perform 0 (.switchBench "b"))
    twins.Separate ∧ Station.ofConfiguration twins none = .ok s₀ ∧
      (before.perform 0 (.switchBench "b")).result = .ok .done ∧
      ∃ p ∈ after.station.rig.pins, ∃ site, after.station.rig.site? p.wiring = some site ∧
        p.level? = some false ∧ after.device site = true :=
  ⟨separate_twins, rfl, rfl, _, List.mem_singleton_self _, _, rfl, rfl, rfl⟩

end Plant

end PinBench
