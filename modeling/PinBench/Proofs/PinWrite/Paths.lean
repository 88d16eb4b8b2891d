import PinBench.Proofs.Bus.Alike
import PinBench.Proofs.Mirror
import PinBench.Proofs.Rig.Places
import PinBench.Proofs.Station.Sound

/-!
# The two ways to a pin

A card pin and the expander pin that it is wired to are written with one effect, though the one
write updates what it finds by name and the other whatever is wired there.  That rests on the check
of the configuration: no two card pins are wired alike, no two cards share a name, every group fits
its register, and the expander of every card pin is there.

* `Rig.exists_place`: a pin number that a group holds has a place, if the groups fit their
  registers.
* `PinCall.plan_expander_eq`: **both ways plan the same** where the pin has a place.
* `Attained`: the rigs of a configuration that writes, bring-ups and operations lead to.
* `Attained.exists_expander`, `Attained.setPin_eq_setWired`: what the check makes sure of holds of
  all of them.
* `Attained.paths_agree`: **the two ways have one effect on the rig and the bus, and one result**,
  but for who is to blame for a pin that no group holds.
-/

namespace PinBench

/-! ## Places -/

namespace Rig

variable {t : Rig} {pin : UInt8}

/-- A pin that a group holds has a place, whoever asks. -/
theorem exists_place (h : ∀ g ∈ t.groups, g.pins.length ≤ 8)
    (hn : (t.groups.flatMap PinGroup.pins).Nodup) (hm : t.Mapped pin) :
    ∃ place, ∀ o, t.locate pin o = .ok place := by
  obtain ⟨g, hg, hp⟩ := hm
  obtain ⟨i, hi, hip⟩ := List.mem_iff_getElem.mp hp
  have hi8 : i < 8 := Nat.lt_of_lt_of_le hi (h g hg)
  have hget : g.pins[(⟨i, hi8⟩ : Bit).val]? = some pin := by
    rw [List.getElem?_eq_getElem hi, hip]
  exact ⟨_, fun o => locate_of_mem h hn hg hget o⟩

end Rig

/-! ## Plans -/

namespace PinCall

variable {t : Rig} {c label : String} {p : CardPin} {level : Bool} (hp : t.pin c label = .ok p)
  {e : Expander} (he : t.expander p.wiring.expander .configuration = .ok e)
include hp he

theorem site_expander_eq {place : BitPlace} (hl : ∀ o, t.locate p.wiring.pin o = .ok place) :
    (expander p.wiring.expander p.wiring.pin level).site t = (card c label level).site t := by
  rw [site, site, hl, hp, ok_bind, ok_bind, he, Rig.expander_ok_origin .caller he, ok_bind, ok_bind,
    hl, ok_bind]

/-- **Both ways plan the same.** -/
theorem plan_expander_eq {place : BitPlace} (hl : ∀ o, t.locate p.wiring.pin o = .ok place)
    (hset : t.setPin c label level = t.setWired p.wiring level) :
    t.planPin? p.wiring level = t.planCard? c label level := by
  have hplan : (expander p.wiring.expander p.wiring.pin level).plan t =
      (card c label level).plan t := by
    rw [plan_eq, plan_eq, site_expander_eq hp he hl]
    have hchange : (expander p.wiring.expander p.wiring.pin level).change t =
        (card c label level).change t := by
      funext w s
      show Change.mk w ((t.setWired p.wiring level).setRegister ..) (s.write level) =
        Change.mk w ((t.setPin c label level).setRegister ..) (s.write level)
      rw [hset]
      rfl
    rw [hchange]
    rfl
  exact hplan

theorem planCard?_of_not_mapped (hm : ¬t.Mapped p.wiring.pin) :
    t.planCard? c label level = .error (.unmappedPin p.wiring.pin .configuration) := by
  rw [Rig.planCard?, hp, ok_bind, he, ok_bind, Rig.locate_of_not_mapped hm]
  rfl

omit hp he in
theorem planPin?_of_not_mapped {w : Wiring} (hm : ¬t.Mapped w.pin) :
    t.planPin? w level = .error (.unmappedPin w.pin .caller) := by
  rw [Rig.planPin?, Rig.locate_of_not_mapped hm]
  rfl

end PinCall

/-- What the pin is called matters to the notes only. -/
theorem same_carryOut {β : Type} [Bus β] (t : Rig) (l : Link β) (what what' : String) (level : Bool)
    (plan : Except Fault (Option Change)) :
    (carryOut t l what level plan).Same (· = ·) (carryOut t l what' level plan) := by
  cases plan with
  | error f => exact ⟨rfl, rfl, .refl l⟩
  | ok change? =>
    cases change? with
    | none => exact ⟨rfl, rfl, (Link.Quiet.refl l).note ..⟩
    | some change => exact ⟨rfl, rfl, .refl _⟩

/-! ## Rigs of a configuration -/

/-- The rigs of a configuration that passes its check: those of its benches, what pin writes and
bring-ups make of them, and those of its stations. -/
inductive Attained (c : Configuration) : Rig → Prop where
  | bench {b : Bench} (hc : c.check = .ok ()) (hb : b ∈ c.benches) : Attained c (c.rig b)
  | call {t : Rig} (h : Attained c t) {β : Type} [Bus β] (l : Link β) (q : RigCall) :
      Attained c (q.run t l).1
  | station {s : Station} (h : Reachable c s) : Attained c s.rig

namespace Attained

variable {c : Configuration} {t : Rig}

/-- **They have the shape of a bench.** -/
theorem exists_bench (h : Attained c t) : c.hardware.Sound ∧
    ∃ b ∈ c.benches, b.Sound c.hardware ∧ t.shape = (c.rig b).shape := by
  induction h with
  | bench hc hb =>
    obtain ⟨hh, hbs, -⟩ := Configuration.check_eq_ok.mp hc
    exact ⟨hh, _, hb, hbs _ hb, rfl⟩
  | @call t h β _ l q ih =>
    obtain ⟨hh, b, hb, hs, ht⟩ := ih
    refine ⟨hh, b, hb, hs, Eq.trans ?_ ht⟩
    cases q with
    | write q => exact q.shape_run t l
    | initialise => exact shape_initialisePins t l
  | station h =>
    exact ⟨(Configuration.check_eq_ok.mp h.check).1, _, h.faithful.bench, h.sound, h.shape⟩

/-- The expander of a card pin is there. -/
theorem exists_expander (h : Attained c t) {p : CardPin} (hp : p ∈ t.pins) (o : Origin) :
    ∃ e, t.expander p.wiring.expander o = .ok e := by
  obtain ⟨-, b, -, hs, ht⟩ := h.exists_bench
  have hw : p.wiring ∈ (c.rig b).pins.map CardPin.wiring := by
    rw [← Rig.wirings_of_shape ht]
    exact List.mem_map_of_mem hp
  obtain ⟨q, hq, hqw⟩ := List.mem_map.mp hw
  obtain ⟨d, hd, hqd⟩ := List.mem_flatMap.mp hq
  obtain ⟨x, hx, hxn⟩ := hs.expanders d hd q hqd
  have hnumbers : p.wiring.expander ∈ t.expanders.map Expander.number := by
    rw [Rig.numbers_of_shape ht, ← hqw, ← hxn]
    exact List.mem_map_of_mem hx
  obtain ⟨y, hy, hyn⟩ := List.mem_map.mp hnumbers
  have hsome : (t.expanders.find? (·.number == p.wiring.expander)).isSome :=
    List.find?_isSome.mpr ⟨y, hy, beq_iff_eq.mpr hyn⟩
  obtain ⟨e, he⟩ := Option.isSome_iff_exists.mp hsome
  exact ⟨e, Rig.expander_ok_iff.mpr he⟩

/-- The one card pin that is named is all that is wired there. -/
theorem setPin_eq_setWired (h : Attained c t) {card label : String} {p : CardPin}
    (hp : t.pin card label = .ok p) (level : Bool) :
    t.setPin card label level = t.setWired p.wiring level := by
  obtain ⟨-, b, -, hs, ht⟩ := h.exists_bench
  apply Rig.setPin_eq_setWired _ _ hp
  · rw [Rig.names_of_shape ht]
    exact hs.names
  · rw [Rig.wirings_of_shape ht, Rig.pins, List.map_flatMap]
    exact hs.wirings

theorem exists_place (h : Attained c t) {pin : UInt8} (hm : t.Mapped pin) :
    ∃ place, ∀ o, t.locate pin o = .ok place := by
  obtain ⟨hh, b, -, -, ht⟩ := h.exists_bench
  have hg : t.groups = c.hardware.groups := congrArg Rig.groups ht
  apply Rig.exists_place _ _ hm
  · rw [hg]
    exact hh.sizes
  · rw [hg]
    exact hh.pinNumbers

/-- **The two ways to a pin have one effect**, whatever the bus makes of the write: the rig, the
bus, the attempts and the events are the same after both, and so is the result if some group holds
the pin.  If none does, both are refused for that: through the card pin the configuration is to blame,
and through the expander pin the caller. -/
theorem paths_agree (h : Attained c t) {card label : String} {p : CardPin}
    (hp : t.pin card label = .ok p) (level : Bool) {β : Type} [Bus β] (l : Link β) :
    let w := p.wiring
    let r := writeCard t l card label level
    let r' := writePin t l w.expander w.pin level
    r'.state = r.state ∧ r.link.Quiet r'.link ∧
      r'.link.journal.attempts = r.link.journal.attempts ∧
      (t.Mapped w.pin → r'.result = r.result) ∧
      (¬t.Mapped w.pin → r.result = .error (.unmappedPin w.pin .configuration) ∧
        r'.result = .error (.unmappedPin w.pin .caller)) := by
  intro w r r'
  obtain ⟨e, he⟩ := h.exists_expander (Rig.mem_pins_of_pin hp) .configuration
  by_cases hm : t.Mapped w.pin
  · obtain ⟨place, hl⟩ := h.exists_place hm
    have hset := h.setPin_eq_setWired hp level
    have hplan := PinCall.plan_expander_eq hp he hl hset
    have hs : r.Same (· = ·) r' := by
      show (carryOut t l _ level (t.planCard? card label level)).Same (· = ·)
        (carryOut t l _ level (t.planPin? w level))
      rw [hplan]
      exact same_carryOut t l _ _ level _
    exact ⟨hs.state.symm, hs.link, hs.link.attempts, fun _ => hs.result, fun hn => absurd hm hn⟩
  · have hr : r = ⟨.error (.unmappedPin w.pin .configuration), t, l⟩ := by
      show carryOut t l _ level (t.planCard? card label level) = _
      rw [PinCall.planCard?_of_not_mapped hp he hm]
      rfl
    have hr' : r' = ⟨.error (.unmappedPin w.pin .caller), t, l⟩ := by
      show carryOut t l _ level (t.planPin? w level) = _
      rw [PinCall.planPin?_of_not_mapped hm]
      rfl
    rw [hr, hr']
    exact ⟨rfl, .refl l, rfl, fun hn => absurd hn hm, fun _ => ⟨rfl, rfl⟩⟩

/-- Two card pins of one label, and one that is wired to a pin that no group holds. -/
def doubledBench : Bench :=
  ⟨"a", [⟨"J1", [⟨"A", ⟨1, 0⟩, none⟩, ⟨"A", ⟨1, 1⟩, some true⟩, ⟨"Z", ⟨1, 9⟩, none⟩]⟩], [], [], []⟩

def doubledConfiguration : Configuration :=
  ⟨"a", ⟨false, [⟨1, 0x20, .single⟩], [⟨[0, 1], 0, 0x12, 0x00, 0⟩]⟩, [doubledBench]⟩

/-- After a bring-up that stops at the pin without a group: the first of two pins of one label is
lowered on a device that is offline, and the pin without a group is refused. -/
theorem paths_agree_doubled :
    let l := Link.ofBus (SimulatedBus.empty.setOffline 0x20 true)
    let t := (RigCall.initialise.run (doubledConfiguration.rig doubledBench)
      (.ofBus SimulatedBus.empty)).1
    Attained doubledConfiguration t ∧
      (t.pin "J1" "A" = .ok ⟨"A", ⟨1, 0⟩, some true⟩ ∧ t.Mapped 0 ∧
        (writePin t l 1 0 false).state = (writeCard t l "J1" "A" false).state ∧
        (writePin t l 1 0 false).result = (writeCard t l "J1" "A" false).result) ∧
      t.pin "J1" "Z" = .ok ⟨"Z", ⟨1, 9⟩, some false⟩ ∧ ¬t.Mapped 9 ∧
        (writeCard t l "J1" "Z" false).result = .error (.unmappedPin 9 .configuration) ∧
        (writePin t l 1 9 false).result = .error (.unmappedPin 9 .caller) := by
  intro l t
  have ht : Attained doubledConfiguration t :=
    .call (.bench (b := doubledBench) rfl (by decide)) _ .initialise
  have hA : t.pin "J1" "A" = .ok ⟨"A", ⟨1, 0⟩, some true⟩ := by decide +kernel
  have hZ : t.pin "J1" "Z" = .ok ⟨"Z", ⟨1, 9⟩, some false⟩ := by decide +kernel
  have hA' : t.Mapped 0 := by
    unfold Rig.Mapped
    decide +kernel
  have hZ' : ¬t.Mapped 9 := by
    unfold Rig.Mapped
    decide +kernel
  obtain ⟨hstate, -, -, hresult, -⟩ := paths_agree ht hA false l
  obtain ⟨-, -, -, -, hrefused⟩ := paths_agree ht hZ false l
  exact ⟨ht, ⟨hA, hA', hstate, hresult hA'⟩, hZ, hZ', hrefused hZ'⟩

end Attained

end PinBench
