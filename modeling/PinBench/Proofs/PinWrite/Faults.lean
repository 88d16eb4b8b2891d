import PinBench.Proofs.PinWrite.Paths

/-!
# Pin writes that fail

In the rigs of a configuration that passes its check, a pin write fails for a reason that can be
seen before the write: something that was named is not there, or the bus refuses the one write.
What a card pin refers to is there, but for a group that holds its pin number, and every expander
has the register of every group.

* `Rig.Stuck`: a bit at the wrong level, and a bus that refuses to move it.
* `PinCall.Means`: the expander pin that a call is for; `PinCall.Baseless`: there is none, with the
  fault for it.
* `PinCall.result_eq_error_iff`: a write fails where its bit is not found, or is stuck.
* `Attained.site_eq_error_iff`: **the bit of a call is not found where the call is baseless, and
  only there**.
* `CardFaults`, `ExpanderFaults`: which fault a write ends with, and when.
* `Attained.classified`: **every fault of a write has its own condition, and a fault that is not of
  the bus leaves the rig and the bus alone**.
-/

namespace PinBench

/-! ## Writes that fail -/

/-- The bit of the pin is at the other level, and the bus refuses the write that would move it. -/
def Rig.Stuck {β : Type} [Bus β] (t : Rig) (b : β) (w : Wiring) (level : Bool) (e : BusFailure) :
    Prop :=
  ∃ s, t.site? w = some s ∧ s.level ≠ level ∧ Link.outcome b (s.write level) = .error e

/-- The expander pin that a call is for. -/
inductive PinCall.Means (t : Rig) : PinCall → Wiring → Prop where
  | card {card label : String} {level : Bool} {p : CardPin} (hp : t.pin card label = .ok p) :
      Means t (.card card label level) p.wiring
  | expander {number pin : UInt8} {level : Bool} :
      Means t (.expander number pin level) ⟨number, pin⟩

/-- What a call is for is not there, with the fault for it. -/
inductive PinCall.Baseless (t : Rig) : PinCall → Fault → Prop where
  | missing {card label : String} {level : Bool} {f : Fault} (h : t.Missing card label f) :
      Baseless t (.card card label level) f
  /-- A card pin that is wired to a pin without a group: the configuration is to blame. -/
  | unmappedCardPin {card label : String} {level : Bool} {p : CardPin}
      (hp : t.pin card label = .ok p) (hm : ¬t.Mapped p.wiring.pin) :
      Baseless t (.card card label level) (.unmappedPin p.wiring.pin .configuration)
  | unmapped {number pin : UInt8} {level : Bool} (hm : ¬t.Mapped pin) :
      Baseless t (.expander number pin level) (.unmappedPin pin .caller)
  | unknownExpander {number pin : UInt8} {level : Bool} (hm : t.Mapped pin)
      (he : ∀ e ∈ t.expanders, e.number ≠ number) :
      Baseless t (.expander number pin level) (.unknownExpander number .caller)

namespace PinCall

variable {t : Rig} {q : PinCall} {f : Fault}

/-- The bit of a call is that of the pin it is for. -/
theorem site_eq_ok_iff {w : Wiring} {s : Site} :
    q.site t = .ok (w, s) ↔ q.Means t w ∧ t.site? w = some s := by
  constructor
  · intro h
    refine ⟨?_, site?_of_site h⟩
    cases q with
    | card card label level =>
      obtain ⟨p, hp, rfl⟩ := pin_of_site h
      exact .card hp
    | expander number pin level =>
      obtain rfl := wiring_of_site h
      exact .expander
  · rintro ⟨hw, hs⟩
    cases hw with
    | expander => exact site_of_site? hs _
    | card hp =>
      obtain ⟨e, he, hl, hr, ha⟩ := (Rig.site?_eq_some_iff .configuration .configuration).mp hs
      rw [site, hp, ok_bind, he, ok_bind, hl, ok_bind, Expander.site, hr, ← ha]
      rfl

variable {β : Type} [Bus β]

/-- **A write fails where its bit is not found, or is stuck.** -/
theorem result_eq_error_iff {l : Link β} :
    (q.run t l).result = .error f ↔ q.site t = .error f ∨
      ∃ w, q.Means t w ∧ ∃ e, t.Stuck l.bus w q.level e ∧ f = .bus e := by
  have h := run_ending t l q
  generalize q.run t l = r at h ⊢
  cases h with
  | refused h =>
    rw [h]
    constructor
    · intro hr
      cases hr
      exact .inl rfl
    · rintro (hr | ⟨w, hw, e, ⟨s, hs, -⟩, -⟩)
      · cases hr
        rfl
      · rw [site_eq_ok_iff.mpr ⟨hw, hs⟩] at h
        cases h
  | idle h hl severity text =>
    rw [h]
    constructor
    · intro hr
      cases hr
    · rintro (hr | ⟨w, hw, e, ⟨s, hs, hne, -⟩, -⟩)
      · cases hr
      · cases h.symm.trans (site_eq_ok_iff.mpr ⟨hw, hs⟩)
        exact absurd hl hne
  | @moved w s h hl severity text =>
    obtain ⟨hw, hs⟩ := site_eq_ok_iff.mp h
    rw [h]
    constructor
    · intro hr
      cases hb : Link.outcome l.bus (s.write q.level) with
      | ok u =>
        rw [hb] at hr
        cases hr
      | error e =>
        rw [hb] at hr
        cases hr
        exact .inr ⟨w, hw, e, ⟨s, hs, hl, hb⟩, rfl⟩
    · rintro (hr | ⟨v, hv, e, ⟨s', hs', -, hb⟩, rfl⟩)
      · cases hr
      · cases h.symm.trans (site_eq_ok_iff.mpr ⟨hv, hs'⟩)
        dsimp only
        rw [hb]

/-- A fault that is not of the bus: nothing has happened.  One of the bus: it was asked once. -/
theorem run_of_error {l : Link β} (h : (q.run t l).result = .error f) :
    (f.isBus = false → (q.run t l).state = t ∧ (q.run t l).link = l) ∧
      (f.isBus = true → ∃ a, (q.run t l).link.journal.attempts = l.journal.attempts ++ [a] ∧
        a.2.isSome) := by
  have hr := run_ending t l q
  generalize q.run t l = r at h hr ⊢
  cases hr with
  | refused hs =>
    cases h
    have hf := offBus_site t q f hs
    rw [hf]
    exact ⟨fun _ => ⟨rfl, rfl⟩, fun hb => absurd hb Bool.false_ne_true⟩
  | idle => cases h
  | @moved w s hs hl severity text =>
    have ha := Link.attempts_write l (s.write q.level)
    dsimp only at h ⊢
    unfold Link.outcome at h
    cases hb : (Bus.write l.bus (s.write q.level)).failure? with
    | none =>
      rw [hb] at h
      cases h
    | some reason =>
      rw [hb] at h
      cases h
      refine ⟨fun hf => (by cases hf), fun _ => ⟨(s.write q.level, some reason), ?_, rfl⟩⟩
      rw [Link.attempts_note, ha, hb]

end PinCall

/-! ## Bits that are not found -/

namespace Attained

variable {c : Configuration} {t : Rig}

/-- Every expander has the register of every group. -/
theorem exists_site (h : Attained c t) {number pin : UInt8} {o o' : Origin} {e : Expander}
    {place : BitPlace} (he : t.expander number o = .ok e) (hl : t.locate pin o' = .ok place) :
    ∃ s, e.site number place = .ok s := by
  obtain ⟨hh, b, -, -, ht⟩ := h.exists_bench
  obtain ⟨g, -, hg, -, -, hr, -⟩ := Rig.locate_eq_ok_iff.mp hl
  have hgm : g ∈ c.hardware.groups := by
    rw [← show t.groups = c.hardware.groups from congrArg Rig.groups ht]
    exact List.mem_of_find?_eq_some hg
  have hem : e.shape ∈ c.hardware.expanders.map Expander.shape := by
    have hs : t.expanders.map Expander.shape = c.hardware.expanders.map Expander.shape :=
      congrArg Rig.expanders ht
    rw [← hs]
    exact List.mem_map_of_mem (List.mem_of_find?_eq_some (Rig.expander_ok_iff.mp he))
  obtain ⟨x, hx, hxe⟩ := List.mem_map.mp hem
  have hsize : ∀ e : Expander, e.shape.registers.bytes.length = e.registers.bytes.length :=
    fun e => List.length_replicate
  have hlt : place.register < e.registers.bytes.length := by
    rw [hr, ← hsize, ← hxe, hsize]
    exact hh.present g hgm x hx
  unfold Expander.site RegisterBank.get?
  rw [List.getElem?_eq_getElem hlt]
  exact ⟨_, rfl⟩

/-- **The bit of a call is not found where the call is baseless, and only there.** -/
theorem site_eq_error_iff (h : Attained c t) {q : PinCall} {f : Fault} :
    q.site t = .error f ↔ q.Baseless t f := by
  constructor
  · intro hs
    cases q with
    | card card label level =>
      rcases error_of_bind hs with hp | ⟨p, hp, hs⟩
      · exact .missing (Rig.pin_eq_error_iff.mp hp)
      · obtain ⟨e, he⟩ := h.exists_expander (Rig.mem_pins_of_pin hp) .configuration
        rw [he, ok_bind] at hs
        by_cases hm : t.Mapped p.wiring.pin
        · obtain ⟨place, hl⟩ := h.exists_place hm
          obtain ⟨s, hes⟩ := h.exists_site he (hl .configuration)
          rw [hl, ok_bind, hes] at hs
          cases hs
        · rw [Rig.locate_of_not_mapped hm] at hs
          cases hs
          exact .unmappedCardPin hp hm
    | expander number pin level =>
      by_cases hm : t.Mapped pin
      · obtain ⟨place, hl⟩ := h.exists_place hm
        rw [PinCall.site, hl, ok_bind] at hs
        rcases error_of_bind hs with he | ⟨e, he, hs⟩
        · obtain ⟨hn, rfl⟩ := Rig.expander_eq_error_iff.mp he
          exact .unknownExpander hm hn
        · obtain ⟨s, hes⟩ := h.exists_site he (hl .caller)
          rw [hes] at hs
          cases hs
      · rw [PinCall.site, Rig.locate_of_not_mapped hm] at hs
        cases hs
        exact .unmapped hm
  · intro hb
    cases hb with
    | missing hp =>
      rw [PinCall.site, Rig.pin_eq_error_iff.mpr hp]
      rfl
    | unmappedCardPin hp hm =>
      obtain ⟨e, he⟩ := h.exists_expander (Rig.mem_pins_of_pin hp) .configuration
      rw [PinCall.site, hp, ok_bind, he, ok_bind, Rig.locate_of_not_mapped hm]
      rfl
    | unmapped hm =>
      rw [PinCall.site, Rig.locate_of_not_mapped hm]
      rfl
    | unknownExpander hm hn =>
      obtain ⟨place, hl⟩ := h.exists_place hm
      rw [PinCall.site, hl, ok_bind, Rig.expander_eq_error_iff.mpr ⟨hn, rfl⟩]
      rfl

variable {β : Type} [Bus β] {l : Link β} {q : PinCall}

/-- **A fault that is not of the bus comes from a call that is baseless.** -/
theorem result_eq_error_iff (h : Attained c t) {f : Fault} (hf : f.isBus = false) :
    (q.run t l).result = .error f ↔ q.Baseless t f := by
  rw [PinCall.result_eq_error_iff, h.site_eq_error_iff]
  refine or_iff_left ?_
  rintro ⟨w, -, e, -, rfl⟩
  cases hf

/-- **A fault of the bus comes from a bit that is stuck.** -/
theorem result_eq_bus_iff (h : Attained c t) {e : BusFailure} :
    (q.run t l).result = .error (.bus e) ↔ ∃ w, q.Means t w ∧ t.Stuck l.bus w q.level e := by
  rw [PinCall.result_eq_error_iff, h.site_eq_error_iff]
  constructor
  · rintro (hb | ⟨w, hw, e', hs, hf⟩)
    · cases hb with
      | missing hm => cases hm
    · cases hf
      exact ⟨w, hw, hs⟩
  · rintro ⟨w, hw, hs⟩
    exact .inr ⟨w, hw, e, hs, rfl⟩

end Attained

/-! ## Which fault, and when -/

namespace PinCall

variable {t : Rig} {card label : String} {number pin : UInt8} {level : Bool}

theorem baseless_unknownCard_iff :
    (PinCall.card card label level).Baseless t (.unknownCard card) ↔
      ∀ d ∈ t.cards, d.name ≠ card := by
  constructor
  · intro hb
    cases hb with
    | missing hm =>
      cases hm with
      | card hn => exact hn
  · intro hn
    exact .missing (.card hn)

theorem baseless_unknownPin_iff (hnames : (t.cards.map Card.name).Nodup) :
    (PinCall.card card label level).Baseless t (.unknownPin card label) ↔
      ∃ d ∈ t.cards, d.name = card ∧ ∀ p ∈ d.pins, p.label ≠ label := by
  constructor
  · intro hb
    cases hb with
    | missing hm =>
      cases hm with
      | @label d hd hn =>
        have hf := Rig.card_ok_iff.mp hd
        have hname := List.find?_some hf
        exact ⟨d, List.mem_of_find?_eq_some hf, eq_of_beq hname, hn⟩
  · rintro ⟨d, hd, rfl, hn⟩
    exact .missing (.label (Rig.card_ok_iff.mpr (find?_of_mem Card.name hnames hd)) hn)

theorem baseless_unmappedCardPin_iff :
    (PinCall.card card label level).Baseless t (.unmappedPin pin .configuration) ↔
      ∃ p, t.pin card label = .ok p ∧ p.wiring.pin = pin ∧ ¬t.Mapped pin := by
  constructor
  · intro hb
    cases hb with
    | missing hm => cases hm
    | @unmappedCardPin _ _ _ p hp hm => exact ⟨p, hp, rfl, hm⟩
  · rintro ⟨p, hp, rfl, hm⟩
    exact .unmappedCardPin hp hm

theorem baseless_unmapped_iff :
    (PinCall.expander number pin level).Baseless t (.unmappedPin pin .caller) ↔
      ¬t.Mapped pin := by
  constructor
  · intro hb
    cases hb with
    | unmapped hm => exact hm
  · intro hm
    exact .unmapped hm

theorem baseless_unknownExpander_iff :
    (PinCall.expander number pin level).Baseless t (.unknownExpander number .caller) ↔
      t.Mapped pin ∧ ∀ e ∈ t.expanders, e.number ≠ number := by
  constructor
  · intro hb
    cases hb with
    | unknownExpander hm hn => exact ⟨hm, hn⟩
  · rintro ⟨hm, hn⟩
    exact .unknownExpander hm hn

theorem means_card_iff {w : Wiring} :
    (PinCall.card card label level).Means t w ↔
      ∃ p, t.pin card label = .ok p ∧ p.wiring = w := by
  constructor
  · intro hw
    cases hw with
    | @card _ _ _ p hp => exact ⟨p, hp, rfl⟩
  · rintro ⟨p, hp, rfl⟩
    exact .card hp

theorem means_expander_iff {w : Wiring} :
    (PinCall.expander number pin level).Means t w ↔ w = ⟨number, pin⟩ := by
  constructor
  · intro hw
    cases hw
    rfl
  · rintro rfl
    exact .expander

end PinCall

/-- The faults of a write through a card pin. -/
structure CardFaults {β : Type} [Bus β] (t : Rig) (b : β) (card label : String) (level : Bool)
    (x : Except Fault Outcome) : Prop where
  /-- No card has the name. -/
  cardMissing : x = .error (.unknownCard card) ↔ ∀ d ∈ t.cards, d.name ≠ card
  /-- The card is there, and has no pin of the label. -/
  labelMissing : x = .error (.unknownPin card label) ↔
    ∃ d ∈ t.cards, d.name = card ∧ ∀ p ∈ d.pins, p.label ≠ label
  /-- The pin is there, and no group holds the pin number it is wired to. -/
  unmapped : ∀ pin, x = .error (.unmappedPin pin .configuration) ↔
    ∃ p, t.pin card label = .ok p ∧ p.wiring.pin = pin ∧ ¬t.Mapped pin
  bus : ∀ e, x = .error (.bus e) ↔
    ∃ p, t.pin card label = .ok p ∧ t.Stuck b p.wiring level e
  /-- There is no other fault; above all, no expander is missing. -/
  only : ∀ f, x = .error f → f = .unknownCard card ∨ f = .unknownPin card label ∨
    (∃ pin, f = .unmappedPin pin .configuration) ∨ ∃ e, f = .bus e

/-- The faults of a write through an expander pin. -/
structure ExpanderFaults {β : Type} [Bus β] (t : Rig) (b : β) (number pin : UInt8) (level : Bool)
    (x : Except Fault Outcome) : Prop where
  /-- No group holds the pin number. -/
  unmapped : x = .error (.unmappedPin pin .caller) ↔ ¬t.Mapped pin
  /-- A group holds it, and no expander has the number. -/
  expanderMissing : x = .error (.unknownExpander number .caller) ↔
    t.Mapped pin ∧ ∀ e ∈ t.expanders, e.number ≠ number
  bus : ∀ e, x = .error (.bus e) ↔ t.Stuck b ⟨number, pin⟩ level e
  /-- There is no other fault; above all, none that the configuration is to blame for. -/
  only : ∀ f, x = .error f → f = .unmappedPin pin .caller ∨
    f = .unknownExpander number .caller ∨ ∃ e, f = .bus e

namespace Attained

variable {c : Configuration} {t : Rig} {β : Type} [Bus β]

theorem nodup_names (h : Attained c t) : (t.cards.map Card.name).Nodup := by
  obtain ⟨-, b, -, hs, ht⟩ := h.exists_bench
  rw [Rig.names_of_shape ht]
  exact hs.names

theorem cardFaults (h : Attained c t) (l : Link β) (card label : String) (level : Bool) :
    CardFaults t l.bus card label level (writeCard t l card label level).result := by
  have hx : ∀ f : Fault, f.isBus = false → ((writeCard t l card label level).result = .error f ↔
      (PinCall.card card label level).Baseless t f) :=
    fun f hf => h.result_eq_error_iff (q := .card card label level) hf
  have hbus : ∀ e, (writeCard t l card label level).result = .error (.bus e) ↔ _ :=
    fun e => h.result_eq_bus_iff (l := l) (q := .card card label level)
  refine ⟨(hx _ rfl).trans PinCall.baseless_unknownCard_iff,
    (hx _ rfl).trans (PinCall.baseless_unknownPin_iff h.nodup_names),
    fun pin => (hx _ rfl).trans PinCall.baseless_unmappedCardPin_iff, ?_, ?_⟩
  · intro e
    simp only [hbus, PinCall.means_card_iff, exists_exists_and_eq_and, PinCall.level]
  · intro f hf
    by_cases hb : f.isBus = true
    · obtain ⟨e, rfl⟩ := Fault.exists_of_isBus hb
      exact .inr (.inr (.inr ⟨e, rfl⟩))
    · cases (hx f (eq_false_of_ne_true hb)).mp hf with
      | missing hm =>
        cases hm with
        | card => exact .inl rfl
        | label => exact .inr (.inl rfl)
      | unmappedCardPin => exact .inr (.inr (.inl ⟨_, rfl⟩))

theorem expanderFaults (h : Attained c t) (l : Link β) (number pin : UInt8) (level : Bool) :
    ExpanderFaults t l.bus number pin level (writePin t l number pin level).result := by
  have hx : ∀ f : Fault, f.isBus = false → ((writePin t l number pin level).result = .error f ↔
      (PinCall.expander number pin level).Baseless t f) :=
    fun f hf => h.result_eq_error_iff (q := .expander number pin level) hf
  have hbus : ∀ e, (writePin t l number pin level).result = .error (.bus e) ↔ _ :=
    fun e => h.result_eq_bus_iff (l := l) (q := .expander number pin level)
  refine ⟨(hx _ rfl).trans PinCall.baseless_unmapped_iff,
    (hx _ rfl).trans PinCall.baseless_unknownExpander_iff, ?_, ?_⟩
  · intro e
    simp only [hbus, PinCall.means_expander_iff, exists_eq_left, PinCall.level]
  · intro f hf
    by_cases hb : f.isBus = true
    · obtain ⟨e, rfl⟩ := Fault.exists_of_isBus hb
      exact .inr (.inr ⟨e, rfl⟩)
    · cases (hx f (eq_false_of_ne_true hb)).mp hf with
      | unmapped => exact .inl rfl
      | unknownExpander => exact .inr (.inl rfl)

/-- **Every fault of a write has its own condition, and a write that fails leaves the rig and the
bus alone**, unless it is the bus that fails: it has been asked once then. -/
theorem classified (h : Attained c t) (l : Link β) (level : Bool) :
    (∀ card label,
      CardFaults t l.bus card label level (writeCard t l card label level).result) ∧
    (∀ number pin,
      ExpanderFaults t l.bus number pin level (writePin t l number pin level).result) ∧
    ∀ (q : PinCall) (f : Fault), (q.run t l).result = .error f →
      (f.isBus = false → (q.run t l).state = t ∧ (q.run t l).link = l) ∧
      (f.isBus = true → ∃ a, (q.run t l).link.journal.attempts = l.journal.attempts ++ [a] ∧
        a.2.isSome) :=
  ⟨fun card label => h.cardFaults l card label level,
    fun number pin => h.expanderFaults l number pin level,
    fun _ _ hf => PinCall.run_of_error hf⟩

/-- A bench with every fault there is: it is brought up but for a card pin without a group, and its
device is offline then. -/
theorem classified_doubled :
    let b := SimulatedBus.empty.setOffline 0x20 true
    let l := Link.ofBus b
    let t := (RigCall.initialise.run (doubledConfiguration.rig doubledBench)
      (.ofBus SimulatedBus.empty)).1
    Attained doubledConfiguration t ∧
      (writeCard t l "J9" "A" true).result = .error (.unknownCard "J9") ∧
      (writeCard t l "J1" "B" true).result = .error (.unknownPin "J1" "B") ∧
      (writeCard t l "J1" "Z" true).result = .error (.unmappedPin 9 .configuration) ∧
      (∃ e, (writeCard t l "J1" "A" false).result = .error (.bus e)) ∧
      (writePin t l 2 9 true).result = .error (.unmappedPin 9 .caller) ∧
      (writePin t l 2 0 true).result = .error (.unknownExpander 2 .caller) ∧
      (writePin t l 2 0 true).state = t := by
  intro b l t
  have ht : Attained doubledConfiguration t :=
    .call (.bench (b := doubledBench) rfl (by decide)) _ .initialise
  obtain ⟨hcard, hexpander, hall⟩ := classified ht l true
  obtain ⟨hlow, -, -⟩ := classified ht l false
  have hA : t.pin "J1" "A" = .ok ⟨"A", ⟨1, 0⟩, some true⟩ := by decide +kernel
  have hZ : t.pin "J1" "Z" = .ok ⟨"Z", ⟨1, 9⟩, some false⟩ := by decide +kernel
  have h0 : t.Mapped 0 := by
    unfold Rig.Mapped
    decide +kernel
  have h9 : ¬t.Mapped 9 := by
    unfold Rig.Mapped
    decide +kernel
  have hstuck : ∃ e, t.Stuck b ⟨1, 0⟩ false e :=
    ⟨_, ⟨0x20, ⟨0, 0x12, 0⟩, 1⟩, by decide +kernel, by decide, rfl⟩
  obtain ⟨e, he⟩ := hstuck
  have h2 := (hexpander 2 0).expanderMissing.mpr ⟨h0, by decide +kernel⟩
  exact ⟨ht, (hcard "J9" "A").cardMissing.mpr (by decide +kernel),
    (hcard "J1" "B").labelMissing.mpr (by decide +kernel),
    ((hcard "J1" "Z").unmapped 9).mpr ⟨_, hZ, rfl, h9⟩,
    ⟨e, ((hlow "J1" "A").bus e).mpr ⟨_, hA, he⟩⟩,
    (hexpander 2 9).unmapped.mpr h9, h2, ((hall (.expander 2 0 true) _ h2).1 rfl).1⟩

end Attained

end PinBench
