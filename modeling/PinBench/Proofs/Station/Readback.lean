import PinBench.Proofs.Station.Faithful
import PinBench.Proofs.Station.Moves

/-!
# Reading back a write

A write through a card pin looks at the register bit, and a read looks at the card pin.  The two
agree once anything has been done to either.  Where nothing has been done yet, both are as in the
file, and the file may have the card pin at one level and the bit at the other.

* `Rig.Follows`: every card pin has the level of its bit, or both are as in a rig before.
* `Move.follows`: **no move changes that**.
* `Served`: the stations that operations lead to, with whether the bench has been brought up since
  it was entered.
* `Served.settled`: what holds of all of them.
* `Station.Unsettled`: a card pin that is as in the file, where its bit has the other level.
* `Served.readback`: **a write that does not fail is read back, unless it finds its card pin
  unsettled; and on a bench that is up it finds none**.
-/

namespace PinBench

/-! ## As in the file -/

/-- Every card pin with a bit has the level of that bit, or pin and bit are those of `t₀`. -/
def Rig.Follows (t₀ t : Rig) : Prop :=
  ∀ p ∈ t.pins, ∀ level, t.bit? p.wiring = some level →
    p.level? = some level ∨ p ∈ t₀.pins ∧ t₀.bit? p.wiring = some level

theorem Rig.follows_self (t : Rig) : t.Follows t := fun _ hp _ hb => .inr ⟨hp, hb⟩

theorem Rig.Follows.of_pins {t₀ t t' : Rig} {v : Wiring} {level : Bool} (h : t₀.Follows t)
    (hp : t'.pins = (t.setWired v level).pins)
    (hv : ∀ b, t'.bit? v = some b → b = level)
    (hb : ∀ w, w ≠ v → t'.bit? w = t.bit? w) : t₀.Follows t' := by
  intro p hm b hpb
  rw [hp] at hm
  rcases mem_pins_setWired hm with ⟨hw, hl⟩ | ⟨hw, hm⟩
  · rw [hw] at hpb
    exact .inl (hv b hpb ▸ hl)
  · rw [hb p.wiring hw] at hpb
    exact h p hm b hpb

/-- **A card pin and its bit move together.** -/
theorem Move.follows {β : Type} [Bus β] {t₀ t t' : Rig} {l l' : Link β} (ht : t.WellFormed)
    (h : t₀.Follows t) (m : Move t l t' l') : t₀.Follows t' := by
  cases m with
  | note severity text => exact h
  | tell e => exact h
  | direct he hg => exact h
  | level v level hv => exact h.of_pins rfl hv fun _ _ => rfl
  | @settle v s hs level hl =>
    have hb := ht.bit?_settle hs level
    refine h.of_pins rfl ?_ fun w hw => by rw [hb, if_neg hw]
    intro b hvb
    rw [hb, if_pos rfl, Option.some.injEq] at hvb
    exact hvb.symm

/-- A write through a card pin that does not fail is idle, and the bit has the level; or it is
carried out, and the card pin has the level then. -/
theorem readback_writeCard {β : Type} [Bus β] {t : Rig} {l : Link β} {card label : String}
    {level : Bool} {o : Outcome} (hr : (writeCard t l card label level).result = .ok o) :
    (o = .unchanged ∧ (writeCard t l card label level).state = t ∧
        ∃ p, t.pin card label = .ok p ∧ t.bit? p.wiring = some level) ∨
      o ≠ .unchanged ∧ (writeCard t l card label level).state.level card label = .ok level := by
  have h := PinCall.run_ending t l (.card card label level)
  change PinCall.Ending _ t l (writeCard t l card label level) at h
  generalize writeCard t l card label level = r at h hr ⊢
  cases h with
  | refused h => cases hr
  | @idle w s h hl severity text =>
    obtain ⟨p, hp, rfl⟩ := PinCall.pin_of_site h
    refine .inl ⟨(Except.ok.inj hr).symm, rfl, p, hp, ?_⟩
    rw [Rig.bit?, PinCall.site?_of_site h, Option.map_some, hl]
    rfl
  | @moved w s h hl severity text =>
    obtain ⟨p, hp, rfl⟩ := PinCall.pin_of_site h
    refine .inr ⟨?_, ?_⟩
    · rintro rfl
      dsimp only at hr
      cases ho : Link.outcome l.bus (s.write (PinCall.card card label level).level) <;>
        rw [ho] at hr <;> cases hr
    · have hq := Rig.pin_setPin hp level
      show Except.map CardPin.level ((t.setPin card label level).pin card label) = _
      rw [hq]
      rfl

/-! ## Runs -/

/-- Whether the bench is up after an operation. -/
def Operation.up (s : Station) (op : Operation) (before : Bool) : Except Fault Value → Bool
  | .ok _ => op.bringsUp || before
  | .error _ => (op.target? s).isNone && before

/-- An operation after which the bench is up has brought it up, or found it up and stayed there. -/
theorem Operation.bringsUp_of_up {s : Station} {op : Operation} {before : Bool}
    {x : Except Fault Value} (h : op.up s before x = true)
    (hk : ¬((op.target? s).isNone && before) = true) : ∃ v, x = .ok v ∧ op.bringsUp = true := by
  cases x with
  | error f => exact absurd h hk
  | ok v =>
    refine ⟨v, rfl, ?_⟩
    cases hop : op.bringsUp with
    | true => rfl
    | false =>
      have hn : op.target? s = none := by
        cases op with
        | switchBench name => cases hop
        | _ => rfl
      rw [up, hop, Bool.false_or] at h
      rw [hn, h] at hk
      exact absurd rfl hk

/-- The stations of a configuration after any operations, as in `Reachable`; the flag tells whether
one that brings up the bench has ended well since the bench was entered. -/
inductive Served (c : Configuration) : Station → Bool → Prop where
  | new {name? : Option String} {s : Station} (h : Station.ofConfiguration c name? = .ok s) :
      Served c s false
  | perform {s : Station} {up : Bool} (h : Served c s up) {β : Type} [Bus β] (l : Link β)
      (now : Nat) (op : Operation) :
      Served c (s.perform now l op).state (op.up s up (s.perform now l op).result)

namespace Station

/-- The rig that the file has for the bench. -/
def file (s : Station) : Rig := s.configuration.rig s.bench

/-- A card pin that is as in the file, and its bit as well, at another level. -/
def Unsettled (s : Station) (card label : String) : Prop :=
  ∃ p level, s.rig.pin card label = .ok p ∧ p ∈ s.file.pins ∧
    s.rig.bit? p.wiring = some level ∧ s.file.bit? p.wiring = some level ∧ p.level ≠ level

/-- What holds of a station whatever has been done. -/
structure Settled (c : Configuration) (s : Station) (up : Bool) : Prop where
  faithful : s.Faithful c
  wellFormed : s.rig.WellFormed
  follows : s.file.Follows s.rig
  levelled : up = true → ∀ card label p, s.rig.pin card label = .ok p → s.rig.Levelled p.wiring

section Settled

variable {c : Configuration} (hu : c.check = .ok ())
  (hc : (c.hardware.groups.map PinGroup.register).Nodup)
include hu hc

theorem settled_enter {b : Bench} (hb : b ∈ c.benches) : (enter c b).Settled c false :=
  ⟨faithful_enter hb, Configuration.wellFormed_rig hu hc hb, Rig.follows_self _,
    fun h => (by cases h)⟩

/-- The station that an operation starts from is settled too; a switch starts on a bench that is
not up. -/
theorem Settled.ground {s : Station} {up : Bool} (h : s.Settled c up) (op : Operation) :
    (op.ground s).Settled c ((op.target? s).isNone && up) := by
  cases ht : op.target? s with
  | none =>
    rw [ground_of_no_target ht]
    exact h
  | some b =>
    have hb := Operation.mem_of_target ht
    rw [ground_of_target ht]
    rw [h.faithful.configuration] at hb ⊢
    exact settled_enter hu hc hb

section Perform

variable {s : Station} {up : Bool} (h : s.Settled c up) {β : Type} [Bus β] (l : Link β) (now : Nat)
  (op : Operation)
include h

theorem Settled.moves_perform :
    Moves (op.ground s).rig l (s.perform now l op).state.rig (s.perform now l op).link := by
  have hw := (h.ground hu hc op).wellFormed
  rw [rig_ground] at hw ⊢
  exact Station.moves_perform hw now l

/-- Levels that agree stay so, and a bring-up that ends well makes them agree. -/
theorem Settled.levelled_perform (hup : op.up s up (s.perform now l op).result = true)
    {card label : String} {p : CardPin} (hp : (op.ground s).rig.pin card label = .ok p) :
    (s.perform now l op).state.rig.Levelled p.wiring := by
  have hg := h.ground hu hc op
  by_cases hk : ((op.target? s).isNone && up) = true
  · exact (h.moves_perform hu hc l now op).keep (P := fun t _ => t.Levelled p.wiring)
      (fun ht hl m => m.levelled ht hl) hg.wellFormed (hg.levelled hk card label p hp)
  · obtain ⟨v, hres, hop⟩ := Operation.bringsUp_of_up hup hk
    have hw := hg.wellFormed
    rw [rig_ground] at hw hp
    exact levelled_perform_of_pin hw hop hres hp

/-- **Every operation leaves a settled station settled.** -/
theorem Settled.perform :
    (s.perform now l op).state.Settled c (op.up s up (s.perform now l op).result) := by
  have hg := h.ground hu hc op
  have hs := s.stays_perform now l op
  have hm := h.moves_perform hu hc l now op
  have hf : (s.perform now l op).state.file = (op.ground s).file := by
    rw [file, hs.configuration, hs.bench, file]
  refine ⟨h.faithful.perform now l op, hg.wellFormed.of_shape hm.shape, ?_, ?_⟩
  · rw [hf]
    exact hm.keep (P := fun t _ => (op.ground s).file.Follows t)
      (fun ht h m => m.follows ht h) hg.wellFormed hg.follows
  · intro hup card label p hp
    obtain ⟨q, hq, hqp⟩ := Rig.pin_of_shape hm.shape.symm hp
    rw [← hqp]
    exact h.levelled_perform hu hc l now op hup hq

end Perform

end Settled

section Pin

variable {c : Configuration} {s : Station} {up : Bool} (h : s.Settled c up) {card label : String}
  {p : CardPin} {level : Bool} (hp : s.rig.pin card label = .ok p)
  (hb : s.rig.bit? p.wiring = some level)
include h hp hb

/-- A card pin reads as its bit unless it is unsettled. -/
theorem Settled.level_eq_iff : p.level = level ↔ ¬s.Unsettled card label := by
  constructor
  · rintro hl ⟨q, level', hq, -, hb', -, hne⟩
    obtain rfl := Except.ok.inj (hp.symm.trans hq)
    exact hne (hl.trans (Option.some.inj (hb.symm.trans hb')))
  · intro hn
    by_contra hne
    rcases h.follows p (Rig.mem_pins_of_pin hp) level hb with hl | ⟨hm, hb'⟩
    · exact hne (by rw [CardPin.level, hl, Option.getD_some])
    · exact hn ⟨p, level, hp, hm, hb, hb', hne⟩

/-- On a bench that is up every card pin reads as its bit. -/
theorem Settled.level_of_up (hup : up = true) : p.level = level := by
  obtain ⟨level', hb', hl⟩ := h.levelled hup card label p hp
  rw [CardPin.level, hl p (Rig.mem_pins_of_pin hp) rfl, Option.getD_some]
  exact Option.some.inj (hb'.symm.trans hb)

end Pin

end Station

namespace Served

open Station

variable {c : Configuration} {s : Station} {up : Bool}

theorem check (h : Served c s up) : c.check = .ok () := by
  induction h with
  | new h => exact (entered h).1
  | perform h l now op ih => exact ih

/-- **After any operations a station is settled**, if no two groups share a register. -/
theorem settled (hc : (c.hardware.groups.map PinGroup.register).Nodup) (h : Served c s up) :
    s.Settled c up := by
  induction h with
  | new h =>
    obtain ⟨hu, b, hb, rfl⟩ := entered h
    exact settled_enter hu hc hb
  | perform h l now op ih => exact ih.perform h.check hc l now op

/-! ## Reading back -/

/-- **A write that does not fail is read back, unless it is idle on a card pin that is unsettled;
and no card pin is if the bench is up.** -/
theorem readback (hc : (c.hardware.groups.map PinGroup.register).Nodup) (h : Served c s up)
    {β : Type} [Bus β] (l : Link β) {card label : String} {level : Bool} {o : Outcome}
    (hr : (s.writeCard card label level l).result = .ok o) :
    ∃ read, (s.writeCard card label level l).state.rig.level card label = .ok read ∧
      (read = level ↔ ¬(o = .unchanged ∧ s.Unsettled card label)) ∧
      (up = true → read = level) := by
  have hs := h.settled hc
  have hres : (s.writeCard card label level l).result =
      (writeCard s.rig l card label level).result := s.result_write l (.card card label level)
  have hrig : (s.writeCard card label level l).state.rig =
      (writeCard s.rig l card label level).state := s.rig_write l (.card card label level)
  rw [hrig]
  rcases readback_writeCard (hres.symm.trans hr) with ⟨rfl, hst, p, hp, hb⟩ | ⟨ho, hread⟩
  · -- the bit had the level already, and the card pin is as before
    have hread : (writeCard s.rig l card label level).state.level card label = .ok p.level := by
      rw [hst, Rig.level, hp]
      rfl
    refine ⟨p.level, hread, ?_, hs.level_of_up hp hb⟩
    rw [and_iff_right rfl]
    exact hs.level_eq_iff hp hb
  · exact ⟨level, hread, iff_of_true rfl fun hn => ho hn.1, fun _ => rfl⟩

/-- A bench with one card pin, which is high in the file; its bit is low there. -/
def raisedBench : Bench := ⟨"a", [⟨"J1", [⟨"A", ⟨1, 0⟩, some true⟩]⟩], [], [], []⟩

def raised : Configuration :=
  ⟨"a", ⟨false, [⟨1, 0x20, .single⟩], [⟨[0], 0, 0x12, 0x00, 0⟩]⟩, [raisedBench]⟩

/-- The bench has been started, and bringing it up again has failed on the bus. -/
theorem readback_raised :
    let l := Link.ofBus SimulatedBus.empty
    let off := Link.ofBus (SimulatedBus.empty.setOffline 0x20 true)
    let s := ((enter raised raisedBench).perform 0 l .start).state
    let s' := (s.perform 0 off .update).state
    Served raised s' true ∧
      (s.perform 0 off .update).result =
        .error (.bus ⟨0x20, 0x00, "device offline (simulated)"⟩) ∧
      (s'.writeCard "J1" "A" false l).result = .ok (.written ⟨0x20, 0x12, 0⟩) ∧
      (s'.writeCard "J1" "A" false l).state.rig.level "J1" "A" = .ok false := by
  intro l off s s'
  have h₀ : ofConfiguration raised none = .ok (enter raised raisedBench) := rfl
  have h : Served raised s' true := ((Served.new h₀).perform l 0 .start).perform off 0 .update
  have hr : (s'.writeCard "J1" "A" false l).result = .ok (.written ⟨0x20, 0x12, 0⟩) := rfl
  obtain ⟨read, hread, -, hup⟩ := readback (by decide) h l hr
  exact ⟨h, rfl, hr, hread.trans (congrArg Except.ok (hup rfl))⟩

/-- The bench has been started, and a switch to it has failed on the bus: the card pin is high, as
in the file, and a write that makes it low finds its bit low already. -/
theorem raised_unread :
    let l := Link.ofBus SimulatedBus.empty
    let off := Link.ofBus (SimulatedBus.empty.setOffline 0x20 true)
    let s₀ := enter raised raisedBench
    let s := (s₀.perform 0 l .start).state
    let s' := (s.perform 0 off (.switchBench "a")).state
    ofConfiguration raised none = .ok s₀ ∧
      (raised.hardware.groups.map PinGroup.register).Nodup ∧
      (s₀.perform 0 l .start).result = .ok .done ∧
      (s'.writeCard "J1" "A" false l).result = .ok .unchanged ∧
      (s'.writeCard "J1" "A" false l).state.rig.level "J1" "A" = .ok true :=
  ⟨rfl, by decide, rfl, rfl, rfl⟩

end Served

end PinBench
