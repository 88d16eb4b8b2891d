import PinBench.Proofs.Bus.Simulated
import PinBench.Proofs.Move

/-!
# Registers in step with their devices

A register byte is kept here and on its device.  The two part when a write is lost, and when the
registers start over from the file; the next write that gets through brings them together again.

* `Mark`: what happens to registers: an attempt to write one, or a start from the file.
* `Mark.inStep`: the last thing that happened to a register is a write that got through, or nothing
  happened to it at all.
* `Rig.Separate`: no two registers of the rig share an address on the bus.
* `Rig.Agrees`: every register in step has the byte of its device.
* `Move.agrees`: **every move keeps that**.
-/

namespace PinBench

/-! ## Marks -/

inductive Mark where
  | attempt (w : RegisterWrite) (failure? : Option String)
  /-- All registers start over from the file. -/
  | restart
  deriving DecidableEq

namespace Mark

/-- Whether a register is in step with its device after some marks, the newest first. -/
def inStep (address register : UInt8) : List Mark → Bool
  | [] => true
  | restart :: _ => false
  | attempt w failure? :: ms =>
    if w.address = address ∧ w.register = register then failure?.isNone
    else inStep address register ms

/-- The attempts of a journal, the newest first. -/
def ofJournal (j : Journal) : List Mark := j.attempts.reverse.map fun a => attempt a.1 a.2

section

variable {β : Type}

theorem ofJournal_note (l : Link β) (severity : Severity) (text : String) :
    ofJournal (l.note severity text).journal = ofJournal l.journal := by
  rw [ofJournal, Link.attempts_note, ofJournal]

theorem ofJournal_tell (l : Link β) (e : Event) :
    ofJournal (l.tell e).journal = ofJournal l.journal := by
  rw [ofJournal, Link.attempts_tell, ofJournal]

theorem ofJournal_write [Bus β] (l : Link β) (w : RegisterWrite) :
    ofJournal (l.write w).2.journal =
      attempt w (Bus.write l.bus w).failure? :: ofJournal l.journal := by
  rw [ofJournal, Link.attempts_write, List.reverse_concat, List.map_cons, ofJournal]

/-- A register that was touched with no write lost is in step. -/
theorem inStep_of_smooth {l : Link β} (hs : l.Smooth) {address register : UInt8}
    (ht : ¬l.Untouched address register) (past : List Mark) :
    inStep address register (ofJournal l.journal ++ past) = true := by
  have h : ∀ as : List (RegisterWrite × Option String), (∀ a ∈ as, a.2 = none) →
      (∃ a ∈ as, a.1.address = address ∧ a.1.register = register) →
      inStep address register (as.map (fun a => attempt a.1 a.2) ++ past) = true := by
    intro as
    induction as with
    | nil =>
      rintro - ⟨a, ha, -⟩
      cases ha
    | cons a as ih =>
      intro hn ht
      rw [List.map_cons, List.cons_append, inStep]
      by_cases ha : a.1.address = address ∧ a.1.register = register
      · rw [if_pos ha, hn a List.mem_cons_self]
        rfl
      · obtain ⟨b, hb, hbt⟩ := ht
        rw [if_neg ha]
        refine ih (fun c hc => hn c (List.mem_cons_of_mem a hc)) ⟨b, ?_, hbt⟩
        exact (List.mem_cons.mp hb).resolve_left fun hba => ha (hba ▸ hbt)
  unfold Link.Untouched at ht
  push Not at ht
  obtain ⟨a, ha, hat⟩ := ht
  exact h _ (fun b hb => hs b (List.mem_reverse.mp hb)) ⟨a, List.mem_reverse.mpr ha, hat⟩

end

end Mark

/-! ## Separate registers -/

/-- No two expanders share an address and no two registers of a group an address there, and the card
pins of a card are told apart by their names. -/
structure Rig.Separate (t : Rig) : Prop where
  addresses : (t.expanders.map Expander.address).Nodup
  registers : (t.groups.flatMap fun g => [g.dataAddress, g.directionAddress]).Nodup
  labels : ∀ c ∈ t.cards, (c.pins.map CardPin.label).Nodup

namespace Rig

theorem separate_shape {t : Rig} : t.shape.Separate ↔ t.Separate := by
  have ha : t.shape.expanders.map Expander.address = t.expanders.map Expander.address :=
    List.map_map
  have hl : (∀ c ∈ t.shape.cards, (c.pins.map CardPin.label).Nodup) ↔
      ∀ c ∈ t.cards, (c.pins.map CardPin.label).Nodup := by
    have hc : ∀ c : Card, c.shape.pins.map CardPin.label = c.pins.map CardPin.label :=
      fun c => List.map_map
    show (∀ c ∈ t.cards.map Card.shape, _) ↔ _
    rw [List.forall_mem_map]
    exact forall₂_congr fun c _ => by rw [hc]
  constructor
  · intro h
    exact ⟨ha ▸ h.addresses, h.registers, hl.mp h.labels⟩
  · intro h
    exact ⟨ha ▸ h.addresses, h.registers, hl.mpr h.labels⟩

namespace Separate

variable {t : Rig}

theorem of_shape (h : t.Separate) {t' : Rig} (hs : t'.shape = t.shape) : t'.Separate := by
  rw [← separate_shape, hs, separate_shape]
  exact h

theorem group_inj (h : t.Separate) {g g' : PinGroup} (hg : g ∈ t.groups) (hg' : g' ∈ t.groups)
    (hd : g.dataAddress = g'.dataAddress) : g = g' :=
  eq_of_mem_flatMap h.registers hg hg' List.mem_cons_self (hd ▸ List.mem_cons_self)

theorem direction_ne_data (h : t.Separate) {g g' : PinGroup} (hg : g ∈ t.groups)
    (hg' : g' ∈ t.groups) : g.directionAddress ≠ g'.dataAddress := by
  intro hd
  obtain rfl := eq_of_mem_flatMap h.registers hg hg'
    (List.mem_cons_of_mem _ List.mem_cons_self) (hd ▸ List.mem_cons_self)
  have hn := (List.nodup_flatMap.mp h.registers).1 g hg
  exact (List.nodup_cons.mp hn).1 (hd ▸ List.mem_cons_self)

end Separate

/-! ## Agreement -/

/-- Every register that is in step after `past` has the byte that its device has. -/
def Agrees (t : Rig) (b : SimulatedBus) (past : List Mark) : Prop :=
  ∀ e ∈ t.expanders, ∀ g ∈ t.groups, ∀ r, e.registers.get? g.register.toNat = some r →
    Mark.inStep e.address g.dataAddress past = true → b.byte e.address g.dataAddress = r

/-- An expander of a rig in which a register was written. -/
theorem WellFormed.mem_expanders_settle {t : Rig} (h : t.WellFormed) {w : Wiring} {s : Site}
    {level : Bool} {e : Expander} (he : t.expander w.expander .caller = .ok e) {d : Expander}
    (hd : d ∈ (t.settle w s level).expanders) :
    d = { e with registers := e.registers.set s.place.register (s.write level).value } ∨
      d ∈ t.expanders ∧ d ≠ e := by
  have hx := updateFirst_eq_map (p := fun e : Expander => e.number == w.expander)
    (f := fun e => { e with registers := e.registers.set s.place.register (s.write level).value })
    Expander.number h.numbers (expander_ok_iff.mp he)
  change d ∈ updateFirst _ _ t.expanders at hd
  rw [hx] at hd
  obtain ⟨e', he', rfl⟩ := List.mem_map.mp hd
  have hem := List.mem_of_find?_eq_some (expander_ok_iff.mp he)
  by_cases hn : e'.number = e.number
  · obtain rfl := List.inj_on_of_nodup_map h.numbers he' hem hn
    rw [if_pos rfl]
    exact .inl rfl
  · rw [if_neg hn]
    exact .inr ⟨he', fun hee => hn (congrArg Expander.number hee)⟩

end Rig

/-- A write to another register changes neither that a register is in step nor its byte. -/
theorem Link.inStep_write_of_ne {l : Link SimulatedBus} {w : RegisterWrite}
    {address register : UInt8} (h : ¬(w.address = address ∧ w.register = register))
    (past : List Mark) :
    Mark.inStep address register (Mark.ofJournal (l.write w).2.journal ++ past) =
        Mark.inStep address register (Mark.ofJournal l.journal ++ past) ∧
      (l.write w).2.bus.byte address register = l.bus.byte address register := by
  constructor
  · rw [Mark.ofJournal_write, List.cons_append, Mark.inStep, if_neg h]
  · rw [Link.bus_write, SimulatedBus.byte_write, if_neg fun hc => h hc.1]

/-- A direction write touches no register that drives pins. -/
theorem Rig.Agrees.direct {t : Rig} (hs : t.Separate) {l : Link SimulatedBus} {past : List Mark}
    (h : t.Agrees l.bus (Mark.ofJournal l.journal ++ past)) (e : Expander) {g : PinGroup}
    (hg : g ∈ t.groups) :
    t.Agrees (l.write (g.directionWrite e)).2.bus
      (Mark.ofJournal (l.write (g.directionWrite e)).2.journal ++ past) := by
  intro d hd k hk r hr hin
  have hne : ¬((g.directionWrite e).address = d.address ∧
      (g.directionWrite e).register = k.dataAddress) :=
    fun hc => hs.direction_ne_data hg hk hc.2
  obtain ⟨hi, hb⟩ := Link.inStep_write_of_ne (l := l) hne past
  rw [hi] at hin
  rw [hb]
  exact h d hd k hk r hr hin

/-- A bit that takes a level touches its own register, which is in step then unless the write is
lost. -/
theorem Rig.Agrees.settle {t : Rig} (ht : t.WellFormed) (hs : t.Separate) {l : Link SimulatedBus}
    {past : List Mark} (h : t.Agrees l.bus (Mark.ofJournal l.journal ++ past)) {w : Wiring}
    {s : Site} (hsite : t.site? w = some s) (level : Bool) :
    (t.settle w s level).Agrees (l.write (s.write level)).2.bus
      (Mark.ofJournal (l.write (s.write level)).2.journal ++ past) := by
  obtain ⟨e, he, hp, hreg, ha⟩ := (Rig.site?_eq_some_iff .caller .caller).mp hsite
  have hem := List.mem_of_find?_eq_some (Rig.expander_ok_iff.mp he)
  obtain ⟨g, hg, -, hgr, hgd⟩ := ht.group_of_locate hp
  intro d hd k hk r hr hin
  -- the register that is written is that of `e` and `g`
  by_cases hwr : (s.write level).address = d.address ∧ (s.write level).register = k.dataAddress
  · obtain rfl := hs.group_inj hg hk (hgd.symm.trans hwr.2)
    rcases ht.mem_expanders_settle he hd with rfl | ⟨hdm, hde⟩
    · rw [← hgr] at hr
      have hv := Option.some.inj ((RegisterBank.get?_set_self hreg _).symm.trans hr)
      rw [Mark.ofJournal_write, List.cons_append, Mark.inStep, if_pos hwr,
        Option.isNone_iff_eq_none] at hin
      rw [Link.bus_write, SimulatedBus.byte_write, if_pos ⟨hwr, hin⟩, hv]
    · exact absurd (List.inj_on_of_nodup_map hs.addresses hdm hem (hwr.1.symm.trans ha)) hde
  · obtain ⟨hi, hb⟩ := Link.inStep_write_of_ne (l := l) hwr past
    rw [hi] at hin
    rw [hb]
    rcases ht.mem_expanders_settle he hd with rfl | ⟨hdm, -⟩
    · have hne : s.place.register ≠ k.register.toNat := by
        intro hc
        have hgk : g.register = k.register := UInt64.toNat_inj.mp (hgr.symm.trans hc)
        obtain rfl := List.inj_on_of_nodup_map ht.registers hg hk hgk
        exact hwr ⟨ha, hgd⟩
      rw [RegisterBank.get?_set_of_ne _ hne] at hr
      exact h e hem k hk r hr hin
    · exact h d hdm k hk r hr hin

theorem Move.agrees {t t' : Rig} {l l' : Link SimulatedBus} (ht : t.WellFormed) (hs : t.Separate)
    {past : List Mark} (h : t.Agrees l.bus (Mark.ofJournal l.journal ++ past))
    (m : Move t l t' l') : t'.Agrees l'.bus (Mark.ofJournal l'.journal ++ past) := by
  cases m with
  | note severity text =>
    rw [Mark.ofJournal_note]
    exact h
  | tell e =>
    rw [Mark.ofJournal_tell]
    exact h
  | @direct e he g hg => exact h.direct hs e hg
  | level w level hl => exact h
  | settle hsite level hl => exact h.settle ht hs hsite level

/-- **Moves keep every register in step at the byte of its device.** -/
theorem Moves.agrees {t t' : Rig} {l l' : Link SimulatedBus} (ht : t.WellFormed) (hs : t.Separate)
    {past : List Mark} (h : t.Agrees l.bus (Mark.ofJournal l.journal ++ past))
    (hm : Moves t l t' l') : t'.Agrees l'.bus (Mark.ofJournal l'.journal ++ past) := by
  induction hm with
  | refl => exact h
  | tail prior m ih => exact m.agrees (ht.of_shape prior.shape) (hs.of_shape prior.shape) (ih h)

/-- Moves that leave a register untouched leave its device the byte. -/
theorem Moves.byte_of_untouched {t t' : Rig} {l l' : Link SimulatedBus} (hm : Moves t l t' l')
    {address register : UInt8} (hu : l'.Untouched address register) :
    l'.bus.byte address register = l.bus.byte address register := by
  induction hm with
  | refl => rfl
  | tail prior m ih =>
    cases m with
    | note severity text =>
      unfold Link.Untouched at hu
      rw [Link.attempts_note] at hu
      exact ih hu
    | tell e =>
      unfold Link.Untouched at hu
      rw [Link.attempts_tell] at hu
      exact ih hu
    | level w level h => exact ih hu
    | direct he hg =>
      obtain ⟨hu₁, hb⟩ := Link.byte_of_untouched_write hu
      exact hb.trans (ih hu₁)
    | settle h level hl =>
      obtain ⟨hu₁, hb⟩ := Link.byte_of_untouched_write hu
      exact hb.trans (ih hu₁)

end PinBench
