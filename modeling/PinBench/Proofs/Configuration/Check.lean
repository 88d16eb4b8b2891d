import PinBench.Configuration.Check
import PinBench.Proofs.Rig.WellFormed

/-!
# Configurations that pass their check

The check goes through a configuration in the order of the file and keeps what it has seen so far.
What it lets through can be said without an order.

* `Fresh`: a list without repetitions, and without anything seen before.
* `Hardware.Sound`, `Bench.Sound`: hardware and benches with nothing wrong.
* `Hardware.problem?_eq_none`, `Bench.problem?_eq_none`, `Configuration.check_eq_ok`: **the check
  finds no problem if there is none, and only then**.
* `Configuration.wellFormed_rig`: the rig of every bench is well-formed then, if no two groups share
  a register.
-/

namespace PinBench

/-! ## Repetitions -/

/-- A list without repetitions and without anything from `seen`. -/
def Fresh {α : Type} (seen l : List α) : Prop := l.Nodup ∧ ∀ a ∈ l, a ∉ seen

section Fresh

variable {α : Type} {seen : List α}

theorem fresh_nil_left {l : List α} : Fresh [] l ↔ l.Nodup :=
  and_iff_left fun _ _ => List.not_mem_nil

theorem fresh_nil : Fresh seen [] := ⟨List.nodup_nil, fun _ h => (List.not_mem_nil h).elim⟩

theorem fresh_append {l m : List α} :
    Fresh seen (l ++ m) ↔ Fresh seen l ∧ Fresh (l ++ seen) m := by
  unfold Fresh
  rw [List.nodup_append]
  constructor
  · rintro ⟨⟨hl, hm, hd⟩, hs⟩
    refine ⟨⟨hl, fun a ha => hs a (List.mem_append_left m ha)⟩, hm, ?_⟩
    intro a ha hin
    rcases List.mem_append.mp hin with hal | hin
    · exact hd a hal a ha rfl
    · exact hs a (List.mem_append_right l ha) hin
  · rintro ⟨⟨hl, hls⟩, hm, hms⟩
    refine ⟨⟨hl, hm, fun a ha b hb hab => ?_⟩, fun a ha => ?_⟩
    · exact hms b hb (List.mem_append_left seen (hab ▸ ha))
    · rcases List.mem_append.mp ha with ha | ha
      · exact hls a ha
      · exact fun hin => hms a ha (List.mem_append_right l hin)

theorem fresh_cons {a : α} {l : List α} :
    Fresh seen (a :: l) ↔ a ∉ seen ∧ Fresh (a :: seen) l := by
  have h : Fresh seen ([a] ++ l) ↔ Fresh seen [a] ∧ Fresh ([a] ++ seen) l := fresh_append
  have ha : Fresh seen [a] ↔ a ∉ seen := by
    unfold Fresh
    rw [List.forall_mem_singleton]
    exact and_iff_right (List.nodup_singleton a)
  rw [ha] at h
  exact h

theorem firstRepeat?_eq_none [DecidableEq α] {l : List α} :
    firstRepeat? seen l = none ↔ Fresh seen l := by
  induction l generalizing seen with
  | nil => exact iff_of_true rfl fresh_nil
  | cons a as ih =>
    rw [firstRepeat?, fresh_cons, ← ih]
    by_cases ha : a ∈ seen
    · rw [if_pos ha]
      exact iff_of_false (Option.some_ne_none a) fun h => h.1 ha
    · rw [if_neg ha]
      exact (and_iff_right ha).symm

end Fresh

/-! ## Hardware -/

/-- Hardware with nothing wrong. -/
structure Hardware.Sound (h : Hardware) : Prop where
  numbers : (h.expanders.map Expander.number).Nodup
  sizes : ∀ g ∈ h.groups, g.pins.length ≤ 8
  pinNumbers : (h.groups.flatMap PinGroup.pins).Nodup
  present : ∀ g ∈ h.groups, ∀ e ∈ h.expanders, g.register.toNat < e.registers.bytes.length

namespace Hardware

variable {h : Hardware}

theorem lacking?_eq_none {register : UInt64} :
    h.lacking? register = none ↔ ∀ e ∈ h.expanders, register.toNat < e.registers.bytes.length := by
  unfold lacking?
  rw [List.find?_eq_none]
  refine forall₂_congr fun e _ => ?_
  rw [RegisterBank.get?, Option.isNone_iff_eq_none, List.getElem?_eq_none_iff, Nat.not_le]

theorem groupsProblem?_eq_none {seen : List UInt8} {gs : List PinGroup} :
    h.groupsProblem? seen gs = none ↔ (∀ g ∈ gs, g.pins.length ≤ 8) ∧
      Fresh seen (gs.flatMap PinGroup.pins) ∧
      ∀ g ∈ gs, ∀ e ∈ h.expanders, g.register.toNat < e.registers.bytes.length := by
  induction gs generalizing seen with
  | nil => exact iff_of_true rfl ⟨by simp, fresh_nil, by simp⟩
  | cons g gs ih =>
    rw [groupsProblem?, List.flatMap_cons, fresh_append, List.forall_mem_cons,
      List.forall_mem_cons]
    by_cases hs : 8 < g.pins.length
    · rw [if_pos hs]
      exact iff_of_false (Option.some_ne_none _) fun hg => absurd hg.1.1 (by omega)
    · rw [if_neg hs]
      cases hr : firstRepeat? seen g.pins with
      | some pin =>
        refine iff_of_false (Option.some_ne_none _) ?_
        intro hg
        rw [firstRepeat?_eq_none.mpr hg.2.1.1] at hr
        cases hr
      | none =>
        cases hk : h.lacking? g.register with
        | some e =>
          refine iff_of_false (Option.some_ne_none _) ?_
          intro hg
          rw [lacking?_eq_none.mpr hg.2.2.1] at hk
          cases hk
        | none =>
          show h.groupsProblem? (g.pins ++ seen) gs = none ↔ _
          rw [ih]
          have hf := firstRepeat?_eq_none.mp hr
          have hl := lacking?_eq_none.mp hk
          constructor
          · rintro ⟨hsz, hp, hpr⟩
            exact ⟨⟨by omega, hsz⟩, ⟨hf, hp⟩, hl, hpr⟩
          · rintro ⟨⟨-, hsz⟩, ⟨-, hp⟩, -, hpr⟩
            exact ⟨hsz, hp, hpr⟩

/-- **Hardware has no problem if it is sound, and only then.** -/
theorem problem?_eq_none : h.problem? = none ↔ h.Sound := by
  unfold problem?
  cases hn : firstRepeat? [] (h.expanders.map (·.number)) with
  | some number =>
    refine iff_of_false (Option.some_ne_none _) ?_
    intro hs
    rw [firstRepeat?_eq_none.mpr (fresh_nil_left.mpr hs.numbers)] at hn
    cases hn
  | none =>
    have hn := fresh_nil_left.mp (firstRepeat?_eq_none.mp hn)
    show h.groupsProblem? [] h.groups = none ↔ _
    rw [groupsProblem?_eq_none, fresh_nil_left]
    constructor
    · rintro ⟨hs, hp, hr⟩
      exact ⟨hn, hs, hp, hr⟩
    · intro hs
      exact ⟨hs.sizes, hs.pinNumbers, hs.present⟩

end Hardware

/-! ## Benches -/

/-- A bench with nothing wrong. -/
structure Bench.Sound (h : Hardware) (b : Bench) : Prop where
  names : (b.cards.map Card.name).Nodup
  expanders : ∀ c ∈ b.cards, ∀ p ∈ c.pins, ∃ e ∈ h.expanders, e.number = p.wiring.expander
  wirings : (b.cards.flatMap fun c => c.pins.map CardPin.wiring).Nodup
  commands : (b.commands.map Command.shortName).Nodup
  hosts : ∀ d ∈ b.devices, isVoid d.host = false

namespace Bench

variable {h : Hardware}

theorem pinsProblem?_eq_none {card : String} {wired : List Wiring} {ps : List CardPin} :
    pinsProblem? h card wired ps = none ↔
      (∀ p ∈ ps, ∃ e ∈ h.expanders, e.number = p.wiring.expander) ∧
      Fresh wired (ps.map CardPin.wiring) := by
  induction ps generalizing wired with
  | nil => exact iff_of_true rfl ⟨by simp, fresh_nil⟩
  | cons p ps ih =>
    have he : h.expanders.any (·.number == p.wiring.expander) = true ↔
        ∃ e ∈ h.expanders, e.number = p.wiring.expander := by
      simp
    rw [pinsProblem?, List.map_cons, fresh_cons, List.forall_mem_cons, ← he]
    by_cases hx : h.expanders.any (·.number == p.wiring.expander) = true
    · by_cases hw : p.wiring ∈ wired
      · rw [if_pos hx, if_pos hw]
        exact iff_of_false (Option.some_ne_none _) fun hp => hp.2.1 hw
      · rw [if_pos hx, if_neg hw, ih]
        constructor
        · rintro ⟨hp, hf⟩
          exact ⟨⟨hx, hp⟩, hw, hf⟩
        · rintro ⟨⟨-, hp⟩, -, hf⟩
          exact ⟨hp, hf⟩
    · rw [if_neg hx]
      exact iff_of_false (Option.some_ne_none _) fun hp => hx hp.1.1

theorem cardsProblem?_eq_none {names : List String} {wired : List Wiring} {cs : List Card} :
    cardsProblem? h names wired cs = none ↔ Fresh names (cs.map Card.name) ∧
      (∀ c ∈ cs, ∀ p ∈ c.pins, ∃ e ∈ h.expanders, e.number = p.wiring.expander) ∧
      Fresh wired (cs.flatMap fun c => c.pins.map CardPin.wiring) := by
  induction cs generalizing names wired with
  | nil => exact iff_of_true rfl ⟨fresh_nil, by simp, fresh_nil⟩
  | cons c cs ih =>
    rw [cardsProblem?, List.map_cons, fresh_cons, List.forall_mem_cons, List.flatMap_cons,
      fresh_append]
    by_cases hn : c.name ∈ names
    · rw [if_pos hn]
      exact iff_of_false (Option.some_ne_none _) fun hc => hc.1.1 hn
    · rw [if_neg hn]
      cases hp : pinsProblem? h c.name wired c.pins with
      | some p =>
        refine iff_of_false (Option.some_ne_none _) ?_
        intro hc
        rw [pinsProblem?_eq_none.mpr ⟨hc.2.1.1, hc.2.2.1⟩] at hp
        cases hp
      | none =>
        obtain ⟨he, hf⟩ := pinsProblem?_eq_none.mp hp
        show cardsProblem? h (c.name :: names) (c.pins.map (·.wiring) ++ wired) cs = none ↔ _
        rw [ih]
        constructor
        · rintro ⟨hns, hes, hfs⟩
          exact ⟨⟨hn, hns⟩, ⟨he, hes⟩, hf, hfs⟩
        · rintro ⟨⟨-, hns⟩, ⟨-, hes⟩, -, hfs⟩
          exact ⟨hns, hes, hfs⟩

/-- **A bench has no problem if it is sound, and only then.** -/
theorem problem?_eq_none {b : Bench} : b.problem? h = none ↔ b.Sound h := by
  unfold problem?
  cases hc : cardsProblem? h [] [] b.cards with
  | some p =>
    refine iff_of_false (Option.some_ne_none _) ?_
    intro hs
    rw [cardsProblem?_eq_none.mpr
      ⟨fresh_nil_left.mpr hs.names, hs.expanders, fresh_nil_left.mpr hs.wirings⟩] at hc
    cases hc
  | none =>
    obtain ⟨hn, he, hw⟩ := cardsProblem?_eq_none.mp hc
    cases hr : firstRepeat? [] (b.commands.map (·.shortName)) with
    | some short =>
      refine iff_of_false (Option.some_ne_none _) ?_
      intro hs
      rw [firstRepeat?_eq_none.mpr (fresh_nil_left.mpr hs.commands)] at hr
      cases hr
    | none =>
      have hr := fresh_nil_left.mp (firstRepeat?_eq_none.mp hr)
      show (b.devices.find? fun d => isVoid d.host).map _ = none ↔ _
      rw [Option.map_eq_none_iff, List.find?_eq_none]
      constructor
      · intro hd
        exact ⟨fresh_nil_left.mp hn, he, fresh_nil_left.mp hw, hr,
          fun d hm => Bool.not_eq_true _ ▸ hd d hm⟩
      · intro hs d hm
        rw [hs.hosts d hm]
        exact Bool.false_ne_true

end Bench

/-! ## Configurations -/

namespace Configuration

variable {c : Configuration}

theorem problem?_eq_none :
    c.problem? = none ↔ c.hardware.Sound ∧ ∀ b ∈ c.benches, b.Sound c.hardware := by
  unfold problem?
  cases hh : c.hardware.problem? with
  | some p =>
    refine iff_of_false (Option.some_ne_none p) ?_
    intro h
    rw [Hardware.problem?_eq_none.mpr h.1] at hh
    cases hh
  | none =>
    have hs := Hardware.problem?_eq_none.mp hh
    show c.benches.findSome? (fun b => (b.problem? c.hardware).map (Problem.inBench b.name)) =
      none ↔ _
    rw [List.findSome?_eq_none_iff]
    constructor
    · intro hb
      exact ⟨hs, fun b hm => Bench.problem?_eq_none.mp (Option.map_eq_none_iff.mp (hb b hm))⟩
    · rintro ⟨-, hb⟩ b hm
      rw [Bench.problem?_eq_none.mpr (hb b hm)]
      rfl

theorem bench_eq_ok {name? : Option String} {b : Bench} :
    c.bench name? = .ok b ↔ c.bench? (name?.getD c.defaultBench) = some b := by
  unfold bench
  dsimp only
  cases c.bench? (name?.getD c.defaultBench) <;> simp

/-- **A configuration passes its check if nothing is wrong with it, and only then.** -/
theorem check_eq_ok : c.check = .ok () ↔ c.hardware.Sound ∧
    (∀ b ∈ c.benches, b.Sound c.hardware) ∧ ∃ b, c.bench? c.defaultBench = some b := by
  unfold check
  cases hp : c.problem? with
  | some p =>
    refine iff_of_false (fun h => (by cases h)) ?_
    intro h
    rw [problem?_eq_none.mpr ⟨h.1, h.2.1⟩] at hp
    cases hp
  | none =>
    obtain ⟨hs, hb⟩ := problem?_eq_none.mp hp
    dsimp only
    cases hd : c.bench none with
    | error e =>
      refine iff_of_false (fun h => (by cases h)) ?_
      intro h
      obtain ⟨-, -, b, hb⟩ := h
      rw [bench_eq_ok.mpr hb] at hd
      cases hd
    | ok b => exact iff_of_true rfl ⟨hs, hb, b, bench_eq_ok.mp hd⟩

/-- The rig of every bench is well-formed before any write. -/
theorem wellFormed_rig (hc : c.check = .ok ())
    (hr : (c.hardware.groups.map PinGroup.register).Nodup) {b : Bench} (hb : b ∈ c.benches) :
    (c.rig b).WellFormed := by
  obtain ⟨hh, hbs, -⟩ := check_eq_ok.mp hc
  have hs := hbs b hb
  have hw : ((c.rig b).pins.map CardPin.wiring).Nodup := by
    rw [Rig.pins, List.map_flatMap]
    exact hs.wirings
  exact ⟨hh.numbers, hh.sizes, hh.pinNumbers, hr, hh.present, hs.names, hw⟩

end Configuration

end PinBench
