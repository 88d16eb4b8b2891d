import Mathlib.Data.List.Duplicate
import Mathlib.Data.List.TakeWhile
import PinBench.Proofs.Configuration.Check

/-!
# The problems of a configuration

A configuration that does not pass its check is told one of its problems.  Which one depends on the
order of the file; that it is a problem of the configuration does not.

* `Configuration.Sound`: hardware and benches with nothing wrong.
* `BenchProblem.Present`, `Problem.Present`: a problem that a configuration has.
* `Configuration.present_of_problem?`: **the problem that is told is there**.
* `Configuration.sound_iff`: a configuration is sound if it has no problem, and only then.
* `Configuration.check_exact`: **the check lets through what is sound and has its default bench, and
  tells exactly which of the two is wrong**.
-/

namespace PinBench

/-! ## Repetitions -/

section Repetition

variable {α : Type} [DecidableEq α] {seen l : List α} {a : α}

theorem duplicate_of_perm {m : List α} (h : l.Perm m) (ha : List.Duplicate a l) :
    List.Duplicate a m := by
  rw [List.duplicate_iff_two_le_count] at ha ⊢
  rw [← h.count_eq]
  exact ha

theorem duplicate_of_mem (h : a ∈ seen) : List.Duplicate a (seen ++ a :: l) := by
  have hcount := List.count_pos_iff.mpr h
  rw [List.duplicate_iff_two_le_count, List.count_append, List.count_cons_self]
  omega

/-- The repetition that is found is one, in what was seen before and the list together. -/
theorem duplicate_of_firstRepeat? (h : firstRepeat? seen l = some a) :
    List.Duplicate a (seen ++ l) := by
  induction l generalizing seen with
  | nil => cases h
  | cons b bs ih =>
    rw [firstRepeat?] at h
    by_cases hb : b ∈ seen
    · rw [if_pos hb] at h
      obtain rfl := Option.some.inj h
      exact duplicate_of_mem hb
    · rw [if_neg hb] at h
      exact duplicate_of_perm List.perm_middle.symm (ih h)

variable {β : Type} {f : β → List α} {b : β} {bs : List β}

omit [DecidableEq α] in
theorem duplicate_of_head (h : List.Duplicate a (seen ++ f b)) :
    List.Duplicate a (seen ++ (b :: bs).flatMap f) := by
  rw [List.flatMap_cons, ← List.append_assoc]
  exact h.mono_sublist (List.sublist_append_left _ _)

/-- Where the lists are gone through one by one, those before count as seen. -/
theorem duplicate_of_tail (h : List.Duplicate a (f b ++ seen ++ bs.flatMap f)) :
    List.Duplicate a (seen ++ (b :: bs).flatMap f) := by
  rw [List.flatMap_cons, ← List.append_assoc]
  exact duplicate_of_perm (List.perm_append_comm.append_right _) h

end Repetition

/-! ## Blank texts -/

theorem trim_eq_nil_iff {cs : List Char} :
    Text.trim cs = [] ↔ ∀ c ∈ cs, Text.isBlank c = true := by
  unfold Text.trim
  rw [List.reverse_eq_nil_iff, List.dropWhile_eq_nil_iff]
  constructor
  · intro h
    by_contra hn
    have hd : cs.dropWhile Text.isBlank ≠ [] := fun hd => hn (List.dropWhile_eq_nil_iff.mp hd)
    have hhead := List.head_dropWhile_not Text.isBlank hd
    rw [h _ (List.mem_reverse.mpr (List.head_mem hd))] at hhead
    cases hhead
  · intro h c hc
    exact h c (List.dropWhile_sublist _ |>.mem (List.mem_reverse.mp hc))

/-- A text is void if each of its characters is blank. -/
theorem Bench.isVoid_iff {s : String} :
    isVoid s = true ↔ ∀ c ∈ s.toList, Text.isBlank c = true := by
  rw [isVoid, List.isEmpty_iff, trim_eq_nil_iff]

/-! ## Problems that are there -/

/-- A problem that a bench has. -/
inductive BenchProblem.Present (h : Hardware) (b : Bench) : BenchProblem → Prop where
  | cardTwice {name : String} (hn : List.Duplicate name (b.cards.map Card.name)) :
      Present h b (.cardTwice name)
  | dangling {d : Card} {p : CardPin} (hd : d ∈ b.cards) (hp : p ∈ d.pins)
      (hn : ∀ e ∈ h.expanders, e.number ≠ p.wiring.expander) :
      Present h b (.dangling d.name p.label p.wiring.expander)
  | wiredTwice {w : Wiring}
      (hw : List.Duplicate w (b.cards.flatMap fun d => d.pins.map CardPin.wiring)) :
      Present h b (.wiredTwice w)
  | commandTwice {short : String} (hs : List.Duplicate short (b.commands.map Command.shortName)) :
      Present h b (.commandTwice short)
  | noHost {d : Device} (hd : d ∈ b.devices) (hb : ∀ c ∈ d.host.toList, Text.isBlank c = true) :
      Present h b (.noHost d.name)

/-- A problem that a configuration has. -/
inductive Problem.Present (c : Configuration) : Problem → Prop where
  | expanderTwice {number : UInt8}
      (hn : List.Duplicate number (c.hardware.expanders.map Expander.number)) :
      Present c (.expanderTwice number)
  | longGroup {g : PinGroup} (hg : g ∈ c.hardware.groups) (hs : 8 < g.pins.length) :
      Present c (.longGroup g.register g.pins.length)
  /-- In two groups, or in one of them twice. -/
  | pinTwice {pin : UInt8} (hp : List.Duplicate pin (c.hardware.groups.flatMap PinGroup.pins)) :
      Present c (.pinTwice pin)
  | noRegister {g : PinGroup} {e : Expander} (hg : g ∈ c.hardware.groups)
      (he : e ∈ c.hardware.expanders) (hr : e.registers.bytes.length ≤ g.register.toNat) :
      Present c (.noRegister e.number g.register)
  | inBench {b : Bench} {p : BenchProblem} (hb : b ∈ c.benches) (hp : p.Present c.hardware b) :
      Present c (.inBench b.name p)

/-! ## The problem that is told -/

/-- With the pin numbers that were seen in the groups before. -/
theorem Hardware.of_groupsProblem? {h : Hardware} {seen : List UInt8} {gs : List PinGroup}
    {p : Problem} (hp : h.groupsProblem? seen gs = some p) :
    (∃ g ∈ gs, 8 < g.pins.length ∧ p = .longGroup g.register g.pins.length) ∨
      (∃ pin, List.Duplicate pin (seen ++ gs.flatMap PinGroup.pins) ∧ p = .pinTwice pin) ∨
      ∃ g ∈ gs, ∃ e ∈ h.expanders, e.registers.bytes.length ≤ g.register.toNat ∧
        p = .noRegister e.number g.register := by
  induction gs generalizing seen with
  | nil => cases hp
  | cons g gs ih =>
    rw [groupsProblem?] at hp
    by_cases hs : 8 < g.pins.length
    · rw [if_pos hs] at hp
      cases hp
      exact .inl ⟨g, List.mem_cons_self, hs, rfl⟩
    · rw [if_neg hs] at hp
      cases hr : firstRepeat? seen g.pins with
      | some pin =>
        rw [hr] at hp
        cases hp
        exact .inr (.inl ⟨pin, duplicate_of_head (duplicate_of_firstRepeat? hr), rfl⟩)
      | none =>
        rw [hr] at hp
        cases hk : h.lacking? g.register with
        | some e =>
          rw [hk] at hp
          cases hp
          have hlack := List.find?_some hk
          rw [RegisterBank.get?, Option.isNone_iff_eq_none, List.getElem?_eq_none_iff] at hlack
          exact .inr (.inr ⟨g, List.mem_cons_self, e, List.mem_of_find?_eq_some hk, hlack, rfl⟩)
        | none =>
          rw [hk] at hp
          rcases ih hp with ⟨g', hg', hrest⟩ | ⟨pin, hd, rfl⟩ | ⟨g', hg', hrest⟩
          · exact .inl ⟨g', List.mem_cons_of_mem g hg', hrest⟩
          · exact .inr (.inl ⟨pin, duplicate_of_tail hd, rfl⟩)
          · exact .inr (.inr ⟨g', List.mem_cons_of_mem g hg', hrest⟩)

namespace Bench

variable {h : Hardware} {p : BenchProblem}

/-- With the wirings of the card pins before. -/
theorem of_pinsProblem? {card : String} {wired : List Wiring} {ps : List CardPin}
    (hp : pinsProblem? h card wired ps = some p) :
    (∃ q ∈ ps, (∀ e ∈ h.expanders, e.number ≠ q.wiring.expander) ∧
        p = .dangling card q.label q.wiring.expander) ∨
      ∃ w, List.Duplicate w (wired ++ ps.map CardPin.wiring) ∧ p = .wiredTwice w := by
  induction ps generalizing wired with
  | nil => cases hp
  | cons q ps ih =>
    rw [pinsProblem?] at hp
    by_cases hx : h.expanders.any (·.number == q.wiring.expander) = true
    · rw [if_pos hx] at hp
      by_cases hw : q.wiring ∈ wired
      · rw [if_pos hw] at hp
        cases hp
        exact .inr ⟨q.wiring, duplicate_of_mem hw, rfl⟩
      · rw [if_neg hw] at hp
        rcases ih hp with ⟨q', hq', hrest⟩ | ⟨w, hd, rfl⟩
        · exact .inl ⟨q', List.mem_cons_of_mem q hq', hrest⟩
        · exact .inr ⟨w, duplicate_of_perm List.perm_middle.symm hd, rfl⟩
    · rw [if_neg hx] at hp
      cases hp
      refine .inl ⟨q, List.mem_cons_self, ?_, rfl⟩
      simpa using hx

/-- With the names and the wirings of the cards before. -/
theorem of_cardsProblem? {names : List String} {wired : List Wiring} {cs : List Card}
    (hp : cardsProblem? h names wired cs = some p) :
    (∃ name, List.Duplicate name (names ++ cs.map Card.name) ∧ p = .cardTwice name) ∨
      (∃ d ∈ cs, ∃ q ∈ d.pins, (∀ e ∈ h.expanders, e.number ≠ q.wiring.expander) ∧
        p = .dangling d.name q.label q.wiring.expander) ∨
      ∃ w, List.Duplicate w (wired ++ cs.flatMap fun d => d.pins.map CardPin.wiring) ∧
        p = .wiredTwice w := by
  induction cs generalizing names wired with
  | nil => cases hp
  | cons d cs ih =>
    rw [cardsProblem?] at hp
    by_cases hn : d.name ∈ names
    · rw [if_pos hn] at hp
      cases hp
      exact .inl ⟨d.name, duplicate_of_mem hn, rfl⟩
    · rw [if_neg hn] at hp
      cases hq : pinsProblem? h d.name wired d.pins with
      | some q =>
        rw [hq] at hp
        cases hp
        rcases of_pinsProblem? hq with ⟨q', hq', hrest⟩ | ⟨w, hd, rfl⟩
        · exact .inr (.inl ⟨d, List.mem_cons_self, q', hq', hrest⟩)
        · exact .inr (.inr ⟨w, duplicate_of_head hd, rfl⟩)
      | none =>
        rw [hq] at hp
        rcases ih hp with ⟨name, hd, rfl⟩ | ⟨d', hd', hrest⟩ | ⟨w, hd, rfl⟩
        · exact .inl ⟨name, duplicate_of_perm List.perm_middle.symm hd, rfl⟩
        · exact .inr (.inl ⟨d', List.mem_cons_of_mem d hd', hrest⟩)
        · exact .inr (.inr ⟨w, duplicate_of_tail hd, rfl⟩)

theorem present_of_problem? {b : Bench} (hp : b.problem? h = some p) : p.Present h b := by
  unfold problem? at hp
  cases hc : cardsProblem? h [] [] b.cards with
  | some q =>
    rw [hc] at hp
    cases hp
    rcases of_cardsProblem? hc with ⟨name, hd, rfl⟩ | ⟨d, hd, q, hq, hn, rfl⟩ | ⟨w, hd, rfl⟩
    · exact .cardTwice hd
    · exact .dangling hd hq hn
    · exact .wiredTwice hd
  | none =>
    rw [hc] at hp
    cases hr : firstRepeat? [] (b.commands.map (·.shortName)) with
    | some short =>
      rw [hr] at hp
      cases hp
      exact .commandTwice (duplicate_of_firstRepeat? hr)
    | none =>
      rw [hr] at hp
      obtain ⟨d, hd, rfl⟩ := Option.map_eq_some_iff.mp hp
      have hvoid := List.find?_some hd
      exact .noHost (List.mem_of_find?_eq_some hd) (isVoid_iff.mp hvoid)

end Bench

/-! ## Configurations -/

namespace Configuration

variable {c : Configuration}

/-- A configuration with nothing wrong, its default bench apart. -/
structure Sound (c : Configuration) : Prop where
  hardware : c.hardware.Sound
  benches : ∀ b ∈ c.benches, b.Sound c.hardware

/-- **The problem that is told is there.** -/
theorem present_of_problem? {p : Problem} (hp : c.problem? = some p) : p.Present c := by
  unfold problem? at hp
  cases hh : c.hardware.problem? with
  | some q =>
    rw [hh] at hp
    cases hp
    unfold Hardware.problem? at hh
    cases hn : firstRepeat? [] (c.hardware.expanders.map (·.number)) with
    | some number =>
      rw [hn] at hh
      cases hh
      exact .expanderTwice (duplicate_of_firstRepeat? hn)
    | none =>
      rw [hn] at hh
      rcases Hardware.of_groupsProblem? hh with
        ⟨g, hg, hs, rfl⟩ | ⟨pin, hd, rfl⟩ | ⟨g, hg, e, he, hr, rfl⟩
      · exact .longGroup hg hs
      · exact .pinTwice hd
      · exact .noRegister hg he hr
  | none =>
    rw [hh] at hp
    obtain ⟨b, hb, hb'⟩ := List.exists_of_findSome?_eq_some hp
    obtain ⟨q, hq, rfl⟩ := Option.map_eq_some_iff.mp hb'
    exact .inBench hb (Bench.present_of_problem? hq)

theorem problem?_eq_none_iff : c.problem? = none ↔ c.Sound := by
  rw [problem?_eq_none]
  exact ⟨fun ⟨hh, hb⟩ => ⟨hh, hb⟩, fun hs => ⟨hs.hardware, hs.benches⟩⟩

theorem Sound.not_present (hs : c.Sound) (p : Problem) : ¬p.Present c := by
  intro hp
  cases hp with
  | expanderTwice hn => exact hn.not_nodup hs.hardware.numbers
  | longGroup hg hl => exact absurd (hs.hardware.sizes _ hg) (Nat.not_le.mpr hl)
  | pinTwice hp => exact hp.not_nodup hs.hardware.pinNumbers
  | noRegister hg he hr => exact absurd (hs.hardware.present _ hg _ he) (Nat.not_lt.mpr hr)
  | inBench hb hp =>
    have hbs := hs.benches _ hb
    cases hp with
    | cardTwice hn => exact hn.not_nodup hbs.names
    | dangling hd hp hn =>
      obtain ⟨e, he, hnum⟩ := hbs.expanders _ hd _ hp
      exact hn e he hnum
    | wiredTwice hw => exact hw.not_nodup hbs.wirings
    | commandTwice hs => exact hs.not_nodup hbs.commands
    | noHost hd hblank =>
      have hvoid := hbs.hosts _ hd
      rw [Bench.isVoid_iff.mpr hblank] at hvoid
      cases hvoid

/-- **A configuration is sound if it has no problem, and only then.** -/
theorem sound_iff : c.Sound ↔ ∀ p : Problem, ¬p.Present c := by
  constructor
  · exact Sound.not_present
  · intro h
    rw [← problem?_eq_none_iff]
    cases hp : c.problem? with
    | none => rfl
    | some p => exact absurd (present_of_problem? hp) (h p)

theorem exists_bench?_iff {name : String} :
    (∃ b, c.bench? name = some b) ↔ ∃ b ∈ c.benches, b.name = name := by
  rw [bench?, ← Option.isSome_iff_exists, List.find?_isSome]
  simp

/-- **The check lets through what is sound and has its default bench.**  An unknown bench is what is
wrong if that alone is missing, and a problem is told if the configuration is not sound: one that it
has. -/
theorem check_exact (c : Configuration) :
    (c.check = .ok () ↔ c.Sound ∧ ∃ b ∈ c.benches, b.name = c.defaultBench) ∧
    (∀ name, c.check = .error (.unknownBench name) ↔
      name = c.defaultBench ∧ c.Sound ∧ ¬∃ b ∈ c.benches, b.name = c.defaultBench) ∧
    ((∃ p, c.check = .error (.invalid p)) ↔ ¬c.Sound) ∧
    (∀ p, c.check = .error (.invalid p) → p.Present c) ∧
    (c.Sound ↔ ∀ p : Problem, ¬p.Present c) := by
  rw [← exists_bench?_iff]
  cases hp : c.problem? with
  | some p =>
    have hpresent := present_of_problem? hp
    have hnot : ¬c.Sound := fun hs => hs.not_present p hpresent
    have hcheck : c.check = .error (.invalid p) := by rw [check, hp]
    simp [hcheck, hpresent, hnot, ← sound_iff]
  | none =>
    have hs := problem?_eq_none_iff.mp hp
    cases hb : c.bench? c.defaultBench with
    | none =>
      have hcheck : c.check = .error (.unknownBench c.defaultBench) := by
        simp [check, hp, bench, hb, Except.map]
      simp [hcheck, hs, ← sound_iff, eq_comm]
    | some b =>
      have hcheck : c.check = .ok () := by simp [check, hp, bench, hb, Except.map]
      simp [hcheck, hs, ← sound_iff]

end Configuration

end PinBench
