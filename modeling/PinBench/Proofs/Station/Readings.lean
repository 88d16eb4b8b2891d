import Mathlib.Data.List.Induction
import Mathlib.Data.String.Basic
import PinBench.Proofs.Station.Demand
import PinBench.Proofs.Station.Moves
import PinBench.Proofs.Station.Switch

/-!
# The readings of a station

A reading is kept under the name of its device, as long as the station stays on a bench that has
the device, and until another one of that device is brought.

* `Reading.mem_insert_iff`, `Reading.pairwise_insert`: a reading takes the place of the older one of
  its device.
* `LastBrought`: the reading was brought by a demand of a run, and no later one has brought another
  of its device or turned to a bench.
* `Station.carries_meet`: **only a reading and a turn to a bench change what is kept**.
* `Station.keeps_serve`, `Station.readings_serve`: **at any time the station keeps, in the order of
  the names, the last readings of the devices of its bench**.
-/

namespace PinBench

/-! ## Readings in order -/

namespace Reading

variable {g x : Reading} {gs : List Reading}

/-- The readings are in increasing order of their devices, at most one each. -/
abbrev InOrder (gs : List Reading) : Prop := gs.Pairwise (·.device < ·.device)

theorem mem_insert_iff (h : InOrder gs) :
    x ∈ g.insert gs ↔ x = g ∨ x.device ≠ g.device ∧ x ∈ gs := by
  induction gs with
  | nil => simp [insert]
  | cons k gs ih =>
    obtain ⟨hk, hgs⟩ := List.pairwise_cons.mp h
    have hrest : ∀ y ∈ gs, y.device ≠ k.device := fun y hy he => absurd (hk y hy) (by simp [he])
    unfold insert
    split_ifs with he hlt
    · -- the older one of the device goes, and no other one is of that device
      rw [List.mem_cons, List.mem_cons, he]
      refine or_congr_right ⟨fun hx => ⟨hrest x hx, .inr hx⟩, ?_⟩
      rintro ⟨hne, rfl | hx⟩
      · exact absurd rfl hne
      · exact hx
    · rw [List.mem_cons]
      refine or_congr_right ⟨fun hx => ⟨?_, hx⟩, And.right⟩
      rcases List.mem_cons.mp hx with rfl | hx
      · exact Ne.symm he
      · exact (hlt.trans (hk x hx)).ne'
    · rw [List.mem_cons, ih hgs, List.mem_cons]
      refine ⟨?_, ?_⟩
      · rintro (rfl | rfl | ⟨hne, hx⟩)
        · exact .inr ⟨Ne.symm he, .inl rfl⟩
        · exact .inl rfl
        · exact .inr ⟨hne, .inr hx⟩
      · rintro (rfl | ⟨hne, rfl | hx⟩)
        · exact .inr (.inl rfl)
        · exact .inl rfl
        · exact .inr (.inr ⟨hne, hx⟩)

theorem pairwise_insert (h : InOrder gs) : InOrder (g.insert gs) := by
  induction gs with
  | nil => exact List.pairwise_singleton _ g
  | cons k gs ih =>
    obtain ⟨hk, hgs⟩ := List.pairwise_cons.mp h
    unfold insert
    split_ifs with he hlt
    · exact List.pairwise_cons.mpr ⟨fun y hy => he ▸ hk y hy, hgs⟩
    · refine List.pairwise_cons.mpr ⟨fun y hy => ?_, h⟩
      rcases List.mem_cons.mp hy with rfl | hy
      · exact hlt
      · exact hlt.trans (hk y hy)
    · refine List.pairwise_cons.mpr ⟨fun y hy => ?_, ih hgs⟩
      rcases (mem_insert_iff hgs).mp hy with rfl | ⟨-, hy⟩
      · exact lt_of_le_of_ne (not_lt.mp hlt) (Ne.symm he)
      · exact hk y hy

end Reading

/-! ## What demands bring -/

namespace Demand

/-- The bench of a configuration to which a demand turns, if it does. -/
def target? (c : Configuration) : Demand → Option Bench
  | perform _ (.switchBench name) => c.bench? name
  | ask _ (.switchBench name) => c.bench? name
  | _ => none

/-- The reading that a demand brings, if it does. -/
def reading? : Demand → Option Reading
  | perform _ (.store g) => some g
  | _ => none

/-- The station that a demand starts from: one that turns to a bench starts from the file. -/
def ground (s : Station) (d : Demand) : Station :=
  match d.target? s.configuration with
  | some b => .enter s.configuration b
  | none => s

theorem ground_perform (s : Station) (now : Nat) (op : Operation) :
    (perform now op).ground s = op.ground s := by
  cases op <;> rfl

theorem ground_of_target {s : Station} {d : Demand} {b : Bench}
    (h : d.target? s.configuration = some b) : d.ground s = .enter s.configuration b := by
  rw [ground, h]

theorem ground_of_no_target {s : Station} {d : Demand} (h : d.target? s.configuration = none) :
    d.ground s = s := by
  rw [ground, h]

theorem target_of_reading {c : Configuration} {d : Demand} {g : Reading} (h : d.reading? = some g) :
    d.target? c = none := by
  cases d with
  | ask clock q => cases h
  | perform now op => cases op <;> first | rfl | cases h

end Demand

/-- The reading was brought by a demand, and no later one has turned to a bench or brought another
reading of the device. -/
def LastBrought (c : Configuration) (ds : List Demand) (g : Reading) : Prop :=
  ∃ before d after, ds = before ++ d :: after ∧ d.reading? = some g ∧
    ∀ e ∈ after, e.target? c = none ∧ ∀ k, e.reading? = some k → k.device ≠ g.device

/-- The bench that is active after some demands: the last one to which they have turned. -/
def lastBench (c : Configuration) (b : Bench) (ds : List Demand) : Bench :=
  (ds.filterMap (·.target? c)).getLast?.getD b

section Brought

variable {c : Configuration} {ds : List Demand} {d : Demand} {g : Reading}

theorem not_lastBrought_nil : ¬LastBrought c [] g := by
  rintro ⟨before, d, after, h, -⟩
  cases before <;> cases h

theorem lastBrought_concat_iff :
    LastBrought c (ds ++ [d]) g ↔ d.reading? = some g ∨
      d.target? c = none ∧ (∀ k, d.reading? = some k → k.device ≠ g.device) ∧
        LastBrought c ds g := by
  refine ⟨?_, ?_⟩
  · rintro ⟨before, e, after, h, he, hafter⟩
    rcases after.eq_nil_or_concat' with rfl | ⟨after, x, rfl⟩
    · obtain ⟨-, hd⟩ := List.append_inj' h rfl
      obtain rfl := List.singleton_inj.mp hd
      exact .inl he
    · rw [← List.cons_append, ← List.append_assoc] at h
      obtain ⟨rfl, hx⟩ := List.append_inj' h rfl
      obtain rfl := List.singleton_inj.mp hx
      rw [List.forall_mem_append, List.forall_mem_singleton] at hafter
      exact .inr ⟨hafter.2.1, hafter.2.2, before, e, after, rfl, he, hafter.1⟩
  · rintro (h | ⟨htarget, hother, before, e, after, rfl, he, hafter⟩)
    · exact ⟨ds, d, [], rfl, h, nofun⟩
    · refine ⟨before, e, after ++ [d], by simp, he, ?_⟩
      rw [List.forall_mem_append, List.forall_mem_singleton]
      exact ⟨hafter, htarget, hother⟩

theorem lastBench_concat (b : Bench) :
    lastBench c b (ds ++ [d]) = (d.target? c).getD (lastBench c b ds) := by
  unfold lastBench
  rw [List.filterMap_append]
  cases h : d.target? c with
  | none => simp [h]
  | some b' => simp [h]

end Brought

namespace Station

variable {β : Type} [Bus β]

/-! ## What every demand keeps -/

namespace WriteKept

variable {P : Station → Prop} (hP : WriteKept β P)
include hP

theorem execute {s : Station} {clock : Clock} {q : Request} (h : P ((Demand.ask clock q).ground s))
    (l : Link β) : P (s.execute clock.now l q).state := by
  cases q with
  | allCategories => exact hP.tracker _ h
  | category name => exact hP.tracker _ h
  | availableCommands => exact hP.tracker _ h
  | activeBench => exact hP.tracker _ h
  | writeToCard card label level =>
    rw [Station.execute]
    cases level.toBool with
    | error f => exact h
    | ok v => exact hP.write l (.card card label v) h
  | writeToExpander number pin level =>
    rw [Station.execute]
    cases pinArguments number pin level with
    | error f => exact h
    | ok x => exact hP.write l (.expander x.1 x.2.1 x.2.2) h
  | sendCommand name force => exact hP.sendCommand h name force _ l
  | updateRegisters => exact hP.update h l
  | switchBench name =>
    have hs : P (s.switchBench name l).state := hP.switchBench h l
    rw [Station.execute]
    cases (s.switchBench name l).result with
    | error f => exact hs
    | ok u => exact hP.tracker _ hs
  -- what only looks at the station leaves it as it is
  | _ => exact h

/-- **Every demand that brings no reading keeps it**, a turn to a bench from the bench that it
enters. -/
theorem meet {s : Station} {d : Demand} (h : P (d.ground s)) (hd : d.reading? = none)
    (l : Link β) : P (s.meet l d).2.1 := by
  cases d with
  | perform now op =>
    rw [Demand.ground_perform] at h
    refine hP.perform h ?_ now l
    rintro g rfl
    cases hd
  | ask clock q =>
    have hx := hP.execute h l
    show P (s.handle clock q l).2.1
    rw [handle]
    cases (s.execute clock.now l q).result <;> exact hx

end WriteKept

/-- The second station is on the bench of the first, with the same readings. -/
structure Carries (s s' : Station) : Prop where
  configuration : s'.configuration = s.configuration
  bench : s'.bench = s.bench
  readings : s'.readings = s.readings

theorem writeKept_carries (s : Station) : WriteKept β (s.Carries ·) where
  write l q h := by
    rcases write_eq _ l q with ⟨-, hq⟩ | ⟨e, hq⟩
    · rw [hq]
      exact h
    · rw [hq]
      exact ⟨h.configuration, h.bench, h.readings⟩
  broughtUp l h := ⟨h.configuration, h.bench, h.readings⟩
  tracker k h := ⟨h.configuration, h.bench, h.readings⟩

/-- **Only a reading and a turn to a bench change what is kept.** -/
theorem carries_meet (s : Station) {d : Demand} (hd : d.reading? = none) (l : Link β) :
    (d.ground s).Carries (s.meet l d).2.1 :=
  (writeKept_carries (d.ground s)).meet ⟨rfl, rfl, rfl⟩ hd l

/-! ## Storing a reading -/

/-- A device of the name is on the bench of the station. -/
def Declares (s : Station) (device : String) : Prop := ∃ d ∈ s.bench.devices, d.name = device

theorem any_devices_iff {s : Station} {device : String} :
    s.bench.devices.any (·.name == device) = true ↔ s.Declares device := by
  simp [Declares]

omit [Bus β] in
/-- **A reading is kept and told of if the bench has its device, and else it is only noted**; the
station is the same in everything but its readings. -/
theorem store_cases (s : Station) (g : Reading) (l : Link β) :
    s.Declares g.device ∧ s.store g l =
        (true, { s with readings := g.insert s.readings }, l.tell (.readingStored g.device)) ∨
      ¬s.Declares g.device ∧ ∃ text, s.store g l = (false, s, l.note .warning text) := by
  unfold store
  rw [← any_devices_iff]
  split_ifs with h
  · exact .inl ⟨h, rfl⟩
  · exact .inr ⟨h, _, rfl⟩

theorem meet_of_reading {d : Demand} {g : Reading} (hd : d.reading? = some g) (s : Station)
    (l : Link β) : (s.meet l d).2 = (s.store g l).2 := by
  cases d with
  | ask clock q => cases hd
  | perform now op =>
    cases op <;> cases hd
    rfl

/-! ## Runs -/

variable {c : Configuration} {b : Bench} {ds : List Demand} {s : Station}

/-- The station is on the last bench of the demands and keeps what they have brought last. -/
structure Keeps (c : Configuration) (b : Bench) (ds : List Demand) (s : Station) : Prop where
  configuration : s.configuration = c
  bench : s.bench = lastBench c b ds
  inOrder : Reading.InOrder s.readings
  mem_readings : ∀ g, g ∈ s.readings ↔ s.Declares g.device ∧ LastBrought c ds g

theorem keeps_enter (c : Configuration) (b : Bench) : Keeps c b [] (enter c b) :=
  ⟨rfl, rfl, .nil, fun _ => ⟨nofun, fun h => absurd h.2 not_lastBrought_nil⟩⟩

theorem Keeps.meet (h : Keeps c b ds s) (l : Link β) (d : Demand) :
    Keeps c b (ds ++ [d]) (s.meet l d).2.1 := by
  cases hd : d.reading? with
  | some g =>
    have hb := Demand.target_of_reading (c := c) hd
    have hbench : s.bench = lastBench c b (ds ++ [d]) := by
      rw [lastBench_concat, hb]
      exact h.bench
    have hlast : ∀ x, LastBrought c (ds ++ [d]) x ↔
        x = g ∨ x.device ≠ g.device ∧ LastBrought c ds x := fun x => by
      simp [lastBrought_concat_iff, hd, hb, eq_comm]
    rw [meet_of_reading hd]
    rcases s.store_cases g l with ⟨hg, hs⟩ | ⟨hg, text, hs⟩
    · rw [hs]
      refine ⟨h.configuration, hbench, Reading.pairwise_insert h.inOrder, fun x => ?_⟩
      have hx : x ∈ g.insert s.readings ↔ s.Declares x.device ∧ LastBrought c (ds ++ [d]) x := by
        rw [Reading.mem_insert_iff h.inOrder, h.mem_readings, hlast]
        refine ⟨?_, ?_⟩
        · rintro (rfl | ⟨hne, hdev, hx⟩)
          · exact ⟨hg, .inl rfl⟩
          · exact ⟨hdev, .inr ⟨hne, hx⟩⟩
        · rintro ⟨hdev, rfl | ⟨hne, hx⟩⟩
          · exact .inl rfl
          · exact .inr ⟨hne, hdev, hx⟩
      exact hx
    · rw [hs]
      refine ⟨h.configuration, hbench, h.inOrder, fun x => ?_⟩
      rw [h.mem_readings, hlast]
      refine and_congr_right fun hdev => ⟨fun hx => .inr ⟨?_, hx⟩, ?_⟩
      · -- the device of the reading is not on the bench, that of `x` is
        intro he
        exact hg (he ▸ hdev)
      · rintro (rfl | ⟨-, hx⟩)
        · exact absurd hdev hg
        · exact hx
  | none =>
    have hs := s.carries_meet hd l
    cases hb : d.target? c with
    | some b' =>
      -- the bench is entered without readings, and nothing has been brought since
      rw [Demand.ground_of_target (h.configuration.symm ▸ hb)] at hs
      refine ⟨hs.configuration.trans h.configuration, ?_, ?_, fun x => ?_⟩
      · rw [hs.bench, lastBench_concat, hb]
        rfl
      · rw [hs.readings]
        exact .nil
      · rw [hs.readings, lastBrought_concat_iff, hd, hb]
        simp [enter]
    | none =>
      rw [Demand.ground_of_no_target (h.configuration.symm ▸ hb)] at hs
      refine ⟨hs.configuration.trans h.configuration, ?_, ?_, fun x => ?_⟩
      · rw [hs.bench, lastBench_concat, hb]
        exact h.bench
      · rw [hs.readings]
        exact h.inOrder
      · rw [hs.readings, h.mem_readings, Declares, Declares, hs.bench, lastBrought_concat_iff, hd,
          hb]
        simp

/-- **After any demands the station keeps what they have brought last.** -/
theorem keeps_serve (h : Keeps c b [] s) (l : Link β) (ds : List Demand) :
    Keeps c b ds (s.serve l ds).2.1 := by
  induction ds using List.reverseRecOn with
  | nil => exact h
  | append_singleton ds d ih =>
    rw [serve_concat]
    exact ih.meet _ d

/-- **At any time the station keeps, in the order of the names, the last readings of the devices of
its bench**, and sends these.  What comes next is kept and told of if the bench has its device, and
goes nowhere else; and nothing but the readings depends on it. -/
theorem readings_serve {c : Configuration} {name? : Option String} {s₀ : Station}
    (h : ofConfiguration c name? = .ok s₀) (l : Link β) (ds : List Demand) :
    let s := (s₀.serve l ds).2.1
    s.bench = lastBench c s₀.bench ds ∧
    s.readings.Pairwise (·.device < ·.device) ∧
    (∀ g, g ∈ s.readings ↔ s.Declares g.device ∧ LastBrought c ds g) ∧
    (∀ (clock : Clock) (l : Link β), s.handle clock .readings l =
      (.ok clock.date "inputStates" (some (.arr (s.readings.map Reading.toJson))), s, l)) ∧
    ∀ (g : Reading) (l : Link β), ∃ stored s' l', s.store g l = (stored, s', l') ∧
      (stored = true ↔ s.Declares g.device) ∧
      l.Adds l' [] (if stored then [.readingStored g.device] else []) ∧ l'.bus = l.bus ∧
      s' = if stored then { s with readings := s'.readings } else s := by
  intro s
  obtain ⟨-, b, -, rfl⟩ := entered h
  have hk : Keeps c b ds s := keeps_serve (keeps_enter c b) l ds
  refine ⟨hk.bench, hk.inOrder, hk.mem_readings, fun clock l => rfl, fun g l => ?_⟩
  rcases s.store_cases g l with ⟨hg, hs⟩ | ⟨hg, text, hs⟩
  · exact ⟨_, _, _, hs, iff_of_true rfl hg, (Link.Adds.refl l).tell _, rfl, rfl⟩
  · exact ⟨_, _, _, hs, iff_of_false Bool.false_ne_true hg, (Link.Adds.refl l).note _ _, rfl, rfl⟩

/-- The first reading comes before the bench has its device, the one of the ear is of no device, and
a turn to no bench changes nothing.  Another turn to the bench loses the reading, though its start
fails. -/
theorem readings_serve_eye :
    let s₀ := enter lampsConfiguration lampBench
    let l := Link.ofBus (⟨.empty, 0, (· == 3), "no answer"⟩ : InterruptedBus SimulatedBus)
    let ds : List Demand := [.perform 0 (.store ⟨"eye", "0", "0"⟩), .ask ⟨1, 1⟩ (.switchBench "b"),
      .perform 2 (.store ⟨"eye", "0", "1"⟩), .perform 3 (.store ⟨"ear", "1", "0"⟩),
      .perform 4 (.switchBench "c"), .perform 5 (.store ⟨"eye", "1", "1"⟩)]
    let s := (s₀.serve l ds).2.1
    let r := s.perform 6 (s₀.serve l ds).2.2 (.switchBench "b")
    ofConfiguration lampsConfiguration none = .ok s₀ ∧ s.bench = litBench ∧
      s.readings = [⟨"eye", "1", "1"⟩] ∧ LastBrought lampsConfiguration ds ⟨"eye", "1", "1"⟩ ∧
      r.result = .error (.bus ⟨0x20, 0x12, "no answer"⟩) ∧ r.state.readings = [] := by
  intro s₀ l ds s r
  have h₀ : ofConfiguration lampsConfiguration none = .ok s₀ := rfl
  obtain ⟨hbench, -, hmem, -⟩ := readings_serve h₀ l ds
  have hr : s.readings = [⟨"eye", "1", "1"⟩] := by decide +kernel
  refine ⟨h₀, hbench, hr, ?_, by decide +kernel, by decide +kernel⟩
  have heye : ⟨"eye", "1", "1"⟩ ∈ s.readings := by
    rw [hr]
    exact List.mem_singleton_self _
  exact ((hmem _).mp heye).2

end Station

end PinBench
