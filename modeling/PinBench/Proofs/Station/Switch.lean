import PinBench.Proofs.Station.Alike
import PinBench.Proofs.Station.Sound

/-!
# A switch is a fresh start

A switch of the bench takes nothing along: whatever the station has been through, it goes on as one
that was made for that bench and then started.

* `Station.ofConfiguration_eq_enter`: a station for a bench is that bench, entered.
* `Reachable.switchBench_fresh`: **a switch to a bench is a start of a new station for it**, on a
  bus that refuses the same attempts, and **a switch to no bench does nothing**.
-/

namespace PinBench

namespace Station

theorem ofConfiguration_eq_enter {c : Configuration} (hc : c.check = .ok ()) {name : String}
    {b : Bench} (hb : c.bench? name = some b) :
    ofConfiguration c (some name) = .ok (enter c b) := by
  have hn : c.bench (some name) = .ok b := Configuration.bench_eq_ok.mpr hb
  rw [ofConfiguration, hc, ok_bind, hn, ok_bind]

theorem switchBench_of_bench {s : Station} {name : String} {b : Bench}
    (hb : s.configuration.bench? name = some b) {R : String → String → Prop} {β δ : Type} [Bus β]
    [Bus δ] {l : Link β} {l' : Link δ} (hl : l.Alike R l') :
    (s.switchBench name l).Alike R (· = ·) ((enter s.configuration b).start l') := by
  rw [switchBench, hb]
  -- the note of the switch is all that a start on its own does not have
  have hn := hl.quiet (l.quiet_note .info s!"switching bench `{s.bench.name}` -> `{b.name}`")
    (.refl l')
  have h₀ := Alike.refl Tracker.lasting_eq (enter s.configuration b)
  exact (h₀.start Tracker.lasting_eq hn).exact

end Station

/-- **A switch to a bench is a start of a new station for it**, whatever has been done before, if
the buses refuse the same attempts: results, attempts and events are the same up to the reasons that
the buses give, and the stations are the same in everything.  **A switch to no bench does
nothing.** -/
theorem Reachable.switchBench_fresh {c : Configuration} {s : Station} (h : Reachable c s)
    (name : String) :
    ((∃ b ∈ c.benches, b.name = name) → ∃ s₀, Station.ofConfiguration c (some name) = .ok s₀ ∧
      ∀ {R : String → String → Prop} {β δ : Type} [Bus β] [Bus δ] {b : β} {d : δ},
        Bus.Alike R b d →
        let r := s.switchBench name (.ofBus b)
        let r' := s₀.start (.ofBus d)
        r.Alike R (· = ·) r' ∧ ((∀ x y, R x y → x = y) →
          r.result = r'.result ∧ r.link.journal.deeds = r'.link.journal.deeds)) ∧
    ((∀ b ∈ c.benches, b.name ≠ name) → ∀ {β : Type} [Bus β] (l : Link β),
      s.switchBench name l = ⟨.error (.unknownBench name), s, l⟩) := by
  have hs := h.faithful.configuration
  constructor
  · rintro ⟨b₀, hb₀, hn⟩
    obtain ⟨b, hb⟩ : ∃ b, c.bench? name = some b := by
      rw [← Option.isSome_iff_exists]
      exact List.find?_isSome.mpr ⟨b₀, hb₀, beq_iff_eq.mpr hn⟩
    refine ⟨Station.enter c b, Station.ofConfiguration_eq_enter h.check hb, ?_⟩
    intro R β δ _ _ x y hxy
    have hl := Link.alike_ofBus hxy
    rw [← hs] at hb ⊢
    have hr := Station.switchBench_of_bench hb hl
    exact ⟨hr, hr.result_eq_and_deeds_eq⟩
  · intro hn β _ l
    have hb : s.configuration.bench? name = none := by
      rw [hs, Configuration.bench?, List.find?_eq_none]
      intro b hb he
      exact hn b hb (beq_iff_eq.mp he)
    rw [Station.switchBench, hb]

namespace Station

/-- A bench whose lamp is lit in the file, and which a device looks at. -/
def litBench : Bench :=
  ⟨"b", [⟨"J1", [⟨"A", ⟨1, 0⟩, some true⟩]⟩], [], [], [⟨"eye", "eye", 23, ""⟩]⟩

/-- The bench of the lamp, and one whose lamp is lit in the file. -/
def lampsConfiguration : Configuration :=
  { lampConfiguration with benches := [lampBench, litBench] }

/-- The first bench has been lit and left for the other one, which has stored a reading and gone
dark.  Switched to again, on a bus that refuses the level of its lamp, that bench is as if it were
new. -/
theorem switchBench_fresh_lamps :
    let l := Link.ofBus SimulatedBus.empty
    let s := ((enter lampsConfiguration lampBench).perform 0 l .start).state
    let s := (s.perform 1 l (.sendCommand "lit" false)).state
    let s := (s.perform 2 l (.switchBench "b")).state
    let s := (s.perform 3 l (.store ⟨"eye", "1", "0"⟩)).state
    let s := (s.perform 4 l (.write (.card "J1" "A" false))).state
    let worn : List RegisterWrite → InterruptedBus SimulatedBus :=
      fun log => ⟨⟨log, []⟩, 0, (· == 1), "no answer"⟩
    let r := s.switchBench "b" (.ofBus (worn [⟨0x20, 0x12, 0⟩]))
    let r' := (enter lampsConfiguration litBench).start (.ofBus (worn []))
    Reachable lampsConfiguration s ∧ s.readings = [⟨"eye", "1", "0"⟩] ∧
      s.rig.level "J1" "A" = .ok false ∧
      r.result = .error (.bus ⟨0x20, 0x12, "no answer"⟩) ∧ r.state = r'.state ∧
      r.result = r'.result ∧ r.link.journal.deeds = r'.link.journal.deeds ∧
      s.switchBench "c" l = ⟨.error (.unknownBench "c"), s, l⟩ := by
  intro l s₁ s₂ s₃ s₄ s worn
  have h₀ : ofConfiguration lampsConfiguration none =
      .ok (enter lampsConfiguration lampBench) := rfl
  have h₁ := (Reachable.new h₀).perform l 0 .start
  have h₂ := h₁.perform l 1 (.sendCommand "lit" false)
  have h₃ := h₂.perform l 2 (.switchBench "b")
  have h₄ := h₃.perform l 3 (.store ⟨"eye", "1", "0"⟩)
  have h : Reachable lampsConfiguration s := h₄.perform l 4 (.write (.card "J1" "A" false))
  have hsim : Bus.Alike (· = ·) (⟨[⟨0x20, 0x12, 0⟩], []⟩ : SimulatedBus)
      (⟨[], []⟩ : SimulatedBus) :=
    SimulatedBus.alike (fun _ => rfl) rfl
  have hw : Bus.Alike (· = ·) (worn [⟨0x20, 0x12, 0⟩]) (worn []) :=
    InterruptedBus.alike hsim rfl 0 (· == 1)
  obtain ⟨s₀, hs₀, hsame⟩ := (h.switchBench_fresh "b").1 ⟨litBench, by decide, rfl⟩
  obtain rfl : enter lampsConfiguration litBench = s₀ := Except.ok.inj hs₀
  obtain ⟨hr, he⟩ := hsame hw
  obtain ⟨hres, hdeeds⟩ := he fun _ _ h => h
  have hno := (h.switchBench_fresh "c").2 (by decide) l
  exact ⟨h, by decide +kernel, by decide +kernel, by decide +kernel, hr.state, hres, hdeeds, hno⟩

end Station

end PinBench
