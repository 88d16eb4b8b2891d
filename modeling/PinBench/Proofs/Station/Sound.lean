import PinBench.Proofs.Station.Faithful
import PinBench.Proofs.Station.Moves

/-!
# What a station has from its file

There is no station for a configuration that fails its check, and an operation changes register
bytes and levels but no names.  So what the check makes sure of holds of every station.

* `Reachable.check`, `Reachable.sound`: the configuration, and the active bench.
* `Reachable.shape`: **the rig has the shape that it has in the file**.
* `Reachable.names`, `Reachable.find?_command`: cards and commands are found under their names.
* `Reachable.exists_of_scratch`: **categories that cannot be evaluated look at a card pin that is
  not in the file**.
-/

namespace PinBench

namespace Reachable

variable {c : Configuration} {s : Station}

theorem check (h : Reachable c s) : c.check = .ok () := by
  induction h with
  | new h => exact (Station.entered h).1
  | perform h l now op ih => exact ih

theorem sound (h : Reachable c s) : s.bench.Sound c.hardware :=
  (Configuration.check_eq_ok.mp h.check).2.1 s.bench h.faithful.bench

/-- **The rig has the shape that it has in the file.** -/
theorem shape (h : Reachable c s) : s.rig.shape = (c.rig s.bench).shape := by
  induction h with
  | new h =>
    obtain ⟨-, b, -, rfl⟩ := Station.entered h
    rfl
  | @perform s h β _ l now op ih =>
    rw [Station.shape_perform, (s.stays_perform now l op).bench]
    cases ht : op.target? s with
    | none => rw [Station.rig_of_no_target ht, Station.ground_of_no_target ht, ih]
    | some b =>
      rw [Station.rig_of_target ht, Station.ground_of_target ht, h.faithful.configuration]
      rfl

theorem names (h : Reachable c s) : (s.rig.cards.map Card.name).Nodup := by
  rw [Rig.names_of_shape h.shape]
  exact h.sound.names

theorem find?_command (h : Reachable c s) {d : Command} (hd : d ∈ s.bench.commands) :
    s.bench.commands.find? (·.shortName == d.shortName) = some d :=
  find?_of_mem Command.shortName h.sound.commands hd

/-- **Categories that cannot be evaluated look at a card pin that is not in the file.** -/
theorem exists_of_scratch (h : Reachable c s) {f : Fault} (hf : s.scratch = .error f) :
    ∃ e ∈ s.bench.categories, ∃ x ∈ e.pins, (c.rig s.bench).pin x.1 x.2 = .error f := by
  obtain ⟨e, hm, x, hx, hp⟩ := Tracker.exists_of_evaluate (error_of_map hf)
  exact ⟨e, hm, x, hx, Rig.pin_error_of_shape h.shape.symm hp⟩

end Reachable

end PinBench
