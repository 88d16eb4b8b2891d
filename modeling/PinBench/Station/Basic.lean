import PinBench.BringUp
import PinBench.Configuration.Check
import PinBench.Listing.Reading
import PinBench.Command

/-!
# The station

The active bench of a configuration: its rig, its categories and commands, and the last reading
of each of its devices.

* `Station.enter`: a bench, untouched.
* `Station.ofConfiguration`: the station of a configuration that passes its check.
* `Station.start`, `Station.update`, `Station.switchBench`: bringing the bench up.
-/

namespace PinBench

structure Station where
  configuration : Configuration
  bench : Bench
  rig : Rig
  tracker : Tracker
  commands : List Command
  /-- The last reading of each device, in the order of the names. -/
  readings : List Reading
  deriving DecidableEq

namespace Station

/-- The station of a bench before any write. -/
def enter (c : Configuration) (b : Bench) : Station :=
  ⟨c, b, c.rig b, .ofCategories b.categories, b.commands, []⟩

/-- The station of the bench of a name, or of the default one. -/
def ofConfiguration (c : Configuration) (name? : Option String) : Except ConfigError Station := do
  c.check
  let b ← c.bench name?
  .ok (enter c b)

/-! ## Bringing up -/

variable {β : Type}

/-- The station with a rig that may have changed: the categories are stale. -/
def touch (s : Station) (t : Rig) : Station :=
  { s with rig := t, tracker := s.tracker.invalidate }

variable [Bus β]

def broughtUp (s : Station) (l : Link β) : Run Station β Nat :=
  let r := bringUp s.rig l
  ⟨r.result, s.touch r.state, r.link⟩

def start (s : Station) (l : Link β) : Run Station β Unit :=
  let r := s.broughtUp l
  match r.result with
  | .error f => ⟨.error f, r.state, r.link⟩
  | .ok writes =>
    let s := r.state
    let l := r.link.note .info
      s!"bench `{s.bench.name}` started ({s.rig.cards.length} cards, {s.tracker.categories.length} etats, {s.commands.length} commands)"
    ⟨.ok (), s, l.tell (.started s.bench.name writes)⟩

/-- Brings the bench up again as it is. -/
def update (s : Station) (l : Link β) : Run Station β Unit :=
  let r := s.broughtUp l
  match r.result with
  | .error f => ⟨.error f, r.state, r.link⟩
  | .ok writes => ⟨.ok (), r.state, r.link.tell (.refreshed writes)⟩

/-- Leaves the bench for another one of the configuration, which starts from the file. -/
def switchBench (s : Station) (name : String) (l : Link β) : Run Station β Unit :=
  match s.configuration.bench? name with
  | none => ⟨.error (.unknownBench name), s, l⟩
  | some b =>
    (enter s.configuration b).start
      (l.note .info s!"switching bench `{s.bench.name}` -> `{b.name}`")

end Station

end PinBench
