import PinBench.Station.Basic

/-!
# The rules of the active bench

Whatever depends on the categories refreshes them first.

* `Station.categories`, `Station.category`, `Station.code`: the categories and their codes.
* `Station.availableCommands`, `Station.isAvailable`: what may be dispatched.
* `Station.view`: the bench as it is now.
-/

namespace PinBench.Station

variable {β : Type}

def refresh (s : Station) (now : Nat) (l : Link β) : Run Station β Unit :=
  let r := s.tracker.refreshed s.rig now l
  ⟨r.result.map fun _ => (), { s with tracker := r.state }, r.link⟩

/-- What `f` makes of the station, after a refresh. -/
def afterRefresh {α : Type} (f : Station → Except Fault α) (s : Station) (now : Nat) (l : Link β) :
    Run Station β α :=
  let r := s.refresh now l
  ⟨r.result.bind fun _ => f r.state, r.state, r.link⟩

def categories : Station → Nat → Link β → Run Station β (List Category) :=
  afterRefresh fun s => .ok s.tracker.categories

def category (name : String) : Station → Nat → Link β → Run Station β Category :=
  afterRefresh fun s => s.tracker.category name

/-- The current code of a category. -/
def code (name : String) : Station → Nat → Link β → Run Station β Int32 :=
  afterRefresh fun s => s.tracker.code name

def availableCommands : Station → Nat → Link β → Run Station β (List Command) :=
  afterRefresh fun s => Command.allAvailable s.tracker s.commands

def isAvailable (short : String) : Station → Nat → Link β → Run Station β Bool :=
  afterRefresh fun s => (Command.lookup s.commands short).bind (·.available s.tracker)

/-- The bench with its present levels and codes. -/
def view : Station → Nat → Link β → Run Station β Bench :=
  afterRefresh fun s =>
    .ok ⟨s.bench.name, s.rig.cards, s.tracker.categories, s.commands, s.bench.devices⟩

end PinBench.Station
