import PinBench.Station.Rules

/-!
# Writes to the active bench

Every write that may have changed a level makes the categories stale, and is told as an event.

* `Station.writeCard`, `Station.writePin`: one pin.
* `Station.sendCommand`: the pins of a command, up to the first fault.
* `Station.store`: the reading of a device.
-/

namespace PinBench.Station

variable {β : Type}

/-! ## Pins -/

/-- The station after a pin write, with its event. -/
def track (s : Station) (r : Run Rig β Outcome) : Run Station β Outcome :=
  match r.result with
  | .ok .unchanged => ⟨r.result, { s with rig := r.state }, r.link⟩
  | .ok (.written w) => ⟨r.result, s.touch r.state, r.link.tell (.registerWritten w)⟩
  | .error f =>
    if f.isBus then ⟨r.result, s.touch r.state, r.link.tell (.busFault f.message)⟩
    else ⟨r.result, { s with rig := r.state }, r.link⟩

variable [Bus β]

def writeCard (s : Station) (card label : String) (level : Bool) (l : Link β) :
    Run Station β Outcome :=
  s.track (PinBench.writeCard s.rig l card label level)

def writePin (s : Station) (expander pin : UInt8) (level : Bool) (l : Link β) :
    Run Station β Outcome :=
  s.track (PinBench.writePin s.rig l expander pin level)

/-! ## Commands -/

/-- Card pins in turn, up to the first fault, with the number of register writes. -/
def writeCards (s : Station) (l : Link β) (count : Nat) :
    List (String × String × Bool) → Run Station β Nat
  | [] => ⟨.ok count, s, l⟩
  | (card, label, level) :: rest =>
    let r := s.writeCard card label level l
    match r.result with
    | .error f => ⟨.error f, r.state, r.link⟩
    | .ok o => writeCards r.state r.link (count + o.count) rest

/-- Dispatches a command: its pins are written, and the event follows if no write fails. -/
def dispatch (s : Station) (c : Command) (force : Bool) (l : Link β) : Run Station β Nat :=
  let r := s.writeCards l 0 c.writes
  match r.result with
  | .error _ => r
  | .ok count =>
    let mark := if force then " with force" else ""
    let l := r.link.note .info
      s!"command `{c.shortName}` ({c.name}) dispatched{mark}, {count} register writes"
    { r with link := l.tell (.commandDispatched c.shortName force count) }

/-- Dispatches the command of a short name, if it is available or forced. -/
def sendCommand (s : Station) (short : String) (force : Bool) (now : Nat) (l : Link β) :
    Run Station β Nat :=
  let r := afterRefresh (fun s => Command.resolve s.tracker s.commands short force) s now l
  match r.result with
  | .error f => ⟨.error f, r.state, r.link⟩
  | .ok c => r.state.dispatch c force r.link

/-! ## Readings -/

/-- Keeps a reading if the bench has its device, and tells whether it did. -/
def store (s : Station) (r : Reading) (l : Link β) : Bool × Station × Link β :=
  if s.bench.devices.any (·.name == r.device) then
    (true, { s with readings := r.insert s.readings }, l.tell (.readingStored r.device))
  else
    (false, s, l.note .warning s!"telnet reading from unknown device `{r.device}` ignored")

end PinBench.Station
