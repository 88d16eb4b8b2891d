import PinBench.Answer
import PinBench.Request
import PinBench.Station.Writes

/-!
# Handling requests

* `Station.execute`: what a request does and the data it gives.
* `Station.handle`: the answer to it.
-/

namespace PinBench

/-- The time at which a request is handled: milliseconds of a clock that only counts, and
milliseconds since 1970. -/
structure Clock where
  now : Nat
  date : Nat

namespace Station

variable {β : Type}

/-- A run that only looks. -/
def look {α : Type} (s : Station) (l : Link β) (r : Except Fault α) : Run Station β α :=
  ⟨r, s, l⟩

/-- A run whose result is sent as data. -/
def sent {α : Type} (f : α → Json) (r : Run Station β α) : Run Station β (Option Json) :=
  r.map fun a => some (f a)

/-- A run whose result is not sent. -/
def unsent {α : Type} (r : Run Station β α) : Run Station β (Option Json) :=
  r.map fun _ => none

variable [Bus β]

/-- The arguments of a write to an expander pin. -/
def pinArguments (number pin : Numeral) (level : Level) :
    Except Fault (UInt8 × UInt8 × Bool) := do
  let n ← number.toByte "module"
  let p ← pin.toByte "pin"
  let v ← level.toBool
  .ok (n, p, v)

def execute (s : Station) (now : Nat) (l : Link β) : Request → Run Station β (Option Json)
  | .allCards => sent Card.codec.list.write (s.look l (.ok s.rig.cards))
  | .card c => sent Card.codec.write (s.look l (s.rig.card c))
  | .pin c p => sent CardPin.codec.write (s.look l (s.rig.pin c p))
  | .allExpanders => sent Expander.codec.list.write (s.look l (.ok s.rig.expanders))
  | .expander n =>
    sent Expander.codec.write
      (s.look l ((n.toByte "module").bind (s.rig.expander · .caller)))
  | .pinout => sent PinGroup.codec.list.write (s.look l (.ok s.rig.groups))
  | .allCategories => sent Category.codec.list.write (s.categories now l)
  | .category n => sent Category.codec.write (category n s now l)
  | .allCommands => sent Command.codec.list.write (s.look l (.ok s.commands))
  | .availableCommands => sent Command.codec.list.write (s.availableCommands now l)
  | .readings => sent (fun rs => .arr (rs.map Reading.toJson)) (s.look l (.ok s.readings))
  | .allBenches => sent Bench.codec.list.write (s.look l (.ok s.configuration.benches))
  | .activeBench => sent Bench.codec.write (s.view now l)
  | .writeToCard c p level =>
    match level.toBool with
    | .error f => ⟨.error f, s, l⟩
    | .ok v => unsent (s.writeCard c p v l)
  | .writeToExpander number pin level =>
    match pinArguments number pin level with
    | .error f => ⟨.error f, s, l⟩
    | .ok (n, p, v) => unsent (s.writePin n p v l)
  | .sendCommand n force => unsent (s.sendCommand n force now l)
  | .updateRegisters => unsent (s.update l)
  | .switchBench n =>
    let r := s.switchBench n l
    match r.result with
    | .error f => ⟨.error f, r.state, r.link⟩
    | .ok () => sent Bench.codec.write (r.state.view now r.link)

/-- A request with its answer. -/
def handle (s : Station) (clock : Clock) (q : Request) (l : Link β) :
    Answer × Station × Link β :=
  let r := s.execute clock.now l q
  match r.result with
  | .ok data => (.ok clock.date q.name data, r.state, r.link)
  | .error f =>
    (.ofFault clock.date q.name f, r.state,
      r.link.note .warning s!"{q.name}: {f.message} ({f.tag})")

end Station

end PinBench
