import PinBench.Fault

/-!
# The journal

What an operation did besides changing the bench: the writes it tried, the events it told of and
the notes it took, in order.

* `Note`: a line of the log.
* `Event`: what the bench tells of, and `Event.note`, its line of the log.
* `Entry`: one of the three.
* `attempts`, `writes`, `events`, `notes`: a journal by kind.
-/

namespace PinBench

/-! ## Notes -/

inductive Severity where
  | error
  | warning
  | info
  | debug
  deriving DecidableEq, Repr

structure Note where
  severity : Severity
  text : String
  deriving DecidableEq, Repr

/-! ## Events -/

inductive Event where
  /-- The bench is up, after so many register writes for its pins. -/
  | started (bench : String) (writes : Nat)
  /-- The bench was brought up again as it was. -/
  | refreshed (writes : Nat)
  | registerWritten (w : RegisterWrite)
  /-- A register write was lost on the bus. -/
  | busFault (text : String)
  | commandDispatched (shortName : String) (forced : Bool) (writes : Nat)
  | readingStored (device : String)
  deriving DecidableEq, Repr

def Event.note : Event → Note
  | started bench writes => ⟨.info, s!"START | bench={bench} | init_writes={writes}"⟩
  | refreshed writes => ⟨.info, s!"REGS  | refreshed | init_writes={writes}"⟩
  | registerWritten w =>
    ⟨.info, s!"WRITE | {Text.hexText w.address}[{Text.hexText w.register}] = {Text.bitText w.value}"⟩
  | busFault text => ⟨.warning, s!"FAULT | {text}"⟩
  | commandDispatched short forced writes =>
    ⟨.info, s!"CMD   | {short} | forced={forced} | writes={writes}"⟩
  | readingStored device => ⟨.info, s!"INPUT | {device}"⟩

/-! ## Journals -/

inductive Entry where
  /-- A write that was tried, and why it failed if it did. -/
  | attempt (w : RegisterWrite) (failure? : Option String)
  | event (e : Event)
  | note (n : Note)
  deriving DecidableEq, Repr

/-- Entries, the oldest first. -/
abbrev Journal := List Entry

namespace Journal

def attempts (j : Journal) : List (RegisterWrite × Option String) :=
  j.filterMap fun
    | .attempt w f => some (w, f)
    | _ => none

/-- The writes that got through. -/
def writes (j : Journal) : List RegisterWrite :=
  j.filterMap fun
    | .attempt w none => some w
    | _ => none

def events (j : Journal) : List Event :=
  j.filterMap fun
    | .event e => some e
    | _ => none

/-- The log: the notes, and a line for each event. -/
def notes (j : Journal) : List Note :=
  j.filterMap fun
    | .note n => some n
    | .event e => some e.note
    | .attempt .. => none

@[simp] theorem attempts_append (j k : Journal) : (j ++ k).attempts = j.attempts ++ k.attempts :=
  List.filterMap_append

@[simp] theorem writes_append (j k : Journal) : (j ++ k).writes = j.writes ++ k.writes :=
  List.filterMap_append

@[simp] theorem events_append (j k : Journal) : (j ++ k).events = j.events ++ k.events :=
  List.filterMap_append

@[simp] theorem notes_append (j k : Journal) : (j ++ k).notes = j.notes ++ k.notes :=
  List.filterMap_append

end Journal

end PinBench
