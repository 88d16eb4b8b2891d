import PinBench.Tracker

/-!
# Commands

A command is a batch of pin levels that the categories may allow or not.

* `Condition.met`: a condition on the code of a category.
* `Command.available`: the conditions of a command, an "or" of "and"s.
* `Command.writes`: the card pins of a command, in the order of dispatch.
* `Command.resolve`: the command to dispatch under a name.
-/

namespace PinBench

open Json (Codec Fields)

/-! ## Conditions -/

/-- A condition on the code of a category: to be at `code`, or anywhere but at `-code` if that is
negative. -/
structure Condition where
  category : String
  code : Int32
  deriving DecidableEq

namespace Condition

def codec : Codec Condition :=
  (Fields.cons (.required "etat" .text) <|
    .cons (.required "code" .int32) .nil).record
  (fun (category, code, ()) => ⟨category, code⟩)
  (fun c => (c.category, c.code, ()))

/-- The number of opposite sign; the least number has none, and the greatest stands for it. -/
def opposite (n : Int32) : Int32 :=
  if n = Int32.minValue then Int32.maxValue else -n

/-- Whether a category at code `actual` meets a condition with code `code`. -/
def allows (code actual : Int32) : Bool :=
  if 0 ≤ code then actual == code else actual != opposite code

def met (k : Tracker) (c : Condition) : Except Fault Bool :=
  (k.code c.category).map (allows c.code)

/-- Whether all of some conditions are met, up to the first that is not. -/
def allMet (k : Tracker) : List Condition → Except Fault Bool
  | [] => .ok true
  | c :: cs => do
    if ← c.met k then allMet k cs else .ok false

/-- Whether the conditions of some group are all met, up to the first such group. -/
def anyMet (k : Tracker) : List (List Condition) → Except Fault Bool
  | [] => .ok false
  | g :: gs => do
    if ← allMet k g then .ok true else anyMet k gs

end Condition

/-! ## Commands -/

structure Command where
  name : String
  /-- The name by which the command is called. -/
  shortName : String
  /-- Groups of conditions; all conditions of one group have to be met. -/
  conditions : List (List Condition)
  targets : List Target
  deriving DecidableEq

namespace Command

def codec : Codec Command :=
  (Fields.cons (.required "name" .text) <|
    .cons (.required "shortName" .text) <|
    .cons (.withDefault "conditions" (.list (.list Condition.codec)) []) <|
    .cons (.withDefault "outputs" (.list Target.codec) []) .nil).record
  (fun (name, short, conditions, targets, ()) => ⟨name, short, conditions, targets⟩)
  (fun c => (c.name, c.shortName, c.conditions, c.targets, ()))

/-- Whether a command may be dispatched; one without conditions always may. -/
def available (k : Tracker) (c : Command) : Except Fault Bool :=
  if c.conditions.isEmpty then .ok true else Condition.anyMet k c.conditions

/-- The card pins of a command with their levels, in the order of dispatch. -/
def writes (c : Command) : List (String × String × Bool) :=
  c.targets.flatMap Target.writes

/-- The command of a short name. -/
def lookup (cs : List Command) (short : String) : Except Fault Command :=
  match cs.find? (·.shortName == short) with
  | some c => .ok c
  | none => .error (.unknownCommand short)

/-- The commands that may be dispatched. -/
def allAvailable (k : Tracker) : List Command → Except Fault (List Command)
  | [] => .ok []
  | c :: cs => do
    let here ← c.available k
    let rest ← allAvailable k cs
    .ok (if here then c :: rest else rest)

/-- The command to dispatch: one that is not available needs force. -/
def resolve (k : Tracker) (cs : List Command) (short : String) (force : Bool) :
    Except Fault Command := do
  let c ← lookup cs short
  if force then .ok c
  else if ← c.available k then .ok c
  else .error (.forbiddenCommand short)

end Command

end PinBench
