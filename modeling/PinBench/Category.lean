import PinBench.Target

/-!
# Categories

A category sorts the present levels of the bench into coded states.

* `CodedState`: a state of a category, with the targets that make it up.
* `Category.find`: the first state whose targets are all met.
* `Category.settle`: the category with that state as its current one.
-/

namespace PinBench

open Json (Codec Fields)

/-! ## States -/

structure CodedState where
  name : String
  code : Int32
  targets : List Target
  deriving DecidableEq

namespace CodedState

def codec : Codec CodedState :=
  (Fields.cons (.required "name" .text) <|
    .cons (.required "code" .int32) <|
    .cons (.withDefault "outputs" (.list Target.codec) []) .nil).record
  (fun (name, code, targets, ()) => ⟨name, code, targets⟩)
  (fun s => (s.name, s.code, s.targets, ()))

/-- Whether all of some targets are met, up to the first that is not. -/
def allMet (t : Rig) : List Target → Except Fault Bool
  | [] => .ok true
  | g :: gs => do
    if ← g.met t then allMet t gs else .ok false

def matched (t : Rig) (s : CodedState) : Except Fault Bool :=
  allMet t s.targets

end CodedState

/-! ## Categories -/

/-- The code of a category none of whose states matches. -/
def noCode : Int32 := -1

structure Category where
  name : String
  states : List CodedState
  /-- The code of the current state, as of the last evaluation. -/
  code : Int32
  /-- The name of the current state, if one matched. -/
  current? : Option String
  deriving DecidableEq

namespace Category

def codec : Codec Category :=
  (Fields.cons (.required "name" .text) <|
    .cons (.withDefault "states" (.list CodedState.codec) []) <|
    .cons (.withDefault "actualCode" .int32 noCode) <|
    .cons (.ofOption "actualState" .text) .nil).record
  (fun (name, states, code, current, ()) => ⟨name, states, code, current⟩)
  (fun c => (c.name, c.states, c.code, c.current?, ()))

/-- The first state that matches. -/
def firstMatch (t : Rig) : List CodedState → Except Fault (Option CodedState)
  | [] => .ok none
  | s :: ss => do
    if ← s.matched t then .ok (some s) else firstMatch t ss

def find (t : Rig) (c : Category) : Except Fault (Option CodedState) :=
  firstMatch t c.states

/-- The category with `s` as its current state. -/
def settle (c : Category) : Option CodedState → Category
  | some s => { c with code := s.code, current? := some s.name }
  | none => { c with code := noCode, current? := none }

end Category

end PinBench
