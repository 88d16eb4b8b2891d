import PinBench.Bus.Basic
import PinBench.Category

/-!
# The tracker

The categories of the active bench with their current states, evaluated again at most once a second
unless a write has made them stale.

* `Tracker.due`: whether a refresh evaluates.
* `Tracker.evaluate`: every category, sorted anew.
* `Tracker.refresh`: an evaluation if one is due.
* `Tracker.refreshed`, `Tracker.codeNow`: the same with a note in the journal.
-/

namespace PinBench

/-- The least time between two evaluations, in milliseconds. -/
def refreshInterval : Nat := 1000

structure Tracker where
  categories : List Category
  /-- When the last evaluation ran, unless it is stale. -/
  refreshed? : Option Nat
  deriving DecidableEq

namespace Tracker

def ofCategories (cs : List Category) : Tracker := ⟨cs, none⟩

/-- Whether an evaluation is due: a clock that goes back does not make one due. -/
def due (k : Tracker) (now : Nat) : Bool :=
  match k.refreshed? with
  | none => true
  | some last => refreshInterval ≤ now - last

/-- The categories sorted anew, or the first fault. -/
def evaluate (t : Rig) : List Category → Except Fault (List Category)
  | [] => .ok []
  | c :: cs => do
    let s ← c.find t
    let rest ← evaluate t cs
    .ok (c.settle s :: rest)

/-- Evaluates if that is due, and tells whether it did.  A fault leaves the tracker as it is. -/
def refresh (t : Rig) (now : Nat) (k : Tracker) : Except Fault (Bool × Tracker) :=
  if k.due now then do
    let cs ← evaluate t k.categories
    .ok (true, ⟨cs, some now⟩)
  else .ok (false, k)

/-- Makes the next refresh evaluate. -/
def invalidate (k : Tracker) : Tracker := { k with refreshed? := none }

def category (k : Tracker) (name : String) : Except Fault Category :=
  match k.categories.find? (·.name == name) with
  | some c => .ok c
  | none => .error (.unknownCategory name)

/-- The current code of a category. -/
def code (k : Tracker) (name : String) : Except Fault Int32 :=
  (k.category name).map Category.code

/-! ## In the journal -/

variable {β : Type}

/-- A refresh; an evaluation leaves a note. -/
def refreshed (k : Tracker) (t : Rig) (now : Nat) (l : Link β) : Run Tracker β Bool :=
  match k.refresh t now with
  | .error f => ⟨.error f, k, l⟩
  | .ok (true, k) =>
    ⟨.ok true, k, l.note .debug s!"etats: refreshed {k.categories.length} categories at {now} ms"⟩
  | .ok (false, k) => ⟨.ok false, k, l⟩

def codeNow (k : Tracker) (t : Rig) (name : String) (now : Nat) (l : Link β) :
    Run Tracker β Int32 :=
  let r := k.refreshed t now l
  ⟨r.result.bind fun _ => r.state.code name, r.state, r.link⟩

end Tracker

end PinBench
