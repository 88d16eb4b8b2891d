import PinBench.Json.Basic

/-!
# Readings

The two lines in which a remote device lists its inputs.

* `Reading`: the lines of one listing, with the device they come from.
* `Reading.insert`: the readings of several devices, at most one each, in the order of the names.
-/

namespace PinBench

structure Reading where
  device : String
  first : String
  second : String
  deriving DecidableEq, Repr

namespace Reading

def toJson (r : Reading) : Json :=
  .obj [("device", .str r.device), ("lines", .arr [.str r.first, .str r.second])]

/-- A reading in its place by the name of the device; it replaces an older one. -/
def insert (r : Reading) : List Reading → List Reading
  | [] => [r]
  | s :: ss =>
    if r.device = s.device then r :: ss
    else if r.device < s.device then r :: s :: ss
    else s :: insert r ss

end Reading

end PinBench
