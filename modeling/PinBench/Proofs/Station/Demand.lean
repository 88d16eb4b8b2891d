import PinBench.Proofs.Station.Operation
import PinBench.Station.Handle

/-!
# Demands on a station

A station is used in two ways: its operations are called, and requests are handed to it.  A run of
the station is any number of such demands in turn.

* `Demand`: an operation with its time, or a request.
* `Given`: what is given back for it, a result or an answer.
* `Station.meet`, `Station.serve`: one demand, and a run of them.
* `Station.serve_concat`: the last demand of a run is met by what the run before it has left.
-/

namespace PinBench

/-- What may be demanded of a station. -/
inductive Demand where
  | perform (now : Nat) (op : Operation)
  | ask (clock : Clock) (q : Request)

/-- What is given back for a demand. -/
inductive Given where
  | result (r : Except Fault Value)
  | answer (a : Answer)

namespace Station

variable {β : Type} [Bus β]

def meet (s : Station) (l : Link β) : Demand → Given × Station × Link β
  | .perform now op =>
    let r := s.perform now l op
    (.result r.result, r.state, r.link)
  | .ask clock q =>
    let (a, s, l) := s.handle clock q l
    (.answer a, s, l)

/-- Demands in turn: what is given back, and what is left in the end. -/
def serve (s : Station) (l : Link β) : List Demand → List Given × Station × Link β
  | [] => ([], s, l)
  | d :: ds =>
    let x := s.meet l d
    let rest := x.2.1.serve x.2.2 ds
    (x.1 :: rest.1, rest.2)

theorem serve_concat (s : Station) (l : Link β) (ds : List Demand) (d : Demand) :
    (s.serve l (ds ++ [d])).2 = ((s.serve l ds).2.1.meet (s.serve l ds).2.2 d).2 := by
  induction ds generalizing s l with
  | nil => rfl
  | cons e ds ih => exact ih (s.meet l e).2.1 (s.meet l e).2.2

end Station

end PinBench
