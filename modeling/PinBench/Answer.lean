import PinBench.Fault
import PinBench.Json.Basic

/-!
# Answers

Every request gets an answer: what was asked, when it was answered, how it went, and the data if
there are any.

* `Answer.ok`, `Answer.failure`, `Answer.ofFault`: how it went.
* `Answer.toJson`: the answer as it is sent.
-/

namespace PinBench

structure Status where
  code : UInt16
  message : String
  /-- The kind of failure. -/
  tag? : Option String

structure Answer where
  /-- Milliseconds since 1970. -/
  date : Nat
  /-- The name of the request. -/
  request : String
  data? : Option Json
  status : Status

namespace Answer

def ok (date : Nat) (request : String) (data? : Option Json) : Answer :=
  ⟨date, request, data?, ⟨200, "OK", none⟩⟩

def failure (date : Nat) (request : String) (code : UInt16) (tag message : String) : Answer :=
  ⟨date, request, none, ⟨code, message, some tag⟩⟩

def ofFault (date : Nat) (request : String) (f : Fault) : Answer :=
  failure date request f.status f.tag f.message

def isOk (e : Answer) : Bool := e.status.code == 200

/-- The members of an answer; data and kind of failure only if there are any. -/
def toJson (e : Answer) : Json :=
  .obj (("date", .int e.date) :: ("dataName", .str e.request) ::
    (e.data?.elim [] fun d => [("data", d)]) ++
    [("status", .obj (("code", .int e.status.code.toNat) :: ("message", .str e.status.message) ::
      e.status.tag?.elim [] fun t => [("kind", .str t)]))])

end Answer

end PinBench
