import PinBench.Bus.Simulated
import PinBench.Station.Handle

/-!
# The console

The bench on a simulated bus, with a request on every line of the input and its answer on a line
of the output.

* `Invocation.ofArguments`: what the command line asks for.
* `inputLines`: the lines of the input, up to the first that is no text.
* `Session.open?`: a bench brought up.
* `Session.respond`: one line.
* `Session.transcript`: the answers to a whole input.
-/

namespace PinBench.Console

/-! ## The command line -/

/-- What a run of the console is told. -/
structure Options where
  /-- The path of the configuration. -/
  config? : Option String
  /-- The name of the bench to start with. -/
  bench? : Option String
  /-- Whether the devices of the bench are left alone. -/
  offline : Bool
  deriving DecidableEq

def Options.empty : Options := ⟨none, none, false⟩

inductive Invocation where
  | run (o : Options)
  | version
  | help
  /-- The arguments make no sense. -/
  | misuse
  deriving DecidableEq

/-- Whether an argument is an option or the mark that ends them, and so no value of an option. -/
def isOption (a : String) : Bool :=
  match a.toList with
  | '-' :: _ :: _ => true
  | _ => false

/-- An option's name and, after an equals sign, its value. -/
def splitOption (cs : List Char) : String × Option String :=
  match cs.dropWhile (· != '=') with
  | [] => (String.ofList cs, none)
  | _ :: value => (String.ofList (cs.takeWhile (· != '=')), some (String.ofList value))

/-- The options that take a value. -/
def Options.setValue (o : Options) (name value : String) : Option Options :=
  if name = "config" ∧ o.config?.isNone then some { o with config? := some value }
  else if name = "bench" ∧ o.bench?.isNone then some { o with bench? := some value }
  else none

/-- The arguments one after the other; the first that settles the matter does. -/
def Options.parse (o : Options) : List String → Invocation
  | [] => .run o
  | a :: as =>
    match a.toList with
    | ['-', '-'] => if as.isEmpty then .run o else .misuse
    | '-' :: '-' :: cs =>
      match splitOption cs with
      | ("version", none) => .version
      | ("help", none) => .help
      | ("no-telnet", none) => if o.offline then .misuse else { o with offline := true }.parse as
      | (name, some value) =>
        match o.setValue name value with
        | some o => o.parse as
        | none => .misuse
      | (name, none) =>
        match as with
        | value :: as =>
          if isOption value then .misuse
          else match o.setValue name value with
            | some o => o.parse as
            | none => .misuse
        | [] => .misuse
    | '-' :: 'V' :: _ => .version
    | '-' :: 'h' :: _ => .help
    | _ => .misuse

def Invocation.ofArguments (as : List String) : Invocation := Options.empty.parse as

/-- The configuration that is read if none is named. -/
def defaultConfig : String := "config/bench.example.json"

def versionText : String := "testbench 0.2.0"

def helpText : String :=
  "I2C GPIO-expander test bench\n\nUsage: testbench [OPTIONS]\n\nOptions:\n" ++
  "      --config <CONFIG>  Bench configuration file [default: config/bench.example.json]\n" ++
  "      --bench <BENCH>    Bench to activate instead of the file's default\n" ++
  "      --no-telnet        Do not connect to the bench's telnet devices\n" ++
  "  -h, --help             Print help\n" ++
  "  -V, --version          Print version"

/-! ## Lines -/

/-- Bytes under way: the complete lines and the last one, all of them last first. -/
structure ByteLines where
  complete : List (List UInt8)
  last : List UInt8

def ByteLines.push (s : ByteLines) (b : UInt8) : ByteLines :=
  if b = 0x0A then
    let line := match s.last with
      | 0x0D :: bs => bs
      | bs => bs
    ⟨line.reverse :: s.complete, []⟩
  else ⟨s.complete, b :: s.last⟩

/-- The lines of an input.  A line feed ends a line, together with a carriage return before it. -/
def byteLines (input : List UInt8) : List (List UInt8) :=
  let s := input.foldl ByteLines.push ⟨[], []⟩
  (if s.last.isEmpty then s.complete else s.last.reverse :: s.complete).reverse

/-- A line as text, if it is one. -/
def lineText? (bs : List UInt8) : Option String := String.fromUTF8? ⟨bs.toArray⟩

/-- The leading part of a list on which `f` is defined. -/
def someWhile {α γ : Type} (f : α → Option γ) : List α → List γ
  | [] => []
  | a :: as =>
    match f a with
    | some c => c :: someWhile f as
    | none => []

/-- The lines of an input up to the first that is no text. -/
def inputLines (input : List UInt8) : List String := someWhile lineText? (byteLines input)

/-! ## Sessions -/

/-- A bench that is up, with its bus. -/
structure Session where
  station : Station
  bus : SimulatedBus

namespace Session

/-- A session and what was done to open it, or why there is none, in words. -/
def open? (c : Configuration) (bench? : Option String) : Except String (Session × Journal) :=
  match Station.ofConfiguration c bench? with
  | .error e => .error e.message
  | .ok s =>
    let r := s.start (.ofBus .empty)
    match r.result with
    | .error f => .error s!"bench bring-up failed: {f.message}"
    | .ok () => .ok (⟨r.state, r.link.bus⟩, r.link.journal)

/-- The answer to a line that is no request. -/
def refusal (date : Nat) (e : Json.ReadError) : Answer :=
  .failure date "unknown" 400 "INVALID_REQUEST" e.message

/-- The answer to a line and what was done for it; a blank line has none. -/
def respond (s : Session) (clock : Clock) (line : String) : Option Answer × Journal × Session :=
  if (Text.trim line.toList).isEmpty then (none, [], s)
  else match Request.codec.decode line.toList with
    | .error e =>
      (some (refusal clock.date e),
        [.note ⟨.warning, s!"rejected request: {e.message}"⟩], s)
    | .ok q =>
      let (answer, station, link) := s.station.handle clock q (.ofBus s.bus)
      (some answer, link.journal, ⟨station, link.bus⟩)

/-- The answers to some lines, each at its time. -/
def transcript (s : Session) : List (Clock × String) → List Answer
  | [] => []
  | (clock, line) :: rest =>
    let (answer?, _, s) := s.respond clock line
    answer?.toList ++ s.transcript rest

end Session

end PinBench.Console
