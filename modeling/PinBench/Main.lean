import PinBench.Console
import Std.Time.DateTime.Timestamp

/-!
# The program

Standard input and output around the console.  The log goes to standard error.
-/

namespace PinBench.Console

def severityWord : Severity → String
  | .error => "ERROR"
  | .warning => "WARN"
  | .info => "INFO"
  | .debug => "DEBUG"

/-- Writes the log of a journal, without what is only of use in a search for errors. -/
def report (j : Journal) : IO Unit :=
  j.notes.forM fun n => do
    if n.severity ≠ .debug then IO.eprintln s!"[{severityWord n.severity}] {n.text}"

/-- The time since the program started at `start`, and the time of day. -/
def readClock (start : Nat) : IO Clock := do
  let now ← IO.monoMsNow
  let date ← Std.Time.Timestamp.now
  return ⟨now - start, date.toMillisecondsSinceUnixEpoch.val.toNat⟩

def readConfiguration (path : String) : IO (Except ConfigError Configuration) := do
  try
    let bytes ← IO.FS.readBinFile path
    return Configuration.ofBytes bytes
  catch
    | .noFileOrDirectory .. => return .error (.file .missing)
    | e => return .error (.file (.other (toString e)))

/-- One line of standard input, byte by byte; none at the end. -/
partial def readLine? (input : IO.FS.Stream) (line : List UInt8) : IO (Option (List UInt8)) := do
  let b ← input.read 1
  match b.toList with
  | [] => return if line.isEmpty then none else some line.reverse
  | b :: _ => if b = 0x0A then return some (b :: line).reverse else readLine? input (b :: line)

/-- Answers line after line until the input ends or is no text. -/
partial def serve (start : Nat) (input output : IO.FS.Stream) (s : Session) : IO UInt32 := do
  match ← readLine? input [] with
  | none => return 0
  | some bytes =>
    match inputLines bytes with
    | [] => return 0
    | line :: _ =>
      let (answer?, journal, s) := s.respond (← readClock start) line
      report journal
      match answer? with
      | some a =>
        output.putStrLn a.toJson.render
        output.flush
      | none => pure ()
      serve start input output s

def run (o : Options) : IO UInt32 := do
  let start ← IO.monoMsNow
  match ← readConfiguration (o.config?.getD defaultConfig) with
  | .error e =>
    IO.eprintln e.message
    return 1
  | .ok c =>
    match Session.open? c o.bench? with
    | .error e =>
      IO.eprintln e
      return 1
    | .ok (s, journal) =>
      report journal
      serve start (← IO.getStdin) (← IO.getStdout) s

end PinBench.Console

open PinBench.Console in
def main (arguments : List String) : IO UInt32 := do
  match Invocation.ofArguments arguments with
  | .run o => run o
  | .version =>
    IO.println versionText
    return 0
  | .help =>
    IO.println helpText
    return 0
  | .misuse =>
    IO.eprintln helpText
    return 2
