import PinBench.Configuration.Basic
import PinBench.Journal

/-!
# Checking a configuration

A configuration is checked as a whole before it is used; nothing is mended, and the first problem
is the one that is told.

* `Problem`: what can be wrong with the hardware or a bench.
* `Configuration.problem?`: the first problem, in the order of the file.
* `Configuration.check`: no problem, and a default bench that exists.
-/

namespace PinBench

/-! ## Problems -/

inductive BenchProblem where
  | cardTwice (card : String)
  /-- A card pin that is wired to an expander which is not there. -/
  | dangling (card label : String) (expander : UInt8)
  | wiredTwice (w : Wiring)
  | commandTwice (shortName : String)
  | noHost (device : String)
  deriving DecidableEq

inductive Problem where
  | expanderTwice (number : UInt8)
  | longGroup (register : UInt64) (size : Nat)
  | pinTwice (pin : UInt8)
  | noRegister (expander : UInt8) (register : UInt64)
  | inBench (bench : String) (p : BenchProblem)
  deriving DecidableEq

def BenchProblem.message : BenchProblem → String
  | cardTwice card => s!"card `{card}` is declared twice"
  | dangling card label expander => s!"pin {card}/{label} references unknown module {expander}"
  | wiredTwice w => s!"module {w.expander} pin {w.pin} is wired to more than one card pin"
  | commandTwice short => s!"command `{short}` is declared twice"
  | noHost device => s!"telnet device `{device}` has no host"

def Problem.message : Problem → String
  | expanderTwice number => s!"module address {number} is declared twice"
  | longGroup register size => s!"pinout group for register {register} has {size} pins (max 8)"
  | pinTwice pin => s!"pin {pin} appears in more than one pinout group"
  | noRegister expander register => s!"module {expander} has no register {register}"
  | inBench bench p => s!"bench `{bench}`: {p.message}"

/-! ## Finding the first -/

/-- The first element that is in `seen` or occurs before. -/
def firstRepeat? {α : Type} [DecidableEq α] (seen : List α) : List α → Option α
  | [] => none
  | a :: as => if a ∈ seen then some a else firstRepeat? (a :: seen) as

namespace Hardware

/-- The first expander that lacks a register. -/
def lacking? (h : Hardware) (register : UInt64) : Option Expander :=
  h.expanders.find? fun e => (e.registers.get? register.toNat).isNone

def groupsProblem? (h : Hardware) (seen : List UInt8) : List PinGroup → Option Problem
  | [] => none
  | g :: gs =>
    if 8 < g.pins.length then some (.longGroup g.register g.pins.length)
    else match firstRepeat? seen g.pins with
      | some pin => some (.pinTwice pin)
      | none => match h.lacking? g.register with
        | some e => some (.noRegister e.number g.register)
        | none => h.groupsProblem? (g.pins ++ seen) gs

def problem? (h : Hardware) : Option Problem :=
  match firstRepeat? [] (h.expanders.map (·.number)) with
  | some number => some (.expanderTwice number)
  | none => h.groupsProblem? [] h.groups

end Hardware

namespace Bench

/-- The first problem with the pins of a card, when the pins of `wired` are taken. -/
def pinsProblem? (h : Hardware) (card : String) (wired : List Wiring) :
    List CardPin → Option BenchProblem
  | [] => none
  | p :: ps =>
    if h.expanders.any (·.number == p.wiring.expander) then
      if p.wiring ∈ wired then some (.wiredTwice p.wiring)
      else pinsProblem? h card (p.wiring :: wired) ps
    else some (.dangling card p.label p.wiring.expander)

def cardsProblem? (h : Hardware) (names : List String) (wired : List Wiring) :
    List Card → Option BenchProblem
  | [] => none
  | c :: cs =>
    if c.name ∈ names then some (.cardTwice c.name)
    else match pinsProblem? h c.name wired c.pins with
      | some p => some p
      | none => cardsProblem? h (c.name :: names) (c.pins.map (·.wiring) ++ wired) cs

/-- Whether a text is nothing but blanks. -/
def isVoid (s : String) : Bool := (Text.trim s.toList).isEmpty

def problem? (h : Hardware) (b : Bench) : Option BenchProblem :=
  match cardsProblem? h [] [] b.cards with
  | some p => some p
  | none => match firstRepeat? [] (b.commands.map (·.shortName)) with
    | some short => some (.commandTwice short)
    | none => (b.devices.find? fun d => isVoid d.host).map fun d => .noHost d.name

end Bench

/-! ## Configurations -/

/-- Why a file gives no text. -/
inductive FileError where
  | missing
  | notText
  | other (reason : String)
  deriving DecidableEq

def FileError.message : FileError → String
  | missing => "No such file or directory (os error 2)"
  | notText => "stream did not contain valid UTF-8"
  | other reason => reason

/-- Why there is no configuration, or no such bench in it. -/
inductive ConfigError where
  | file (e : FileError)
  /-- The text is no configuration. -/
  | text (e : Json.ReadError)
  | unknownBench (name : String)
  | invalid (p : Problem)
  deriving DecidableEq

def ConfigError.message : ConfigError → String
  | file e => s!"cannot read configuration: {e.message}"
  | text e => s!"malformed configuration: {e.message}"
  | unknownBench name => s!"no bench configuration named `{name}`"
  | invalid p => s!"configuration validation failed: {p.message}"

namespace Configuration

def problem? (c : Configuration) : Option Problem :=
  match c.hardware.problem? with
  | some p => some p
  | none => c.benches.findSome? fun b => (b.problem? c.hardware).map (.inBench b.name)

/-- The bench of a name, or the default one. -/
def bench (c : Configuration) (name? : Option String) : Except ConfigError Bench :=
  let name := name?.getD c.defaultBench
  match c.bench? name with
  | some b => .ok b
  | none => .error (.unknownBench name)

def check (c : Configuration) : Except ConfigError Unit :=
  match c.problem? with
  | some p => .error (.invalid p)
  | none => (c.bench none).map fun _ => ()

/-! ## Reading -/

/-- A configuration from its text, checked. -/
def ofText (cs : List Char) : Except ConfigError Configuration := do
  let c ← (codec.decode cs).mapError .text
  c.check
  .ok c

/-- A configuration from the bytes of its file. -/
def ofBytes (bytes : ByteArray) : Except ConfigError Configuration :=
  match String.fromUTF8? bytes with
  | some s => ofText s.toList
  | none => .error (.file .notText)

/-- What is noted when a configuration has been read from `path`. -/
def loadedNote (c : Configuration) (path : String) : Note :=
  ⟨.info, s!"config: loaded {path} ({c.benches.length} benches, default `{c.defaultBench}`)"⟩

end Configuration

end PinBench
