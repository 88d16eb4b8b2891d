import PinBench.Fault
import PinBench.Json.Record

/-!
# Requests

What a caller may ask of the bench, as one JSON value per request.

* `Level`, `Numeral`: a level and a small number, each given as itself or in words.
* `Request`: every request there is, with its `name`.
* `Request.codec`: a request as its name, the tag, and its options, in either order.

Options that come before the tag are held back until the tag tells how to read them.
-/

namespace PinBench

open Json (Codec Fields Values Key Outline Break Read Flaw)

/-! ## Arguments -/

/-- A level, or a word for one. -/
inductive Level where
  | bool (b : Bool)
  | text (s : String)
  deriving DecidableEq

namespace Level

def toBool (l : Level) : Except Fault Bool :=
  match l with
  | bool b => .ok b
  | text s =>
    let word := Text.trimmed s
    if word = "true" then .ok true
    else if word = "false" then .ok false
    else .error (.badArgument s!"state `{word}` is not true/false")

end Level

/-- A number up to 255, or a numeral. -/
inductive Numeral where
  | number (n : UInt8)
  | text (s : String)
  deriving DecidableEq

namespace Numeral

/-- The number; `what` is what it stands for. -/
def toByte (what : String) (n : Numeral) : Except Fault UInt8 :=
  match n with
  | number n => .ok n
  | text s =>
    match Text.byte? 10 (Text.trim s.toList) with
    | some b => .ok b
    | none => .error (.badArgument s!"{what} `{s}` is not a number")

end Numeral

def Level.codec (around : Nat) : Codec Level :=
  .either "PinLevel" around .bool .text .bool .text fun
    | .bool b => .bool b
    | .text s => .str s

def Numeral.codec (around : Nat) : Codec Numeral :=
  .either "Numeric" around .byte .text .number .text fun
    | .number n => Codec.byte.write n
    | .text s => .str s

/-! ## Requests -/

inductive Request where
  | allCards
  | card (card : String)
  | pin (card label : String)
  | allExpanders
  | expander (number : Numeral)
  | pinout
  | allCategories
  | category (name : String)
  | allCommands
  | availableCommands
  | readings
  | allBenches
  | activeBench
  | writeToCard (card label : String) (level : Level)
  | writeToExpander (number pin : Numeral) (level : Level)
  | sendCommand (name : String) (force : Bool)
  | updateRegisters
  | switchBench (name : String)
  deriving DecidableEq

namespace Request

/-- The name of a request, which its answer bears too. -/
def name : Request → String
  | allCards => "allCards"
  | card _ => "card"
  | pin .. => "pin"
  | allExpanders => "allModules"
  | expander _ => "module"
  | pinout => "bancPinout"
  | allCategories => "allEtats"
  | category _ => "etat"
  | allCommands => "allCommands"
  | availableCommands => "availableCommands"
  | readings => "inputStates"
  | allBenches => "allConfigs"
  | activeBench => "currentConfig"
  | writeToCard .. => "writeToCard"
  | writeToExpander .. => "writeToModule"
  | sendCommand .. => "sendCommand"
  | updateRegisters => "updateRegisters"
  | switchBench _ => "changeConfiguration"

/-! ## Options -/

def cardFields : Fields [String] :=
  .cons (.required "cardName" .text) .nil

def pinFields : Fields [String, String] :=
  .cons (.required "cardName" .text) <| .cons (.required "numberOnCard" .text) .nil

def expanderFields : Fields [Numeral] :=
  .cons (.required "module" (Numeral.codec 2)) .nil

def categoryFields : Fields [String] :=
  .cons (.required "name" .text) .nil

def writeToCardFields : Fields [String, String, Level] :=
  .cons (.required "cardName" .text) <|
    .cons (.required "numberOnCard" .text) <|
    .cons (.required "state" (Level.codec 2)) .nil

def writeToExpanderFields : Fields [Numeral, Numeral, Level] :=
  .cons (.required "module" (Numeral.codec 2)) <|
    .cons (.required "pin" (Numeral.codec 2)) <|
    .cons (.required "state" (Level.codec 2)) .nil

def sendCommandFields : Fields [String, Bool] :=
  .cons (.required "commandName" .text) <| .cons (.withDefault "force" .bool false) .nil

def switchBenchFields : Fields [String] :=
  .cons (.required "configurationName" .text) .nil

/-- The options of a request, if it has any. -/
def options? : Request → Option (List (String × Json))
  | card c => some (cardFields.members (c, ()))
  | pin c l => some (pinFields.members (c, l, ()))
  | expander n => some (expanderFields.members (n, ()))
  | category n => some (categoryFields.members (n, ()))
  | writeToCard c l v => some (writeToCardFields.members (c, l, v, ()))
  | writeToExpander n p v => some (writeToExpanderFields.members (n, p, v, ()))
  | sendCommand n f => some (sendCommandFields.members (n, f, ()))
  | switchBench n => some (switchBenchFields.members (n, ()))
  | _ => none

/-! ## Reading -/

/-- How the options of one kind of request are read, given or not. -/
abbrev OptionReader := Option Outline → Read Request

/-- A request without options, which may be given as null. -/
def bare (r : Request) : OptionReader
  | none => .ok r
  | some .null => .ok r
  | some o => .error o.refuse

/-- A request whose options are an object. -/
def having {αs : List Type} (fs : Fields αs) (of : Values αs → Request) : OptionReader
  | none => .error (.missingField "options")
  | some (.obj members cut) => (fs.ofMembers members cut).map of
  | some o => .error o.refuse

/-- Every kind of request under its name. -/
def readers : List (String × OptionReader) :=
  [("allCards", bare allCards),
    ("card", having cardFields fun (c, ()) => card c),
    ("pin", having pinFields fun (c, l, ()) => pin c l),
    ("allModules", bare allExpanders),
    ("module", having expanderFields fun (n, ()) => expander n),
    ("bancPinout", bare pinout),
    ("allEtats", bare allCategories),
    ("etat", having categoryFields fun (n, ()) => category n),
    ("allCommands", bare allCommands),
    ("availableCommands", bare availableCommands),
    ("inputStates", bare readings),
    ("allConfigs", bare allBenches),
    ("currentConfig", bare activeBench),
    ("writeToCard", having writeToCardFields fun (c, l, v, ()) => writeToCard c l v),
    ("writeToModule", having writeToExpanderFields fun (n, p, v, ()) => writeToExpander n p v),
    ("sendCommand", having sendCommandFields fun (n, f, ()) => sendCommand n f),
    ("updateRegisters", bare updateRegisters),
    ("changeConfiguration", having switchBenchFields fun (n, ()) => switchBench n)]

def reader (name : String) : Read OptionReader :=
  match readers.find? (·.1 == name) with
  | some r => .ok r.2
  | none => .error (.unknownVariant name)

/-- The tag as an item of an array: the name of the request. -/
def readName (o : Outline) : Read OptionReader := do
  reader (← Codec.text.read o)

/-- The tag as a member of an object: the name of the request, or an object with null under that
name.  Words, numbers and arrays are refused without being read. -/
def readTag : Outline → Read OptionReader
  | .str (.ok name) => reader name
  | .str (.error f) => .error (.flaw f)
  | .missing b => .error (.flaw b.foreign)
  | .obj ((key, v) :: ms) cut => do
    let r ← reader (← Flaw.lift key)
    match v with
    | .null => .ok ()
    | v => .error v.refuse
    if !ms.isEmpty then .error (.flaw .malformed)
    Json.closing cut
    .ok r
  | .obj [] (some b) => .error (.flaw b.wanted)
  | _ => .error (.flaw .malformed)

/-- The two members that matter. -/
inductive Part where
  | tag
  | options
  deriving DecidableEq

def Part.name : Part → String
  | tag => "command"
  | options => "options"

/-- The next member that matters, with those after it; others are skipped. -/
def nextPart : List (Key × Outline) → Option Break →
    Read (Option (Part × Outline × List (Key × Outline)))
  | [], cut => do
    Json.closing cut
    .ok none
  | (key, v) :: ms, cut => do
    let name ← Flaw.lift key
    if name = Part.tag.name then .ok (some (.tag, v, ms))
    else if name = Part.options.name then .ok (some (.options, v, ms))
    else do
      Flaw.lift v.skip
      nextPart ms cut

/-- Neither member comes a second time. -/
def noPart (ms : List (Key × Outline)) (cut : Option Break) : Read Unit := do
  match ← nextPart ms cut with
  | none => .ok ()
  | some (p, _) => .error (.duplicateField p.name)

def ofMembers (ms : List (Key × Outline)) (cut : Option Break) : Read Request := do
  match ← nextPart ms cut with
  | none => .error (.missingField Part.tag.name)
  | some (.tag, t, ms) =>
    let r ← readTag t
    match ← nextPart ms cut with
    | none => r none
    | some (.tag, _) => .error (.duplicateField Part.tag.name)
    | some (.options, o, ms) =>
      let request ← r (some o)
      noPart ms cut
      .ok request
  | some (.options, o, ms) =>
    Flaw.lift (o.hold (Json.maxOpen - 1))
    match ← nextPart ms cut with
    | none => .error (.missingField Part.tag.name)
    | some (.options, _) => .error (.duplicateField Part.options.name)
    | some (.tag, t, ms) =>
      let r ← readTag t
      let request ← r (some o)
      noPart ms cut
      .ok request

/-- The tag and the options as the two items of an array. -/
def ofItems : List Outline → Option Break → Read Request
  | [], cut => do
    Json.closing cut
    .error .wrongLength
  | [t], cut => do
    let _ ← readName t
    Json.closing cut
    .error .wrongLength
  | t :: o :: vs, cut => do
    let r ← readName t
    let request ← r (some o)
    if !vs.isEmpty then .error (.flaw .malformed)
    Json.closing cut
    .ok request

def codec : Codec Request where
  read
    | .obj members cut => ofMembers members cut
    | .arr items cut => ofItems items cut
    | o => .error o.refuse
  write r :=
    .obj ((Part.tag.name, .str r.name) ::
      match r.options? with
      | some os => [(Part.options.name, .obj os)]
      | none => [])

end Request

end PinBench
