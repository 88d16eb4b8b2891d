import PinBench.Json.Token

/-!
# Outlines

The outline of a text is its tree of values as far as the text can be read, with the place where it
breaks off marked in it.  A typed reader walks the outline in the order of the text, so what it
meets first is what is wrong with the text first, whether that is the wrong shape or no JSON at all.

* `Outline`: values, with a break inside every bracket that is not closed properly.
* `Stage.step`: one token after an incomplete text, with a stack of open brackets.
* `Document.read`: the outline of a text, and whether anything follows the value.
* `Outline.skip`: what a reader that does not want a value finds wrong with it.
* `Outline.hold`: the same for a reader that keeps a value for later.
-/

namespace PinBench.Json

/-- The name of a member, or what is wrong with it. -/
abbrev Key := Except Flaw String

/-- A value of a text, as far as it can be read. -/
inductive Outline where
  | null
  | bool (b : Bool)
  | num (n : Except Flaw Number)
  | str (s : Except Flaw String)
  /-- The items and, unless the bracket is closed, why no more can be read. -/
  | arr (items : List Outline) (cut : Option Break)
  /-- The members, likewise. -/
  | obj (members : List (Key × Outline)) (cut : Option Break)
  /-- No value stands where one has to. -/
  | missing (b : Break)
  deriving Inhabited

/-! ## Open brackets -/

/-- The innermost open bracket between two of its parts, with its parts so far, last first. -/
inductive Bracket where
  | items (parts : List Outline)
  | members (parts : List (Key × Outline))

def Bracket.close (cut : Option Break) : Bracket → Outline
  | items parts => .arr parts.reverse cut
  | members parts => .obj parts.reverse cut

/-- An open bracket in which a value is under way. -/
inductive Frame where
  | item (parts : List Outline)
  | member (parts : List (Key × Outline)) (key : Key)

def Frame.add (v : Outline) : Frame → Bracket
  | item parts => .items (v :: parts)
  | member parts key => .members ((key, v) :: parts)

/-- The whole value, when the text breaks off inside `v` and every open bracket around it. -/
def cutOff (b : Break) (v : Outline) : List Frame → Outline
  | [] => v
  | f :: fs => cutOff b ((f.add v).close (some b)) fs

/-! ## Reading -/

/-- What may come next, within the open brackets `around`. -/
inductive Stage where
  | value (around : List Frame)
  /-- The end of the innermost bracket, or its first part. -/
  | first (b : Bracket) (around : List Frame)
  /-- The end of the innermost bracket, or a comma. -/
  | next (b : Bracket) (around : List Frame)
  /-- The name of a member. -/
  | name (parts : List (Key × Outline)) (around : List Frame)
  /-- The colon after a name. -/
  | colon (parts : List (Key × Outline)) (key : Key) (around : List Frame)
  /-- Nothing more: the value is complete.  The flag tells that something follows all the same. -/
  | complete (v : Outline) (followed : Bool)
  /-- Nothing more: the text is broken. -/
  | broken (v : Outline)

namespace Stage

/-- After a complete value. -/
def accept (v : Outline) : List Frame → Stage
  | [] => complete v false
  | f :: fs => next (f.add v) fs

/-- Where a value has to stand and none does. -/
def noValue (b : Break) (around : List Frame) : Stage :=
  broken (cutOff b (.missing b) around)

/-- Where the innermost bracket can neither go on nor end. -/
def noPart (f : Break) (b : Bracket) (around : List Frame) : Stage :=
  broken (cutOff f (b.close (some f)) around)

/-- A token where a value has to stand. -/
def stepValue (around : List Frame) : Token → Stage
  | .openArray => first (.items []) around
  | .openObject => first (.members []) around
  | .null => accept .null around
  | .bool b => accept (.bool b) around
  | .num n => accept (.num n) around
  | .str s => accept (.str s) around
  | .brokenStr b => noValue b around
  | .broken b => noValue b around
  | _ => noValue (.all .malformed) around

/-- Where a name has to stand after a comma and none does. -/
def noName (b : Break) (parts : List (Key × Outline)) (around : List Frame) : Stage :=
  noPart b (.members ((.error b.wanted, .missing b) :: parts)) around

/-- A token where the name of a member has to stand. -/
def stepName (parts : List (Key × Outline)) (around : List Frame) (fail : Break → Stage) :
    Token → Stage
  | .str key => colon parts key around
  | .brokenStr b => fail b
  | _ => fail (.all .malformed)

/-- One token more. -/
def step : Stage → Token → Stage
  | value around, t => stepValue around t
  | first (.items parts) around, t =>
    match t with
    | .closeArray => accept (.arr parts.reverse none) around
    | t => stepValue (.item parts :: around) t
  | first (.members parts) around, t =>
    match t with
    | .closeObject => accept (.obj parts.reverse none) around
    | t => stepName parts around (noPart · (.members parts) around) t
  | next (.items parts) around, t =>
    match t with
    | .comma => value (.item parts :: around)
    | .closeArray => accept (.arr parts.reverse none) around
    | _ => noPart (.all .malformed) (.items parts) around
  | next (.members parts) around, t =>
    match t with
    | .comma => name parts around
    | .closeObject => accept (.obj parts.reverse none) around
    | _ => noPart (.all .malformed) (.members parts) around
  | name parts around, t => stepName parts around (noName · parts around) t
  | colon parts key around, t =>
    match t with
    | .colon => value (.member parts key :: around)
    | _ => noValue (.all .malformed) (.member parts key :: around)
  | complete v _, _ => complete v true
  | broken v, _ => broken v

/-- All tokens of a text. -/
def run (s : Stage) (cs : List Char) : Stage :=
  match h : Token.next? cs with
  | none => s
  | some (t, rest) =>
    have : rest.length < cs.length := Token.next?_length h
    run (s.step t) rest
termination_by cs.length

/-- The value and whether anything follows it, at the end of the text. -/
def finish : Stage → Outline × Bool
  | value around => (cutOff (.all .truncated) (.missing (.all .truncated)) around, false)
  | first b around | next b around => cutShort b around
  | name parts around =>
    cutShort (.members ((.error .truncated, .missing (.all .truncated)) :: parts)) around
  | colon parts key around =>
    (cutOff (.all .truncated) (.missing (.all .truncated)) (.member parts key :: around), false)
  | complete v followed => (v, followed)
  | broken v => (v, false)
where
  cutShort (b : Bracket) (around : List Frame) : Outline × Bool :=
    (cutOff (.all .truncated) (b.close (some (.all .truncated))) around, false)

end Stage

/-- A whole text: its first value, and whether anything but blanks follows that. -/
structure Document where
  root : Outline
  followed : Bool

def Document.read (cs : List Char) : Document :=
  let (root, followed) := ((Stage.value []).run cs).finish
  ⟨root, followed⟩

/-! ## Values that are not looked at -/

/-- How many brackets may be open at once around and within a value that is held back. -/
def maxOpen : Nat := 127

namespace Outline

/-- Skipping a value needs its brackets and tokens to be in order, and no more. -/
def skip : Outline → Except Flaw Unit
  | missing b => .error b.skipped
  | arr _ (some b) => .error b.skipped
  | obj _ (some b) => .error b.skipped
  | _ => .ok ()

mutual

/-- Holding a value back needs all its names, strings and numbers, and at most `depth` brackets open
at once within it. -/
def hold : Nat → Outline → Except Flaw Unit
  | _, null => .ok ()
  | _, bool _ => .ok ()
  | _, num n => n.map fun _ => ()
  | _, str s => s.map fun _ => ()
  | _, missing b => .error b.wanted
  | 0, arr _ _ => .error .malformed
  | 0, obj _ _ => .error .malformed
  | depth + 1, arr items cut => do
    holdItems depth items
    cut.elim (.ok ()) fun b => .error b.wanted
  | depth + 1, obj members cut => do
    holdMembers depth members
    cut.elim (.ok ()) fun b => .error b.wanted

def holdItems (depth : Nat) : List Outline → Except Flaw Unit
  | [] => .ok ()
  | v :: vs => do
    hold depth v
    holdItems depth vs

def holdMembers (depth : Nat) : List (Key × Outline) → Except Flaw Unit
  | [] => .ok ()
  | (key, v) :: ms => do
    let _ ← key
    hold depth v
    holdMembers depth ms

end

end Outline

end PinBench.Json
