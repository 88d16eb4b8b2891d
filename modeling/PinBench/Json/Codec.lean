import PinBench.Json.Basic
import PinBench.Json.Outline
import PinBench.Text.Blank

/-!
# Codecs

How a type is read from an outline and written as JSON.

* `ReadError`: what is wrong with a text, with its `message`.
* `Codec`: a reader and a writer for one type.
* `Codec.bool`, `Codec.text`, `Codec.byte`, …: scalars.
* `Codec.list`, `Codec.optional`, `Codec.either`: composed codecs.
* `Codec.decode`: a whole text.
-/

namespace PinBench.Json

/-- Why a text is not read as a value of a type. -/
inductive ReadError where
  /-- The text is no JSON. -/
  | flaw (f : Flaw)
  /-- A value of another kind. -/
  | wrongKind
  /-- A whole number that the type does not have. -/
  | outOfRange
  /-- An array with too few or too many items. -/
  | wrongLength
  | missingField (name : String)
  | duplicateField (name : String)
  | unknownVariant (name : String)
  | notHexByte (text : String)
  /-- None of the forms that the type may be written in. -/
  | noForm (type : String)
  deriving DecidableEq, Repr

/-- What is wrong, in words; a flaw of the text has none of its own. -/
def ReadError.message : ReadError → String
  | flaw .malformed => "malformed JSON"
  | flaw .truncated => "unexpected end of JSON"
  | wrongKind => "invalid type"
  | outOfRange => "invalid value"
  | wrongLength => "invalid length"
  | missingField name => s!"missing field `{name}`"
  | duplicateField name => s!"duplicate field `{name}`"
  | unknownVariant name => s!"unknown variant `{name}`"
  | notHexByte text => s!"`{text}` is not a hex byte"
  | noForm type => s!"data did not match any variant of untagged enum {type}"

/-- Reading a part of a text. -/
abbrev Read := Except ReadError

def Flaw.lift {α : Type} (r : Except Flaw α) : Read α :=
  r.mapError .flaw

namespace Outline

/-- What a reader finds that wants something else.  A string or a number is read to its end before
its kind is judged. -/
def refuse : Outline → ReadError
  | num (.error f) => .flaw f
  | str (.error f) => .flaw f
  | missing b => .flaw b.wanted
  | _ => .wrongKind

end Outline

/-- The end of a bracket whose parts are read. -/
def closing : Option Break → Read Unit
  | none => .ok ()
  | some b => .error (.flaw b.wanted)

/-- A type as JSON. -/
structure Codec (α : Type) where
  read : Outline → Read α
  write : α → Json

namespace Codec

/-! ## Scalars -/

def bool : Codec Bool where
  read
    | .bool b => .ok b
    | o => .error o.refuse
  write := .bool

def text : Codec String where
  read
    | .str (.ok s) => .ok s
    | o => .error o.refuse
  write := .str

/-- A whole number that `of?` takes. -/
def whole {α : Type} (of? : Int → Option α) (toInt : α → Int) : Codec α where
  read
    | .num (.ok (.whole n)) =>
      match of? n with
      | some a => .ok a
      | none => .error .outOfRange
    | o => .error o.refuse
  write a := .int (toInt a)

def byte : Codec UInt8 :=
  whole (fun n => if 0 ≤ n ∧ n < 0x100 then some n.toNat.toUInt8 else none) (·.toNat)

def word16 : Codec UInt16 :=
  whole (fun n => if 0 ≤ n ∧ n < 0x10000 then some n.toNat.toUInt16 else none) (·.toNat)

def word64 : Codec UInt64 :=
  whole (fun n => if 0 ≤ n ∧ n < 0x10000000000000000 then some n.toNat.toUInt64 else none) (·.toNat)

def int32 : Codec Int32 :=
  whole (fun n => if -0x80000000 ≤ n ∧ n < 0x80000000 then some (Int32.ofInt n) else none) (·.toInt)

/-! ## Bytes as hexadecimal text -/

/-- The digits after the mark of hexadecimal, which may be missing. -/
def hexDigits : List Char → List Char
  | '0' :: 'x' :: cs => cs
  | '0' :: 'X' :: cs => cs
  | cs => cs

def hexByte? (s : String) : Option UInt8 :=
  Text.byte? 16 (hexDigits (Text.trim s.toList))

/-- A byte as a string of hexadecimal digits, written with the mark and two digits. -/
def hexByte : Codec UInt8 where
  read o := do
    let s ← text.read o
    match hexByte? s with
    | some b => .ok b
    | none => .error (.notHexByte s)
  write b := .str (Text.hexText b)

/-! ## Composed codecs -/

def readAll {α : Type} (c : Codec α) : List Outline → Read (List α)
  | [] => .ok []
  | v :: vs => do
    let a ← c.read v
    let as ← readAll c vs
    .ok (a :: as)

def list {α : Type} (c : Codec α) : Codec (List α) where
  read
    | .arr items cut => do
      let as ← readAll c items
      closing cut
      .ok as
    | o => .error o.refuse
  write as := .arr (as.map c.write)

/-- At most `room` items; one too many is read before it is refused. -/
def readUpTo {α : Type} (c : Codec α) : Nat → List Outline → Read (List α)
  | _, [] => .ok []
  | 0, v :: _ => do
    let _ ← c.read v
    .error .wrongLength
  | room + 1, v :: vs => do
    let a ← c.read v
    let as ← readUpTo c room vs
    .ok (a :: as)

theorem readUpTo_length {α : Type} {c : Codec α} {room : Nat} {vs : List Outline} {as : List α}
    (h : readUpTo c room vs = .ok as) : as.length ≤ room := by
  induction vs generalizing room as with
  | nil => simp_all [readUpTo]
  | cons v vs ih =>
    cases room with
    | zero => cases hv : c.read v <;> simp [readUpTo, hv, bind, Except.bind] at h
    | succ room =>
      cases hv : c.read v with
      | error e => simp [readUpTo, hv, bind, Except.bind] at h
      | ok a =>
        cases hs : readUpTo c room vs with
        | error e => simp [readUpTo, hv, hs, bind, Except.bind] at h
        | ok as' =>
          simp only [readUpTo, hv, hs, bind, Except.bind, Except.ok.injEq] at h
          subst h
          exact Nat.succ_le_succ (ih hs)

/-- A value or null. -/
def optional {α : Type} (c : Codec α) : Codec (Option α) where
  read
    | .null => .ok none
    | o => (c.read o).map some
  write a := a.elim .null c.write

/-- A value in one of two forms.  It is held back as a whole before its form is judged, with `around`
brackets open around it. -/
def either {α β γ : Type} (type : String) (around : Nat) (a : Codec α) (b : Codec β)
    (left : α → γ) (right : β → γ) (write : γ → Json) : Codec γ where
  read o := do
    Flaw.lift (o.hold (maxOpen - around))
    match a.read o, b.read o with
    | .ok x, _ => .ok (left x)
    | _, .ok y => .ok (right y)
    | _, _ => .error (.noForm type)
  write := write

/-! ## Texts -/

/-- A whole text as a value: what is wrong with the value comes before what follows it. -/
def decode {α : Type} (c : Codec α) (cs : List Char) : Read α := do
  let d := Document.read cs
  let a ← c.read d.root
  if d.followed then .error (.flaw .malformed) else .ok a

/-- The text of a value. -/
def encode {α : Type} (c : Codec α) (a : α) : List Char := (c.write a).text

end Codec

end PinBench.Json
