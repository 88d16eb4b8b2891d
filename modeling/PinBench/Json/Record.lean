import PinBench.Json.Codec

/-!
# Records

Objects with a fixed list of fields.  A record is read from an object, whose members may come in any
order and among others, or from an array of its fields in their order.

* `Field`: one field, with the value it has when it is not given.
* `Fields`: the fields of a record, with their `Values` as nested pairs.
* `Fields.ofMembers`, `Fields.ofItems`: reading an object, and an array.
* `Fields.record`: a record as a codec.
-/

namespace PinBench.Json

/-- A field of a record. -/
structure Field (α : Type) where
  name : String
  codec : Codec α
  /-- The value when the field is not given; none if it has to be. -/
  absent : Option α
  /-- The values that are not written. -/
  hidden : α → Bool

/-- A field that has to be given. -/
def Field.required {α : Type} (name : String) (c : Codec α) : Field α :=
  ⟨name, c, none, fun _ => false⟩

/-- A field that may be left out of a text; it is always written. -/
def Field.withDefault {α : Type} (name : String) (c : Codec α) (a : α) : Field α :=
  ⟨name, c, some a, fun _ => false⟩

/-- A field that may be left out or null, and is not written then. -/
def Field.ofOption {α : Type} (name : String) (c : Codec α) : Field (Option α) :=
  ⟨name, c.optional, some none, Option.isNone⟩

/-- The value of a field that is not given. -/
def Field.getDefault {α : Type} (f : Field α) (e : ReadError) : Read α :=
  match f.absent with
  | some a => .ok a
  | none => .error e

/-- The fields of a record in the order of their declaration. -/
inductive Fields : List Type → Type 1 where
  | nil : Fields []
  | cons {α : Type} {αs : List Type} (f : Field α) (fs : Fields αs) : Fields (α :: αs)

/-- One value for each field. -/
@[reducible] def Values : List Type → Type
  | [] => Unit
  | α :: αs => α × Values αs

/-- The values read so far. -/
@[reducible] def Slots : List Type → Type
  | [] => Unit
  | α :: αs => Option α × Slots αs

namespace Fields

def empty : {αs : List Type} → Fields αs → Slots αs
  | _, nil => ()
  | _, cons _ fs => (none, fs.empty)

/-! ## Objects -/

/-- A member under its name.  A second member of one name is refused before its value is read, and
a member of an unknown name is skipped. -/
def put : {αs : List Type} → Fields αs → String → Outline → Slots αs → Read (Slots αs)
  | _, nil, _, v, slots => do
    Flaw.lift v.skip
    .ok slots
  | _, cons f fs, name, v, (slot, slots) =>
    if f.name = name then do
      if slot.isSome then .error (.duplicateField name)
      let a ← f.codec.read v
      .ok (some a, slots)
    else do
      let slots ← fs.put name v slots
      .ok (slot, slots)

def putAll {αs : List Type} (fs : Fields αs) : List (Key × Outline) → Slots αs → Read (Slots αs)
  | [], slots => .ok slots
  | (key, v) :: ms, slots => do
    let name ← Flaw.lift key
    let slots ← fs.put name v slots
    fs.putAll ms slots

/-- All values, when the object ends: the first field that is missing is reported. -/
def complete : {αs : List Type} → Fields αs → Slots αs → Read (Values αs)
  | _, nil, _ => .ok ()
  | _, cons f fs, (slot, slots) => do
    let a ← match slot with
      | some a => .ok a
      | none => f.getDefault (.missingField f.name)
    let as ← fs.complete slots
    .ok (a, as)

def ofMembers {αs : List Type} (fs : Fields αs) (members : List (Key × Outline))
    (cut : Option Break) : Read (Values αs) := do
  let slots ← fs.putAll members fs.empty
  closing cut
  fs.complete slots

/-! ## Arrays -/

/-- The fields in their order.  Those at the end may be missing if they have a default, and nothing
may follow the last. -/
def ofItems : {αs : List Type} → Fields αs → List Outline → Option Break → Read (Values αs)
  | _, nil, [], cut => closing cut
  | _, nil, _ :: _, _ => .error (.flaw .malformed)
  | _, cons f fs, [], cut => do
    closing cut
    let a ← f.getDefault .wrongLength
    let as ← fs.ofItems [] cut
    .ok (a, as)
  | _, cons f fs, v :: vs, cut => do
    let a ← f.codec.read v
    let as ← fs.ofItems vs cut
    .ok (a, as)

/-! ## Records -/

def members : {αs : List Type} → Fields αs → Values αs → List (String × Json)
  | _, nil, _ => []
  | _, cons f fs, (a, as) =>
    if f.hidden a then fs.members as else (f.name, f.codec.write a) :: fs.members as

/-- A type whose values are the values of some fields. -/
def record {α : Type} {αs : List Type} (fs : Fields αs) (pack : Values αs → α) (unpack : α → Values αs) :
    Codec α where
  read
    | .obj members cut => (fs.ofMembers members cut).map pack
    | .arr items cut => (fs.ofItems items cut).map pack
    | o => .error o.refuse
  write a := .obj (fs.members (unpack a))

end Fields

end PinBench.Json
