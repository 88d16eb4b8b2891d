/-!
# Lenient UTF-8

Bytes read as UTF-8, one at a time, with U+FFFD in place of every longest run of bytes that starts a
character and does not end it.

* `Decoder`: the text so far and the character under way.
* `Decoder.feed`: one byte.
* `decodeLossy`: a whole chunk, which ends whatever character is under way.
-/

namespace PinBench.Text

/-- What stands for bytes that are no character. -/
def replacement : Char := '\uFFFD'

/-- A character of which some bytes are still owed. -/
structure Partial where
  /-- How many bytes are owed. -/
  owed : Nat
  /-- The least and the greatest byte the next one may be. -/
  low : UInt8
  high : UInt8
  /-- The bits read so far. -/
  bits : Nat

/-- What a byte at the start of a character announces. -/
inductive Lead where
  | ascii (c : Char)
  | multi (p : Partial)
  | invalid

/-- The second byte is held to a narrower range after `E0`, `ED`, `F0` and `F4`: no longer form than
needed, no surrogate, nothing above U+10FFFF. -/
def Lead.of (b : UInt8) : Lead :=
  if b < 0x80 then .ascii (Char.ofNat b.toNat)
  else if b < 0xC2 then .invalid
  else if b < 0xE0 then .multi ⟨1, 0x80, 0xBF, b.toNat - 0xC0⟩
  else if b = 0xE0 then .multi ⟨2, 0xA0, 0xBF, 0⟩
  else if b = 0xED then .multi ⟨2, 0x80, 0x9F, 0xD⟩
  else if b < 0xF0 then .multi ⟨2, 0x80, 0xBF, b.toNat - 0xE0⟩
  else if b = 0xF0 then .multi ⟨3, 0x90, 0xBF, 0⟩
  else if b < 0xF4 then .multi ⟨3, 0x80, 0xBF, b.toNat - 0xF0⟩
  else if b = 0xF4 then .multi ⟨3, 0x80, 0x8F, 4⟩
  else .invalid

/-- The text read so far, last character first, and the character under way. -/
structure Decoder where
  text : List Char
  underWay : Option Partial

namespace Decoder

def start : Decoder := ⟨[], none⟩

/-- A byte between two characters. -/
def startChar (text : List Char) (b : UInt8) : Decoder :=
  match Lead.of b with
  | .ascii c => ⟨c :: text, none⟩
  | .multi p => ⟨text, some p⟩
  | .invalid => ⟨replacement :: text, none⟩

/-- One byte. A byte that cannot continue the character under way ends it and is read again. -/
def feed (d : Decoder) (b : UInt8) : Decoder :=
  match d.underWay with
  | none => startChar d.text b
  | some p =>
    if p.low ≤ b ∧ b ≤ p.high then
      let bits := p.bits * 64 + (b.toNat - 0x80)
      if p.owed ≤ 1 then ⟨Char.ofNat bits :: d.text, none⟩
      else ⟨d.text, some ⟨p.owed - 1, 0x80, 0xBF, bits⟩⟩
    else startChar (replacement :: d.text) b

/-- The text, once no more bytes come. -/
def finish (d : Decoder) : List Char :=
  match d.underWay with
  | none => d.text.reverse
  | some _ => (replacement :: d.text).reverse

end Decoder

/-- A chunk of bytes as text. -/
def decodeLossy (bytes : List UInt8) : List Char :=
  (bytes.foldl Decoder.feed Decoder.start).finish

end PinBench.Text
