/-!
# Numerals

Numbers as digits.

* `natural? base`: one or more digits, read in a base up to sixteen.
* `byte? base`: the same after an optional plus sign, up to 255.
* `hexPair`, `bitRow`: a byte as two hexadecimal digits, and as eight binary ones.
* `natural?_hexPair`: **the two digits of a byte are read as that byte**.
-/

namespace PinBench.Text

/-! ## Reading -/

/-- The value of a hexadecimal digit, of either case. -/
def digitValue? (c : Char) : Option Nat :=
  if '0' ≤ c ∧ c ≤ '9' then some (c.toNat - '0'.toNat)
  else if 'a' ≤ c ∧ c ≤ 'f' then some (c.toNat - 'a'.toNat + 10)
  else if 'A' ≤ c ∧ c ≤ 'F' then some (c.toNat - 'A'.toNat + 10)
  else none

def digit? (base : Nat) (c : Char) : Option Nat :=
  (digitValue? c).filter (· < base)

/-- The number whose digits are `cs`; the empty text is none. -/
def natural? (base : Nat) (cs : List Char) : Option Nat :=
  if cs.isEmpty then none
  else cs.foldlM (fun n c => (digit? base c).map (n * base + ·)) 0

/-- A number up to 255, with any number of leading zeros and at most one plus sign in front. -/
def byte? (base : Nat) (cs : List Char) : Option UInt8 :=
  let digits := match cs with
    | '+' :: r => r
    | _ => cs
  (natural? base digits).bind fun n => if n < 256 then some n.toUInt8 else none

/-! ## Writing -/

/-- A byte as two hexadecimal digits in lower case. -/
def hexPair (b : UInt8) : List Char :=
  [Nat.digitChar (b.toNat / 16), Nat.digitChar (b.toNat % 16)]

/-- The two digits of a byte stand for it. -/
theorem natural?_hexPair (b : UInt8) : natural? 16 (hexPair b) = some b.toNat := by
  have all : ∀ n : Fin 256, natural? 16 (hexPair (.ofFin n)) = some (UInt8.ofFin n).toNat := by
    decide +kernel
  exact all b.toFin

/-- A byte as eight binary digits, the highest bit first. -/
def bitRow (b : UInt8) : List Char :=
  [7, 6, 5, 4, 3, 2, 1, 0].map fun i => if b.toNat.testBit i then '1' else '0'

/-- A byte with the mark of hexadecimal. -/
def hexText (b : UInt8) : String := "0x" ++ String.ofList (hexPair b)

/-- A byte with the mark of binary. -/
def bitText (b : UInt8) : String := "0b" ++ String.ofList (bitRow b)

end PinBench.Text
