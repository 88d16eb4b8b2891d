import PinBench.Text.Numeral

/-!
# JSON values

The values that are written as JSON, and the text they are written as.

* `Json`: a value; an object keeps the order of its members.
* `quoted`: a string as JSON text.  Only the quote, the backslash and the control characters below
  U+0020 are escaped.
* `Json.text`: the text of a value, without any blanks.
-/

namespace PinBench

/-- A JSON value whose numbers are whole. -/
inductive Json where
  | null
  | bool (b : Bool)
  | int (n : Int)
  | str (s : String)
  | arr (items : List Json)
  | obj (members : List (String × Json))
  deriving Inhabited

namespace Json

/-! ## Strings -/

/-- The letter of a short escape. -/
def shortEscape? (c : Char) : Option Char :=
  if c = '"' ∨ c = '\\' then some c
  else if c = '\x08' then some 'b'
  else if c = '\x0C' then some 'f'
  else if c = '\n' then some 'n'
  else if c = '\r' then some 'r'
  else if c = '\t' then some 't'
  else none

def escaped (c : Char) : List Char :=
  match shortEscape? c with
  | some e => ['\\', e]
  | none =>
    if c.toNat < 0x20 then '\\' :: 'u' :: '0' :: '0' :: Text.hexPair c.toNat.toUInt8
    else [c]

def quoted (s : String) : List Char :=
  '"' :: s.toList.flatMap escaped ++ ['"']

/-! ## Values -/

def intText (n : Int) : List Char :=
  if n < 0 then '-' :: Nat.toDigits 10 n.natAbs else Nat.toDigits 10 n.natAbs

/-- Parts with a comma between two. -/
def separated : List (List Char) → List Char
  | [] => []
  | [p] => p
  | p :: ps => p ++ ',' :: separated ps

mutual

def text : Json → List Char
  | null => "null".toList
  | bool true => "true".toList
  | bool false => "false".toList
  | int n => intText n
  | str s => quoted s
  | arr items => '[' :: separated (itemTexts items) ++ [']']
  | obj members => '{' :: separated (memberTexts members) ++ ['}']

def itemTexts : List Json → List (List Char)
  | [] => []
  | j :: js => text j :: itemTexts js

def memberTexts : List (String × Json) → List (List Char)
  | [] => []
  | (name, j) :: ms => (quoted name ++ ':' :: text j) :: memberTexts ms

end

/-- The text of a value as a string. -/
def render (j : Json) : String := String.ofList j.text

end Json

end PinBench
