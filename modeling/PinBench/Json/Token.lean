import PinBench.Json.Number

/-!
# JSON tokens

The words of a JSON text, read one at a time.

* `Token`: a bracket, a mark, a scalar, or a place where the text is broken.
* `scanString`: a string after its opening quote.
* `Token.next?`: the token at the front of a text, none at its end.
* `Token.next?_length`: **what follows a token is shorter**.

A string or a number carries the value that a reader who wants it gets, which may be a flaw: half a
surrogate pair and a number beyond the doubles only matter to such a reader.
-/

namespace PinBench.Json

inductive Token where
  | openArray
  | closeArray
  | openObject
  | closeObject
  | comma
  | colon
  | null
  | bool (b : Bool)
  | num (n : Except Flaw Number)
  | str (s : Except Flaw String)
  /-- A string that is broken. -/
  | brokenStr (b : Break)
  /-- Any other place where no token can be read. -/
  | broken (b : Break)

/-! ## Strings -/

/-- The character of a short escape. -/
def unescape? : Char → Option Char
  | '"' => some '"'
  | '\\' => some '\\'
  | '/' => some '/'
  | 'b' => some '\x08'
  | 'f' => some '\x0C'
  | 'n' => some '\n'
  | 'r' => some '\r'
  | 't' => some '\t'
  | _ => none

/-- Four hexadecimal digits as a code unit. -/
def codeUnit? (a b c d : Char) : Option Nat :=
  Text.natural? 16 [a, b, c, d]

/-- The first half of a surrogate pair. -/
def isHigh (u : Nat) : Bool := 0xD800 ≤ u && u < 0xDC00

/-- The second half of a surrogate pair. -/
def isLow (u : Nat) : Bool := 0xDC00 ≤ u && u < 0xE000

def pairChar (high low : Nat) : Char :=
  Char.ofNat (0x10000 + (high - 0xD800) * 0x400 + (low - 0xDC00))

/-- A string under way: its characters, last one first, unless it already has a flaw, and the first
half of a surrogate pair that waits for the second. -/
structure Quote where
  chars : Except Flaw (List Char)
  high : Option Nat

namespace Quote

def start : Quote := ⟨.ok [], none⟩

/-- One character; a waiting half is flawed by it. -/
def push (q : Quote) (c : Char) : Quote :=
  match q.chars, q.high with
  | .ok cs, none => ⟨.ok (c :: cs), none⟩
  | .ok _, some _ => ⟨.error .malformed, none⟩
  | .error f, _ => ⟨.error f, none⟩

/-- One escaped code unit. -/
def pushUnit (q : Quote) (u : Nat) : Quote :=
  match q.chars, q.high with
  | .error f, _ => ⟨.error f, none⟩
  | .ok cs, some h => if isLow u then ⟨.ok (pairChar h u :: cs), none⟩ else ⟨.error .malformed, none⟩
  | .ok cs, none =>
    if isHigh u then ⟨.ok cs, some u⟩
    else if isLow u then ⟨.error .malformed, none⟩
    else ⟨.ok (Char.ofNat u :: cs), none⟩

/-- The string, at its closing quote. -/
def close (q : Quote) : Except Flaw String :=
  match q.chars, q.high with
  | .ok cs, none => .ok (String.ofList cs.reverse)
  | .ok _, some _ => .error .malformed
  | .error f, _ => .error f

/-- The text breaks off within the string. -/
def breakOff (q : Quote) (f : Flaw) : Break :=
  match q.chars with
  | .ok _ => .all f
  | .error g => { Break.all g with skipped := f }

end Quote

/-- A code unit with fewer than four characters left: with four bytes left one of them is wrong. -/
def shortUnit (rest : List Char) : Flaw :=
  if rest.foldl (fun n c => n + c.utf8Size) 0 < 4 then .truncated else .malformed

/-- A string from after its opening quote to after its closing one. -/
def scanString (q : Quote) : List Char → Except Break (Except Flaw String × List Char)
  | [] => .error (q.breakOff .truncated)
  | '"' :: rest => .ok (q.close, rest)
  | '\\' :: 'u' :: a :: b :: c :: d :: rest =>
    match codeUnit? a b c d with
    | some u => scanString (q.pushUnit u) rest
    | none => .error (q.breakOff .malformed)
  | '\\' :: 'u' :: rest => .error (q.breakOff (shortUnit rest))
  | '\\' :: e :: rest =>
    match unescape? e with
    | some c => scanString (q.push c) rest
    | none => .error (q.breakOff .malformed)
  | ['\\'] => .error (q.breakOff .truncated)
  | c :: rest =>
    if c.toNat < 0x20 then .error (q.breakOff .malformed) else scanString (q.push c) rest

theorem scanString_length {q : Quote} {cs rest : List Char} {v : Except Flaw String}
    (h : scanString q cs = .ok (v, rest)) : rest.length < cs.length := by
  fun_induction scanString q cs <;> simp_all <;> omega

/-! ## Tokens -/

/-- The blanks between tokens. -/
def isGap (c : Char) : Bool :=
  c = ' ' || c = '\t' || c = '\n' || c = '\r'

/-- What is left after a word, or how the text departs from it. -/
def afterWord : List Char → List Char → Except Flaw (List Char)
  | [], rest => .ok rest
  | _ :: _, [] => .error .truncated
  | w :: ws, c :: rest => if c = w then afterWord ws rest else .error .malformed

namespace Token

/-- A scanned part as a token; nothing follows the place where the text is broken. -/
def ofScan {α : Type} (f : α → Token) (e : Break → Token) :
    Except Break (α × List Char) → Token × List Char
  | .ok (a, rest) => (f a, rest)
  | .error b => (e b, [])

/-- A word as the token it stands for. -/
def word (t : Token) (tail : String) (cs : List Char) : Token × List Char :=
  ofScan (fun _ => t) .broken <| match afterWord tail.toList cs with
    | .ok rest => .ok ((), rest)
    | .error f => .error { Break.all f with foreign := .malformed }

/-- The token that starts with `c`, before `rest`. -/
def ofHead (c : Char) (rest : List Char) : Token × List Char :=
  match c with
  | '[' => (.openArray, rest)
  | ']' => (.closeArray, rest)
  | '{' => (.openObject, rest)
  | '}' => (.closeObject, rest)
  | ',' => (.comma, rest)
  | ':' => (.colon, rest)
  | 'n' => word .null "ull" rest
  | 't' => word (.bool true) "rue" rest
  | 'f' => word (.bool false) "alse" rest
  | '"' => ofScan .str .brokenStr (scanString .start rest)
  | _ =>
    if c = '-' ∨ c.isDigit then
      ofScan (fun l => .num (match l.value? with | some n => .ok n | none => .error .malformed))
        .broken (Literal.scan (c :: rest))
    else (.broken (.all .malformed), [])

/-- The first token of a text and what follows it. -/
def next? (cs : List Char) : Option (Token × List Char) :=
  match cs.dropWhile isGap with
  | [] => none
  | c :: rest => some (ofHead c rest)

/-! ## What follows a token -/

theorem afterWord_length {ws cs rest : List Char} (h : afterWord ws cs = .ok rest) :
    rest.length ≤ cs.length := by
  fun_induction afterWord ws cs <;> simp_all
  omega

theorem word_length (t : Token) (tail : String) (cs : List Char) :
    (word t tail cs).2.length ≤ cs.length := by
  unfold word
  cases h : afterWord tail.toList cs with
  | ok rest => exact afterWord_length h
  | error f => exact Nat.zero_le _

theorem ofHead_length (c : Char) (rest : List Char) : (ofHead c rest).2.length ≤ rest.length := by
  unfold ofHead
  split <;> try exact Nat.le_refl _
  · exact word_length ..
  · exact word_length ..
  · exact word_length ..
  · cases h : scanString .start rest with
    | ok run => exact Nat.le_of_lt (scanString_length h)
    | error b => exact Nat.zero_le _
  · split
    · cases h : Literal.scan (c :: rest) with
      | ok run => exact Nat.le_of_lt_succ (Literal.scan_length h)
      | error b => exact Nat.zero_le _
    · exact Nat.zero_le _

theorem next?_length {cs rest : List Char} {t : Token} (h : next? cs = some (t, rest)) :
    rest.length < cs.length := by
  unfold next? at h
  have hl := (List.dropWhile_sublist (l := cs) isGap).length_le
  split at h
  · simp at h
  · next c r hd =>
    have := ofHead_length c r
    simp only [Option.some.injEq] at h
    simp only [h] at this
    rw [hd, List.length_cons] at hl
    omega

end Token

end PinBench.Json
