import PinBench.Text.Numeral

/-!
# JSON numbers

A number is read as a literal first, and its value is judged after that.

* `Literal`: sign, digits, fraction and exponent as they are written.
* `Literal.scan`: the literal at the front of a text, or why there is none.
* `Literal.value?`: **whole** for a whole number of 64 bits, **real** for any other that a double can
  hold, none for a number too large for a double.
-/

namespace PinBench.Json

/-- Why a text is no JSON: it breaks the grammar, or it ends too early. -/
inductive Flaw where
  | malformed
  | truncated
  deriving DecidableEq, Repr

/-- A place where a text is broken, as different readers see it. -/
structure Break where
  /-- The reader wants the value. -/
  wanted : Flaw
  /-- The reader skips the value. -/
  skipped : Flaw
  /-- The reader takes neither words nor numbers. -/
  foreign : Flaw
  deriving DecidableEq, Repr

def Break.all (f : Flaw) : Break := ⟨f, f, f⟩

/-- A number as far as its kind matters: a whole number keeps its value, any other none. -/
inductive Number where
  | whole (n : Int)
  | real
  deriving DecidableEq, Repr

/-- A number as it is written. -/
structure Literal where
  negative : Bool
  digits : List Char
  fraction : Option (List Char)
  /-- The exponent's sign (true if negative) and digits. -/
  exponent : Option (Bool × List Char)

namespace Literal

/-! ## Scanning -/

/-- A number that stops short: only a reader that wants its value tells the end of the text from a
wrong character. -/
def short (rest : List Char) : Break :=
  { Break.all .malformed with wanted := if rest.isEmpty then .truncated else .malformed }

/-- The digits at the front, if there is one, and what follows them. -/
def digitRun (cs : List Char) : Except Break (List Char × List Char) :=
  let rest := cs.dropWhile Char.isDigit
  match cs.takeWhile Char.isDigit with
  | [] => .error (short rest)
  | d :: ds => .ok (d :: ds, rest)

theorem digitRun_length {cs ds rest : List Char} (h : digitRun cs = .ok (ds, rest)) :
    rest.length < cs.length := by
  have hl := congrArg List.length (List.takeWhile_append_dropWhile (p := Char.isDigit) (l := cs))
  rw [List.length_append] at hl
  unfold digitRun at h
  split at h
  · simp at h
  · next d ds' hd =>
    simp only [Except.ok.injEq, Prod.mk.injEq] at h
    rw [hd, h.2, List.length_cons] at hl
    omega

/-- The whole part: a zero stands alone. -/
def scanWhole (cs : List Char) : Except Break (List Char × List Char) :=
  match digitRun cs with
  | .ok ('0' :: _ :: _, _) => .error (.all .malformed)
  | run => run

theorem scanWhole_length {cs ds rest : List Char} (h : scanWhole cs = .ok (ds, rest)) :
    rest.length < cs.length := by
  unfold scanWhole at h
  split at h
  · simp at h
  · exact digitRun_length h

def scanFraction : List Char → Except Break (Option (List Char) × List Char)
  | '.' :: cs => (digitRun cs).map fun run => (some run.1, run.2)
  | cs => .ok (none, cs)

theorem scanFraction_length {cs rest : List Char} {f : Option (List Char)}
    (h : scanFraction cs = .ok (f, rest)) : rest.length ≤ cs.length := by
  unfold scanFraction at h
  split at h
  · next cs =>
    cases hd : digitRun cs with
    | error b => simp [hd, Except.map] at h
    | ok run =>
      have := digitRun_length hd
      simp only [hd, Except.map, Except.ok.injEq, Prod.mk.injEq] at h
      rw [← h.2, List.length_cons]
      omega
  · simp_all

/-- The sign of an exponent, true if it is negative, and what follows it. -/
def sign : List Char → Bool × List Char
  | '+' :: cs => (false, cs)
  | '-' :: cs => (true, cs)
  | cs => (false, cs)

theorem sign_length (cs : List Char) : (sign cs).2.length ≤ cs.length := by
  unfold sign
  split <;> simp

def scanExponent : List Char → Except Break (Option (Bool × List Char) × List Char)
  | [] => .ok (none, [])
  | c :: cs =>
    if c = 'e' ∨ c = 'E' then
      (digitRun (sign cs).2).map fun run => (some ((sign cs).1, run.1), run.2)
    else .ok (none, c :: cs)

theorem scanExponent_length {cs rest : List Char} {e : Option (Bool × List Char)}
    (h : scanExponent cs = .ok (e, rest)) : rest.length ≤ cs.length := by
  unfold scanExponent at h
  split at h
  · simp_all
  · next c cs =>
    split at h
    · cases hd : digitRun (sign cs).2 with
      | error b => simp [hd, Except.map] at h
      | ok run =>
        have := digitRun_length hd
        have := sign_length cs
        simp only [hd, Except.map, Except.ok.injEq, Prod.mk.injEq] at h
        rw [← h.2, List.length_cons]
        omega
    · simp_all

/-- The minus sign before a number. -/
def minus : List Char → Bool × List Char
  | '-' :: cs => (true, cs)
  | cs => (false, cs)

theorem minus_length (cs : List Char) : (minus cs).2.length ≤ cs.length := by
  unfold minus
  split <;> simp

/-- The literal at the front of a text that starts with a minus sign or a digit. -/
def scan (cs : List Char) : Except Break (Literal × List Char) := do
  let whole ← scanWhole (minus cs).2
  let fraction ← scanFraction whole.2
  let exponent ← scanExponent fraction.2
  .ok (⟨(minus cs).1, whole.1, fraction.1, exponent.1⟩, exponent.2)

theorem scan_length {cs rest : List Char} {l : Literal} (h : scan cs = .ok (l, rest)) :
    rest.length < cs.length := by
  unfold scan at h
  cases hw : scanWhole (minus cs).2 with
  | error b => simp [hw, bind, Except.bind] at h
  | ok whole =>
    cases hf : scanFraction whole.2 with
    | error b => simp [hw, hf, bind, Except.bind] at h
    | ok fraction =>
      cases he : scanExponent fraction.2 with
      | error b => simp [hw, hf, he, bind, Except.bind] at h
      | ok exponent =>
        have := scanWhole_length hw
        have := scanFraction_length hf
        have := scanExponent_length he
        have := minus_length cs
        simp only [hw, hf, he, bind, Except.bind, Except.ok.injEq, Prod.mk.injEq] at h
        rw [← h.2]
        omega

/-! ## The range of a double -/

/-- The double nearest to a natural number, as a natural number: 53 leading bits are kept, and a tie
goes to the even neighbour. -/
def roundDouble (n : Nat) : Nat :=
  let unit := 1 <<< (n.log2 + 1 - 53)
  let q := n / unit
  let r := n % unit
  if 2 * r > unit ∨ (2 * r = unit ∧ q % 2 = 1) then (q + 1) * unit else q * unit

/-- The least natural number that rounds to no finite double. -/
def doubleLimit : Nat := 1 <<< 1024 - 1 <<< 970

/-- Whether `significand * 10 ^ exponent` is beyond the doubles. -/
def exceedsDouble (significand : Nat) (exponent : Int) : Bool :=
  significand ≠ 0 && 0 ≤ exponent &&
    (308 < exponent ||
      doubleLimit ≤ roundDouble significand * roundDouble (Nat.pow 10 exponent.toNat))

/-! ## Values -/

/-- Digits after `n` as long as the number stays below `2 ^ 64`, with the digits left over. -/
def gather (n : Nat) : List Char → Nat × List Char
  | [] => (n, [])
  | c :: cs =>
    let n' := n * 10 + (c.toNat - '0'.toNat)
    if n' < 0x10000000000000000 then gather n' cs else (n, c :: cs)

/-- The digits of an exponent as a number; past `2 ^ 31` it counts no further. -/
def exponentSize (ds : List Char) : Nat :=
  ds.foldl (fun n c => if n < 0x80000000 then n * 10 + (c.toNat - '0'.toNat) else n) 0

/-- The significand of at most 64 bits and the power of ten with which the literal is judged. -/
def scaled (l : Literal) : Nat × Int :=
  let (n, dropped) := gather 0 l.digits
  let (m, kept) :=
    let fraction := l.fraction.getD []
    let (m, rest) := gather n fraction
    (m, fraction.length - rest.length)
  let e : Int := match l.exponent with
    | none => 0
    | some (true, ds) => -(exponentSize ds : Int)
    | some (false, ds) => exponentSize ds
  (m, dropped.length - kept + e)

/-- The value of a literal.  A minus sign before zero makes a real number. -/
def value? (l : Literal) : Option Number :=
  let n := (gather 0 l.digits).1
  let whole := l.fraction.isNone && l.exponent.isNone && (gather 0 l.digits).2.isEmpty
  if whole && !l.negative then some (.whole n)
  else if whole && l.negative && 0 < n && n ≤ 0x8000000000000000 then some (.whole (-n))
  else
    let (m, e) := l.scaled
    if exceedsDouble m e then none else some .real

end Literal

end PinBench.Json
