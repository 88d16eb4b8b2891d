/-!
# Blanks

The characters that count as blank at the ends of a text: those with the Unicode property
`White_Space`.

* `isBlank`: the property.
* `trim`: a text without the blanks at its two ends.
* `isBlank_of_isWhitespace`: **every ASCII blank is one**.
-/

namespace PinBench.Text

/-- The code points with the property `White_Space`, as ranges in increasing order. -/
def blankRanges : List (Nat × Nat) :=
  [(0x09, 0x0D), (0x20, 0x20), (0x85, 0x85), (0xA0, 0xA0), (0x1680, 0x1680), (0x2000, 0x200A),
    (0x2028, 0x2029), (0x202F, 0x202F), (0x205F, 0x205F), (0x3000, 0x3000)]

def isBlank (c : Char) : Bool :=
  blankRanges.any fun r => r.1 ≤ c.toNat && c.toNat ≤ r.2

theorem isBlank_of_isWhitespace {c : Char} (h : c.isWhitespace) : isBlank c := by
  simp only [Char.isWhitespace, Bool.or_eq_true, decide_eq_true_eq] at h
  rcases h with ((rfl | rfl) | rfl) | rfl <;> decide

/-- A text without the blanks at its two ends. -/
def trim (cs : List Char) : List Char :=
  ((cs.dropWhile isBlank).reverse.dropWhile isBlank).reverse

/-- The same on strings. -/
def trimmed (s : String) : String := String.ofList (trim s.toList)

end PinBench.Text
