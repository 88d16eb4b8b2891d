import PinBench.Listing.Reading
import PinBench.Text.Utf8

/-!
# Receiving listings

A device answers with a listing: a line that holds the marker, two lines of headings, and two lines
of inputs.  It arrives in chunks that are cut anywhere.

* `listing?`: the two lines of the first listing in a text, if it is complete.
* `overflow`: what is kept of a text that is too long to wait with.
* `Receiver.feed`: one chunk, and the reading it completes.
-/

namespace PinBench

/-! ## Lines -/

/-- A text under way: its complete lines and the last one, all of them last first. -/
structure Lines where
  complete : List (List Char)
  last : List Char

def Lines.push (s : Lines) (c : Char) : Lines :=
  if c = '\n' then ⟨s.last.reverse :: s.complete, []⟩ else ⟨s.complete, c :: s.last⟩

/-- A line without the carriage return at its end. -/
def withoutReturn (line : List Char) : List Char :=
  if line.getLast? = some '\r' then line.dropLast else line

/-- The lines of a text that a line feed ends. -/
def completeLines (cs : List Char) : List (List Char) :=
  (cs.foldl Lines.push ⟨[], []⟩).complete.reverse.map withoutReturn

/-! ## Listings -/

/-- What the first line of a listing holds. -/
def marker : List Char := "Etat des entrees:".toList

/-- Whether the marker stands somewhere in a text. -/
def hasMarker : List Char → Bool
  | [] => false
  | c :: cs => marker.isPrefixOf (c :: cs) || hasMarker cs

/-- The lines of inputs after the first marker; neither may be empty. -/
def listing? (cs : List Char) : Option (List Char × List Char) :=
  match (completeLines cs).dropWhile fun line => !hasMarker line with
  | _ :: _ :: _ :: a :: b :: _ => if a.isEmpty || b.isEmpty then none else some (a, b)
  | _ => none

/-! ## Overflow -/

/-- How many bytes may wait for the end of a listing. -/
def capacity : Nat := 16384

def byteLength (cs : List Char) : Nat :=
  cs.foldl (fun n c => n + c.utf8Size) 0

/-- The text from the last marker on, where `found` is what an earlier marker gives. -/
def lastMarked (found : Option (List Char)) : List Char → Option (List Char)
  | [] => found
  | c :: cs => lastMarked (if marker.isPrefixOf (c :: cs) then some (c :: cs) else found) cs

/-- A text that is too long is cut down to its last marker, or dropped. -/
def overflow (cs : List Char) : List Char :=
  if byteLength cs ≤ capacity then cs
  else match lastMarked none cs with
    | some kept => if byteLength kept ≤ capacity then kept else []
    | none => []

/-! ## Receivers -/

/-- The text of one device that waits for the end of a listing. -/
structure Receiver where
  device : String
  buffer : List Char
  deriving DecidableEq

namespace Receiver

def ofDevice (device : String) : Receiver := ⟨device, []⟩

def reset (r : Receiver) : Receiver := { r with buffer := [] }

/-- A chunk as text. -/
def feedText (r : Receiver) (cs : List Char) : Option Reading × Receiver :=
  let text := r.buffer ++ cs
  match listing? text with
  | some (a, b) => (some ⟨r.device, String.ofList a, String.ofList b⟩, r.reset)
  | none => (none, { r with buffer := overflow text })

/-- A chunk of bytes, each decoded on its own. -/
def feed (r : Receiver) (bytes : List UInt8) : Option Reading × Receiver :=
  r.feedText (Text.decodeLossy bytes)

end Receiver

end PinBench
