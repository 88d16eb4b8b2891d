import PinBench.Journal
import PinBench.Listing.Reading

/-!
# The queue of readings

Readings wait between the connections and the bench.  There is room for eight; one that finds no
room is lost.

* `ReadingQueue.offer`, `ReadingQueue.take`: its two ends.
-/

namespace PinBench

structure ReadingQueue where
  /-- The readings, the oldest first. -/
  waiting : List Reading
  size_le : waiting.length ≤ 8

namespace ReadingQueue

def empty : ReadingQueue := ⟨[], Nat.zero_le 8⟩

/-- A reading to the end of the queue, or the note that it is lost. -/
def offer (q : ReadingQueue) (r : Reading) : Option Note × ReadingQueue :=
  if h : q.waiting.length < 8 then
    (none, ⟨q.waiting ++ [r], by rw [List.length_append, List.length_singleton]; exact h⟩)
  else (some ⟨.warning, s!"telnet[{r.device}]: reading channel full, dropping reading"⟩, q)

/-- The oldest reading. -/
def take (q : ReadingQueue) : Option Reading × ReadingQueue :=
  match h : q.waiting with
  | [] => (none, q)
  | r :: rs => (some r, ⟨rs, by have := q.size_le; rw [h, List.length_cons] at this; omega⟩)

end ReadingQueue

end PinBench
