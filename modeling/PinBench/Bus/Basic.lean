import PinBench.Journal

/-!
# Buses

A bus takes one register write at a time.  The bench does not care what is behind it, only whether
the write got through.

* `Bus`: what a type needs to be a bus.
* `Link`: a bus with the journal of its use.
* `Link.write`: one write, entered into the journal.
* `Run`: how an operation ends.
-/

namespace PinBench

/-- What a bus answers to a write. -/
structure Reply (β : Type) where
  /-- Why the write failed, if it did. -/
  failure? : Option String
  /-- What the bus itself has to say. -/
  notes : List Note
  bus : β

class Bus (β : Type) where
  write : β → RegisterWrite → Reply β

/-- A bus with the journal of its use. -/
structure Link (β : Type) where
  bus : β
  journal : Journal

namespace Link

variable {β : Type}

def ofBus (b : β) : Link β := ⟨b, []⟩

def enter (l : Link β) (e : Entry) : Link β := { l with journal := l.journal ++ [e] }

def note (l : Link β) (s : Severity) (text : String) : Link β := l.enter (.note ⟨s, text⟩)

def tell (l : Link β) (e : Event) : Link β := l.enter (.event e)

/-- Tries a write, once. -/
def write [Bus β] (l : Link β) (w : RegisterWrite) : Except BusFailure Unit × Link β :=
  let r := Bus.write l.bus w
  let l : Link β := ⟨r.bus, l.journal ++ r.notes.map .note ++ [.attempt w r.failure?]⟩
  match r.failure? with
  | none => (.ok (), l)
  | some reason => (.error (w.failure reason), l)

end Link

/-- The end of an operation: its result, the state after it, and the bus with the journal. -/
structure Run (σ β α : Type) where
  result : Except Fault α
  state : σ
  link : Link β

/-- The same run with another result. -/
def Run.map {σ β α γ : Type} (f : α → γ) (r : Run σ β α) : Run σ β γ :=
  ⟨r.result.map f, r.state, r.link⟩

/-- Either of two buses. -/
instance {β γ : Type} [Bus β] [Bus γ] : Bus (β ⊕ γ) where
  write
    | .inl b, w =>
      let r := Bus.write b w
      ⟨r.failure?, r.notes, .inl r.bus⟩
    | .inr c, w =>
      let r := Bus.write c w
      ⟨r.failure?, r.notes, .inr r.bus⟩

end PinBench
