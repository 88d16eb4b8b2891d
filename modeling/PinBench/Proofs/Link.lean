import PinBench.Bus.Basic

/-!
# The journal of a link

What each use of a link adds to its journal.

* `Link.attempts_write`: **a write is one attempt**, whatever the bus has to say.
* `Link.write_result`: its result is the reply of the bus.
* `Link.Adds`: the attempts and events that a journal has taken in.
* `Link.Smooth`: no attempt has failed, and `Link.Smooth.write`: a write that gets through keeps
  that.
-/

namespace PinBench

namespace Journal

theorem attempts_notes (ns : List Note) : attempts (ns.map .note) = [] := by
  induction ns with
  | nil => rfl
  | cons n ns ih => exact ih

theorem events_notes (ns : List Note) : events (ns.map .note) = [] := by
  induction ns with
  | nil => rfl
  | cons n ns ih => exact ih

end Journal

namespace Link

variable {β : Type}

/-! ## Notes and events -/

@[simp] theorem bus_note (l : Link β) (s : Severity) (text : String) :
    (l.note s text).bus = l.bus :=
  rfl

@[simp] theorem attempts_note (l : Link β) (s : Severity) (text : String) :
    (l.note s text).journal.attempts = l.journal.attempts := by
  rw [note, enter, Journal.attempts_append]
  exact List.append_nil _

@[simp] theorem attempts_tell (l : Link β) (e : Event) :
    (l.tell e).journal.attempts = l.journal.attempts := by
  rw [tell, enter, Journal.attempts_append]
  exact List.append_nil _

/-! ## What is added -/

/-- From `l` to `l'` the journal has taken in some attempts and some events. -/
structure Adds (l l' : Link β) (as : List (RegisterWrite × Option String)) (es : List Event) :
    Prop where
  attempts : l'.journal.attempts = l.journal.attempts ++ as
  events : l'.journal.events = l.journal.events ++ es

namespace Adds

variable {l l₁ : Link β} {as : List (RegisterWrite × Option String)} {es : List Event}

theorem refl (l : Link β) : l.Adds l [] [] := ⟨(List.append_nil _).symm, (List.append_nil _).symm⟩

theorem note (h : l.Adds l₁ as es) (severity : Severity) (text : String) :
    l.Adds (l₁.note severity text) as es := by
  constructor
  · rw [attempts_note, h.attempts]
  · rw [Link.note, enter, Journal.events_append, h.events]
    exact List.append_nil _

theorem tell (h : l.Adds l₁ as es) (e : Event) : l.Adds (l₁.tell e) as (es ++ [e]) := by
  constructor
  · rw [attempts_tell, h.attempts]
  · rw [Link.tell, enter, Journal.events_append, h.events, List.append_assoc]
    rfl

end Adds

/-! ## Writes -/

variable [Bus β]

/-- What the bus makes of a write. -/
def outcome (b : β) (w : RegisterWrite) : Except BusFailure Unit :=
  match (Bus.write b w).failure? with
  | none => .ok ()
  | some reason => .error (w.failure reason)

theorem write_eq (l : Link β) (w : RegisterWrite) :
    l.write w = (outcome l.bus w, ⟨(Bus.write l.bus w).bus,
      l.journal ++ (Bus.write l.bus w).notes.map .note ++
        [.attempt w (Bus.write l.bus w).failure?]⟩) := by
  unfold write outcome
  dsimp only
  cases (Bus.write l.bus w).failure? <;> rfl

theorem write_result (l : Link β) (w : RegisterWrite) : (l.write w).1 = outcome l.bus w := by
  rw [write_eq]

@[simp] theorem bus_write (l : Link β) (w : RegisterWrite) :
    (l.write w).2.bus = (Bus.write l.bus w).bus := by
  rw [write_eq]

@[simp] theorem attempts_write (l : Link β) (w : RegisterWrite) :
    (l.write w).2.journal.attempts =
      l.journal.attempts ++ [(w, (Bus.write l.bus w).failure?)] := by
  rw [write_eq, Journal.attempts_append, Journal.attempts_append, Journal.attempts_notes,
    List.append_nil]
  rfl

namespace Adds

variable {l l₁ : Link β} {as : List (RegisterWrite × Option String)} {es : List Event}
  (h : l.Adds l₁ as es) {w : RegisterWrite}
include h

theorem write (w : RegisterWrite) :
    l.Adds (l₁.write w).2 (as ++ [(w, (Bus.write l₁.bus w).failure?)]) es := by
  constructor
  · rw [attempts_write, h.attempts, List.append_assoc]
  · rw [write_eq, Journal.events_append, Journal.events_append, Journal.events_notes,
      List.append_nil, h.events]
    exact List.append_nil _

theorem write_ok (hw : outcome l₁.bus w = .ok ()) :
    l.Adds (l₁.write w).2 (as ++ [(w, none)]) es := by
  have ha := h.write w
  unfold outcome at hw
  cases hf : (Bus.write l₁.bus w).failure? with
  | none =>
    rw [hf] at ha
    exact ha
  | some reason =>
    rw [hf] at hw
    cases hw

theorem write_error {f : BusFailure} (hw : outcome l₁.bus w = .error f) :
    ∃ reason, f = w.failure reason ∧ l.Adds (l₁.write w).2 (as ++ [(w, some reason)]) es := by
  have ha := h.write w
  unfold outcome at hw
  cases hf : (Bus.write l₁.bus w).failure? with
  | none =>
    rw [hf] at hw
    cases hw
  | some reason =>
    rw [hf] at ha hw
    exact ⟨reason, (Except.error.inj hw).symm, ha⟩

end Adds

/-! ## Links without failures -/

/-- No attempt in the journal has failed. -/
def Smooth (l : Link β) : Prop := ∀ a ∈ l.journal.attempts, a.2 = none

omit [Bus β] in
theorem Smooth.note {l : Link β} (h : l.Smooth) (severity : Severity) (text : String) :
    (l.note severity text).Smooth := by
  unfold Smooth
  rw [attempts_note]
  exact h

omit [Bus β] in
theorem Smooth.tell {l : Link β} (h : l.Smooth) (e : Event) : (l.tell e).Smooth := by
  unfold Smooth
  rw [attempts_tell]
  exact h

theorem Smooth.write {l : Link β} (h : l.Smooth) {w : RegisterWrite}
    (hw : outcome l.bus w = .ok ()) : (l.write w).2.Smooth := by
  have hn : (Bus.write l.bus w).failure? = none := by
    unfold outcome at hw
    cases hf : (Bus.write l.bus w).failure? with
    | none => rfl
    | some reason =>
      rw [hf] at hw
      cases hw
  intro a ha
  rw [attempts_write] at ha
  rcases List.mem_append.mp ha with ha | ha
  · exact h a ha
  · rw [List.mem_singleton.mp ha]
    exact hn

end Link

end PinBench
