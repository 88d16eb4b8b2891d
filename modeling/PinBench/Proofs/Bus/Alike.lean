import Mathlib.Data.List.Forall2
import PinBench.Bus.Interrupted
import PinBench.Bus.Simulated
import PinBench.Proofs.Link

/-!
# Buses that are alike

Two buses of whatever kinds are **alike** if they refuse the same writes, whatever has been written
before.  They may give other reasons for it: `R` tells which reasons count as the same.

* `Bus.Alike`: buses that refuse the same writes.
* `Fault.Alike`, `ResultAlike`, `Entry.Alike`: faults, results and entries of the journal that are
  the same up to such reasons; if no other reasons count as the same, they are the same
  (`Fault.Alike.eq` and so on).
* `Bus.alike_of_step`: **buses that answer a write alike and stay in a relation are alike**; so are
  simulated buses with the same devices offline, and buses interrupted at the same attempts.
* `Link.Alike`: links to buses that are alike, with attempts and events that are alike so far; what
  has been noted does not count.
* `Link.Alike.write`: **a write is taken by both or refused by both, and leaves the links alike**.
* `Run.Alike`: runs that end alike.
* `Link.Quiet`, `Run.Same`: links, and ends of runs, that differ by notes at most.
-/

namespace PinBench

variable {R : String → String → Prop}

/-! ## Faults and results -/

/-- The same fault, or a failure of the same write. -/
inductive Fault.Alike (R : String → String → Prop) : Fault → Fault → Prop where
  | same (f : Fault) : Alike R f f
  | bus (w : RegisterWrite) {reason reason' : String} (h : R reason reason') :
      Alike R (.bus (w.failure reason)) (.bus (w.failure reason'))

theorem Fault.Alike.isBus {f f' : Fault} (h : f.Alike R f') : f'.isBus = f.isBus := by
  cases h <;> rfl

theorem Fault.Alike.eq (hR : ∀ x y, R x y → x = y) {f f' : Fault} (h : f.Alike R f') : f = f' := by
  cases h with
  | same => rfl
  | bus w h => rw [hR _ _ h]

inductive ResultAlike (R : String → String → Prop) {α : Type} :
    Except Fault α → Except Fault α → Prop where
  | ok (a : α) : ResultAlike R (.ok a) (.ok a)
  | error {f f' : Fault} (h : f.Alike R f') : ResultAlike R (.error f) (.error f')

theorem ResultAlike.eq (hR : ∀ x y, R x y → x = y) {α : Type} {x y : Except Fault α}
    (h : ResultAlike R x y) : x = y := by
  cases h with
  | ok a => rfl
  | error h => rw [h.eq hR]

/-! ## Journals -/

inductive Entry.Alike (R : String → String → Prop) : Entry → Entry → Prop where
  | attempt (w : RegisterWrite) {x y : Option String} (h : Option.Rel R x y) :
      Alike R (.attempt w x) (.attempt w y)
  | event (e : Event) : Alike R (.event e) (.event e)
  | fault {f f' : Fault} (h : f.Alike R f') :
      Alike R (.event (.busFault f.message)) (.event (.busFault f'.message))

theorem Entry.Alike.eq (hR : ∀ x y, R x y → x = y) {e e' : Entry} (h : e.Alike R e') : e = e' := by
  cases h with
  | attempt w h =>
    cases h with
    | none => rfl
    | some h => rw [hR _ _ h]
  | event e => rfl
  | fault h => rw [h.eq hR]

namespace Journal

/-- The attempts and the events, in order. -/
def deeds (j : Journal) : List Entry :=
  j.filter fun
    | .note _ => false
    | _ => true

@[simp] theorem deeds_append (j k : Journal) : deeds (j ++ k) = j.deeds ++ k.deeds :=
  List.filter_append ..

theorem deeds_notes (ns : List Note) : deeds (ns.map .note) = [] := by
  induction ns with
  | nil => rfl
  | cons n ns ih => exact ih

theorem attempts_deeds (j : Journal) : Journal.attempts j.deeds = j.attempts := by
  induction j with
  | nil => rfl
  | cons e j ih =>
    cases e with
    | attempt w f => exact congrArg ((w, f) :: ·) ih
    | event e => exact ih
    | note n => exact ih

theorem events_deeds (j : Journal) : Journal.events j.deeds = j.events := by
  induction j with
  | nil => rfl
  | cons e j ih =>
    cases e with
    | attempt w f => exact ih
    | event e => exact congrArg (e :: ·) ih
    | note n => exact ih

end Journal

/-! ## Buses -/

section Bus

variable {β δ : Type} [Bus β] [Bus δ]

/-- The bus after some writes, whether it took them or not. -/
def Bus.after (b : β) (ws : List RegisterWrite) : β := ws.foldl (fun b w => (Bus.write b w).bus) b

def Bus.Alike (R : String → String → Prop) (b : β) (d : δ) : Prop :=
  ∀ ws w,
    Option.Rel R (Bus.write (Bus.after b ws) w).failure? (Bus.write (Bus.after d ws) w).failure?

/-- **Buses in a relation are alike, if they answer every write alike and stay in it.** -/
theorem Bus.alike_of_step {I : β → δ → Prop}
    (hI : ∀ {b d}, I b d → ∀ w, Option.Rel R (Bus.write b w).failure? (Bus.write d w).failure? ∧
      I (Bus.write b w).bus (Bus.write d w).bus) {b : β} {d : δ} (h : I b d) :
    Bus.Alike R b d := by
  intro ws w
  induction ws generalizing b d with
  | nil => exact (hI h w).1
  | cons v ws ih => exact ih (hI h v).2

theorem Bus.Alike.write {b : β} {d : δ} (h : Bus.Alike R b d) (w : RegisterWrite) :
    Bus.Alike R (Bus.write b w).bus (Bus.write d w).bus :=
  fun ws => h (w :: ws)

/-- What has been written to a simulated bus has no bearing on what it refuses. -/
theorem SimulatedBus.alike (hR : ∀ reason, R reason reason) {b d : SimulatedBus}
    (h : b.offline = d.offline) : Bus.Alike R b d := by
  refine Bus.alike_of_step (I := fun b d : SimulatedBus => b.offline = d.offline) ?_ h
  intro b d h w
  dsimp only [Bus.write]
  rw [h]
  split
  · exact ⟨.some (hR _), h⟩
  · exact ⟨.none, rfl⟩

/-- Buses that are interrupted at the same attempts are alike if the buses behind them are. -/
theorem InterruptedBus.alike {b : β} {d : δ} (h : Bus.Alike R b d) {reason reason' : String}
    (hR : R reason reason') (tried : Nat) (failing : Nat → Bool) :
    Bus.Alike R (⟨b, tried, failing, reason⟩ : InterruptedBus β)
      (⟨d, tried, failing, reason'⟩ : InterruptedBus δ) := by
  refine Bus.alike_of_step (I := fun (x : InterruptedBus β) (y : InterruptedBus δ) =>
    ∃ b d n, Bus.Alike R b d ∧ x = ⟨b, n, failing, reason⟩ ∧ y = ⟨d, n, failing, reason'⟩) ?_
    ⟨b, d, tried, h, rfl, rfl⟩
  rintro _ _ ⟨b, d, n, h, rfl, rfl⟩ w
  dsimp only [Bus.write]
  split
  · exact ⟨.some hR, b, d, n + 1, h, rfl, rfl⟩
  · exact ⟨h [] w, _, _, n + 1, h.write w, rfl, rfl⟩

end Bus

/-! ## Links -/

/-- Nothing but notes has come between two links. -/
structure Link.Quiet {β : Type} (l l' : Link β) : Prop where
  bus : l'.bus = l.bus
  deeds : l'.journal.deeds = l.journal.deeds

/-- Links to buses that are alike, after the same attempts and events. -/
structure Link.Alike (R : String → String → Prop) {β δ : Type} [Bus β] [Bus δ] (l : Link β)
    (l' : Link δ) : Prop where
  bus : Bus.Alike R l.bus l'.bus
  deeds : List.Forall₂ (Entry.Alike R) l.journal.deeds l'.journal.deeds

namespace Link

theorem deeds_enter {β : Type} (l : Link β) (e : Entry) :
    (l.enter e).journal.deeds = l.journal.deeds ++ Journal.deeds [e] :=
  Journal.deeds_append ..

theorem deeds_write {β : Type} [Bus β] (l : Link β) (w : RegisterWrite) :
    (l.write w).2.journal.deeds =
      l.journal.deeds ++ [.attempt w (Bus.write l.bus w).failure?] := by
  rw [write_eq, Journal.deeds_append, Journal.deeds_append, Journal.deeds_notes, List.append_nil]
  rfl

theorem quiet_note {β : Type} (l : Link β) (severity : Severity) (text : String) :
    l.Quiet (l.note severity text) := by
  refine ⟨rfl, ?_⟩
  rw [note, deeds_enter]
  exact List.append_nil l.journal.deeds

theorem Quiet.refl {β : Type} (l : Link β) : l.Quiet l := ⟨rfl, rfl⟩

theorem Quiet.trans {β : Type} {l l₁ l₂ : Link β} (h : l.Quiet l₁) (g : l₁.Quiet l₂) :
    l.Quiet l₂ :=
  ⟨g.bus.trans h.bus, g.deeds.trans h.deeds⟩

namespace Quiet

variable {β : Type} {l l' : Link β}

theorem symm (h : l.Quiet l') : l'.Quiet l := ⟨h.bus.symm, h.deeds.symm⟩

theorem note (h : l.Quiet l') (s s' : Severity) (text text' : String) :
    (l.note s text).Quiet (l'.note s' text') :=
  ((l.quiet_note s text).symm.trans h).trans (l'.quiet_note s' text')

theorem tell (h : l.Quiet l') (e : Event) : (l.tell e).Quiet (l'.tell e) := by
  refine ⟨h.bus, ?_⟩
  rw [Link.tell, deeds_enter, Link.tell, deeds_enter, h.deeds]

theorem write [Bus β] (h : l.Quiet l') (w : RegisterWrite) :
    (l.write w).2.Quiet (l'.write w).2 := by
  refine ⟨?_, ?_⟩
  · rw [bus_write, bus_write, h.bus]
  · rw [deeds_write, deeds_write, h.bus, h.deeds]

theorem attempts (h : l.Quiet l') : l'.journal.attempts = l.journal.attempts := by
  rw [← Journal.attempts_deeds, h.deeds, Journal.attempts_deeds]

theorem adds (h : l.Quiet l') : l.Adds l' [] [] := by
  constructor
  · rw [h.attempts, List.append_nil]
  · rw [← Journal.events_deeds, h.deeds, Journal.events_deeds, List.append_nil]

end Quiet

variable {β δ : Type} [Bus β] [Bus δ] {l : Link β} {l' : Link δ}

theorem alike_ofBus {b : β} {d : δ} (h : Bus.Alike R b d) : (ofBus b).Alike R (ofBus d) :=
  ⟨h, .nil⟩

namespace Alike

/-- Notes do not count. -/
theorem quiet (h : l.Alike R l') {l₁ : Link β} {l₁' : Link δ} (q : l.Quiet l₁)
    (q' : l'.Quiet l₁') : l₁.Alike R l₁' :=
  ⟨q.bus ▸ q'.bus ▸ h.bus, q.deeds ▸ q'.deeds ▸ h.deeds⟩

theorem note (h : l.Alike R l') (s s' : Severity) (text text' : String) :
    (l.note s text).Alike R (l'.note s' text') :=
  h.quiet (l.quiet_note s text) (l'.quiet_note s' text')

theorem tell_alike (h : l.Alike R l') {e e' : Event} (he : Entry.Alike R (.event e) (.event e')) :
    (l.tell e).Alike R (l'.tell e') := by
  refine ⟨h.bus, ?_⟩
  rw [tell, deeds_enter, tell, deeds_enter]
  exact List.rel_append h.deeds (.cons he .nil)

theorem tell (h : l.Alike R l') (e : Event) : (l.tell e).Alike R (l'.tell e) :=
  h.tell_alike (.event e)

/-- **A write is taken by both or refused by both.** -/
theorem outcome (h : l.Alike R l') (w : RegisterWrite) :
    Link.outcome l.bus w = .ok () ∧ Link.outcome l'.bus w = .ok () ∨
      ∃ reason reason', R reason reason' ∧ Link.outcome l.bus w = .error (w.failure reason) ∧
        Link.outcome l'.bus w = .error (w.failure reason') := by
  have hw : Option.Rel R (Bus.write l.bus w).failure? (Bus.write l'.bus w).failure? := h.bus [] w
  unfold Link.outcome
  generalize (Bus.write l.bus w).failure? = x, (Bus.write l'.bus w).failure? = y at hw
  cases hw with
  | none => exact .inl ⟨rfl, rfl⟩
  | some hr => exact .inr ⟨_, _, hr, rfl, rfl⟩

/-- **And it leaves the links alike.** -/
theorem write (h : l.Alike R l') (w : RegisterWrite) : (l.write w).2.Alike R (l'.write w).2 := by
  refine ⟨?_, ?_⟩
  · rw [bus_write, bus_write]
    exact h.bus.write w
  · rw [deeds_write, deeds_write]
    exact List.rel_append h.deeds (.cons (.attempt w (h.bus [] w)) .nil)

end Alike

end Link

/-! ## Runs -/

/-- Runs that end alike; `S` tells which states count as the same. -/
inductive Run.Alike (R : String → String → Prop) {σ β δ α : Type} [Bus β] [Bus δ]
    (S : σ → σ → Prop) : Run σ β α → Run σ δ α → Prop where
  | ok (a : α) {s s' : σ} (hs : S s s') {l : Link β} {l' : Link δ} (hl : l.Alike R l') :
      Alike R S ⟨.ok a, s, l⟩ ⟨.ok a, s', l'⟩
  | error {f f' : Fault} (hf : f.Alike R f') {s s' : σ} (hs : S s s') {l : Link β} {l' : Link δ}
      (hl : l.Alike R l') : Alike R S ⟨.error f, s, l⟩ ⟨.error f', s', l'⟩

namespace Run.Alike

variable {σ β δ α γ : Type} [Bus β] [Bus δ] {S : σ → σ → Prop} {r : Run σ β α} {r' : Run σ δ α}

theorem result (h : r.Alike R S r') : ResultAlike R r.result r'.result := by
  cases h with
  | ok a hs hl => exact .ok a
  | error hf hs hl => exact .error hf

theorem state (h : r.Alike R S r') : S r.state r'.state := by
  cases h with
  | ok a hs hl => exact hs
  | error hf hs hl => exact hs

theorem link (h : r.Alike R S r') : r.link.Alike R r'.link := by
  cases h with
  | ok a hs hl => exact hl
  | error hf hs hl => exact hl

theorem map (h : r.Alike R S r') (f : α → γ) : (r.map f).Alike R S (r'.map f) := by
  cases h with
  | ok a hs hl => exact .ok (f a) hs hl
  | error hf hs hl => exact .error hf hs hl

theorem imp {T : σ → σ → Prop} (h : r.Alike R S r') (hT : ∀ s s', S s s' → T s s') :
    r.Alike R T r' := by
  cases h with
  | ok a hs hl => exact .ok a (hT _ _ hs) hl
  | error hf hs hl => exact .error hf (hT _ _ hs) hl

/-- Where no two reasons count as the same, runs that end alike have the same result, attempts and
events. -/
theorem result_eq_and_deeds_eq (h : r.Alike R S r') (hR : ∀ x y, R x y → x = y) :
    r.result = r'.result ∧ r.link.journal.deeds = r'.link.journal.deeds :=
  ⟨h.result.eq hR, List.forall₂_eq_eq_eq ▸ h.link.deeds.imp fun _ _ he => he.eq hR⟩

end Run.Alike

/-- Ends that differ by notes at most; `S` tells which states count as the same. -/
structure Run.Same {σ β α : Type} (S : σ → σ → Prop) (r r' : Run σ β α) : Prop where
  result : r'.result = r.result
  state : S r.state r'.state
  link : r.link.Quiet r'.link

end PinBench
