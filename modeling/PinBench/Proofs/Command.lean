import PinBench.Command
import PinBench.Proofs.Fault

/-!
# Commands see codes

Whether a command may be dispatched depends on the codes of the categories and on nothing else of
the tracker.

* `Tracker.Alike`: two trackers with the same codes.
* `Command.available_alike`, `Command.allAvailable_alike`, `Command.resolve_alike`: **trackers with
  the same codes allow the same commands**.
* `Command.Allowed`: all conditions of some group hold, or there are none.
* `Command.available_iff`: **a command that can be judged is judged by that**.
-/

namespace PinBench

/-- The trackers have the same codes, and lack the same categories. -/
def Tracker.Alike (k k' : Tracker) : Prop := ∀ name, k.code name = k'.code name

theorem Tracker.alike_ofCategories (k : Tracker) : k.Alike (.ofCategories k.categories) :=
  fun _ => rfl

variable {k k' : Tracker}

namespace Condition

theorem met_alike (h : k.Alike k') (c : Condition) : c.met k = c.met k' := by
  rw [met, met, h]

theorem allMet_alike (h : k.Alike k') (cs : List Condition) : allMet k cs = allMet k' cs := by
  induction cs with
  | nil => rfl
  | cons c cs ih => rw [allMet, allMet, met_alike h, ih]

theorem anyMet_alike (h : k.Alike k') (gs : List (List Condition)) :
    anyMet k gs = anyMet k' gs := by
  induction gs with
  | nil => rfl
  | cons g gs ih => rw [anyMet, anyMet, allMet_alike h, ih]

end Condition

namespace Command

theorem available_alike (h : k.Alike k') (c : Command) : c.available k = c.available k' := by
  rw [available, available, Condition.anyMet_alike h]

theorem allAvailable_alike (h : k.Alike k') (cs : List Command) :
    allAvailable k cs = allAvailable k' cs := by
  induction cs with
  | nil => rfl
  | cons c cs ih => rw [allAvailable, allAvailable, available_alike h, ih]

theorem resolve_alike (h : k.Alike k') (cs : List Command) (short : String) (force : Bool) :
    resolve k cs short force = resolve k' cs short force := by
  unfold resolve
  cases lookup cs short with
  | error f => rfl
  | ok c => simp only [available_alike h]

end Command

/-! ## What allows a command -/

namespace Condition

/-- Whether all conditions are met is found out if it comes to an end. -/
theorem allMet_iff {cs : List Condition} {b : Bool} (h : allMet k cs = .ok b) :
    b = true ↔ ∀ c ∈ cs, c.met k = .ok true := by
  induction cs with
  | nil =>
    cases h
    exact iff_of_true rfl fun c hc => (List.not_mem_nil hc).elim
  | cons c cs ih =>
    obtain ⟨met, hm, h⟩ := ok_of_bind h
    rw [List.forall_mem_cons, hm]
    cases met with
    | false =>
      cases h
      exact iff_of_false Bool.false_ne_true fun hc => by cases hc.1
    | true => exact (ih h).trans (and_iff_right rfl).symm

theorem anyMet_iff {gs : List (List Condition)} {b : Bool} (h : anyMet k gs = .ok b) :
    b = true ↔ ∃ g ∈ gs, ∀ c ∈ g, c.met k = .ok true := by
  induction gs with
  | nil =>
    cases h
    exact iff_of_false Bool.false_ne_true fun ⟨g, hg, _⟩ => List.not_mem_nil hg
  | cons g gs ih =>
    obtain ⟨met, hm, h⟩ := ok_of_bind h
    simp only [List.mem_cons, exists_eq_or_imp, ← allMet_iff hm]
    cases met with
    | true =>
      cases h
      exact iff_of_true rfl (.inl rfl)
    | false => exact (ih h).trans (or_iff_right Bool.false_ne_true).symm

end Condition

namespace Command

/-- All conditions of some group hold, or there are none. -/
def Allowed (k : Tracker) (c : Command) : Prop :=
  c.conditions = [] ∨ ∃ g ∈ c.conditions, ∀ d ∈ g, d.met k = .ok true

/-- **A command that is judged is judged by its conditions.** -/
theorem available_iff {c : Command} {b : Bool} (h : c.available k = .ok b) :
    b = true ↔ c.Allowed k := by
  unfold available at h
  unfold Allowed
  cases hc : c.conditions with
  | nil =>
    rw [hc] at h
    cases h
    exact iff_of_true rfl (.inl rfl)
  | cons g gs =>
    rw [hc] at h
    rw [or_iff_right (List.cons_ne_nil g gs)]
    exact Condition.anyMet_iff h

end Command

end PinBench
