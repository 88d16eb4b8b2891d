import Mathlib.Data.List.Forall2
import PinBench.Proofs.Command
import PinBench.Proofs.Search

/-!
# Availability

The groups of a command are tried in turn, and the conditions of each in turn, until one group is
met or all have failed.  A condition on a category that is not there stops the trial, but only if
its turn comes.

* `Condition.Holds`, `Condition.Dangling`: a condition that is met, and one whose category is not
  there.
* `Command.questions`: the conditions of a command in their places; `Question.Reached`,
  `Question.Stops`: the turn of a condition comes, and its category is missing.
* `Command.available_eq_error_iff`: **a command cannot be judged because of the first condition that
  stops the trial, and only so**.
* `Command.Permitted`, `Command.allowed_iff`: **else it is available if all conditions of
  some group hold, or if it has none**.
* `Shuffled`, `Command.available_of_shuffled`: the order is of no account where no category is
  missing.
* `Command.or_of_ands`: all of that together.
-/

namespace PinBench

/-! ## Conditions -/

theorem Tracker.category_eq_error_iff {k : Tracker} {name : String} {f : Fault} :
    k.category name = .error f ↔
      (∀ e ∈ k.categories, e.name ≠ name) ∧ f = .unknownCategory name := by
  have hn : k.categories.find? (·.name == name) = none ↔ ∀ e ∈ k.categories, e.name ≠ name := by
    simp
  unfold category
  rw [← hn]
  cases k.categories.find? (·.name == name) <;> simp [eq_comm]

namespace Condition

variable {k : Tracker} {c : Condition} {f : Fault}

/-- The category of the condition is there, at a code that the condition allows. -/
def Holds (k : Tracker) (c : Condition) : Prop :=
  ∃ e, k.category c.category = .ok e ∧ allows c.code e.code = true

/-- No category has the name that the condition gives. -/
def Dangling (k : Tracker) (c : Condition) : Prop := ∀ e ∈ k.categories, e.name ≠ c.category

theorem met_eq_true_iff : c.met k = .ok true ↔ c.Holds k := by
  unfold met Holds Tracker.code
  cases k.category c.category <;> simp [Except.map]

theorem met_eq_error_iff : c.met k = .error f ↔ c.Dangling k ∧ f = .unknownCategory c.category := by
  unfold Dangling
  rw [← Tracker.category_eq_error_iff, met, Tracker.code]
  cases k.category c.category <;> simp [Except.map]

/-- A condition on a category that is missing does not hold. -/
theorem Holds.not_dangling (h : c.Holds k) : ¬c.Dangling k := by
  obtain ⟨e, he, -⟩ := h
  intro hd
  rw [Tracker.category_eq_error_iff.mpr ⟨hd, rfl⟩] at he
  cases he

theorem allMet_eq (k : Tracker) (cs : List Condition) : allMet k cs = cs.allM (met k) := by
  induction cs with
  | nil => rfl
  | cons c cs ih =>
    rw [allMet, List.allM_cons, ih]
    rcases c.met k with f | (_ | _) <;> rfl

theorem anyMet_eq (k : Tracker) (gs : List (List Condition)) :
    anyMet k gs = (gs.findM? (allMet k)).map Option.isSome := by
  induction gs with
  | nil => rfl
  | cons g gs ih =>
    rw [anyMet, List.findM?, ih]
    rcases allMet k g with f | (_ | _) <;> rfl

end Condition

/-! ## Questions -/

/-- A condition in its place: before it come groups of its command, and conditions of its own
group. -/
abbrev Question := Trial (List Condition) Condition

namespace Question

/-- No group before holds entirely, and every condition before in its own group holds. -/
def Reached (k : Tracker) (q : Question) : Prop :=
  (∀ g ∈ q.before, ¬∀ c ∈ g, c.Holds k) ∧ ∀ c ∈ q.earlier, c.Holds k

/-- The condition is reached, and its category is not there. -/
def Stops (k : Tracker) (q : Question) (f : Fault) : Prop :=
  q.Reached k ∧ q.item.Dangling k ∧ f = .unknownCategory q.item.category

theorem stops_eq (k : Tracker) : Stops k = Trial.Fails id (Condition.met k) := by
  funext q f
  simp only [Stops, Reached, Trial.Fails, Trial.Comes, Condition.met_eq_true_iff,
    Condition.met_eq_error_iff, id]

end Question

theorem anyMet_eq_error_iff {k : Tracker} {gs : List (List Condition)} {f : Fault} :
    Condition.anyMet k gs = .error f ↔ FirstFault (Question.Stops k) (trials id gs) f := by
  have hm : Condition.allMet k = fun g => (id g).allM (Condition.met k) :=
    funext (Condition.allMet_eq k)
  rw [Question.stops_eq, ← search_eq_error_iff, Condition.anyMet_eq, hm]
  cases gs.findM? fun g => (id g).allM (Condition.met k) <;> simp [Except.map]

/-! ## Commands -/

namespace Command

variable {k : Tracker} {c : Command} {f : Fault}

/-- The conditions of a command in their places, group by group. -/
def questions (c : Command) : List Question := trials id c.conditions

/-- All conditions of some group hold, or there are no groups. -/
def Permitted (k : Tracker) (c : Command) : Prop :=
  c.conditions = [] ∨ ∃ g ∈ c.conditions, ∀ d ∈ g, d.Holds k

theorem allowed_iff : c.Allowed k ↔ c.Permitted k := by
  unfold Allowed Permitted
  simp only [Condition.met_eq_true_iff]

/-- **A command cannot be judged because of the first condition that stops the trial, and only
so.** -/
theorem available_eq_error_iff :
    c.available k = .error f ↔ FirstFault (Question.Stops k) c.questions f := by
  unfold available questions
  cases c.conditions with
  | nil => exact iff_of_false (by simp) not_firstFault_nil
  | cons g gs =>
    rw [if_neg (by simp)]
    exact anyMet_eq_error_iff

/-- A command that can be judged is available if all conditions of some group hold. -/
theorem exists_of_not_stopped (h : ∀ f, ¬FirstFault (Question.Stops k) c.questions f) :
    ∃ b, c.available k = .ok b ∧ (b = true ↔ c.Permitted k) := by
  cases ha : c.available k with
  | error f => exact (h f (available_eq_error_iff.mp ha)).elim
  | ok b => exact ⟨b, rfl, (available_iff ha).trans allowed_iff⟩

theorem not_stopped (h : ∀ g ∈ c.conditions, ∀ d ∈ g, ¬d.Dangling k) (f : Fault) :
    ¬FirstFault (Question.Stops k) c.questions f := by
  rintro ⟨as, q, bs, hq, -, -, hd, -⟩
  have hmem : q ∈ c.questions := hq ▸ List.mem_append_right as List.mem_cons_self
  obtain ⟨g, hs, xs, hg, hx⟩ := mem_trials.mp hmem
  have hx : q.item ∈ id g := hx ▸ List.mem_append_right q.earlier List.mem_cons_self
  exact h g (hg ▸ List.mem_append_right q.before List.mem_cons_self) _ hx hd

end Command

/-! ## Order -/

/-- The same groups in another order, with the elements of each in another order. -/
def Shuffled {α : Type} (gs hs : List (List α)) : Prop :=
  ∃ ms, gs.Perm ms ∧ List.Forall₂ List.Perm ms hs

/-- What some group has in any order some shuffled group has. -/
theorem Shuffled.exists_iff {α : Type} {gs hs : List (List α)} (h : Shuffled gs hs)
    {P : List α → Prop} (hP : ∀ g g' : List α, g.Perm g' → (P g ↔ P g')) :
    (∃ g ∈ gs, P g) ↔ ∃ g ∈ hs, P g := by
  obtain ⟨ms, hp, hf⟩ := h
  simp only [hp.mem_iff]
  clear hp
  induction hf with
  | nil => rfl
  | cons hab _ ih => simp only [List.mem_cons, exists_eq_or_imp, hP _ _ hab, ih]

theorem Shuffled.eq_nil_iff {α : Type} {gs hs : List (List α)} (h : Shuffled gs hs) :
    gs = [] ↔ hs = [] := by
  obtain ⟨ms, hp, hf⟩ := h
  rw [← List.length_eq_zero_iff, hp.length_eq, hf.length_eq, List.length_eq_zero_iff]

namespace Command

variable {k : Tracker} {c d : Command}

theorem permitted_of_shuffled (h : Shuffled c.conditions d.conditions) :
    c.Permitted k ↔ d.Permitted k := by
  have hg : (∃ g ∈ c.conditions, ∀ e ∈ g, e.Holds k) ↔ ∃ g ∈ d.conditions, ∀ e ∈ g, e.Holds k :=
    h.exists_iff fun g g' hp => by simp only [hp.mem_iff]
  unfold Permitted
  rw [h.eq_nil_iff, hg]

/-- Where no category is missing, the order of groups and conditions is of no account. -/
theorem available_of_shuffled (h : Shuffled c.conditions d.conditions)
    (hc : ∀ g ∈ c.conditions, ∀ e ∈ g, ¬e.Dangling k) : d.available k = c.available k := by
  have hd : ∀ g ∈ d.conditions, ∀ e ∈ g, ¬e.Dangling k := by
    by_contra hn
    push Not at hn
    obtain ⟨g, hg, e, he, hdan⟩ := (h.exists_iff (P := fun g => ∃ e ∈ g, e.Dangling k)
      fun g g' hp => by simp only [hp.mem_iff]).mpr hn
    exact hc g hg e he hdan
  obtain ⟨b, hb, hbc⟩ := exists_of_not_stopped (not_stopped hc)
  obtain ⟨b', hb', hbd⟩ := exists_of_not_stopped (not_stopped hd)
  rw [hb, hb', Bool.eq_iff_iff.mpr (hbd.trans ((permitted_of_shuffled h).symm.trans hbc.symm))]

/-- **Availability is an "or" of "and"s, with the faults in order.**  A command cannot be judged
exactly where the turn of a condition comes whose category is not there, and the first such
condition gives the fault.  Else it is available if all conditions of some group hold, or if it has
no groups, where a condition whose category is missing does not hold; and where no category is
missing at all, it does not matter in which order they stand. -/
theorem or_of_ands (k : Tracker) (c : Command) :
    (∀ f, c.available k = .error f ↔ FirstFault (Question.Stops k) c.questions f) ∧
    ((∃ f, c.available k = .error f) ↔ ∃ q ∈ c.questions, q.Reached k ∧ q.item.Dangling k) ∧
    ((¬∃ q ∈ c.questions, q.Reached k ∧ q.item.Dangling k) →
      ∃ b, c.available k = .ok b ∧ (b = true ↔ c.Permitted k)) ∧
    (∀ d : Condition, d.Dangling k → ¬d.Holds k) ∧
    ((∀ g ∈ c.conditions, ∀ d ∈ g, ¬d.Dangling k) →
      (c.available k = .ok true ↔ c.Permitted k) ∧
      ∀ d : Command, Shuffled c.conditions d.conditions → d.available k = c.available k) := by
  have herr : (∃ f, c.available k = .error f) ↔
      ∃ q ∈ c.questions, q.Reached k ∧ q.item.Dangling k := by
    simp only [available_eq_error_iff, exists_firstFault_iff, Question.Stops, exists_and_left,
      exists_eq, and_true]
  refine ⟨fun f => available_eq_error_iff, herr, ?_, ?_, ?_⟩
  · intro hn
    rw [← herr] at hn
    exact exists_of_not_stopped fun f hf => hn ⟨f, available_eq_error_iff.mpr hf⟩
  · intro d hd hh
    exact hh.not_dangling hd
  · intro hc
    obtain ⟨b, hb, hbc⟩ := exists_of_not_stopped (not_stopped hc)
    refine ⟨?_, fun d hd => available_of_shuffled hd hc⟩
    rw [hb, Except.ok.injEq]
    exact hbc

/-- A door that is shut, and no window.  One command never comes to its condition on the window, one
is stopped by it, and one has no such condition. -/
theorem or_of_ands_door :
    let k : Tracker := .ofCategories [⟨"door", [], 0, none⟩]
    let door : Int32 → Condition := fun n => ⟨"door", n⟩
    let window : Condition := ⟨"window", 1⟩
    let ring : Command := ⟨"ring", "ring", [[door 3, window], [door 0]], []⟩
    let knock : Command := ⟨"knock", "knock", [[door 3], [door 0, window], []], []⟩
    let unlock : Command := ⟨"unlock", "unlock", [[door 3], [door 0, door (-3)]], []⟩
    let unlock' : Command := ⟨"unlock", "unlock", [[door (-3), door 0], [door 3]], []⟩
    ring.Permitted k ∧ ring.available k = .ok true ∧
      FirstFault (Question.Stops k) knock.questions (.unknownCategory "window") ∧
      unlock.Permitted k ∧ unlock'.available k = unlock.available k := by
  intro k door window ring knock unlock unlock'
  obtain ⟨-, hring, hperm, -⟩ := or_of_ands k ring
  obtain ⟨hknock, -⟩ := or_of_ands k knock
  obtain ⟨-, -, -, -, hunlock⟩ := or_of_ands k unlock
  have hav : ring.available k = .ok true := rfl
  have hdoor : ∀ g ∈ unlock.conditions, ∀ d ∈ g, ¬d.Dangling k := by
    unfold Condition.Dangling
    decide
  obtain ⟨b, hb, hiff⟩ := hperm (hring.not.mp (by simp [hav]))
  obtain ⟨hiff', hshuffled⟩ := hunlock hdoor
  exact ⟨hiff.mp (Except.ok.inj (hb.symm.trans hav)), hav, (hknock _).mp rfl, hiff'.mp rfl,
    hshuffled unlock' ⟨[[door 0, door (-3)], [door 3]], .swap .., .cons (.swap ..)
      (.cons (.refl _) .nil)⟩⟩

end Command

end PinBench
