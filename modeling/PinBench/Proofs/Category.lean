import PinBench.Category
import PinBench.Proofs.Rig.Lookup
import PinBench.Proofs.Search

/-!
# The state of a category

A category looks at one card pin after the other until it knows whether a state matches, and tries
its states in turn.  A card pin that is not there stops it, but only if its turn comes.

* `Look`: a card pin that a state looks at, with the level it asks for; `Look.Reads`: it is there
  and at that level.
* `CodedState.Matches`: every pin that the state looks at reads.
* `CodedState.matched_eq`: **a state is tried look by look**.
* `Category.references`: the looks of a category in their places; `Reference.Reached`,
  `Reference.Stops`: its turn comes, and finds that the pin is missing.
* `Category.settled_of_find`: **a category settles for the first of its states that matches**.
* `Category.find_eq_error_iff`: **it fails with the first look that stops it, and only so**.
-/

namespace PinBench

/-! ## Looks -/

/-- A card pin that a state looks at, with the level it asks for. -/
structure Look where
  card : String
  label : String
  level : Bool

namespace Look

variable {t : Rig} {x : Look} {f : Fault}

/-- The pin is there and at the level.  One that has no level yet is low. -/
def Reads (t : Rig) (x : Look) : Prop :=
  ∃ p, t.pin x.card x.label = .ok p ∧ p.level?.getD false = x.level

/-- Whether the pin is at the level. -/
def judge (t : Rig) (x : Look) : Except Fault Bool := (t.level x.card x.label).map (· == x.level)

theorem judge_eq_true_iff : x.judge t = .ok true ↔ x.Reads t := by
  unfold judge Reads Rig.level
  cases t.pin x.card x.label <;> simp [CardPin.level, Except.map]

theorem judge_eq_error_iff : x.judge t = .error f ↔ t.Missing x.card x.label f := by
  rw [← Rig.level_eq_error_iff, judge]
  cases t.level x.card x.label <;> simp [Except.map]

end Look

/-- The looks of a target, card by card. -/
def Target.looks (g : Target) : List Look := g.cards.map fun card => ⟨card, g.label, g.level⟩

theorem Target.met_eq (t : Rig) (g : Target) : g.met t = g.looks.allM (Look.judge t) := by
  unfold met looks
  induction g.cards with
  | nil => rfl
  | cons card cards ih =>
    rw [metOn, ih, List.map_cons, List.allM_cons, Look.judge]
    cases t.level card g.label with
    | error f => rfl
    | ok b => simp [Bind.bind, Except.bind, Except.map, pure, Except.pure]

namespace CodedState

variable {t : Rig} {s : CodedState}

/-- The looks of a state, target by target. -/
def looks (s : CodedState) : List Look := s.targets.flatMap Target.looks

/-- Every card of every target has its pin at the level. -/
def Matches (t : Rig) (s : CodedState) : Prop :=
  ∀ g ∈ s.targets, ∀ card ∈ g.cards, Look.Reads t ⟨card, g.label, g.level⟩

theorem matches_iff : s.Matches t ↔ ∀ x ∈ s.looks, x.Reads t := by
  unfold Matches looks Target.looks
  simp only [List.forall_mem_flatMap, List.forall_mem_map]

/-- **A state is tried look by look.** -/
theorem matched_eq (t : Rig) (s : CodedState) : s.matched t = s.looks.allM (Look.judge t) := by
  unfold matched looks
  induction s.targets with
  | nil => rfl
  | cons g gs ih =>
    rw [allMet, List.flatMap_cons, allM_append, Target.met_eq, ih]
    rfl

theorem matched_eq_true_iff : s.matched t = .ok true ↔ s.Matches t := by
  rw [matched_eq, allM_eq_true_iff, matches_iff]
  simp only [Look.judge_eq_true_iff]

end CodedState

/-! ## References -/

/-- A look in its place: before it come states of its category, and looks of its own state. -/
abbrev Reference := Trial CodedState Look

namespace Reference

/-- No state before matches, and every look before in its own state reads. -/
def Reached (t : Rig) (r : Reference) : Prop :=
  (∀ s ∈ r.before, ¬s.Matches t) ∧ ∀ x ∈ r.earlier, x.Reads t

/-- The look is reached, and its card pin is not there. -/
def Stops (t : Rig) (r : Reference) (f : Fault) : Prop :=
  r.Reached t ∧ t.Missing r.item.card r.item.label f

theorem stops_eq (t : Rig) : Stops t = Trial.Fails CodedState.looks (Look.judge t) := by
  funext r f
  simp only [Stops, Reached, Trial.Fails, Trial.Comes, Look.judge_eq_true_iff,
    Look.judge_eq_error_iff, CodedState.matches_iff]

end Reference

namespace Category

variable {t : Rig} {c : Category} {f : Fault}

/-- The looks of a category in their places, state by state. -/
def references (c : Category) : List Reference := trials CodedState.looks c.states

theorem firstMatch_eq (t : Rig) (ss : List CodedState) :
    firstMatch t ss = ss.findM? (CodedState.matched t) := by
  induction ss with
  | nil => rfl
  | cons s ss ih =>
    rw [firstMatch, List.findM?, ih]
    rcases s.matched t with f | (_ | _) <;> rfl

/-- **A category fails with the first look that stops it, and only so.** -/
theorem find_eq_error_iff :
    c.find t = .error f ↔ FirstFault (Reference.Stops t) c.references f := by
  have hm : CodedState.matched t = fun s => s.looks.allM (Look.judge t) :=
    funext (CodedState.matched_eq t)
  rw [find, firstMatch_eq, hm, search_eq_error_iff, Reference.stops_eq, references]

/-- What a category becomes: its current state is the first that matches. -/
inductive Settled (t : Rig) (c : Category) : Category → Prop where
  | matched {s : CodedState} (h : IsFirst (CodedState.Matches t) c.states s) :
      Settled t c ⟨c.name, c.states, s.code, some s.name⟩
  | unmatched (h : ∀ s ∈ c.states, ¬s.Matches t) : Settled t c ⟨c.name, c.states, -1, none⟩

/-- **A category settles for the first of its states that matches.** -/
theorem settled_of_find {s? : Option CodedState} (h : c.find t = .ok s?) :
    c.Settled t (c.settle s?) := by
  have hm : (CodedState.matched t · = .ok true) = CodedState.Matches t := by
    funext s
    rw [CodedState.matched_eq_true_iff]
  rw [find, firstMatch_eq] at h
  cases s? with
  | none =>
    have hn := forall_of_findM? h
    simp only [CodedState.matched_eq_true_iff] at hn
    exact .unmatched hn
  | some s =>
    have hf := isFirst_of_findM? h
    rw [hm] at hf
    exact .matched hf

end Category

end PinBench
