import Mathlib.Data.List.Forall2
import PinBench.Tracker
import PinBench.Proofs.Category

/-!
# Evaluating categories

What a category was found to be before has no bearing on what it is found to be now.

* `Category.rules`: a category without its current state.
* `Tracker.evaluate_of_rules`: **an evaluation depends on the rules alone**.
* `Tracker.rules_of_evaluate`: it keeps the rules.
* `Tracker.Refreshing`, `Tracker.refreshed_refreshing`: the manners in which a refresh ends.
* `Tracker.references`, `Tracker.evaluate_eq_error_iff`: **an evaluation fails with the first look
  that stops it, and only so**.
* `Category.pins`, `Tracker.exists_of_evaluate`: such a look is at a card pin that some state names
  and that is not there.
* `Tracker.first_match_wins`: **else every category is in the first of its states that matches**.
-/

namespace PinBench

namespace Category

/-- The category as none of its states were current. -/
def rules (c : Category) : Category := c.settle none

theorem settle_rules (c : Category) (s? : Option CodedState) : c.rules.settle s? = c.settle s? := by
  cases s? <;> rfl

theorem rules_settle (c : Category) (s? : Option CodedState) : (c.settle s?).rules = c.rules := by
  cases s? <;> rfl

theorem find_rules (t : Rig) (c : Category) : c.rules.find t = c.find t := rfl

end Category

namespace Tracker

theorem evaluate_map_rules (t : Rig) (cs : List Category) :
    evaluate t (cs.map Category.rules) = evaluate t cs := by
  induction cs with
  | nil => rfl
  | cons c cs ih =>
    rw [List.map_cons, evaluate, evaluate, Category.find_rules, ih]
    cases c.find t with
    | error f => rfl
    | ok s? => rw [ok_bind, ok_bind, Category.settle_rules]

/-- **An evaluation depends on the rules alone.** -/
theorem evaluate_of_rules {cs ds : List Category}
    (h : cs.map Category.rules = ds.map Category.rules) (t : Rig) :
    evaluate t cs = evaluate t ds := by
  rw [← evaluate_map_rules, h, evaluate_map_rules]

theorem rules_of_evaluate {t : Rig} {cs ds : List Category} (h : evaluate t cs = .ok ds) :
    ds.map Category.rules = cs.map Category.rules := by
  induction cs generalizing ds with
  | nil =>
    cases h
    rfl
  | cons c cs ih =>
    obtain ⟨s?, -, h⟩ := ok_of_bind h
    obtain ⟨es, hes, h⟩ := ok_of_bind h
    cases h
    rw [List.map_cons, List.map_cons, ih hes, Category.rules_settle]

/-! ## Refreshing -/

variable {β : Type}

/-- What a refresh leaves. -/
inductive Refreshing (k : Tracker) (t : Rig) (now : Nat) (l : Link β) :
    Run Tracker β Bool → Prop where
  | refused {f : Fault} (hd : k.due now) (h : evaluate t k.categories = .error f) :
      Refreshing k t now l ⟨.error f, k, l⟩
  | evaluated {cs : List Category} (hd : k.due now) (h : evaluate t k.categories = .ok cs)
      (severity : Severity) (text : String) :
      Refreshing k t now l ⟨.ok true, ⟨cs, some now⟩, l.note severity text⟩
  | held (hd : k.due now = false) : Refreshing k t now l ⟨.ok false, k, l⟩

theorem refreshed_refreshing (k : Tracker) (t : Rig) (now : Nat) (l : Link β) :
    Refreshing k t now l (k.refreshed t now l) := by
  unfold refreshed refresh
  by_cases hd : k.due now
  · rw [if_pos hd]
    cases h : evaluate t k.categories with
    | error f => exact .refused hd h
    | ok cs => exact .evaluated hd h _ _
  · rw [if_neg hd]
    exact .held (by simpa using hd)

theorem result_of_due {k : Tracker} {t : Rig} {now : Nat} {l : Link β} (hd : k.due now = true) :
    (k.refreshed t now l).result = (evaluate t k.categories).map fun _ => true := by
  unfold refreshed refresh
  rw [if_pos hd]
  cases evaluate t k.categories <;> rfl

theorem result_ne_false_iff {k : Tracker} {t : Rig} {now : Nat} {l : Link β} :
    (k.refreshed t now l).result ≠ .ok false ↔ k.due now = true := by
  cases hd : k.due now with
  | true =>
    rw [result_of_due hd]
    cases evaluate t k.categories <;> simp [Except.map]
  | false => simp [refreshed, refresh, hd]

/-- A tracker that is not due holds what it found last. -/
theorem refreshed?_ne_none {k : Tracker} {now : Nat} (h : k.due now = false) :
    k.refreshed? ≠ none := by
  intro hn
  rw [due, hn] at h
  cases h

end Tracker

/-! ## What an evaluation finds -/

namespace Tracker

variable {t : Rig} {cs ds : List Category} {f : Fault}

/-- The looks of all categories in their places, category by category. -/
def references (cs : List Category) : List Reference := cs.flatMap Category.references

theorem settled_of_evaluate (h : evaluate t cs = .ok ds) :
    List.Forall₂ (Category.Settled t) cs ds := by
  induction cs generalizing ds with
  | nil =>
    cases h
    exact .nil
  | cons c cs ih =>
    obtain ⟨s?, hs, h⟩ := ok_of_bind h
    obtain ⟨es, hes, h⟩ := ok_of_bind h
    cases h
    exact .cons (Category.settled_of_find hs) (ih hes)

/-- **An evaluation fails with the first look that stops it, and only so.** -/
theorem evaluate_eq_error_iff :
    evaluate t cs = .error f ↔ FirstFault (Reference.Stops t) (references cs) f := by
  induction cs with
  | nil => exact iff_of_false (by simp [evaluate]) not_firstFault_nil
  | cons c cs ih =>
    rw [references] at ih
    rw [evaluate, references, List.flatMap_cons, firstFault_append, ← ih]
    simp only [← Category.find_eq_error_iff]
    cases c.find t with
    | error f => simp [Bind.bind, Except.bind]
    | ok s? => cases evaluate t cs <;> simp [Bind.bind, Except.bind]

end Tracker

/-- The card pins that the states of a category look at, by their names. -/
def Category.pins (c : Category) : List (String × String) :=
  c.states.flatMap fun s => s.targets.flatMap fun g => g.cards.map fun card => (card, g.label)

theorem Category.mem_pins_of_reference {c : Category} {r : Reference} (h : r ∈ c.references) :
    (r.item.card, r.item.label) ∈ c.pins := by
  obtain ⟨s, bs, xs, hs, hx⟩ := mem_trials.mp h
  have hx : r.item ∈ s.looks := hx ▸ List.mem_append_right r.earlier List.mem_cons_self
  obtain ⟨g, hg, hx⟩ := List.mem_flatMap.mp hx
  obtain ⟨card, hc, hx⟩ := List.mem_map.mp hx
  rw [← hx]
  exact List.mem_flatMap.mpr ⟨s, hs ▸ List.mem_append_right r.before List.mem_cons_self,
    List.mem_flatMap.mpr ⟨g, hg, List.mem_map_of_mem hc⟩⟩

/-- **An evaluation fails at a card pin that some state looks at and that is not there.** -/
theorem Tracker.exists_of_evaluate {t : Rig} {cs : List Category} {f : Fault}
    (h : evaluate t cs = .error f) : ∃ c ∈ cs, ∃ x ∈ c.pins, t.pin x.1 x.2 = .error f := by
  obtain ⟨as, r, bs, hr, -, -, hm⟩ := evaluate_eq_error_iff.mp h
  have hr : r ∈ references cs := hr ▸ List.mem_append_right as List.mem_cons_self
  obtain ⟨c, hc, hr⟩ := List.mem_flatMap.mp hr
  exact ⟨c, hc, _, Category.mem_pins_of_reference hr, Rig.pin_eq_error_iff.mpr hm⟩

/-- **The first match wins.**  A refresh that evaluates fails exactly where some reference whose
turn comes is to a card or a pin that is not there, and with the fault of the first such reference.
Else every category gets the code and the name of the first of its states that matches, and keeps
its name and its states. -/
theorem Tracker.first_match_wins {β : Type} (k : Tracker) (t : Rig) (now : Nat) (l : Link β)
    (h : k.due now = true) :
    let r := k.refreshed t now l
    ((∃ f, r.result = .error f) ↔
      ∃ x ∈ references k.categories, x.Reached t ∧ ∃ f, t.Missing x.item.card x.item.label f) ∧
    (∀ f, r.result = .error f ↔ FirstFault (Reference.Stops t) (references k.categories) f) ∧
    ((∀ f, r.result ≠ .error f) →
      r.result = .ok true ∧ List.Forall₂ (Category.Settled t) k.categories r.state.categories) := by
  intro r
  have hfirst : ∀ f,
      r.result = .error f ↔ FirstFault (Reference.Stops t) (references k.categories) f := by
    intro f
    rw [← evaluate_eq_error_iff, result_of_due h]
    cases evaluate t k.categories <;> simp [Except.map]
  refine ⟨?_, hfirst, ?_⟩
  · simp only [hfirst, exists_firstFault_iff, Reference.Stops, exists_and_left]
  · intro hne
    have hr : Refreshing k t now l r := refreshed_refreshing k t now l
    clear_value r
    cases hr with
    | refused hd he => exact (hne _ rfl).elim
    | evaluated hd he => exact ⟨rfl, settled_of_evaluate he⟩
    | held hd =>
      rw [h] at hd
      cases hd

/-- A door that is ajar as well as open, with a card that is not there and that nobody looks at, and
a lift that is stopped by a pin that is not there. -/
theorem Tracker.first_match_wins_door :
    let t : Rig := ⟨[], [], [⟨"J1", [⟨"A", ⟨1, 0⟩, some true⟩, ⟨"B", ⟨1, 1⟩, none⟩]⟩], false⟩
    let shut : CodedState := ⟨"shut", 0, [⟨["J1", "J9"], "A", false⟩]⟩
    let ajar : CodedState := ⟨"ajar", 1, [⟨["J1"], "A", true⟩, ⟨["J1"], "B", false⟩]⟩
    let wide : CodedState := ⟨"open", 2, [⟨["J1"], "A", true⟩]⟩
    let door : Category := ⟨"door", [shut, ajar, wide], 0, some "shut"⟩
    let lift : Category := ⟨"lift", [⟨"up", 5, [⟨["J1"], "C", true⟩]⟩], 5, some "up"⟩
    (ofCategories [door]).due 0 = true ∧
      List.Forall₂ (Category.Settled t) [door] [⟨"door", door.states, 1, some "ajar"⟩] ∧
      FirstFault (Reference.Stops t) (references [door, lift]) (.unknownPin "J1" "C") := by
  intro t shut ajar wide door lift
  obtain ⟨-, -, hdoor⟩ := first_match_wins (ofCategories [door]) t 0 (.ofBus ()) rfl
  obtain ⟨-, hlift, -⟩ := first_match_wins (ofCategories [door, lift]) t 0 (.ofBus ()) rfl
  have hok : ((ofCategories [door]).refreshed t 0 (.ofBus ())).result = .ok true := by
    decide +kernel
  have hne : ∀ f, ((ofCategories [door]).refreshed t 0 (.ofBus ())).result ≠ .error f := by
    simp [hok]
  exact ⟨rfl, (hdoor hne).2, (hlift _).mp (by decide +kernel)⟩

end PinBench
