import PinBench.Proofs.Fault

/-!
# Searches that may fail

A search goes through groups for the first whose items all hold.  It leaves a group at the first
item that does not hold, and fails at an item that cannot be judged, but only if its turn comes.

* `IsFirst`: the first element of a list with a property; `FirstFault`: the fault of the first
  element that has one.
* `Trial`, `trials`: the items of the groups, each with what comes before it.
* `Trial.Comes`: every item before it in its group holds, and no group before holds entirely.
* `isFirst_of_findM?`, `forall_of_findM?`: what a search finds.
* `search_eq_error_iff`: **a search fails with the first item whose turn comes and that cannot be
  judged, and only so**.
-/

namespace PinBench

variable {ε α β γ : Type}

/-! ## The first of a list -/

/-- The first element of the list with the property. -/
def IsFirst (P : α → Prop) (l : List α) (a : α) : Prop :=
  ∃ as bs, l = as ++ a :: bs ∧ (∀ x ∈ as, ¬P x) ∧ P a

theorem isFirst_head {P : α → Prop} {l : List α} {a : α} (ha : P a) : IsFirst P (a :: l) a :=
  ⟨[], l, rfl, fun _ hx => (List.not_mem_nil hx).elim, ha⟩

theorem IsFirst.cons {P : α → Prop} {l : List α} {a b : α} (hb : ¬P b) (h : IsFirst P l a) :
    IsFirst P (b :: l) a := by
  obtain ⟨as, bs, rfl, hn, ha⟩ := h
  exact ⟨b :: as, bs, rfl, List.forall_mem_cons.mpr ⟨hb, hn⟩, ha⟩

theorem IsFirst.mem {P : α → Prop} {l : List α} {a : α} (h : IsFirst P l a) : a ∈ l := by
  obtain ⟨as, bs, rfl, -, -⟩ := h
  exact List.mem_append_right as List.mem_cons_self

theorem IsFirst.holds {P : α → Prop} {l : List α} {a : α} (h : IsFirst P l a) : P a := by
  obtain ⟨as, bs, -, -, ha⟩ := h
  exact ha

theorem find?_eq_some_iff_isFirst {p : α → Bool} {l : List α} {a : α} :
    l.find? p = some a ↔ IsFirst (p · = true) l a := by
  rw [List.find?_eq_some_iff_append]
  unfold IsFirst
  simp only [Bool.not_eq_true', ← Bool.not_eq_true]
  constructor
  · rintro ⟨ha, as, bs, hl, hn⟩
    exact ⟨as, bs, hl, hn, ha⟩
  · rintro ⟨as, bs, hl, hn, ha⟩
    exact ⟨ha, as, bs, hl, hn⟩

/-- The list has an element with the fault, and none before it has any. -/
def FirstFault (M : α → ε → Prop) (l : List α) (e : ε) : Prop :=
  ∃ as a bs, l = as ++ a :: bs ∧ (∀ x ∈ as, ∀ e', ¬M x e') ∧ M a e

section

variable {M : α → ε → Prop} {l m : List α} {a : α} {e : ε}

theorem not_firstFault_nil : ¬FirstFault M [] e := by
  rintro ⟨as, a, bs, h, -⟩
  exact List.append_ne_nil_of_right_ne_nil as (List.cons_ne_nil a bs) h.symm

theorem firstFault_cons :
    FirstFault M (a :: l) e ↔ M a e ∨ (∀ e', ¬M a e') ∧ FirstFault M l e := by
  constructor
  · rintro ⟨as, b, bs, h, hn, hb⟩
    cases as with
    | nil =>
      cases h
      exact .inl hb
    | cons c as =>
      cases h
      exact .inr ⟨hn a List.mem_cons_self, as, b, bs, rfl,
        fun x hx => hn x (List.mem_cons_of_mem a hx), hb⟩
  · rintro (ha | ⟨ha, as, b, bs, rfl, hn, hb⟩)
    · exact ⟨[], a, l, rfl, fun _ hx => (List.not_mem_nil hx).elim, ha⟩
    · exact ⟨a :: as, b, bs, rfl, List.forall_mem_cons.mpr ⟨ha, hn⟩, hb⟩

theorem exists_firstFault_iff : (∃ e, FirstFault M l e) ↔ ∃ a ∈ l, ∃ e, M a e := by
  induction l with
  | nil => simp [not_firstFault_nil]
  | cons a l ih =>
    simp only [firstFault_cons, exists_or, exists_and_left, ih, List.mem_cons, exists_eq_or_imp]
    by_cases ha : ∃ e, M a e
    · exact iff_of_true (.inl ha) (.inl ha)
    · rw [and_iff_right (not_exists.mp ha)]

theorem firstFault_append : FirstFault M (l ++ m) e ↔
    FirstFault M l e ∨ (∀ e', ¬FirstFault M l e') ∧ FirstFault M m e := by
  induction l with
  | nil => simp [not_firstFault_nil]
  | cons a l ih =>
    have hn : (∀ e', ¬FirstFault M (a :: l) e') ↔
        (∀ e', ¬M a e') ∧ ∀ e', ¬FirstFault M l e' := by
      simp only [firstFault_cons, not_or, forall_and]
      exact and_congr_right fun h => forall_congr' fun e' => not_congr (and_iff_right h)
    rw [List.cons_append, firstFault_cons, firstFault_cons, hn, ih, and_or_left, or_assoc,
      and_assoc]

theorem firstFault_map {f : β → α} {N : β → ε → Prop} {m : List β}
    (h : ∀ b e, M (f b) e ↔ N b e) : FirstFault M (m.map f) e ↔ FirstFault N m e := by
  induction m with
  | nil => exact iff_of_false not_firstFault_nil not_firstFault_nil
  | cons b m ih =>
    rw [List.map_cons, firstFault_cons, firstFault_cons, ih]
    simp only [h]

theorem firstFault_and {p : Prop} :
    FirstFault (fun a e => p ∧ M a e) l e ↔ p ∧ FirstFault M l e := by
  by_cases hp : p <;> simp [hp, FirstFault]

end

/-! ## Trials -/

/-- The elements of a list, each with those before it. -/
def withEarlier : List α → List (List α × α)
  | [] => []
  | a :: as => ([], a) :: (withEarlier as).map fun x => (a :: x.1, x.2)

/-- An item of a group, with what comes before it. -/
structure Trial (γ α : Type) where
  /-- The groups before its own. -/
  before : List γ
  /-- The items of its own group before it. -/
  earlier : List α
  item : α

/-- The items of the groups, in their order. -/
def trials (items : γ → List α) (gs : List γ) : List (Trial γ α) :=
  (withEarlier gs).flatMap fun g => (withEarlier (items g.2)).map fun x => ⟨g.1, x.1, x.2⟩

/-- The trial in a search that has yet another group before all others. -/
def Trial.push (g : γ) (u : Trial γ α) : Trial γ α := { u with before := g :: u.before }

theorem trials_cons (items : γ → List α) (g : γ) (gs : List γ) :
    trials items (g :: gs) =
      ((withEarlier (items g)).map fun x => ⟨[], x.1, x.2⟩) ++ (trials items gs).map (.push g) := by
  simp [trials, withEarlier, List.flatMap_map, List.map_flatMap, Trial.push, Function.comp_def]

theorem mem_withEarlier {l as : List α} {a : α} :
    (as, a) ∈ withEarlier l ↔ ∃ bs, l = as ++ a :: bs := by
  induction l generalizing as with
  | nil => simp [withEarlier]
  | cons b l ih =>
    rw [withEarlier, List.mem_cons, List.mem_map]
    constructor
    · rintro (h | ⟨⟨cs, c⟩, hm, h⟩)
      · cases h
        exact ⟨l, rfl⟩
      · cases h
        obtain ⟨bs, rfl⟩ := ih.mp hm
        exact ⟨bs, rfl⟩
    · rintro ⟨bs, h⟩
      cases as with
      | nil =>
        cases h
        exact .inl rfl
      | cons c as =>
        cases h
        exact .inr ⟨(as, a), ih.mpr ⟨bs, rfl⟩, rfl⟩

/-- **The trials are the places in the groups.** -/
theorem mem_trials {items : γ → List α} {gs : List γ} {u : Trial γ α} :
    u ∈ trials items gs ↔
      ∃ g bs xs, gs = u.before ++ g :: bs ∧ items g = u.earlier ++ u.item :: xs := by
  unfold trials
  simp only [List.mem_flatMap, List.mem_map, Prod.exists, mem_withEarlier]
  constructor
  · rintro ⟨as, g, ⟨bs, rfl⟩, ys, x, ⟨xs, hx⟩, rfl⟩
    exact ⟨g, bs, xs, rfl, hx⟩
  · rintro ⟨g, bs, xs, hg, hx⟩
    exact ⟨u.before, g, ⟨bs, hg⟩, u.earlier, u.item, ⟨xs, hx⟩, rfl⟩

/-- The turn of the trial comes: every item before it in its group holds, and no group before holds
entirely. -/
def Trial.Comes (items : γ → List α) (P : α → Prop) (u : Trial γ α) : Prop :=
  (∀ g ∈ u.before, ¬∀ x ∈ items g, P x) ∧ ∀ x ∈ u.earlier, P x

/-! ## Searches -/

variable {j : α → Except ε Bool} {e : ε}

theorem allM_eq_true_iff {xs : List α} : xs.allM j = .ok true ↔ ∀ x ∈ xs, j x = .ok true := by
  induction xs with
  | nil => simp [pure, Except.pure]
  | cons x xs ih =>
    rw [List.allM_cons, List.forall_mem_cons, ← ih]
    rcases j x with e | (_ | _) <;> simp [Bind.bind, Except.bind, pure, Except.pure]

theorem allM_append (xs ys : List α) :
    (xs ++ ys).allM j = (do if ← xs.allM j then ys.allM j else pure false) := by
  induction xs with
  | nil => rfl
  | cons x xs ih =>
    rw [List.cons_append, List.allM_cons, List.allM_cons, ih]
    rcases j x with e | (_ | _) <;> rfl

/-- The item cannot be judged, and those before it hold. -/
def Halts (j : α → Except ε Bool) (y : List α × α) (e : ε) : Prop :=
  (∀ x ∈ y.1, j x = .ok true) ∧ j y.2 = .error e

theorem halts_cons {x : α} {y : List α × α} :
    Halts j (x :: y.1, y.2) e ↔ j x = .ok true ∧ Halts j y e := by
  unfold Halts
  rw [List.forall_mem_cons, and_assoc]

theorem allM_eq_error_iff {xs : List α} :
    xs.allM j = .error e ↔ FirstFault (Halts j) (withEarlier xs) e := by
  induction xs with
  | nil => exact iff_of_false (by simp [pure, Except.pure]) not_firstFault_nil
  | cons x xs ih =>
    have hx : ∀ e, Halts j ([], x) e ↔ j x = .error e := by simp [Halts]
    rw [List.allM_cons, withEarlier, firstFault_cons, firstFault_map fun _ _ => halts_cons,
      firstFault_and, ← ih]
    simp only [hx]
    rcases j x with e | (_ | _) <;> simp [Bind.bind, Except.bind, pure, Except.pure]

/-! ## Searches through groups -/

/-- The turn of the trial comes, and its item cannot be judged. -/
def Trial.Fails (items : γ → List α) (j : α → Except ε Bool) (u : Trial γ α) (e : ε) : Prop :=
  u.Comes items (j · = .ok true) ∧ j u.item = .error e

theorem Trial.fails_nil {items : γ → List α} {y : List α × α} :
    (Trial.mk [] y.1 y.2).Fails items j e ↔ Halts j y e := by
  simp [Fails, Comes, Halts]

theorem Trial.fails_push {items : γ → List α} {g : γ} {u : Trial γ α} :
    (u.push g).Fails items j e ↔ (items g).allM j ≠ .ok true ∧ u.Fails items j e := by
  unfold Fails Comes push
  rw [List.forall_mem_cons, and_assoc, and_assoc, ne_eq, allM_eq_true_iff, and_assoc]

/-- **A search fails with the first item whose turn comes and that cannot be judged.** -/
theorem search_eq_error_iff {items : γ → List α} {gs : List γ} :
    gs.findM? (fun g => (items g).allM j) = .error e ↔
      FirstFault (Trial.Fails items j) (trials items gs) e := by
  induction gs with
  | nil => exact iff_of_false (by simp [pure, Except.pure]) not_firstFault_nil
  | cons g gs ih =>
    -- the items of the first group come before all others, which count only where it does not hold
    have hnil : ∀ e, FirstFault (Trial.Fails items j)
        ((withEarlier (items g)).map fun y => ⟨[], y.1, y.2⟩) e ↔ (items g).allM j = .error e := by
      intro e
      rw [firstFault_map fun _ _ => Trial.fails_nil, allM_eq_error_iff]
    rw [List.findM?, trials_cons, firstFault_append, firstFault_map fun _ _ => Trial.fails_push,
      firstFault_and, ← ih]
    simp only [hnil]
    rcases (items g).allM j with e | (_ | _) <;>
      simp [Bind.bind, Except.bind, pure, Except.pure]

/-- A search that comes to an end has found the first group that holds. -/
theorem isFirst_of_findM? {p : γ → Except ε Bool} {gs : List γ} {g : γ}
    (h : gs.findM? p = .ok (some g)) : IsFirst (p · = .ok true) gs g := by
  induction gs with
  | nil => cases h
  | cons b gs ih =>
    obtain ⟨v, hv, h⟩ := ok_of_bind h
    cases v with
    | true =>
      cases h
      exact isFirst_head hv
    | false => exact (ih h).cons (by simp [hv])

theorem forall_of_findM? {p : γ → Except ε Bool} {gs : List γ} (h : gs.findM? p = .ok none) :
    ∀ g ∈ gs, ¬p g = .ok true := by
  induction gs with
  | nil =>
    intro g hg
    cases hg
  | cons b gs ih =>
    obtain ⟨v, hv, h⟩ := ok_of_bind h
    cases v with
    | true => cases h
    | false => exact List.forall_mem_cons.mpr ⟨by simp [hv], ih h⟩

end PinBench
