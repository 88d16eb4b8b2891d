import PinBench.Proofs.Tracker

/-!
# What a tracker has behind it

A tracker is evaluated at most once a second, unless a write has made it stale.  What it holds, and
whether it evaluates next, depends on how the refreshes before have ended.

* `Tracker.Deed`: a refresh with the way it ended, or an invalidation.
* `Tracker.lastSuccess?`, `Tracker.sinceInvalidated`: the last evaluation, and what was done since
  the last invalidation.
* `Tracker.Past`: a tracker, and what has been done with it, the newest first.
* `Tracker.Past.trace`: **a tracker holds what its last evaluation has found**, and its time unless
  it is stale.
* `Tracker.Past.due_of_failure`: a failure does not count.
* `Tracker.Past.debounced`: **when a tracker evaluates, and what it holds**, category by category.
-/

namespace PinBench.Tracker

/-! ## Deeds -/

/-- What is done with a tracker; a refresh with its rig, its time and the way it ended. -/
inductive Deed where
  | refreshed (t : Rig) (now : Nat) (answer : Except Fault Bool)
  | invalidated

/-- The rig and the time of a refresh that evaluated and did not fail. -/
def Deed.success? : Deed → Option (Rig × Nat)
  | .refreshed t now (.ok true) => some (t, now)
  | _ => none

def Deed.isInvalidation : Deed → Bool
  | .refreshed .. => false
  | .invalidated => true

/-- The rig and the time of the last evaluation, if there was one. -/
def lastSuccess? (ds : List Deed) : Option (Rig × Nat) := ds.findSome? Deed.success?

/-- What was done since the last invalidation. -/
def sinceInvalidated (ds : List Deed) : List Deed := ds.takeWhile fun d => !d.isInvalidation

section

variable {ds : List Deed} {d : Deed}

theorem lastSuccess?_cons (hd : d.success? = none) : lastSuccess? (d :: ds) = lastSuccess? ds := by
  rw [lastSuccess?, List.findSome?_cons, hd, lastSuccess?]

theorem lastSuccess?_since_cons (hi : d.isInvalidation = false) (hd : d.success? = none) :
    lastSuccess? (sinceInvalidated (d :: ds)) = lastSuccess? (sinceInvalidated ds) := by
  have hc : sinceInvalidated (d :: ds) = d :: sinceInvalidated ds := by
    simp [sinceInvalidated, hi]
  rw [hc, lastSuccess?_cons hd]

/-- What is not a success leaves the last one, unless it is an invalidation. -/
theorem lastSuccess?_since_append {es : List Deed} (hd : ∀ d ∈ ds, d.success? = none)
    {x : Rig × Nat} (h : lastSuccess? (sinceInvalidated (ds ++ es)) = some x) :
    lastSuccess? (sinceInvalidated es) = some x := by
  induction ds with
  | nil => exact h
  | cons d ds ih =>
    obtain ⟨hd, hds⟩ := List.forall_mem_cons.mp hd
    cases hi : d.isInvalidation with
    | true => simp [sinceInvalidated, lastSuccess?, hi] at h
    | false =>
      rw [List.cons_append, lastSuccess?_since_cons hi hd] at h
      exact ih hds h

end

/-! ## Pasts -/

/-- The tracker comes from one that was made of the categories, and this was done with it, the
newest first. -/
inductive Past (cs : List Category) : List Deed → Tracker → Prop where
  | created : Past cs [] (.ofCategories cs)
  | refreshed {ds : List Deed} {k : Tracker} {β : Type} (h : Past cs ds k) (t : Rig) (now : Nat)
      (l : Link β) :
      Past cs (.refreshed t now (k.refreshed t now l).result :: ds) (k.refreshed t now l).state
  | invalidated {ds : List Deed} {k : Tracker} (h : Past cs ds k) :
      Past cs (.invalidated :: ds) k.invalidate

namespace Past

variable {cs : List Category} {ds : List Deed} {k : Tracker}

/-- What a past leaves: the categories of the last evaluation, and its time unless it is stale. -/
structure Trace (cs : List Category) (ds : List Deed) (k : Tracker) : Prop where
  unevaluated : lastSuccess? ds = none → k.categories = cs
  evaluated : ∀ x, lastSuccess? ds = some x → evaluate x.1 cs = .ok k.categories
  refreshed? : k.refreshed? = (lastSuccess? (sinceInvalidated ds)).map Prod.snd

theorem Trace.rules (h : Trace cs ds k) :
    k.categories.map Category.rules = cs.map Category.rules := by
  cases hx : lastSuccess? ds with
  | none => rw [h.unevaluated hx]
  | some x => exact rules_of_evaluate (h.evaluated x hx)

/-- A deed that neither succeeds nor invalidates leaves what is there. -/
theorem Trace.idle {d : Deed} (h : Trace cs ds k) (hi : d.isInvalidation = false)
    (hd : d.success? = none) : Trace cs (d :: ds) k where
  unevaluated hn := h.unevaluated (lastSuccess?_cons hd ▸ hn)
  evaluated x hx := h.evaluated x (lastSuccess?_cons hd ▸ hx)
  refreshed? := by rw [h.refreshed?, lastSuccess?_since_cons hi hd]

theorem Trace.success {t : Rig} {now : Nat} {es : List Category} (h : Trace cs ds k)
    (he : evaluate t k.categories = .ok es) :
    Trace cs (.refreshed t now (.ok true) :: ds) ⟨es, some now⟩ where
  unevaluated hn := by cases hn
  evaluated x hx := by
    cases hx
    rw [← he]
    exact evaluate_of_rules h.rules.symm t
  refreshed? := rfl

theorem Trace.invalidate (h : Trace cs ds k) : Trace cs (.invalidated :: ds) k.invalidate where
  unevaluated := h.unevaluated
  evaluated := h.evaluated
  refreshed? := rfl

theorem trace (h : Past cs ds k) : Trace cs ds k := by
  induction h with
  | created => exact ⟨fun _ => rfl, fun _ hx => (Option.some_ne_none _ hx.symm).elim, rfl⟩
  | @refreshed ds k β _ t now l ih =>
    have hr := refreshed_refreshing k t now l
    generalize k.refreshed t now l = r at hr
    cases hr with
    | refused hd he => exact ih.idle rfl rfl
    | evaluated hd he => exact ih.success he
    | held hd => exact ih.idle rfl rfl
  | invalidated _ ih => exact ih.invalidate

/-- Whether a refresh evaluates. -/
theorem due_iff (h : Past cs ds k) (now : Nat) : k.due now = true ↔
    ∀ x, lastSuccess? (sinceInvalidated ds) = some x → 1000 ≤ now - x.2 := by
  rw [due, h.trace.refreshed?]
  cases lastSuccess? (sinceInvalidated ds) with
  | none => simp
  | some x =>
    simp only [Option.map_some, Option.some.injEq, forall_eq']
    exact decide_eq_true_iff

/-- Before a refresh there was a tracker that it was done with. -/
theorem exists_of_append {later earlier : List Deed} {t : Rig} {now : Nat}
    {answer : Except Fault Bool} (h : Past cs (later ++ .refreshed t now answer :: earlier) k) :
    ∃ k', Past cs earlier k' ∧
      ∃ (β : Type) (l : Link β), (k'.refreshed t now l).result = answer := by
  generalize hds : later ++ .refreshed t now answer :: earlier = ds at h
  induction h generalizing later with
  | created => simp at hds
  | @refreshed ds k β h t₁ now₁ l ih =>
    cases later with
    | nil =>
      cases hds
      exact ⟨k, h, β, l, rfl⟩
    | cons d later =>
      cases hds
      exact ih rfl
  | invalidated h ih =>
    cases later with
    | nil => cases hds
    | cons d later =>
      cases hds
      exact ih rfl

/-- **A failure does not count**: until a refresh succeeds, whatever comes later is due. -/
theorem due_of_failure {later earlier : List Deed} {t : Rig} {now now' : Nat} {f : Fault}
    (h : Past cs (later ++ .refreshed t now (.error f) :: earlier) k)
    (hl : ∀ d ∈ later, d.success? = none) (hle : now ≤ now') : k.due now' = true := by
  obtain ⟨k', h', β, l, hr⟩ := h.exists_of_append
  have hd : k'.due now = true := by
    rw [← result_ne_false_iff (t := t) (l := l), hr]
    simp
  -- the refresh that failed was due, so what succeeded before it was a second ago already then
  rw [h.due_iff]
  intro x hx
  have hx := lastSuccess?_since_append hl hx
  rw [lastSuccess?_since_cons rfl rfl] at hx
  have hnow : 1000 ≤ now - x.2 := (h'.due_iff now).mp hd x hx
  omega

/-- **Debouncing.**  After any past, a refresh evaluates if nothing has succeeded since the last
invalidation, or if that was a second ago or more; a clock that goes back counts as no time.  An
evaluation fails with the first look that stops it, and only so.  The tracker always holds what the
last evaluation that did not fail has found: every category in the first of its states that matched
on that rig.  A refresh that fails changes nothing, and as long as none succeeds, those that come no
earlier evaluate as well. -/
theorem debounced (h : Past cs ds k) (t : Rig) (now : Nat) {β : Type} (l : Link β) :
    let r := k.refreshed t now l
    (r.result ≠ .ok false ↔
      ∀ x, lastSuccess? (sinceInvalidated ds) = some x → 1000 ≤ now - x.2) ∧
    (r.result ≠ .ok false → r.result = (evaluate t cs).map fun _ => true) ∧
    (r.result ≠ .ok false → ∀ f,
      r.result = .error f ↔ FirstFault (Reference.Stops t) (references cs) f) ∧
    (lastSuccess? ds = none → k.categories = cs) ∧
    (∀ x, lastSuccess? ds = some x →
      evaluate x.1 cs = .ok k.categories ∧ List.Forall₂ (Category.Settled x.1) cs k.categories) ∧
    (∀ f, r.result = .error f → r.state = k) ∧
    ∀ later earlier t₀ now₀ f, ds = later ++ .refreshed t₀ now₀ (.error f) :: earlier →
      (∀ d ∈ later, d.success? = none) → now₀ ≤ now → r.result ≠ .ok false := by
  intro r
  have hdue : r.result ≠ .ok false ↔ k.due now = true := result_ne_false_iff
  have hresult : r.result ≠ .ok false → r.result = (evaluate t cs).map fun _ => true := by
    intro hne
    rw [← evaluate_of_rules h.trace.rules]
    exact result_of_due (hdue.mp hne)
  refine ⟨hdue.trans (h.due_iff now), hresult, ?_, h.trace.unevaluated, ?_, ?_, ?_⟩
  · intro hne f
    rw [hresult hne, ← evaluate_eq_error_iff]
    cases evaluate t cs <;> simp [Except.map]
  · intro x hx
    have he := h.trace.evaluated x hx
    exact ⟨he, settled_of_evaluate he⟩
  · intro f hf
    have hr : Refreshing k t now l r := refreshed_refreshing k t now l
    clear_value r
    cases hr with
    | refused => rfl
    | evaluated => cases hf
    | held => rfl
  · rintro later earlier t₀ now₀ f rfl hl hle
    exact hdue.mpr (h.due_of_failure hl hle)

/-- A door that is evaluated and found open, and a second later on a bench without cards, which
fails: the door is still open, and is evaluated again at once. -/
theorem debounced_door :
    let t : Rig := ⟨[], [], [⟨"J1", [⟨"A", ⟨1, 0⟩, some true⟩]⟩], false⟩
    let bare : Rig := ⟨[], [], [], false⟩
    let door : Category := ⟨"door", [⟨"open", 2, [⟨["J1"], "A", true⟩]⟩], -1, none⟩
    let l := Link.ofBus ()
    let k₁ := ((ofCategories [door]).refreshed t 5000 l).state
    let k₂ := (k₁.refreshed bare 6000 l).state
    Past [door] [.refreshed t 5000 (.ok true)] k₁ ∧
      Past [door]
        [.refreshed bare 6000 (.error (.unknownCard "J1")), .refreshed t 5000 (.ok true)] k₂ ∧
      (k₁.refreshed t 5999 l).result = .ok false ∧
      (k₂.refreshed t 6000 l).result = .ok true ∧
      List.Forall₂ (Category.Settled t) [door] k₂.categories ∧
      k₂.categories = [⟨"door", door.states, 2, some "open"⟩] := by
  intro t bare door l k₁ k₂
  have hr₁ : ((ofCategories [door]).refreshed t 5000 l).result = .ok true := by decide +kernel
  have hr₂ : (k₁.refreshed bare 6000 l).result = .error (.unknownCard "J1") := by decide +kernel
  have h₀ : Past [door] [] (ofCategories [door]) := .created
  have h₁ := h₀.refreshed t 5000 l
  rw [hr₁] at h₁
  have h₂ := h₁.refreshed bare 6000 l
  rw [hr₂] at h₂
  obtain ⟨hdue, -⟩ := h₁.debounced t 5999 l
  obtain ⟨-, heval, -, -, hcached, -, hfail⟩ := h₂.debounced t 6000 l
  obtain ⟨hfound, hsettled⟩ := hcached (t, 5000) rfl
  refine ⟨h₁, h₂, ?_, ?_, hsettled, by decide +kernel⟩
  · by_contra hne
    have := hdue.mp hne (t, 5000) rfl
    omega
  · rw [heval (hfail [] _ bare 6000 _ rfl (by simp) (Nat.le_refl 6000)), hfound]
    rfl

end Past

end PinBench.Tracker
