import PinBench.Proofs.Fault
import PinBench.Rig

/-!
# The shape of a rig

Cards, expanders and groups neither come nor go: a write changes register bytes and levels, and
nothing else.

* `Rig.shape`: the rig without its register bytes and levels.
* `Rig.shape_setPin`, `Rig.shape_setWired`, `Rig.shape_setRegister`: **a change keeps the shape**.
* `Rig.pin_shape`, `Rig.expander_shape`, `Rig.locate_shape`: what is found under a name is found in
  the shape too, up to register bytes and levels.
-/

namespace PinBench

/-! ## Changing the first match -/

section UpdateFirst

variable {α γ : Type} {p q : α → Bool} {f : α → α}

theorem map_updateFirst {g : α → γ} (h : ∀ a, g (f a) = g a) (l : List α) :
    (updateFirst p f l).map g = l.map g := by
  induction l with
  | nil => rfl
  | cons a as ih =>
    rw [updateFirst]
    split
    · rw [List.map_cons, List.map_cons, h]
    · rw [List.map_cons, List.map_cons, ih]

theorem map_updateFirst_modify {g : α → γ} {k : γ → γ} (h : ∀ a, g (f a) = k (g a)) (l : List α) :
    (updateFirst p f l).map g = (l.map g).modify (l.findIdx p) k := by
  induction l with
  | nil => rfl
  | cons a as ih =>
    rw [updateFirst, List.findIdx_cons]
    cases hp : p a with
    | true => rw [if_pos rfl, List.map_cons, h]; rfl
    | false =>
      rw [if_neg Bool.false_ne_true, List.map_cons, ih]
      rfl

theorem find?_updateFirst_self (h : ∀ a, p (f a) = p a) (l : List α) :
    (updateFirst p f l).find? p = (l.find? p).map f := by
  induction l with
  | nil => rfl
  | cons a as ih =>
    rw [updateFirst, List.find?_cons]
    cases hp : p a with
    | true => rw [if_pos rfl, List.find?_cons_of_pos (by rw [h, hp])]; rfl
    | false => rw [if_neg Bool.false_ne_true, List.find?_cons_of_neg (by simp [hp]), ih]

theorem find?_updateFirst_of_disjoint (h : ∀ a, q (f a) = q a) (hd : ∀ a, p a = true → q a = false)
    (l : List α) : (updateFirst p f l).find? q = l.find? q := by
  induction l with
  | nil => rfl
  | cons a as ih =>
    rw [updateFirst]
    split
    · next hp =>
      rw [List.find?_cons_of_neg (by rw [h, hd a hp]; exact Bool.false_ne_true),
        List.find?_cons_of_neg (by rw [hd a hp]; exact Bool.false_ne_true)]
    · rw [List.find?_cons, List.find?_cons, ih]

theorem updateFirst_comp {g : α → α} (h : ∀ a, p (f a) = p a) (l : List α) :
    updateFirst p g (updateFirst p f l) = updateFirst p (fun a => g (f a)) l := by
  induction l with
  | nil => rfl
  | cons a as ih =>
    by_cases ha : p a
    · simp [updateFirst, ha, h a]
    · simp [updateFirst, ha, ih]

/-- Only what is done to the element that is found counts. -/
theorem updateFirst_congr {g : α → α} {l : List α} (h : ∀ a, l.find? p = some a → f a = g a) :
    updateFirst p f l = updateFirst p g l := by
  induction l with
  | nil => rfl
  | cons a as ih =>
    by_cases ha : p a
    · simp [updateFirst, ha, h a (List.find?_cons_of_pos ha)]
    · rw [List.find?_cons_of_neg ha] at h
      simp [updateFirst, ha, ih h]

theorem updateFirst_eq_self {l : List α} (h : ∀ a, l.find? p = some a → f a = a) :
    updateFirst p f l = l := by
  induction l with
  | nil => rfl
  | cons a as ih =>
    by_cases ha : p a
    · simp [updateFirst, ha, h a (List.find?_cons_of_pos ha)]
    · rw [List.find?_cons_of_neg ha] at h
      simp [updateFirst, ha, ih h]

/-- Changes commute if no element is both of the one kind and of the other. -/
theorem updateFirst_comm {g : α → α} (hf : ∀ a, q (f a) = q a) (hg : ∀ a, p (g a) = p a)
    (hd : ∀ a, p a = true → q a = false) (l : List α) :
    updateFirst p f (updateFirst q g l) = updateFirst q g (updateFirst p f l) := by
  induction l with
  | nil => rfl
  | cons a as ih =>
    by_cases ha : p a
    · simp [updateFirst, ha, hf, hd a ha]
    · by_cases hq : q a
      · simp [updateFirst, ha, hq, hg]
      · simp [updateFirst, ha, hq, ih]

/-- The change of one element and a change of all commute if they do for the one that is found. -/
theorem map_updateFirst_comm {g : α → α} (hg : ∀ a, p (g a) = p a) {l : List α}
    (h : ∀ a, l.find? p = some a → g (f a) = f (g a)) :
    (updateFirst p f l).map g = updateFirst p f (l.map g) := by
  induction l with
  | nil => rfl
  | cons a as ih =>
    by_cases ha : p a
    · simp [updateFirst, ha, hg, h a (List.find?_cons_of_pos ha)]
    · rw [List.find?_cons_of_neg ha] at h
      simp [updateFirst, ha, hg, ih h]

end UpdateFirst

/-! ## Shapes -/

/-- As many registers, all zero. -/
def RegisterBank.shape (r : RegisterBank) : RegisterBank :=
  ⟨List.replicate r.bytes.length 0, by rw [List.length_replicate]; exact r.size_le⟩

theorem RegisterBank.shape_set (r : RegisterBank) (i : Nat) (b : UInt8) :
    (r.set i b).shape = r.shape := by
  simp only [RegisterBank.shape, RegisterBank.set, List.length_set]

/-- One register, which is zero. -/
def RegisterBank.single : RegisterBank := ⟨[0], by decide⟩

def Expander.shape (e : Expander) : Expander := { e with registers := e.registers.shape }

def CardPin.shape (p : CardPin) : CardPin := { p with level? := none }

def Card.shape (c : Card) : Card := { c with pins := c.pins.map CardPin.shape }

namespace Rig

/-- The rig with all register bytes zero and no levels: what no write changes. -/
def shape (t : Rig) : Rig :=
  { t with expanders := t.expanders.map Expander.shape, cards := t.cards.map Card.shape }

/-! ## Changes keep the shape -/

@[simp] theorem shape_setPin (t : Rig) (card label : String) (level : Bool) :
    (t.setPin card label level).shape = t.shape := by
  have hp : ∀ ps : List CardPin,
      (updateFirst (·.label == label) (fun p => { p with level? := some level }) ps).map
        CardPin.shape = ps.map CardPin.shape :=
    map_updateFirst fun _ => rfl
  have hc := map_updateFirst (p := fun c : Card => c.name == card) (g := Card.shape)
    (f := fun c => { c with
      pins := updateFirst (·.label == label) (fun p => { p with level? := some level }) c.pins })
    (fun c => by rw [Card.shape, hp]; rfl) t.cards
  rw [shape, setPin, hc]
  rfl

@[simp] theorem shape_setWired (t : Rig) (w : Wiring) (level : Bool) :
    (t.setWired w level).shape = t.shape := by
  have hp : ∀ p : CardPin,
      (if p.wiring = w then { p with level? := some level } else p : CardPin).shape = p.shape := by
    intro p
    split <;> rfl
  rw [shape, setWired, List.map_map, shape]
  congr 1
  refine List.map_congr_left fun c _ => ?_
  rw [Function.comp_apply, Card.shape, List.map_map, Card.shape]
  congr 1
  exact List.map_congr_left fun p _ => hp p

@[simp] theorem shape_setRegister (t : Rig) (number : UInt8) (i : Nat) (b : UInt8) :
    (t.setRegister number i b).shape = t.shape := by
  have he := map_updateFirst (p := fun e : Expander => e.number == number) (g := Expander.shape)
    (f := fun e => { e with registers := e.registers.set i b })
    (fun e => by rw [Expander.shape, RegisterBank.shape_set]; rfl) t.expanders
  rw [shape, setRegister, he]
  rfl

/-! ## Looking up in rigs of one shape -/

theorem card_ok_iff {t : Rig} {name : String} {c : Card} :
    t.card name = .ok c ↔ t.cards.find? (·.name == name) = some c := by
  unfold Rig.card
  cases t.cards.find? (·.name == name) <;> simp

theorem pin_ok_iff {t : Rig} {card label : String} {p : CardPin} :
    t.pin card label = .ok p ↔
      ∃ c, t.cards.find? (·.name == card) = some c ∧ c.pins.find? (·.label == label) = some p := by
  unfold pin
  cases hc : t.card card with
  | error f =>
    simp only [← card_ok_iff, hc]
    exact ⟨fun h => (by cases h), fun h => (by obtain ⟨c, h, -⟩ := h; cases h)⟩
  | ok c =>
    simp only [← card_ok_iff, hc, Except.ok.injEq, exists_eq_left', ok_bind]
    cases c.pins.find? (·.label == label) <;> simp

theorem expander_ok_iff {t : Rig} {number : UInt8} {o : Origin} {e : Expander} :
    t.expander number o = .ok e ↔ t.expanders.find? (·.number == number) = some e := by
  unfold expander
  cases t.expanders.find? (·.number == number) <;> simp

theorem card_shape (t : Rig) (name : String) :
    t.shape.card name = (t.card name).map Card.shape := by
  have h : (t.shape.cards.find? (·.name == name)) =
      (t.cards.find? (·.name == name)).map Card.shape := List.find?_map
  unfold Rig.card
  rw [h]
  cases t.cards.find? (·.name == name) <;> rfl

theorem pin_shape (t : Rig) (card label : String) :
    t.shape.pin card label = (t.pin card label).map CardPin.shape := by
  unfold pin
  rw [card_shape]
  cases t.card card with
  | error f => rfl
  | ok c =>
    have h : c.shape.pins.find? (·.label == label) =
        (c.pins.find? (·.label == label)).map CardPin.shape := List.find?_map
    rw [Except.map, ok_bind, ok_bind, h]
    cases c.pins.find? (·.label == label) <;> rfl

/-- Rigs of one shape find card pins of one wiring under a name. -/
theorem pin_of_shape {t t' : Rig} (h : t'.shape = t.shape) {card label : String} {p : CardPin}
    (hp : t.pin card label = .ok p) : ∃ p', t'.pin card label = .ok p' ∧ p'.wiring = p.wiring := by
  have hs := pin_shape t' card label
  rw [h, pin_shape, hp] at hs
  cases hp' : t'.pin card label with
  | error f =>
    rw [hp'] at hs
    cases hs
  | ok p' =>
    rw [hp'] at hs
    have hw := congrArg CardPin.wiring (Except.ok.inj hs)
    exact ⟨p', rfl, hw.symm⟩

/-- They miss the same card pins. -/
theorem pin_error_of_shape {t t' : Rig} (h : t'.shape = t.shape) {card label : String} {f : Fault}
    (hp : t.pin card label = .error f) : t'.pin card label = .error f := by
  have hs := pin_shape t' card label
  rw [h, pin_shape, hp] at hs
  cases hp' : t'.pin card label with
  | error f' =>
    rw [hp'] at hs
    exact congrArg Except.error (Except.error.inj hs).symm
  | ok p' =>
    rw [hp'] at hs
    cases hs

/-- And their cards have the same names. -/
theorem names_of_shape {t t' : Rig} (h : t'.shape = t.shape) :
    t'.cards.map Card.name = t.cards.map Card.name := by
  have hn : ∀ t : Rig, t.shape.cards.map Card.name = t.cards.map Card.name := fun t =>
    List.map_map
  rw [← hn, h, hn]

/-- And their expanders the same numbers. -/
theorem numbers_of_shape {t t' : Rig} (h : t'.shape = t.shape) :
    t'.expanders.map Expander.number = t.expanders.map Expander.number := by
  have hn : ∀ t : Rig, t.shape.expanders.map Expander.number = t.expanders.map Expander.number :=
    fun t => List.map_map
  rw [← hn, h, hn]

theorem expander_shape (t : Rig) (number : UInt8) (o : Origin) :
    t.shape.expander number o = (t.expander number o).map Expander.shape := by
  have h : t.shape.expanders.find? (·.number == number) =
      (t.expanders.find? (·.number == number)).map Expander.shape := List.find?_map
  unfold expander
  rw [h]
  cases t.expanders.find? (·.number == number) <;> rfl

theorem locate_shape (t : Rig) (pin : UInt8) (o : Origin) : t.shape.locate pin o = t.locate pin o :=
  rfl

end Rig

end PinBench
