import PinBench.Proofs.Rig.Levels
import PinBench.Proofs.Station.Faithful
import PinBench.Proofs.Station.Moves

/-!
# The levels after a start

A start goes through the card pins in turn, but it gives each level to a card and a label.  The pin
that gets it is the first one of that label, which need not be the pin whose turn it is.

* `CardPin.started`, `Card.started`: what a start makes of a pin and of a card.
* `cards_applyLevels`: **levels that are all given are given to labels**, one after the other,
  whatever becomes of the registers.
* `giveAll_initialLevels`: given to all pins of a bench, they leave every card started.
* `Card.started_pins_of_nodup`: **where no label is repeated, every pin has its level of the file,
  or the default**.
* `Station.cards_start`: **a start that ends well leaves the cards started**.
* `Station.label_passed_over`: a pin that is passed over, though its configuration passes its check.
-/

namespace PinBench

/-! ## The levels of a card -/

/-- The level that a card pin starts from. -/
def CardPin.startLevel (default : Bool) (p : CardPin) : Bool := p.level?.getD default

/-- What a start makes of a pin that stands on its card between `before` and `after`.  The first pin
of a label gets the levels of all pins of that label and keeps the last; the others are passed
over. -/
def CardPin.started (default : Bool) (before : List CardPin) (p : CardPin)
    (after : List CardPin) : CardPin :=
  if p.label ∈ before.map CardPin.label then p
  else p.withLevel (((after.filter (·.label == p.label)).getLastD p).startLevel default)

/-- The pins of a card from some place on, each with those before it. -/
def startedFrom (default : Bool) (before : List CardPin) : List CardPin → List CardPin
  | [] => []
  | p :: after => p.started default before after :: startedFrom default (before ++ [p]) after

def Card.started (default : Bool) (c : Card) : Card :=
  { c with pins := startedFrom default [] c.pins }

theorem startedFrom_of_nodup (default : Bool) (before : List CardPin) {ps : List CardPin}
    (h : ((before ++ ps).map CardPin.label).Nodup) :
    startedFrom default before ps = ps.map fun p => p.withLevel (p.startLevel default) := by
  induction ps generalizing before with
  | nil => rfl
  | cons p ps ih =>
    have hn := h
    rw [List.map_append, List.map_cons, List.nodup_append, List.nodup_cons] at hn
    obtain ⟨-, ⟨hp, -⟩, hd⟩ := hn
    have hb : p.label ∉ before.map CardPin.label := fun hm =>
      hd p.label hm p.label List.mem_cons_self rfl
    have ha : ps.filter (·.label == p.label) = [] := by
      rw [List.filter_eq_nil_iff]
      intro q hq hl
      exact hp (beq_iff_eq.mp hl ▸ List.mem_map_of_mem hq)
    rw [startedFrom, List.map_cons, CardPin.started, if_neg hb, ha,
      ih (before ++ [p]) (by rw [List.append_assoc]; exact h)]
    rfl

/-- **Where no label is repeated, every pin has its level of the file, or the default.** -/
theorem Card.started_pins_of_nodup (default : Bool) {c : Card}
    (h : (c.pins.map CardPin.label).Nodup) :
    (c.started default).pins = c.pins.map fun p => p.withLevel (p.startLevel default) :=
  startedFrom_of_nodup default [] h

/-! ## Levels by label -/

/-- The pins of a card after some pins have given their levels, each to the first pin of its
label. -/
def giveByLabel (default : Bool) (ps xs : List CardPin) : List CardPin :=
  xs.foldl (fun ps x =>
    updateFirst (·.label == x.label) (CardPin.withLevel (x.startLevel default)) ps) ps

/-- A pin after the pins of its label among `xs` have given their levels to it. -/
def CardPin.receive (default : Bool) (p : CardPin) (xs : List CardPin) : CardPin :=
  match (xs.filter (·.label == p.label)).getLast? with
  | none => p
  | some x => p.withLevel (x.startLevel default)

theorem CardPin.receive_cons_self (default : Bool) {p x : CardPin} (h : x.label = p.label)
    (xs : List CardPin) :
    p.receive default (x :: xs) = (p.withLevel (x.startLevel default)).receive default xs := by
  have hx : (x :: xs).filter (·.label == p.label) = x :: xs.filter (·.label == p.label) :=
    List.filter_cons_of_pos (beq_iff_eq.mpr h)
  rw [receive, receive, hx, List.getLast?_cons]
  show _ = match (xs.filter (·.label == p.label)).getLast? with
    | none => _
    | some y => _
  cases (xs.filter (·.label == p.label)).getLast? <;> rfl

theorem CardPin.receive_cons_of_ne (default : Bool) {p x : CardPin} (h : x.label ≠ p.label)
    (xs : List CardPin) : p.receive default (x :: xs) = p.receive default xs := by
  rw [receive, List.filter_cons_of_neg (by simpa using h), receive]

/-- The first pin takes all levels of its label, and the others see the rest. -/
theorem giveByLabel_cons (default : Bool) (p : CardPin) (ps xs : List CardPin) :
    giveByLabel default (p :: ps) xs =
      p.receive default xs :: giveByLabel default ps (xs.filter (·.label != p.label)) := by
  induction xs generalizing p ps with
  | nil => rfl
  | cons x xs ih =>
    show giveByLabel default (updateFirst _ _ (p :: ps)) xs = _
    rw [updateFirst]
    by_cases hx : x.label = p.label
    · rw [if_pos (beq_iff_eq.mpr hx.symm), ih, CardPin.receive_cons_self default hx,
        List.filter_cons_of_neg (by simpa using hx)]
      rfl
    · rw [if_neg (by simpa using Ne.symm hx), ih, CardPin.receive_cons_of_ne default hx,
        List.filter_cons_of_pos (by simpa using hx)]
      rfl

/-- A pin takes nothing if one of its label stands before it, and else the last level of its
label. -/
theorem CardPin.receive_eq_started (default : Bool) (before : List CardPin) (p : CardPin)
    (after : List CardPin) :
    p.receive default ((before ++ p :: after).filter (·.label ∉ before.map CardPin.label)) =
      p.started default before after := by
  rw [receive, started, List.filter_filter]
  by_cases hp : p.label ∈ before.map CardPin.label
  · have hn : (before ++ p :: after).filter
        (fun q => q.label == p.label && decide (q.label ∉ before.map CardPin.label)) = [] := by
      rw [List.filter_eq_nil_iff]
      intro q hq hl
      rw [Bool.and_eq_true, beq_iff_eq, decide_eq_true_eq] at hl
      exact hl.2 (hl.1 ▸ hp)
    rw [if_pos hp, hn]
    rfl
  · have hb : before.filter
        (fun q => q.label == p.label && decide (q.label ∉ before.map CardPin.label)) = [] := by
      rw [List.filter_eq_nil_iff]
      intro q hq hl
      rw [Bool.and_eq_true, decide_eq_true_eq] at hl
      exact hl.2 (List.mem_map_of_mem hq)
    have ha : (p :: after).filter
        (fun q => q.label == p.label && decide (q.label ∉ before.map CardPin.label)) =
        p :: after.filter (·.label == p.label) := by
      have hf : (p :: after).filter (·.label == p.label) = p :: after.filter (·.label == p.label) :=
        List.filter_cons_of_pos (beq_self_eq_true p.label)
      rw [← hf]
      refine List.filter_congr fun q _ => ?_
      by_cases hq : q.label = p.label
      · rw [hq, decide_eq_true hp, Bool.and_true]
      · rw [beq_eq_false_iff_ne.mpr hq, Bool.false_and]
    rw [if_neg hp, List.filter_append, hb, List.nil_append, ha, List.getLast?_cons,
      List.getLastD_eq_getLast?]

theorem giveByLabel_eq_startedFrom (default : Bool) (before ps : List CardPin) :
    giveByLabel default ps ((before ++ ps).filter (·.label ∉ before.map CardPin.label)) =
      startedFrom default before ps := by
  induction ps generalizing before with
  | nil =>
    generalize (before ++ []).filter _ = xs
    induction xs with
    | nil => rfl
    | cons x xs ih => exact ih
  | cons p ps ih =>
    rw [giveByLabel_cons, CardPin.receive_eq_started, startedFrom, ← ih, List.filter_filter,
      List.append_assoc]
    congr 2
    refine List.filter_congr fun q _ => ?_
    rw [Bool.eq_iff_iff]
    simp [and_comm]

/-- **When all pins of a card have given their levels in turn, the card is started.** -/
theorem giveByLabel_self (default : Bool) (c : Card) :
    giveByLabel default c.pins c.pins = (c.started default).pins := by
  have h := giveByLabel_eq_startedFrom default [] c.pins
  rw [List.nil_append, List.filter_eq_self.mpr fun q _ => by simp] at h
  exact h

/-! ## Levels by card and label -/

/-- The cards after one card pin has been given a level. -/
def giveCardPin (cs : List Card) (x : String × String × Bool) : List Card :=
  updateFirst (·.name == x.1) (Card.give x.2.1 x.2.2) cs

/-- The same with levels in turn. -/
def giveAll (cs : List Card) (xs : List (String × String × Bool)) : List Card :=
  xs.foldl giveCardPin cs

theorem updateFirst_updateFirst {α : Type} {p : α → Bool} {f : α → α} (hp : ∀ a, p (f a) = p a)
    (hf : ∀ a, f (f a) = f a) (l : List α) :
    updateFirst p f (updateFirst p f l) = updateFirst p f l := by
  rw [updateFirst_comp hp]
  exact updateFirst_congr fun a _ => hf a

theorem giveCardPin_giveCardPin (cs : List Card) (x : String × String × Bool) :
    giveCardPin (giveCardPin cs x) x = giveCardPin cs x := by
  have hc : ∀ c : Card, (c.give x.2.1 x.2.2).give x.2.1 x.2.2 = c.give x.2.1 x.2.2 := fun c =>
    congrArg (Card.mk c.name) (updateFirst_updateFirst (f := CardPin.withLevel x.2.2)
      (fun _ => rfl) (fun _ => rfl) c.pins)
  exact updateFirst_updateFirst (f := Card.give x.2.1 x.2.2) (fun _ => rfl) hc cs

theorem updateFirst_append_cons {α : Type} {p : α → Bool} (f : α → α) {pre : List α} {a : α}
    (hpre : ∀ b ∈ pre, p b = false) (ha : p a = true) (post : List α) :
    updateFirst p f (pre ++ a :: post) = pre ++ f a :: post := by
  induction pre with
  | nil => rw [List.nil_append, updateFirst, if_pos ha, List.nil_append]
  | cons b bs ih =>
    have hb : p b ≠ true := by rw [hpre b List.mem_cons_self]; exact Bool.false_ne_true
    rw [List.cons_append, updateFirst, if_neg hb, ih fun c hc => hpre c (List.mem_cons_of_mem b hc),
      List.cons_append]

/-- What a pin gives at bring-up. -/
def CardPin.entry (default : Bool) (card : String) (p : CardPin) : String × String × Bool :=
  (card, p.label, p.startLevel default)

/-- Levels for one card change no other card. -/
theorem giveAll_entries (default : Bool) {pre : List Card} {c : Card}
    (hc : c.name ∉ pre.map Card.name) (post : List Card) (xs : List CardPin) :
    giveAll (pre ++ c :: post) (xs.map (CardPin.entry default c.name)) =
      pre ++ { c with pins := giveByLabel default c.pins xs } :: post := by
  induction xs generalizing c with
  | nil => rfl
  | cons x xs ih =>
    have hpre : ∀ d ∈ pre, (d.name == c.name) = false := by
      intro d hd
      rw [beq_eq_false_iff_ne]
      exact fun h => hc (h ▸ List.mem_map_of_mem hd)
    have hx : giveCardPin (pre ++ c :: post) (x.entry default c.name) =
        pre ++ c.give x.label (x.startLevel default) :: post :=
      updateFirst_append_cons _ hpre (beq_self_eq_true c.name) post
    show giveAll (giveCardPin (pre ++ c :: post) (x.entry default c.name)) (xs.map _) = _
    rw [hx]
    exact ih (c := c.give x.label (x.startLevel default)) hc

theorem giveAll_append (cs : List Card) (xs ys : List (String × String × Bool)) :
    giveAll cs (xs ++ ys) = giveAll (giveAll cs xs) ys :=
  List.foldl_append

/-- **When all pins of a bench have given their levels in turn, every card is started.** -/
theorem giveAll_initialLevels {t : Rig} (hn : (t.cards.map Card.name).Nodup) :
    giveAll t.cards t.initialLevels = t.cards.map (Card.started t.defaultLevel) := by
  -- the cards whose turn is over have their names still
  have h : ∀ pre rest : List Card, ((pre ++ rest).map Card.name).Nodup →
      giveAll (pre ++ rest)
          (rest.flatMap fun c => c.pins.map (CardPin.entry t.defaultLevel c.name)) =
        pre ++ rest.map (Card.started t.defaultLevel) := by
    intro pre rest
    induction rest generalizing pre with
    | nil => exact fun _ => rfl
    | cons c rest ih =>
      intro hn
      have hc : c.name ∉ pre.map Card.name := by
        rw [List.map_append, List.map_cons, List.nodup_append] at hn
        exact fun hm => hn.2.2 c.name hm c.name List.mem_cons_self rfl
      rw [List.flatMap_cons, giveAll_append, giveAll_entries _ hc, giveByLabel_self,
        List.map_cons]
      have hs := ih (pre ++ [c.started t.defaultLevel]) (by
        rw [List.append_assoc, List.map_append] at *
        exact hn)
      rw [List.append_assoc, List.append_assoc] at hs
      exact hs
  exact h [] t.cards hn

/-! ## Bring-up -/

section BringUp

variable {β : Type} [Bus β] {t : Rig} {l : Link β}

theorem cards_giveLevel {card label : String} {level : Bool} {o : Outcome}
    (hr : (giveLevel t l card label level).result = .ok o) :
    (giveLevel t l card label level).state.cards = giveCardPin t.cards (card, label, level) := by
  rw [giveLevel] at hr ⊢
  cases hp : t.pin card label with
  | error f =>
    rw [hp] at hr
    cases hr
  | ok p =>
    rw [hp] at hr
    have h := PinCall.run_ending (t.setPin card label level) l (.card card label level)
    change ((PinCall.card card label level).run (t.setPin card label level) l).result = _ at hr
    show ((PinCall.card card label level).run (t.setPin card label level) l).state.cards = _
    generalize (PinCall.card card label level).run (t.setPin card label level) l = r at h hr ⊢
    cases h with
    | refused h => cases hr
    | idle h hl severity text => rfl
    | moved h hl severity text => exact giveCardPin_giveCardPin t.cards (card, label, level)

/-- **Levels that are all given are given by card and label**, whatever becomes of the
registers. -/
theorem cards_applyLevels {count n : Nat} {xs : List (String × String × Bool)}
    (hr : (applyLevels t l count xs).result = .ok n) :
    (applyLevels t l count xs).state.cards = giveAll t.cards xs := by
  induction xs generalizing t l count with
  | nil => rfl
  | cons x xs ih =>
    obtain ⟨card, label, level⟩ := x
    have hc : ∀ o, (giveLevel t l card label level).result = .ok o →
        (giveLevel t l card label level).state.cards = giveCardPin t.cards (card, label, level) :=
      fun o ho => cards_giveLevel ho
    rw [applyLevels_cons] at hr ⊢
    generalize giveLevel t l card label level = r at hc hr ⊢
    obtain ⟨res, t', l'⟩ := r
    cases res with
    | error f => cases hr
    | ok o =>
      have ht : giveAll t.cards ((card, label, level) :: xs) = giveAll t'.cards xs :=
        congrArg (giveAll · xs) (hc o rfl).symm
      rw [ht]
      exact ih hr

theorem cards_bringUp (hn : (t.cards.map Card.name).Nodup) {n : Nat}
    (hr : (bringUp t l).result = .ok n) :
    (bringUp t l).state.cards = t.cards.map (Card.started t.defaultLevel) := by
  have hc : ∀ (l' : Link β) (n : Nat), (applyLevels t l' 0 t.initialLevels).result = .ok n →
      (applyLevels t l' 0 t.initialLevels).state.cards =
        t.cards.map (Card.started t.defaultLevel) := by
    intro l' n hn'
    rw [cards_applyLevels hn', giveAll_initialLevels hn]
  rw [bringUp] at hr ⊢
  generalize configureExpanders t l = x at hr ⊢
  obtain ⟨res, l'⟩ := x
  cases res with
  | error f => cases hr
  | ok u =>
    dsimp only at hr ⊢
    rw [initialisePins] at hr ⊢
    specialize hc l'
    generalize applyLevels t l' 0 t.initialLevels = r at hc hr ⊢
    obtain ⟨res, t', l''⟩ := r
    cases res with
    | error f => cases hr
    | ok count => exact hc count rfl

end BringUp

/-! ## Stations -/

namespace Station

variable {β : Type} [Bus β]

/-- **A start that ends well leaves every card of the bench started**, and where no label is
repeated on a card every pin of it has its level of the file, or the default. -/
theorem cards_start {c : Configuration} {name? : Option String} {s : Station}
    (h : ofConfiguration c name? = .ok s) (l : Link β) (hr : (s.start l).result = .ok ()) :
    (s.start l).state.bench = s.bench ∧
      (s.start l).state.rig.cards =
        s.bench.cards.map (Card.started c.hardware.defaultLevel) ∧
      ∀ d ∈ s.bench.cards, (d.pins.map CardPin.label).Nodup →
        (d.started c.hardware.defaultLevel).pins =
          d.pins.map fun p => p.withLevel (p.level?.getD c.hardware.defaultLevel) := by
  obtain ⟨hu, b, hb, rfl⟩ := entered h
  obtain ⟨-, hbs, -⟩ := Configuration.check_eq_ok.mp hu
  have hn := (hbs b hb).names
  obtain ⟨n, hn', hs, -⟩ := bringUp_of_start hr
  refine ⟨(stays_start _ l).bench, ?_, fun d _ hd => Card.started_pins_of_nodup _ hd⟩
  rw [hs, cards_bringUp hn hn']
  rfl

/-- A bench with two pins on one card, the second with a level in the file or without. -/
def pinPair (label : String) (level? : Option Bool) : Bench :=
  ⟨"a", [⟨"J1", [⟨"A", ⟨1, 0⟩, none⟩, ⟨label, ⟨1, 1⟩, level?⟩]⟩], [], [], []⟩

def pairConfiguration (b : Bench) : Configuration :=
  ⟨"a", ⟨false, [⟨1, 0x20, .single⟩], [⟨[0, 1], 0, 0x12, 0x00, 0⟩]⟩, [b]⟩

/-- Two labels: the one pin gets the default, and the other the level of the file. -/
theorem cards_start_pair :
    let b := pinPair "B" (some true)
    let s := enter (pairConfiguration b) b
    let r := s.start (.ofBus SimulatedBus.empty)
    ofConfiguration (pairConfiguration b) none = .ok s ∧ r.result = .ok () ∧
      r.state.rig.cards = [⟨"J1", [⟨"A", ⟨1, 0⟩, some false⟩, ⟨"B", ⟨1, 1⟩, some true⟩]⟩] := by
  have h : ofConfiguration (pairConfiguration (pinPair "B" (some true))) none =
      .ok (enter (pairConfiguration (pinPair "B" (some true))) (pinPair "B" (some true))) := rfl
  exact ⟨h, rfl, (cards_start h (.ofBus SimulatedBus.empty) rfl).2.1⟩

/-- One label passes the check.  A start ends well, and leaves the second pin without a level. -/
theorem label_passed_over :
    let b := pinPair "A" none
    let s := enter (pairConfiguration b) b
    let r := s.start (.ofBus SimulatedBus.empty)
    ofConfiguration (pairConfiguration b) none = .ok s ∧ r.result = .ok () ∧
      ∃ p ∈ r.state.rig.pins, p.level? = none :=
  ⟨rfl, rfl, ⟨"A", ⟨1, 1⟩, none⟩, List.mem_of_getElem? (i := 1) rfl, rfl⟩

end Station

end PinBench
