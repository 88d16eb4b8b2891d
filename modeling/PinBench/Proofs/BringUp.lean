import PinBench.Proofs.Move
import PinBench.Proofs.Rig.Levels

/-!
# Bring-up

What bring-up does to directions and levels, and what it has done when it comes to its end.

* `giveLevel`, `LevelGiven`: what is done to one card pin, and how that ends.
* `shape_bringUp`: **bring-up keeps the shape of the rig**.
* `moves_configureExpanders`, `moves_initialisePins`, `moves_bringUp`: **bring-up is moves**.
* `Rig.Levelled`: every card pin of a wiring has a level, and its bit has the same.
* `levelled_of_bringUp`: **a bring-up that ends well leaves every card pin so** that is found under
  its names.
* `smooth_bringUp`: **it has lost no write**.
-/

namespace PinBench

variable {β : Type} [Bus β]

/-! ## Directions -/

theorem writeAll_cons (l : Link β) (w : RegisterWrite) (ws : List RegisterWrite) :
    writeAll l (w :: ws) = match Link.outcome l.bus w with
      | .ok () => writeAll (l.write w).2 ws
      | .error f => (.error (.bus f), (l.write w).2) := by
  rw [writeAll, ← Link.write_result]
  rcases l.write w with ⟨r, l'⟩
  cases r <;> rfl

theorem moves_writeAll {t : Rig} {l : Link β} {ws : List RegisterWrite}
    (hw : ∀ w ∈ ws, ∃ e ∈ t.expanders, ∃ g ∈ t.groups, w = g.directionWrite e) :
    Moves t l t (writeAll l ws).2 := by
  induction ws generalizing l with
  | nil => exact .refl t l
  | cons w ws ih =>
    obtain ⟨e, he, g, hg, rfl⟩ := hw w List.mem_cons_self
    have hm : Moves t l t (l.write (g.directionWrite e)).2 := .single (.direct he hg)
    rw [writeAll_cons]
    cases Link.outcome l.bus (g.directionWrite e) with
    | error f => exact hm
    | ok u => exact hm.trans (ih fun w h => hw w (List.mem_cons_of_mem _ h))

theorem moves_configureAll {t : Rig} {l : Link β} {es : List Expander}
    (he : ∀ e ∈ es, e ∈ t.expanders) : Moves t l t (configureAll t.groups l es).2 := by
  induction es generalizing l with
  | nil => exact .refl t l
  | cons e es ih =>
    have hm : Moves t l t (writeAll l (t.groups.map (·.directionWrite e))).2 := by
      refine moves_writeAll ?_
      intro w hw
      obtain ⟨g, hg, rfl⟩ := List.mem_map.mp hw
      exact ⟨e, he e List.mem_cons_self, g, hg, rfl⟩
    rw [configureAll]
    generalize writeAll l (t.groups.map (·.directionWrite e)) = x at hm ⊢
    obtain ⟨r, l'⟩ := x
    cases r with
    | error f => exact hm
    | ok u => exact (hm.tail (.note _ _)).trans (ih fun e h => he e (List.mem_cons_of_mem _ h))

/-! ## Levels -/

/-- What bring-up does to one card pin. -/
def giveLevel (t : Rig) (l : Link β) (card label : String) (level : Bool) : Run Rig β Outcome :=
  match t.pin card label with
  | .error f => ⟨.error f, t, l⟩
  | .ok _ => writeCard (t.setPin card label level) l card label level

theorem applyLevels_cons (t : Rig) (l : Link β) (count : Nat) (card label : String) (level : Bool)
    (rest : List (String × String × Bool)) :
    applyLevels t l count ((card, label, level) :: rest) =
      match (giveLevel t l card label level).result with
      | .error f => ⟨.error f, (giveLevel t l card label level).state,
          (giveLevel t l card label level).link⟩
      | .ok o => applyLevels (giveLevel t l card label level).state
          (giveLevel t l card label level).link (count + o.count) rest := by
  rw [applyLevels, giveLevel]
  cases t.pin card label <;> rfl

theorem shape_giveLevel (t : Rig) (l : Link β) (card label : String) (level : Bool) :
    (giveLevel t l card label level).state.shape = t.shape := by
  unfold giveLevel
  cases t.pin card label with
  | error f => rfl
  | ok p =>
    have h := PinCall.shape_run (t.setPin card label level) l (.card card label level)
    exact h.trans (Rig.shape_setPin t card label level)

theorem shape_applyLevels (t : Rig) (l : Link β) (count : Nat)
    (xs : List (String × String × Bool)) : (applyLevels t l count xs).state.shape = t.shape := by
  induction xs generalizing t l count with
  | nil => rfl
  | cons x xs ih =>
    obtain ⟨card, label, level⟩ := x
    have hg := shape_giveLevel t l card label level
    rw [applyLevels_cons]
    cases (giveLevel t l card label level).result with
    | error f => exact hg
    | ok o => exact (ih _ _ _).trans hg

theorem shape_initialisePins (t : Rig) (l : Link β) :
    (initialisePins t l).state.shape = t.shape := by
  have h := shape_applyLevels t l 0 t.initialLevels
  rw [initialisePins]
  cases (applyLevels t l 0 t.initialLevels).result <;> exact h

/-- **Bring-up keeps the shape of the rig.** -/
theorem shape_bringUp (t : Rig) (l : Link β) : (bringUp t l).state.shape = t.shape := by
  rw [bringUp]
  generalize configureExpanders t l = x
  obtain ⟨res, l'⟩ := x
  cases res with
  | error f => rfl
  | ok u => exact shape_initialisePins t l'

/-- The site of a card pin that is there is missing only if its bit is. -/
theorem PinCall.site?_eq_none {t : Rig} {card label : String} {level : Bool} {p : CardPin}
    (hp : t.pin card label = .ok p) {f : Fault}
    (h : (PinCall.card card label level).site t = .error f) : t.site? p.wiring = none := by
  by_contra hs
  obtain ⟨s, hs⟩ := Option.ne_none_iff_exists'.mp hs
  obtain ⟨e, he, hl, hr, -⟩ := (Rig.site?_eq_some_iff .configuration .configuration).mp hs
  rw [site, hp, ok_bind, he, ok_bind, hl, ok_bind, Expander.site, hr] at h
  cases h

/-- What bring-up leaves of one card pin. -/
inductive LevelGiven (t : Rig) (l : Link β) (card label : String) (level : Bool) :
    Run Rig β Outcome → Prop where
  | unknown {f : Fault} (h : t.pin card label = .error f) :
      LevelGiven t l card label level ⟨.error f, t, l⟩
  /-- The card pin has its level, but no bit. -/
  | bare {p : CardPin} (h : t.pin card label = .ok p) (hs : t.site? p.wiring = none) (f : Fault) :
      LevelGiven t l card label level ⟨.error f, t.setWired p.wiring level, l⟩
  | idle {p : CardPin} {s : Site} (h : t.pin card label = .ok p) (hs : t.site? p.wiring = some s)
      (hl : s.level = level) (severity : Severity) (text : String) :
      LevelGiven t l card label level
        ⟨.ok .unchanged, t.setWired p.wiring level, l.note severity text⟩
  | moved {p : CardPin} {s : Site} (h : t.pin card label = .ok p) (hs : t.site? p.wiring = some s)
      (hl : s.level ≠ level) (severity : Severity) (text : String) :
      LevelGiven t l card label level
        ⟨match Link.outcome l.bus (s.write level) with
          | .ok () => .ok (.written (s.write level))
          | .error f => .error (.bus f),
        t.settle p.wiring s level, (l.write (s.write level)).2.note severity text⟩

theorem Rig.pin_setPin {t : Rig} {card label : String} {p : CardPin}
    (h : t.pin card label = .ok p) (level : Bool) :
    (t.setPin card label level).pin card label = .ok { p with level? := some level } := by
  obtain ⟨c, hc, hp⟩ := pin_ok_iff.mp h
  have hpins := find?_updateFirst_self (p := fun p : CardPin => p.label == label)
    (f := fun p => { p with level? := some level }) (fun _ => rfl) c.pins
  have hcards := find?_updateFirst_self (p := fun c : Card => c.name == card)
    (f := fun c => { c with
      pins := updateFirst (·.label == label) (fun p => { p with level? := some level }) c.pins })
    (fun _ => rfl) t.cards
  refine pin_ok_iff.mpr ⟨_, hcards.trans (congrArg _ hc), ?_⟩
  dsimp only
  rw [hpins, hp]
  rfl

theorem Rig.settle_setWired (t : Rig) (w : Wiring) (s : Site) (level : Bool) :
    (t.setWired w level).settle w s level = t.settle w s level := by
  rw [settle, setWired_setWired, settle]

theorem levelGiven_giveLevel {t : Rig} (ht : t.WellFormed) (l : Link β) (card label : String)
    (level : Bool) : LevelGiven t l card label level (giveLevel t l card label level) := by
  unfold giveLevel
  cases hp : t.pin card label with
  | error f => exact .unknown hp
  | ok p =>
    have hq := Rig.pin_setPin hp level
    have h := PinCall.run_ending (t.setPin card label level) l (.card card label level)
    show LevelGiven t l card label level
      ((PinCall.card card label level).run (t.setPin card label level) l)
    generalize (PinCall.card card label level).run (t.setPin card label level) l = r at h ⊢
    rw [ht.setPin_eq_setWired hp] at h hq
    cases h with
    | refused h =>
      have hs := PinCall.site?_eq_none hq h
      exact .bare hp hs _
    | idle h hl severity text =>
      obtain ⟨p', hp', rfl⟩ := PinCall.pin_of_site h
      obtain rfl := Except.ok.inj (hp'.symm.trans hq)
      have hs := PinCall.site?_of_site h
      exact .idle hp hs hl severity text
    | @moved w s h hl severity text =>
      obtain ⟨p', hp', rfl⟩ := PinCall.pin_of_site h
      obtain rfl := Except.ok.inj (hp'.symm.trans hq)
      have hs := PinCall.site?_of_site h
      have hset := Rig.settle_setWired t p.wiring s level
      rw [PinCall.after_change (ht.of_shape (Rig.shape_setWired ..)) h]
      show LevelGiven t l card label level
        ⟨_, (t.setWired p.wiring level).settle p.wiring s level, _⟩
      rw [hset]
      exact .moved hp hs hl severity text

theorem moves_giveLevel {t : Rig} (ht : t.WellFormed) (l : Link β) (card label : String)
    (level : Bool) :
    Moves t l (giveLevel t l card label level).state (giveLevel t l card label level).link := by
  have h := levelGiven_giveLevel ht l card label level
  generalize giveLevel t l card label level = r at h ⊢
  cases h with
  | unknown h => exact .refl t l
  | bare h hs f =>
    refine .single (.level _ level ?_)
    intro b hb
    rw [Rig.bit?, hs] at hb
    cases hb
  | idle h hs hl severity text =>
    refine (Moves.single (.level _ level ?_)).tail (.note severity text)
    intro b hb
    rw [Rig.bit?, hs] at hb
    exact (Option.some.inj hb).symm.trans hl
  | moved h hs hl severity text =>
    exact (Moves.single (.settle hs level hl)).tail (.note severity text)

theorem moves_applyLevels {t : Rig} (ht : t.WellFormed) (l : Link β) (count : Nat)
    (xs : List (String × String × Bool)) :
    Moves t l (applyLevels t l count xs).state (applyLevels t l count xs).link := by
  induction xs generalizing t l count with
  | nil => exact .refl t l
  | cons x xs ih =>
    obtain ⟨card, label, level⟩ := x
    have hm := moves_giveLevel ht l card label level
    rw [applyLevels_cons]
    generalize giveLevel t l card label level = r at hm ⊢
    obtain ⟨res, t', l'⟩ := r
    cases res with
    | error f => exact hm
    | ok o => exact hm.trans (ih (ht.of_shape hm.shape) l' (count + o.count))

theorem moves_initialisePins {t : Rig} (ht : t.WellFormed) (l : Link β) :
    Moves t l (initialisePins t l).state (initialisePins t l).link := by
  have hm := moves_applyLevels ht l 0 t.initialLevels
  rw [initialisePins]
  generalize applyLevels t l 0 t.initialLevels = r at hm ⊢
  obtain ⟨res, t', l'⟩ := r
  cases res with
  | error f => exact hm
  | ok count => exact hm.tail (.note _ _)

theorem moves_configureExpanders (t : Rig) (l : Link β) :
    Moves t l t (configureExpanders t l).2 :=
  moves_configureAll fun _ he => he

/-- **Bring-up is moves.** -/
theorem moves_bringUp {t : Rig} (ht : t.WellFormed) (l : Link β) :
    Moves t l (bringUp t l).state (bringUp t l).link := by
  have hm := moves_configureExpanders t l
  rw [bringUp]
  generalize configureExpanders t l = x at hm ⊢
  obtain ⟨res, l'⟩ := x
  cases res with
  | error f => exact hm
  | ok u => exact hm.trans (moves_initialisePins ht l')

/-! ## Levels after a bring-up that ends well -/

namespace Rig

/-- Every card pin that is wired to `w` has the level of its bit. -/
def Levelled (t : Rig) (w : Wiring) : Prop :=
  ∃ level, t.bit? w = some level ∧ ∀ p ∈ t.pins, p.wiring = w → p.level? = some level

theorem levelled_of_pins {t t' : Rig} {v w : Wiring} {level : Bool}
    (hp : t'.pins = (t.setWired v level).pins)
    (hb : t'.bit? w = if w = v then some level else t.bit? w) (h : w = v ∨ t.Levelled w) :
    t'.Levelled w := by
  by_cases hw : w = v
  · refine ⟨level, by rw [hb, if_pos hw], ?_⟩
    intro p hm hpw
    rw [hp] at hm
    rcases mem_pins_setWired hm with ⟨-, hl⟩ | ⟨hne, -⟩
    · exact hl
    · exact absurd (hpw.trans hw) hne
  · obtain ⟨level', hb', hl⟩ := h.resolve_left hw
    refine ⟨level', by rw [hb, if_neg hw, hb'], ?_⟩
    intro p hm hpw
    rw [hp] at hm
    rcases mem_pins_setWired hm with ⟨hv, -⟩ | ⟨-, hq⟩
    · exact absurd (hpw.symm.trans hv) hw
    · exact hl p hq hpw

end Rig

theorem Move.levelled {t t' : Rig} {l l' : Link β} (ht : t.WellFormed) {w : Wiring}
    (hw : t.Levelled w) (m : Move t l t' l') : t'.Levelled w := by
  cases m with
  | note severity text => exact hw
  | tell e => exact hw
  | direct he hg => exact hw
  | level v level h =>
    refine Rig.levelled_of_pins rfl ?_ (.inr hw)
    show t.bit? w = _
    by_cases hv : w = v
    · obtain ⟨level', hb, -⟩ := hw
      rw [if_pos hv, hb, h level' (hv ▸ hb)]
    · rw [if_neg hv]
  | settle h level hl => exact Rig.levelled_of_pins rfl (ht.bit?_settle h level w) (.inr hw)

theorem levelled_of_giveLevel {t : Rig} (ht : t.WellFormed) {l : Link β} {card label : String}
    {level : Bool} {o : Outcome} (hr : (giveLevel t l card label level).result = .ok o)
    {p : CardPin} (hp : t.pin card label = .ok p) :
    (giveLevel t l card label level).state.Levelled p.wiring := by
  have h := levelGiven_giveLevel ht l card label level
  generalize giveLevel t l card label level = r at h hr ⊢
  cases h with
  | unknown h => cases hr
  | bare h hs f => cases hr
  | idle h hs hl severity text =>
    obtain rfl := Except.ok.inj (h.symm.trans hp)
    refine Rig.levelled_of_pins rfl ?_ (.inl rfl)
    show t.bit? _ = _
    rw [if_pos rfl, Rig.bit?, hs, Option.map_some, hl]
  | moved h hs hl severity text =>
    obtain rfl := Except.ok.inj (h.symm.trans hp)
    exact Rig.levelled_of_pins rfl (ht.bit?_settle hs level _) (.inl rfl)

theorem levelled_of_applyLevels {t : Rig} (ht : t.WellFormed) {l : Link β} {count n : Nat}
    {xs : List (String × String × Bool)} (hr : (applyLevels t l count xs).result = .ok n)
    {w : Wiring} (hw : t.Levelled w ∨ ∃ x ∈ xs, ∃ p, t.pin x.1 x.2.1 = .ok p ∧ p.wiring = w) :
    (applyLevels t l count xs).state.Levelled w := by
  induction xs generalizing t l count with
  | nil =>
    rcases hw with hw | ⟨x, hx, -⟩
    · exact hw
    · cases hx
  | cons x xs ih =>
    obtain ⟨card, label, level⟩ := x
    have hm := moves_giveLevel ht l card label level
    have hl : ∀ o, (giveLevel t l card label level).result = .ok o → ∀ p, t.pin card label = .ok p →
        (giveLevel t l card label level).state.Levelled p.wiring :=
      fun o ho p hp => levelled_of_giveLevel ht ho hp
    rw [applyLevels_cons] at hr ⊢
    generalize giveLevel t l card label level = r at hm hl hr ⊢
    obtain ⟨res, t', l'⟩ := r
    cases res with
    | error f => cases hr
    | ok o =>
      refine ih (ht.of_shape hm.shape) hr ?_
      rcases hw with hw | ⟨x, hx, p, hp, rfl⟩
      · exact .inl (hm.keep (P := fun t _ => t.Levelled w) (fun ht hw m => m.levelled ht hw) ht hw)
      · rcases List.mem_cons.mp hx with rfl | hx
        · exact .inl (hl o rfl p hp)
        · obtain ⟨q, hq, hqw⟩ := Rig.pin_of_shape hm.shape hp
          exact .inr ⟨x, hx, q, hq, hqw⟩

/-- Every card pin that is found under its names has a turn at bring-up. -/
theorem Rig.exists_initialLevel {t : Rig} {card label : String} {p : CardPin}
    (hp : t.pin card label = .ok p) : ∃ x ∈ t.initialLevels, t.pin x.1 x.2.1 = .ok p := by
  obtain ⟨c, hc, hcp⟩ := pin_ok_iff.mp hp
  obtain rfl := beq_iff_eq.mp (List.find?_some (p := fun c : Card => c.name == card) hc)
  obtain rfl := beq_iff_eq.mp (List.find?_some (p := fun p : CardPin => p.label == label) hcp)
  exact ⟨(c.name, p.label, p.level?.getD t.defaultLevel),
    List.mem_flatMap.mpr ⟨c, List.mem_of_find?_eq_some hc,
      List.mem_map_of_mem (List.mem_of_find?_eq_some hcp)⟩, hp⟩

theorem levelled_of_initialisePins {t : Rig} (ht : t.WellFormed) {l : Link β} {n : Nat}
    (hr : (initialisePins t l).result = .ok n) {card label : String} {p : CardPin}
    (hp : t.pin card label = .ok p) : (initialisePins t l).state.Levelled p.wiring := by
  obtain ⟨x, hx, hxp⟩ := Rig.exists_initialLevel hp
  have h : ∀ n, (applyLevels t l 0 t.initialLevels).result = .ok n →
      (applyLevels t l 0 t.initialLevels).state.Levelled p.wiring :=
    fun n hn => levelled_of_applyLevels ht hn (.inr ⟨x, hx, p, hxp, rfl⟩)
  rw [initialisePins] at hr ⊢
  generalize applyLevels t l 0 t.initialLevels = r at h hr ⊢
  obtain ⟨res, t', l'⟩ := r
  cases res with
  | error f => cases hr
  | ok count => exact h count rfl

theorem levelled_of_bringUp {t : Rig} (ht : t.WellFormed) {l : Link β} {n : Nat}
    (hr : (bringUp t l).result = .ok n) {card label : String} {p : CardPin}
    (hp : t.pin card label = .ok p) : (bringUp t l).state.Levelled p.wiring := by
  rw [bringUp] at hr ⊢
  generalize configureExpanders t l = x at hr ⊢
  obtain ⟨res, l'⟩ := x
  cases res with
  | error f => cases hr
  | ok u => exact levelled_of_initialisePins ht hr hp

/-! ## Attempts of a bring-up that ends well -/

theorem smooth_writeAll {l : Link β} (h : l.Smooth) {ws : List RegisterWrite}
    (hr : (writeAll l ws).1 = .ok ()) : (writeAll l ws).2.Smooth := by
  induction ws generalizing l with
  | nil => exact h
  | cons w ws ih =>
    rw [writeAll_cons] at hr ⊢
    cases hw : Link.outcome l.bus w with
    | error f =>
      rw [hw] at hr
      cases hr
    | ok u =>
      rw [hw] at hr
      exact ih (h.write hw) hr

theorem smooth_configureAll {groups : List PinGroup} {l : Link β} (h : l.Smooth)
    {es : List Expander} (hr : (configureAll groups l es).1 = .ok ()) :
    (configureAll groups l es).2.Smooth := by
  induction es generalizing l with
  | nil => exact h
  | cons e es ih =>
    have hw : (writeAll l (groups.map (·.directionWrite e))).1 = .ok () →
        (writeAll l (groups.map (·.directionWrite e))).2.Smooth := smooth_writeAll h
    rw [configureAll] at hr ⊢
    generalize writeAll l (groups.map (·.directionWrite e)) = x at hw hr ⊢
    obtain ⟨r, l'⟩ := x
    cases r with
    | error f => cases hr
    | ok u => exact ih ((hw rfl).note _ _) hr

theorem smooth_giveLevel {t : Rig} (ht : t.WellFormed) {l : Link β} (h : l.Smooth)
    {card label : String} {level : Bool} {o : Outcome}
    (hr : (giveLevel t l card label level).result = .ok o) :
    (giveLevel t l card label level).link.Smooth := by
  have hg := levelGiven_giveLevel ht l card label level
  generalize giveLevel t l card label level = r at hg hr ⊢
  cases hg with
  | unknown hp => cases hr
  | bare hp hs f => cases hr
  | idle hp hs hl severity text => exact h.note severity text
  | @moved p s hp hs hl severity text =>
    refine (h.write ?_).note severity text
    cases ho : Link.outcome l.bus (s.write level) with
    | ok u => rfl
    | error f =>
      rw [ho] at hr
      cases hr

theorem smooth_applyLevels {t : Rig} (ht : t.WellFormed) {l : Link β} (h : l.Smooth)
    {count n : Nat} {xs : List (String × String × Bool)}
    (hr : (applyLevels t l count xs).result = .ok n) : (applyLevels t l count xs).link.Smooth := by
  induction xs generalizing t l count with
  | nil => exact h
  | cons x xs ih =>
    obtain ⟨card, label, level⟩ := x
    have hm := moves_giveLevel ht l card label level
    have hg : ∀ o, (giveLevel t l card label level).result = .ok o →
        (giveLevel t l card label level).link.Smooth := fun o ho => smooth_giveLevel ht h ho
    rw [applyLevels_cons] at hr ⊢
    generalize giveLevel t l card label level = r at hm hg hr ⊢
    obtain ⟨res, t', l'⟩ := r
    cases res with
    | error f => cases hr
    | ok o => exact ih (ht.of_shape hm.shape) (hg o rfl) hr

theorem smooth_initialisePins {t : Rig} (ht : t.WellFormed) {l : Link β} (h : l.Smooth) {n : Nat}
    (hr : (initialisePins t l).result = .ok n) : (initialisePins t l).link.Smooth := by
  have hs : ∀ n, (applyLevels t l 0 t.initialLevels).result = .ok n →
      (applyLevels t l 0 t.initialLevels).link.Smooth := fun n hn => smooth_applyLevels ht h hn
  rw [initialisePins] at hr ⊢
  generalize applyLevels t l 0 t.initialLevels = r at hs hr ⊢
  obtain ⟨res, t', l'⟩ := r
  cases res with
  | error f => cases hr
  | ok count => exact (hs count rfl).note _ _

/-- **A bring-up that ends well has lost no write.** -/
theorem smooth_bringUp {t : Rig} (ht : t.WellFormed) {l : Link β} (h : l.Smooth) {n : Nat}
    (hr : (bringUp t l).result = .ok n) : (bringUp t l).link.Smooth := by
  have hc : (configureExpanders t l).1 = .ok () → (configureExpanders t l).2.Smooth :=
    smooth_configureAll h
  rw [bringUp] at hr ⊢
  generalize configureExpanders t l = x at hc hr ⊢
  obtain ⟨res, l'⟩ := x
  cases res with
  | error f => cases hr
  | ok u => exact smooth_initialisePins ht (hc rfl) hr

end PinBench
