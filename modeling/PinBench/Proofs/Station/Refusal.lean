import PinBench.Proofs.Station.Sound
import PinBench.Proofs.Station.Unseen

/-!
# Refused requests

A status of 400 to 499 lays the fault with the caller, who has asked for something that is not there
or cannot be read.  Such an answer comes before anything is done, with one exception: a switch of
the bench reads the categories of its new bench when it is over.

* `Internal`: a result that is no fault of the caller, and `internal_bringUp`: **bring-up is never
  refused because of the caller**, if no two cards have one name.
* `Station.write_of_status`: a pin write that is refused because of the caller has done nothing.
* `Answer.Blames`: an answer that lays the fault with the caller.
* `Reachable.blames_handle`: **such an answer has done nothing**, unless a switch has ended well and
  left a bench whose categories cannot be evaluated.
* `Station.switched_and_blamed`: a configuration that passes its check and has such a bench.
-/

namespace PinBench

/-! ## Faults that are not the caller's -/

/-- A result that is no fault of the caller. -/
def Internal {α : Type} (x : Except Fault α) : Prop := ∀ f, x = .error f → f.status = 500

theorem internal_ok {α : Type} (a : α) : Internal (.ok a) := by
  intro f h
  cases h

theorem internal_error {α : Type} {f : Fault} (hf : f.status = 500) :
    Internal (.error f : Except Fault α) := by
  intro f' h
  cases h
  exact hf

theorem Internal.bind {α γ : Type} {x : Except Fault α} {g : α → Except Fault γ} (hx : Internal x)
    (hg : ∀ a, Internal (g a)) : Internal (x >>= g) :=
  forall_error_bind hx hg

/-- A card pin that is not there is the caller's fault, whoever has named it. -/
theorem Rig.status_of_pin {t : Rig} {card label : String} {f : Fault}
    (h : t.pin card label = .error f) : f.status = 404 := by
  rcases error_of_pin h with rfl | rfl <;> rfl

theorem internal_expander (t : Rig) (number : UInt8) :
    Internal (t.expander number .configuration) := by
  intro f h
  rw [Rig.error_of_expander h]
  rfl

theorem internal_locate (t : Rig) (pin : UInt8) : Internal (t.locate pin .configuration) := by
  intro f h
  rcases Rig.error_of_locate h with rfl | rfl <;> rfl

theorem internal_expanderSite (e : Expander) (number : UInt8) (place : BitPlace) :
    Internal (e.site number place) := by
  intro f h
  rw [Expander.error_of_site h]
  rfl

/-- What is missing behind a card pin is not the caller's fault. -/
theorem PinCall.internal_site {t : Rig} {card label : String} {p : CardPin}
    (hp : t.pin card label = .ok p) (level : Bool) :
    Internal ((PinCall.card card label level).site t) := by
  rw [site, hp, ok_bind]
  refine (internal_expander t p.wiring.expander).bind fun e => ?_
  refine (internal_locate t p.wiring.pin).bind fun place => ?_
  exact (internal_expanderSite e p.wiring.expander place).bind fun s => internal_ok _

/-! ## Bring-up -/

section BringUp

variable {β : Type} [Bus β]

theorem PinCall.internal_run {t : Rig} {q : PinCall} (hq : Internal (q.site t)) (l : Link β) :
    Internal (q.run t l).result := by
  have h := q.run_ending t l
  generalize q.run t l = r at h ⊢
  cases h with
  | refused h => exact internal_error (hq _ h)
  | idle h hl severity text => exact internal_ok _
  | @moved w s h hl severity text =>
    dsimp only
    cases Link.outcome l.bus (s.write q.level) with
    | ok u => exact internal_ok _
    | error e => exact internal_error rfl

theorem internal_giveLevel {t : Rig} {card label : String} {p : CardPin}
    (hp : t.pin card label = .ok p) (l : Link β) (level : Bool) :
    Internal (giveLevel t l card label level).result := by
  have hq := PinCall.internal_site (Rig.pin_setPin hp level) level
  rw [giveLevel, hp]
  exact PinCall.internal_run hq l

theorem internal_applyLevels {t : Rig} {xs : List (String × String × Bool)}
    (hx : ∀ x ∈ xs, ∃ p, t.pin x.1 x.2.1 = .ok p) (l : Link β) (count : Nat) :
    Internal (applyLevels t l count xs).result := by
  induction xs generalizing t l count with
  | nil => exact internal_ok count
  | cons x xs ih =>
    obtain ⟨card, label, level⟩ := x
    obtain ⟨⟨p, hp⟩, hx⟩ := List.forall_mem_cons.mp hx
    have hg := internal_giveLevel hp l level
    have hs := shape_giveLevel t l card label level
    rw [applyLevels_cons]
    generalize giveLevel t l card label level = r at hg hs ⊢
    obtain ⟨res, t', l'⟩ := r
    cases res with
    | error f => exact internal_error (hg f rfl)
    | ok o =>
      -- the pins whose turn is still to come are found in the new rig too
      refine ih (t := t') ?_ l' (count + o.count)
      intro y hy
      obtain ⟨p, hp⟩ := hx y hy
      obtain ⟨p', hp', -⟩ := Rig.pin_of_shape hs hp
      exact ⟨p', hp'⟩

/-- Whatever has a turn at bring-up is found under its names. -/
theorem Rig.pin_of_initialLevel {t : Rig} (hn : (t.cards.map Card.name).Nodup)
    {x : String × String × Bool} (hx : x ∈ t.initialLevels) :
    ∃ p, t.pin x.1 x.2.1 = .ok p := by
  obtain ⟨c, hc, hx⟩ := List.mem_flatMap.mp hx
  obtain ⟨p, hp, rfl⟩ := List.mem_map.mp hx
  have hs : (c.pins.find? (·.label == p.label)).isSome :=
    List.find?_isSome.mpr ⟨p, hp, beq_self_eq_true p.label⟩
  obtain ⟨p', hp'⟩ := Option.isSome_iff_exists.mp hs
  exact ⟨p', pin_ok_iff.mpr ⟨c, find?_of_mem Card.name hn hc, hp'⟩⟩

theorem internal_initialisePins {t : Rig} (hn : (t.cards.map Card.name).Nodup) (l : Link β) :
    Internal (initialisePins t l).result := by
  have h := internal_applyLevels (fun x hx => Rig.pin_of_initialLevel hn hx) l 0
  rw [initialisePins]
  generalize applyLevels t l 0 t.initialLevels = r at h ⊢
  obtain ⟨res, t', l'⟩ := r
  cases res with
  | error f => exact h
  | ok count => exact internal_ok count

theorem internal_writeAll (l : Link β) (ws : List RegisterWrite) : Internal (writeAll l ws).1 := by
  induction ws generalizing l with
  | nil => exact internal_ok ()
  | cons w ws ih =>
    rw [writeAll_cons]
    cases Link.outcome l.bus w with
    | error e => exact internal_error rfl
    | ok u => exact ih (l.write w).2

theorem internal_configureAll (groups : List PinGroup) (l : Link β) (es : List Expander) :
    Internal (configureAll groups l es).1 := by
  induction es generalizing l with
  | nil => exact internal_ok ()
  | cons e es ih =>
    have h := internal_writeAll l (groups.map (·.directionWrite e))
    rw [configureAll]
    generalize writeAll l (groups.map (·.directionWrite e)) = x at h ⊢
    obtain ⟨res, l'⟩ := x
    cases res with
    | error f => exact h
    | ok u => exact ih _

/-- **Bring-up is never refused because of the caller**, if no two cards have one name. -/
theorem internal_bringUp {t : Rig} (hn : (t.cards.map Card.name).Nodup) (l : Link β) :
    Internal (bringUp t l).result := by
  have h := internal_configureAll t.groups l t.expanders
  rw [bringUp, configureExpanders]
  generalize configureAll t.groups l t.expanders = x at h ⊢
  obtain ⟨res, l'⟩ := x
  cases res with
  | error f => exact internal_error (h f rfl)
  | ok u => exact internal_initialisePins hn l'

end BringUp

namespace Station

variable {β : Type} [Bus β] {s : Station}

theorem internal_start (hn : (s.rig.cards.map Card.name).Nodup) (l : Link β) :
    Internal (s.start l).result := by
  have h : Internal (s.broughtUp l).result := internal_bringUp hn l
  rw [start]
  dsimp only
  generalize s.broughtUp l = r at h ⊢
  obtain ⟨res, s', l'⟩ := r
  cases res with
  | error f => exact internal_error (h f rfl)
  | ok n => exact internal_ok ()

theorem internal_update (hn : (s.rig.cards.map Card.name).Nodup) (l : Link β) :
    Internal (s.update l).result := by
  have h : Internal (s.broughtUp l).result := internal_bringUp hn l
  rw [update]
  generalize s.broughtUp l = r at h ⊢
  obtain ⟨res, s', l'⟩ := r
  cases res with
  | error f => exact internal_error (h f rfl)
  | ok n => exact internal_ok ()

/-! ## Pin writes -/

/-- **A pin write that is refused because of the caller has done nothing.** -/
theorem write_of_status {l : Link β} {q : PinCall} {f : Fault}
    (hr : (s.write l q).result = .error f) (hf : f.status ≠ 500) :
    s.write l q = ⟨.error f, s, l⟩ := by
  have h := q.run_ending s.rig l
  have hoff := q.offBus_site s.rig
  rw [write_eq_track] at hr ⊢
  generalize q.run s.rig l = r at h hr ⊢
  cases h with
  | @refused f' h =>
    rw [track_of_offBus (hoff f' h)] at hr ⊢
    cases hr
    rfl
  | idle h hl severity text => cases hr
  | @moved w site h hl severity text =>
    cases ho : Link.outcome l.bus (site.write q.level) with
    | ok u =>
      rw [ho] at hr
      cases hr
    | error e =>
      rw [ho] at hr
      cases hr
      exact absurd rfl hf

/-! ## Requests -/

/-- A request that is refused because of the caller has done nothing, a command and a switch to a
bench apart. -/
theorem execute_of_status {now : Nat} {l : Link β} {q : Request} {f : Fault}
    (hr : (s.execute now l q).result = .error f) (hf : f.status ≠ 500)
    (hn : (s.rig.cards.map Card.name).Nodup) (hq : ∀ name force, q ≠ .sendCommand name force)
    (hb : ∀ name, q = .switchBench name → s.configuration.bench? name = none) :
    s.Alike Tracker.Any (s.execute now l q).state ∧ l.Quiet (s.execute now l q).link := by
  -- what is left of a request that stops at its arguments, or at a name
  have hsame : s.Alike Tracker.Any s ∧ l.Quiet l := ⟨.refl Tracker.lasting_any s, .refl l⟩
  cases hreads : q.reads with
  | true =>
    have h := s.looked_execute now l hreads
    exact ⟨h.alike, h.link⟩
  | false =>
    cases q with
    | writeToCard card label level =>
      rw [execute] at hr ⊢
      cases hv : level.toBool with
      | error f' => exact hsame
      | ok v =>
        rw [hv] at hr
        have hw := write_of_status (q := .card card label v) (error_of_map hr) hf
        change s.writeCard card label v l = _ at hw
        dsimp only
        rw [hw]
        exact hsame
    | writeToExpander number pin level =>
      rw [execute] at hr ⊢
      cases hv : pinArguments number pin level with
      | error f' => exact hsame
      | ok x =>
        obtain ⟨n, p, v⟩ := x
        rw [hv] at hr
        have hw := write_of_status (q := .expander n p v) (error_of_map hr) hf
        change s.writePin n p v l = _ at hw
        dsimp only
        rw [hw]
        exact hsame
    | sendCommand name force => exact absurd rfl (hq name force)
    | updateRegisters => exact absurd (internal_update hn l f (error_of_map hr)) hf
    | switchBench name =>
      rw [execute, switchBench, hb name rfl]
      exact hsame
    | _ => cases hreads

end Station

/-- The answer lays the fault with the caller. -/
def Answer.Blames (a : Answer) : Prop := 400 ≤ a.status.code ∧ a.status.code < 500

instance (a : Answer) : Decidable a.Blames := inferInstanceAs (Decidable (_ ∧ _))

theorem Fault.status_eq (f : Fault) :
    f.status = 400 ∨ f.status = 404 ∨ f.status = 406 ∨ f.status = 500 := by
  unfold status
  split <;> simp only [true_or, or_true]

theorem Answer.blames_ofFault (date : Nat) (request : String) (f : Fault) :
    (Answer.ofFault date request f).Blames ↔ f.status ≠ 500 := by
  show 400 ≤ f.status ∧ f.status < 500 ↔ f.status ≠ 500
  rcases f.status_eq with h | h | h | h <;> rw [h] <;> decide

theorem Answer.not_blames_ok (date : Nat) (request : String) (data? : Option Json) :
    ¬(Answer.ok date request data?).Blames := by
  show ¬((400 : UInt16) ≤ 200 ∧ (200 : UInt16) < 500)
  decide

namespace Station

variable {β : Type}

/-- How a request is answered: with its data, or with the fault, which is noted. -/
inductive Handling (clock : Clock) (q : Request) (r : Run Station β (Option Json)) :
    Answer × Station × Link β → Prop where
  | done {data? : Option Json} (h : r.result = .ok data?) :
      Handling clock q r (.ok clock.date q.name data?, r.state, r.link)
  | failed {f : Fault} (h : r.result = .error f) (severity : Severity) (text : String) :
      Handling clock q r
        (.ofFault clock.date q.name f, r.state, r.link.note severity text)

theorem handling_handle [Bus β] (s : Station) (clock : Clock) (q : Request) (l : Link β) :
    Handling clock q (s.execute clock.now l q) (s.handle clock q l) := by
  unfold handle
  dsimp only
  cases hr : (s.execute clock.now l q).result with
  | ok data? => exact .done hr
  | error f => exact .failed hr _ _

namespace Handling

variable {clock : Clock} {q : Request} {r : Run Station β (Option Json)}
  {x : Answer × Station × Link β}

theorem blames_iff (h : Handling clock q r x) :
    x.1.Blames ↔ ∃ f, r.result = .error f ∧ f.status ≠ 500 := by
  cases h with
  | done h =>
    refine iff_of_false (Answer.not_blames_ok _ _ _) ?_
    rintro ⟨f, hf, -⟩
    cases h.symm.trans hf
  | @failed f h severity text =>
    refine (Answer.blames_ofFault ..).trans ⟨fun hf => ⟨f, h, hf⟩, ?_⟩
    rintro ⟨f', hf', hs⟩
    cases h.symm.trans hf'
    exact hs

theorem not_blames (h : Handling clock q r x) (hr : Internal r.result) : ¬x.1.Blames := by
  rw [h.blames_iff]
  rintro ⟨f, hf, hs⟩
  exact hs (hr f hf)

theorem code_of_error (h : Handling clock q r x) {f : Fault} (hf : r.result = .error f) :
    x.1.status.code = f.status := by
  cases h with
  | done h => cases h.symm.trans hf
  | failed h severity text =>
    cases h.symm.trans hf
    rfl

theorem state (h : Handling clock q r x) : x.2.1 = r.state := by
  cases h <;> rfl

theorem link (h : Handling clock q r x) : r.link.Quiet x.2.2 := by
  cases h with
  | done h => exact .refl r.link
  | failed h severity text => exact r.link.quiet_note severity text

end Handling

/-! ## A switch of the bench -/

/-- How a switch to a bench is carried out: the start fails, or the new bench cannot be shown, or it
is shown. -/
inductive Switching (r : Run Station β Unit) : Run Station β (Option Json) → Prop where
  | failed {f : Fault} (h : r.result = .error f) (hf : f.status = 500) :
      Switching r ⟨.error f, r.state, r.link⟩
  | blind {f : Fault} (h : r.result = .ok ()) (hs : r.state.scratch = .error f) :
      Switching r ⟨.error f, r.state, r.link⟩
  | shown {k : Tracker} (h : r.result = .ok ()) (hs : r.state.scratch = .ok k)
      {data? : Option Json} {s' : Station} {l' : Link β} : Switching r ⟨.ok data?, s', l'⟩

end Station

namespace Reachable

variable {c : Configuration} {s : Station} {β : Type} [Bus β]

theorem switching (h : Reachable c s) {name : String} {b : Bench} (hb : c.bench? name = some b)
    (now : Nat) (l : Link β) :
    Station.Switching (s.switchBench name l) (s.execute now l (.switchBench name)) := by
  have hn : (b.cards.map Card.name).Nodup :=
    ((Configuration.check_eq_ok.mp h.check).2.1 b (List.mem_of_find?_eq_some hb)).names
  have hi : Internal (s.switchBench name l).result := by
    rw [Station.switchBench, h.faithful.configuration, hb]
    exact Station.internal_start (s := .enter c b) hn _
  have hr : Reachable c (s.switchBench name l).state := h.perform l now (.switchBench name)
  rw [Station.execute]
  cases hres : (s.switchBench name l).result with
  | error f => exact .failed hres (hi f hres)
  | ok u =>
    have hv := hr.faithful.refreshing now (s.switchBench name l).link
    show Station.Switching _ (Station.sent Bench.codec.write (Station.view _ now _))
    rw [Station.view, Station.afterRefresh]
    generalize (s.switchBench name l).state.refresh now (s.switchBench name l).link = y at hv ⊢
    cases hv with
    | refused hs => exact .blind hres hs
    | current hs hl => exact .shown hres hs

theorem bench_switchBench (h : Reachable c s) {name : String} {b : Bench}
    (hb : c.bench? name = some b) (l : Link β) : (s.switchBench name l).state.bench = b := by
  rw [← h.faithful.configuration] at hb
  have hs := (s.stays_perform 0 l (.switchBench name)).bench
  rw [Station.ground_of_target (o := .switchBench name) hb] at hs
  exact hs

/-- A switch to a bench is answered with a fault of the caller if and only if it has ended well and
the new bench cannot be shown; and then nothing but notes has followed it. -/
theorem blames_of_switching (h : Reachable c s) {name : String} {b : Bench}
    (hb : c.bench? name = some b) (now : Nat) (l : Link β) {clock : Clock} {q : Request}
    {y : Run Station β (Option Json)} (hy : Station.Switching (s.switchBench name l) y)
    {x : Answer × Station × Link β} (hx : Station.Handling clock q y x) :
    let r := s.switchBench name l
    (x.1.Blames ↔ r.result = .ok () ∧ ∃ f, r.state.scratch = .error f) ∧
      (x.1.Blames → x.1.status.code = 404 ∧ r.state = x.2.1 ∧ r.link.Quiet x.2.2 ∧
        ∃ e ∈ b.categories, ∃ z ∈ e.pins, ∃ f, (c.rig b).pin z.1 z.2 = .error f) := by
  intro r
  cases hy with
  | failed hres hf =>
    have hno := hx.not_blames (internal_error hf)
    refine ⟨iff_of_false hno ?_, fun hblames => absurd hblames hno⟩
    rintro ⟨hok, -⟩
    cases hres.symm.trans hok
  | @blind f hres hs =>
    have hr : Reachable c r.state := h.perform l now (.switchBench name)
    obtain ⟨e, he, z, hz, hp⟩ := hr.exists_of_scratch hs
    rw [h.bench_switchBench hb l] at he hp
    have hf : f.status = 404 := Rig.status_of_pin hp
    have hblames : x.1.Blames := hx.blames_iff.mpr ⟨f, rfl, by rw [hf]; decide⟩
    refine ⟨iff_of_true hblames ⟨hres, f, hs⟩, fun _ => ?_⟩
    exact ⟨(hx.code_of_error rfl).trans hf, hx.state.symm, hx.link, e, he, z, hz, f, hp⟩
  | shown hres hs =>
    have hno := hx.not_blames (internal_ok _)
    refine ⟨iff_of_false hno ?_, fun hblames => absurd hblames hno⟩
    rintro ⟨-, f, hf⟩
    cases hs.symm.trans hf

/-- **An answer that lays the fault with the caller has done nothing**, commands and switches to a
bench apart.  After a switch there is such an answer if and only if the switch itself has ended well
and a category of the new bench looks at a card pin that is not there. -/
theorem blames_handle (h : Reachable c s) (clock : Clock) {q : Request}
    (hq : ∀ name force, q ≠ .sendCommand name force) (l : Link β) :
    let x := s.handle clock q l
    ((∀ name b, q = .switchBench name → c.bench? name ≠ some b) → x.1.Blames →
        s.Alike Tracker.Any x.2.1 ∧ l.Quiet x.2.2) ∧
      ∀ name b, q = .switchBench name → c.bench? name = some b →
        let r := s.switchBench name l
        (x.1.Blames ↔ r.result = .ok () ∧ ∃ f, r.state.scratch = .error f) ∧
          (x.1.Blames → x.1.status.code = 404 ∧ r.state = x.2.1 ∧ r.link.Quiet x.2.2 ∧
            ∃ e ∈ b.categories, ∃ y ∈ e.pins, ∃ f, (c.rig b).pin y.1 y.2 = .error f) := by
  intro x
  have hx : Station.Handling clock q (s.execute clock.now l q) x := s.handling_handle clock q l
  constructor
  · intro hb hblames
    obtain ⟨f, hr, hf⟩ := hx.blames_iff.mp hblames
    have hnone : ∀ name, q = .switchBench name → s.configuration.bench? name = none := by
      intro name hname
      rw [h.faithful.configuration, Option.eq_none_iff_forall_ne_some]
      exact fun b => hb name b hname
    obtain ⟨hs, hl⟩ := Station.execute_of_status hr hf h.names hq hnone
    rw [hx.state]
    exact ⟨hs, hl.trans hx.link⟩
  · rintro name b rfl hb
    exact h.blames_of_switching hb clock.now l (h.switching hb clock.now l) hx

end Reachable

namespace Station

/-- The bench of the lamp under another name, with a category that looks at a card which is not
there. -/
def astrayBench : Bench :=
  { lampBench with
    name := "b"
    categories := [⟨"light", [⟨"on", 1, [⟨["J9"], "A", true⟩]⟩], noCode, none⟩] }

def astrayConfiguration : Configuration :=
  { lampConfiguration with benches := [lampBench, astrayBench] }

/-- A card that is not there, and then a bench that is but cannot be shown. -/
theorem blames_handle_astray :
    let l := Link.ofBus SimulatedBus.empty
    let s := ((enter astrayConfiguration lampBench).perform 0 l .start).state
    let x := s.handle ⟨1, 0⟩ (.writeToCard "J9" "A" (.bool true)) l
    let y := s.handle ⟨2, 0⟩ (.switchBench "b") l
    Reachable astrayConfiguration s ∧ x.1.Blames ∧ s.Alike Tracker.Any x.2.1 ∧ l.Quiet x.2.2 ∧
      y.1.Blames ∧ y.1.status.code = 404 ∧ (s.switchBench "b" l).state = y.2.1 := by
  intro l s
  have h₀ : ofConfiguration astrayConfiguration none =
      .ok (enter astrayConfiguration lampBench) := rfl
  have h : Reachable astrayConfiguration s := (Reachable.new h₀).perform l 0 .start
  have hx : (s.handle ⟨1, 0⟩ (.writeToCard "J9" "A" (.bool true)) l).1.Blames := by decide +kernel
  have hy : (s.handle ⟨2, 0⟩ (.switchBench "b") l).1.Blames := by decide +kernel
  obtain ⟨hs, hl⟩ := (h.blames_handle ⟨1, 0⟩ (fun _ _ hq => by cases hq) l).1
    (fun _ _ hq => by cases hq) hx
  obtain ⟨hcode, hst, -⟩ := ((h.blames_handle ⟨2, 0⟩ (fun _ _ hq => by cases hq) l).2 "b"
    astrayBench rfl rfl).2 hy
  exact ⟨h, hx, hs, hl, hy, hcode, hst⟩

/-- A configuration that passes its check, and a start that ends well.  A switch is answered with a
fault of the caller, and yet the bench is another one, a write was tried and a start told of. -/
theorem switched_and_blamed :
    let s := enter astrayConfiguration lampBench
    let r := s.start (.ofBus SimulatedBus.empty)
    let x := r.state.handle ⟨1, 0⟩ (.switchBench "b") r.link
    ofConfiguration astrayConfiguration none = .ok s ∧ r.result = .ok () ∧
      x.1.status.code = 404 ∧ r.state.bench.name = "a" ∧ x.2.1.bench.name = "b" ∧
      r.link.journal.attempts = [(⟨0x20, 0x00, 0⟩, none)] ∧
      x.2.2.journal.attempts = [(⟨0x20, 0x00, 0⟩, none), (⟨0x20, 0x00, 0⟩, none)] ∧
      x.2.2.journal.events = [.started "a" 0, .started "b" 0] := by
  intro s
  have h₀ : ofConfiguration astrayConfiguration none = .ok s := rfl
  exact ⟨h₀, by decide +kernel, by decide +kernel, by decide +kernel, by decide +kernel,
    by decide +kernel, by decide +kernel, by decide +kernel⟩

end Station

end PinBench
