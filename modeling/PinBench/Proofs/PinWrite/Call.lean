import PinBench.PinWrite
import PinBench.Proofs.Fault
import PinBench.Proofs.Link
import PinBench.Proofs.Rig.Lookup
import PinBench.Proofs.Rig.Site

/-!
# Calls for a pin write

A pin is written through a card pin or through an expander pin.  Both ways first find the register
bit, and then end in one of three manners.

* `Fault.OfLookup`: a fault that tells of something missing.
* `PinCall`: a call for a pin write, and `PinCall.run`, the write.
* `PinCall.site`: the register bit of a call, or the fault that keeps it from being found.
* `PinCall.plan_eq`: **what is planned depends on that bit alone**.
* `PinCall.Ending`: the manners in which a write ends: refused, idle, or moved.
* `PinCall.run_ending`: **every write ends in one of them**.
* `PinCall.bit?_run`, `PinCall.bit?_run_of_ne`: **the bit of a call has the level then, and no other
  bit has moved**, if no two pins share one.
-/

namespace PinBench

theorem map_ite_none {α γ : Type} {c : Prop} [Decidable c] (f : α → γ) (a : α) :
    (if c then none else some a : Option α).map f = if c then none else some (f a) := by
  split <;> rfl

/-! ## Faults of a lookup -/

/-- The fault tells of something missing. -/
inductive Fault.OfLookup : Fault → Prop where
  | card (name : String) : OfLookup (.unknownCard name)
  | label (card label : String) : OfLookup (.unknownPin card label)
  | pin (pin : UInt8) (o : Origin) : OfLookup (.unmappedPin pin o)
  | expander (number : UInt8) (o : Origin) : OfLookup (.unknownExpander number o)

namespace Rig

variable {t : Rig} {o : Origin}

theorem ofLookup_pin {card label : String} (f : Fault) (h : t.pin card label = .error f) :
    f.OfLookup := by
  rcases error_of_pin h with rfl | rfl
  · exact .card card
  · exact .label card label

theorem ofLookup_expander {number : UInt8} (f : Fault) (h : t.expander number o = .error f) :
    f.OfLookup := by
  rw [error_of_expander h]
  exact .expander number o

theorem ofLookup_locate {pin : UInt8} (f : Fault) (h : t.locate pin o = .error f) :
    f.OfLookup := by
  rcases error_of_locate h with rfl | rfl
  · exact .pin pin o
  · exact .pin pin .configuration

end Rig

/-! ## Calls -/

/-- A pin write, through a card pin or through an expander pin. -/
inductive PinCall where
  | card (card label : String) (level : Bool)
  | expander (number pin : UInt8) (level : Bool)
  deriving DecidableEq

/-- A register of an expander as a site; an expander without it is a fault of the configuration. -/
def Expander.site (e : Expander) (number : UInt8) (place : BitPlace) : Except Fault Site :=
  match e.registers.get? place.register with
  | none => .error (.unknownExpander number .configuration)
  | some r => .ok ⟨e.address, place, r⟩

theorem Expander.error_of_site {e : Expander} {number : UInt8} {place : BitPlace} {f : Fault}
    (h : e.site number place = .error f) : f = .unknownExpander number .configuration := by
  unfold Expander.site at h
  split at h <;> cases h
  rfl

theorem Expander.ofLookup_site {e : Expander} {number : UInt8} {place : BitPlace} (f : Fault)
    (h : e.site number place = .error f) : f.OfLookup := by
  rw [error_of_site h]
  exact .expander number .configuration

theorem place_of_expanderSite {e : Expander} {number : UInt8} {place : BitPlace} {s : Site}
    (h : e.site number place = .ok s) : s.place = place := by
  unfold Expander.site at h
  split at h <;> cases h
  rfl

theorem site?_of_expander {t : Rig} {w : Wiring} {e : Expander} {place : BitPlace} {s : Site}
    {o o' : Origin} (he : t.expander w.expander o = .ok e) (hl : t.locate w.pin o' = .ok place)
    (hs : e.site w.expander place = .ok s) : t.site? w = some s := by
  unfold Expander.site at hs
  split at hs
  · cases hs
  · next r hr =>
    cases hs
    exact (Rig.site?_eq_some_iff o o').mpr ⟨e, he, hl, hr, rfl⟩

namespace PinCall

/-- The level that is asked for. -/
def level : PinCall → Bool
  | card _ _ level => level
  | expander _ _ level => level

def plan (t : Rig) : PinCall → Except Fault (Option Change)
  | card c label level => t.planCard? c label level
  | expander number pin level => t.planPin? ⟨number, pin⟩ level

/-- The expander pin that is meant and its register bit.  Through a card pin, what is missing is a
fault of the configuration, and the expander is looked for first. -/
def site (t : Rig) : PinCall → Except Fault (Wiring × Site)
  | card c label _ => do
    let p ← t.pin c label
    let e ← t.expander p.wiring.expander .configuration
    let place ← t.locate p.wiring.pin .configuration
    let s ← e.site p.wiring.expander place
    .ok (p.wiring, s)
  | expander number pin _ => do
    let place ← t.locate pin .caller
    let e ← t.expander number .caller
    let s ← e.site number place
    .ok (⟨number, pin⟩, s)

/-- The rig once the card pins that follow the call have their level: the one that is named, or all
that are wired to the expander pin. -/
def levelled (t : Rig) : PinCall → Rig
  | card c label level => t.setPin c label level
  | expander number pin level => t.setWired ⟨number, pin⟩ level

/-- The change of a call that finds its bit at the other level. -/
def change (t : Rig) (q : PinCall) (w : Wiring) (s : Site) : Change :=
  ⟨w, (q.levelled t).setRegister w.expander s.place.register (s.write q.level).value,
    s.write q.level⟩

/-! ## What is planned -/

theorem bitWrite?_eq {t : Rig} {w : Wiring} {o : Origin} {e : Expander}
    (h : t.expander w.expander o = .ok e) (place : BitPlace) (level : Bool) :
    t.bitWrite? w place level o = (e.site w.expander place).map fun s =>
      if s.level = level then none else some (s.write level) := by
  rw [Rig.bitWrite?, h, ok_bind, Expander.site]
  cases e.registers.get? place.register with
  | none => rfl
  | some r =>
    by_cases hl : place.bit.test r = level
    · exact (if_pos (holds_iff_test.mpr hl)).trans (congrArg Except.ok (if_pos hl).symm)
    · refine (if_neg fun hh => hl (holds_iff_test.mp hh)).trans ?_
      rw [moved_eq_write hl]
      exact congrArg Except.ok (if_neg hl).symm

/-- **What is planned depends on the bit alone**: nothing if it is at the level, else its change. -/
theorem plan_eq (t : Rig) (q : PinCall) :
    q.plan t = (q.site t).map fun x =>
      if x.2.level = q.level then none else some (q.change t x.1 x.2) := by
  cases q with
  | card c label level =>
    show t.planCard? c label level = _
    rw [Rig.planCard?, site]
    cases t.pin c label with
    | error f => rfl
    | ok p =>
      rw [ok_bind, ok_bind]
      cases he : t.expander p.wiring.expander .configuration with
      | error f => rfl
      | ok e =>
        rw [ok_bind, ok_bind]
        cases t.locate p.wiring.pin .configuration with
        | error f => rfl
        | ok place =>
          rw [ok_bind, ok_bind, bitWrite?_eq he]
          cases hs : e.site p.wiring.expander place with
          | error f => rfl
          | ok s =>
            rw [← place_of_expanderSite hs]
            exact congrArg Except.ok (map_ite_none _ _)
  | expander number pin level =>
    show t.planPin? ⟨number, pin⟩ level = _
    rw [Rig.planPin?, site]
    cases t.locate pin .caller with
    | error f => rfl
    | ok place =>
      rw [ok_bind, ok_bind]
      cases he : t.expander number .caller with
      | error f => rfl
      | ok e =>
        rw [ok_bind, ok_bind, bitWrite?_eq he]
        cases hs : e.site number place with
        | error f => rfl
        | ok s =>
          rw [← place_of_expanderSite hs]
          exact congrArg Except.ok (map_ite_none _ _)

section Plan

variable {t : Rig} {q : PinCall} {w : Wiring} {s : Site}

theorem plan_of_error {f : Fault} (h : q.site t = .error f) : q.plan t = .error f := by
  rw [plan_eq, h]
  rfl

theorem plan_of_level_eq (h : q.site t = .ok (w, s)) (hl : s.level = q.level) :
    q.plan t = .ok none := by
  rw [plan_eq, h]
  exact congrArg Except.ok (if_pos hl)

theorem plan_of_level_ne (h : q.site t = .ok (w, s)) (hl : s.level ≠ q.level) :
    q.plan t = .ok (some (q.change t w s)) := by
  rw [plan_eq, h]
  exact congrArg Except.ok (if_neg hl)

end Plan

/-! ## The site of a call -/

/-- A call that finds no bit tells what is missing. -/
theorem ofLookup_site (t : Rig) (q : PinCall) : ∀ f, q.site t = .error f → f.OfLookup := by
  have hok : ∀ (w : Wiring) (s : Site) (f : Fault), Except.ok (w, s) = .error f → f.OfLookup := by
    intro w s f h
    cases h
  cases q with
  | card c label level =>
    refine forall_error_bind Rig.ofLookup_pin ?_
    intro p
    refine forall_error_bind Rig.ofLookup_expander ?_
    intro e
    refine forall_error_bind Rig.ofLookup_locate ?_
    intro place
    exact forall_error_bind Expander.ofLookup_site fun s => hok _ s
  | expander number pin level =>
    refine forall_error_bind Rig.ofLookup_locate ?_
    intro place
    refine forall_error_bind Rig.ofLookup_expander ?_
    intro e
    exact forall_error_bind Expander.ofLookup_site fun s => hok _ s

/-- **A call that finds no bit is never refused because of the bus.** -/
theorem offBus_site (t : Rig) (q : PinCall) : OffBus (q.site t) := by
  intro f h
  cases ofLookup_site t q f h <;> rfl

/-- A site that is found is the register bit of the pin that is meant. -/
theorem site?_of_site {t : Rig} {q : PinCall} {w : Wiring} {s : Site}
    (h : q.site t = .ok (w, s)) : t.site? w = some s := by
  cases q with
  | card c label level =>
    obtain ⟨p, hp, h⟩ := ok_of_bind h
    obtain ⟨e, he, h⟩ := ok_of_bind h
    obtain ⟨place, hl, h⟩ := ok_of_bind h
    obtain ⟨s', hs, h⟩ := ok_of_bind h
    cases h
    exact site?_of_expander he hl hs
  | expander number pin level =>
    obtain ⟨place, hl, h⟩ := ok_of_bind h
    obtain ⟨e, he, h⟩ := ok_of_bind h
    obtain ⟨s', hs, h⟩ := ok_of_bind h
    cases h
    exact site?_of_expander (w := ⟨number, pin⟩) he hl hs

/-- A call through a card pin means the wiring of that pin. -/
theorem pin_of_site {t : Rig} {c label : String} {level : Bool} {w : Wiring} {s : Site}
    (h : (card c label level).site t = .ok (w, s)) : ∃ p, t.pin c label = .ok p ∧ p.wiring = w := by
  obtain ⟨p, hp, h⟩ := ok_of_bind h
  obtain ⟨e, -, h⟩ := ok_of_bind h
  obtain ⟨place, -, h⟩ := ok_of_bind h
  obtain ⟨s', -, h⟩ := ok_of_bind h
  cases h
  exact ⟨p, hp, rfl⟩

/-- A call through an expander pin means that pin. -/
theorem wiring_of_site {t : Rig} {number pin : UInt8} {level : Bool} {w : Wiring} {s : Site}
    (h : (expander number pin level).site t = .ok (w, s)) : w = ⟨number, pin⟩ := by
  obtain ⟨place, -, h⟩ := ok_of_bind h
  obtain ⟨e, -, h⟩ := ok_of_bind h
  obtain ⟨s', -, h⟩ := ok_of_bind h
  cases h
  rfl

/-! ## Writing -/

variable {β : Type} [Bus β]

def run (t : Rig) (l : Link β) : PinCall → Run Rig β Outcome
  | card c label level => writeCard t l c label level
  | expander number pin level => writePin t l number pin level

/-- What a write leaves. -/
inductive Ending (q : PinCall) (t : Rig) (l : Link β) : Run Rig β Outcome → Prop where
  /-- The bit is not found: nothing happens. -/
  | refused {f : Fault} (h : q.site t = .error f) : Ending q t l ⟨.error f, t, l⟩
  /-- The bit is at its level: nothing happens but a note. -/
  | idle {w : Wiring} {s : Site} (h : q.site t = .ok (w, s)) (hl : s.level = q.level)
      (severity : Severity) (text : String) :
      Ending q t l ⟨.ok .unchanged, t, l.note severity text⟩
  /-- The bit is at the other level: it changes, and the bus is asked once. -/
  | moved {w : Wiring} {s : Site} (h : q.site t = .ok (w, s)) (hl : s.level ≠ q.level)
      (severity : Severity) (text : String) :
      Ending q t l
        ⟨match Link.outcome l.bus (s.write q.level) with
          | .ok () => .ok (.written (s.write q.level))
          | .error f => .error (.bus f),
        (q.change t w s).after, (l.write (s.write q.level)).2.note severity text⟩

theorem commit_eq (c : Change) (l : Link β) :
    ∃ severity text, c.commit l =
      ⟨match Link.outcome l.bus c.write with
        | .ok () => .ok (.written c.write)
        | .error f => .error (.bus f),
      c.after, (l.write c.write).2.note severity text⟩ := by
  unfold Change.commit
  rw [← Link.write_result]
  rcases l.write c.write with ⟨r, l'⟩
  cases r with
  | ok u => exact ⟨_, _, rfl⟩
  | error f => exact ⟨_, _, rfl⟩

theorem carryOut_ending (t : Rig) (l : Link β) (q : PinCall) (what : String) :
    q.Ending t l (carryOut t l what q.level (q.plan t)) := by
  cases h : q.site t with
  | error f =>
    rw [plan_of_error h]
    exact .refused h
  | ok x =>
    obtain ⟨w, s⟩ := x
    by_cases hl : s.level = q.level
    · rw [plan_of_level_eq h hl]
      exact .idle h hl _ _
    · obtain ⟨severity, text, hc⟩ := commit_eq (q.change t w s) l
      rw [plan_of_level_ne h hl]
      show q.Ending t l ((q.change t w s).commit l)
      rw [hc]
      exact .moved h hl severity text

/-- **Every write ends refused, idle or moved.** -/
theorem run_ending (t : Rig) (l : Link β) (q : PinCall) : q.Ending t l (q.run t l) := by
  cases q with
  | card c label level => exact carryOut_ending t l (card c label level) _
  | expander number pin level => exact carryOut_ending t l (expander number pin level) _

@[simp] theorem shape_levelled (t : Rig) (q : PinCall) : (q.levelled t).shape = t.shape := by
  cases q with
  | card c label level => exact Rig.shape_setPin t c label level
  | expander number pin level => exact Rig.shape_setWired t ⟨number, pin⟩ level

theorem shape_change (t : Rig) (q : PinCall) (w : Wiring) (s : Site) :
    (q.change t w s).after.shape = t.shape := by
  rw [change, Rig.shape_setRegister, shape_levelled]

/-- **A write keeps the shape of the rig.** -/
theorem shape_run (t : Rig) (l : Link β) (q : PinCall) : (q.run t l).state.shape = t.shape := by
  have h := run_ending t l q
  generalize q.run t l = r at h ⊢
  cases h with
  | refused => rfl
  | idle => rfl
  | moved => exact shape_change t q _ _

/-! ## The bit of a call -/

/-- An expander pin with a bit is found by its call. -/
theorem site_of_site? {t : Rig} {number pin : UInt8} {s : Site}
    (h : t.site? ⟨number, pin⟩ = some s) (level : Bool) :
    (expander number pin level).site t = .ok (⟨number, pin⟩, s) := by
  obtain ⟨e, he, hl, hr, ha⟩ := (Rig.site?_eq_some_iff .caller .caller).mp h
  rw [site, hl, ok_bind, he, ok_bind, Expander.site, hr, ← ha]
  rfl

theorem site?_levelled (t : Rig) (q : PinCall) (v : Wiring) :
    (q.levelled t).site? v = t.site? v := by
  cases q <;> rfl

section Bit

variable {t : Rig} {q : PinCall} {w : Wiring} {s : Site} (h : q.site t = .ok (w, s)) (l : Link β)
include h

/-- **A call that finds its bit leaves it at its level**, whatever the bus makes of the write. -/
theorem bit?_run : (q.run t l).state.bit? w = some q.level := by
  have hs := site?_of_site h
  have hr := run_ending t l q
  generalize q.run t l = r at hr ⊢
  cases hr with
  | refused h' =>
    rw [h] at h'
    cases h'
  | idle h' hl severity text =>
    cases h.symm.trans h'
    show t.bit? w = some q.level
    rw [Rig.bit?, hs, Option.map_some, hl]
  | moved h' hl severity text =>
    cases h.symm.trans h'
    rw [← site?_levelled t q] at hs
    exact Rig.bit?_setRegister_self hs q.level

/-- **It leaves every other bit as it was**, if no two pins share a bit. -/
theorem bit?_run_of_ne (ht : t.Apart) {v : Wiring} (hv : v ≠ w) :
    (q.run t l).state.bit? v = t.bit? v := by
  have hs := site?_of_site h
  have hr := run_ending t l q
  generalize q.run t l = r at hr ⊢
  cases hr with
  | refused h' => rfl
  | idle h' hl severity text => rfl
  | moved h' hl severity text =>
    cases h.symm.trans h'
    have hq : (q.levelled t).Apart := by
      cases q <;> exact ht
    have hb : (q.levelled t).bit? v = t.bit? v :=
      congrArg (Option.map Site.level) (site?_levelled t q v)
    rw [← site?_levelled t q] at hs
    exact (hq.bit?_setRegister_of_ne hs hv q.level).trans hb

end Bit

end PinCall

end PinBench
