import PinBench.Bus.Simulated
import PinBench.Proofs.Command
import PinBench.Proofs.Configuration.Check
import PinBench.Proofs.Station.Operation
import PinBench.Proofs.Tracker

/-!
# What is read of the categories

The categories are evaluated now and then, and what was found is kept.  None of that can be told
from outside: whatever is read is what an evaluation of the active bench gives on the spot.

* `Station.scratch`: the categories of the active bench, evaluated on the present levels.
* `Station.Faithful`: what the tracker holds is stale, or it is just that.
* `Station.Faithful.perform`: **every operation keeps a station faithful**, whether it ends well or
  not.
* `RuleRead.answer`: what a question has for an answer, given evaluated categories.
* `Reachable.from_scratch`: **every read, and the gate before every command, is answered from an
  evaluation on the spot**.
-/

namespace PinBench

/-- The same link, perhaps with one more note. -/
def Link.Noted {β : Type} (l l' : Link β) : Prop :=
  l' = l ∨ ∃ severity text, l' = l.note severity text

namespace Station

/-- The categories of the active bench, evaluated on the present levels. -/
def scratch (s : Station) : Except Fault Tracker :=
  (Tracker.evaluate s.rig s.bench.categories).map .ofCategories

/-- The station is on a bench of the configuration, and its tracker is stale or tells the truth. -/
structure Faithful (c : Configuration) (s : Station) : Prop where
  configuration : s.configuration = c
  bench : s.bench ∈ c.benches
  commands : s.commands = s.bench.commands
  rules : s.tracker.categories.map Category.rules = s.bench.categories.map Category.rules
  current : s.tracker.refreshed? = none ∨
    Tracker.evaluate s.rig s.bench.categories = .ok s.tracker.categories

/-- A station of a configuration is a bench of it, entered, and the configuration passes its
check. -/
theorem entered {c : Configuration} {name? : Option String} {s : Station}
    (h : ofConfiguration c name? = .ok s) :
    c.check = .ok () ∧ ∃ b ∈ c.benches, s = enter c b := by
  obtain ⟨u, hu, h⟩ := ok_of_bind h
  obtain ⟨b, hb, h⟩ := ok_of_bind h
  cases h
  exact ⟨hu, b, List.mem_of_find?_eq_some (Configuration.bench_eq_ok.mp hb), rfl⟩

theorem faithful_enter {c : Configuration} {b : Bench} (hb : b ∈ c.benches) :
    (enter c b).Faithful c :=
  ⟨rfl, hb, rfl, rfl, .inl rfl⟩

namespace Faithful

variable {c : Configuration} {s : Station} {β : Type}

theorem touch (h : s.Faithful c) (t : Rig) : (s.touch t).Faithful c :=
  ⟨h.configuration, h.bench, h.commands, h.rules, .inl rfl⟩

/-! ## Refreshing -/

theorem evaluate_tracker (h : s.Faithful c) :
    Tracker.evaluate s.rig s.tracker.categories = Tracker.evaluate s.rig s.bench.categories :=
  Tracker.evaluate_of_rules h.rules s.rig

/-- What a refresh leaves of a faithful station: a fault and nothing else, or the categories as they
are now. -/
inductive Refreshing (s : Station) (l : Link β) : Run Station β Unit → Prop where
  | refused {f : Fault} (h : s.scratch = .error f) : Refreshing s l ⟨.error f, s, l⟩
  | current {k : Tracker} (h : s.scratch = .ok (.ofCategories k.categories)) {l' : Link β}
      (hl : l.Noted l') : Refreshing s l ⟨.ok (), { s with tracker := k }, l'⟩

theorem refreshing (h : s.Faithful c) (now : Nat) (l : Link β) :
    Refreshing s l (s.refresh now l) := by
  unfold refresh
  have hk := Tracker.refreshed_refreshing s.tracker s.rig now l
  generalize s.tracker.refreshed s.rig now l = r at hk ⊢
  cases hk with
  | refused hd he =>
    rw [h.evaluate_tracker] at he
    exact .refused (by rw [scratch, he]; rfl)
  | @evaluated cs hd he severity text =>
    rw [h.evaluate_tracker] at he
    exact .current (k := ⟨cs, some now⟩) (by rw [scratch, he]; rfl) (.inr ⟨severity, text, rfl⟩)
  | held hd =>
    -- a tracker that is not due is not stale
    have he := h.current.resolve_left (Tracker.refreshed?_ne_none hd)
    exact .current (k := s.tracker) (by rw [scratch, he]; rfl) (.inl rfl)

theorem of_scratch (h : s.Faithful c) {k : Tracker}
    (hk : s.scratch = .ok (.ofCategories k.categories)) :
    Faithful c { s with tracker := k } := by
  have he : Tracker.evaluate s.rig s.bench.categories = .ok k.categories := by
    unfold scratch at hk
    cases hcs : Tracker.evaluate s.rig s.bench.categories with
    | error f =>
      rw [hcs] at hk
      cases hk
    | ok cs =>
      rw [hcs] at hk
      have hc := congrArg Tracker.categories (Except.ok.inj hk)
      exact congrArg Except.ok hc
  exact ⟨h.configuration, h.bench, h.commands, Tracker.rules_of_evaluate he, .inr he⟩

theorem refresh (h : s.Faithful c) (now : Nat) (l : Link β) :
    (s.refresh now l).state.Faithful c := by
  have hr := h.refreshing now l
  generalize s.refresh now l = r at hr ⊢
  cases hr with
  | refused hs => exact h
  | current hs hl => exact h.of_scratch hs

theorem afterRefresh {α : Type} (f : Station → Except Fault α) (h : s.Faithful c) (now : Nat)
    (l : Link β) : (s.afterRefresh f now l).state.Faithful c :=
  h.refresh now l

theorem read (h : s.Faithful c) (now : Nat) (l : Link β) (q : RuleRead) :
    (s.read now l q).state.Faithful c := by
  cases q <;> exact h.refresh now l

/-! ## Every operation -/

theorem store (h : s.Faithful c) (r : Reading) (l : Link β) : (s.store r l).2.1.Faithful c := by
  rw [Station.store]
  split
  · exact ⟨h.configuration, h.bench, h.commands, h.rules, h.current⟩
  · exact h

variable [Bus β]

theorem write (h : s.Faithful c) (l : Link β) (q : PinCall) : (s.write l q).state.Faithful c := by
  rcases s.write_eq l q with ⟨-, hq⟩ | ⟨e, hq⟩
  · rw [hq]
    exact h
  · rw [hq]
    exact h.touch _

theorem writeCards (h : s.Faithful c) (l : Link β) (count : Nat)
    (xs : List (String × String × Bool)) : (s.writeCards l count xs).state.Faithful c := by
  induction xs generalizing s l count with
  | nil => exact h
  | cons x xs ih =>
    obtain ⟨card, label, level⟩ := x
    have hw := h.write l (.card card label level)
    change (s.writeCard card label level l).state.Faithful c at hw
    rw [Station.writeCards]
    cases (s.writeCard card label level l).result with
    | error f => exact hw
    | ok o => exact ih hw _ _

theorem dispatch (h : s.Faithful c) (d : Command) (force : Bool) (l : Link β) :
    (s.dispatch d force l).state.Faithful c := by
  have hw := h.writeCards l 0 d.writes
  rw [Station.dispatch]
  dsimp only
  cases (s.writeCards l 0 d.writes).result <;> exact hw

theorem sendCommand (h : s.Faithful c) (short : String) (force : Bool) (now : Nat) (l : Link β) :
    (s.sendCommand short force now l).state.Faithful c := by
  have hr := h.afterRefresh (fun s => Command.resolve s.tracker s.commands short force) now l
  rw [Station.sendCommand]
  cases (s.afterRefresh (fun s => Command.resolve s.tracker s.commands short force)
      now l).result with
  | error f => exact hr
  | ok d => exact hr.dispatch d force _

theorem broughtUp (h : s.Faithful c) (l : Link β) : (s.broughtUp l).state.Faithful c :=
  h.touch _

theorem start (h : s.Faithful c) (l : Link β) : (s.start l).state.Faithful c := by
  have hb := h.broughtUp l
  rw [Station.start]
  dsimp only
  cases (s.broughtUp l).result <;> exact hb

theorem update (h : s.Faithful c) (l : Link β) : (s.update l).state.Faithful c := by
  have hb := h.broughtUp l
  rw [Station.update]
  cases (s.broughtUp l).result <;> exact hb

theorem switchBench (h : s.Faithful c) (name : String) (l : Link β) :
    (s.switchBench name l).state.Faithful c := by
  rw [Station.switchBench]
  cases hb : s.configuration.bench? name with
  | none => exact h
  | some b =>
    rw [h.configuration] at hb ⊢
    exact (faithful_enter (List.mem_of_find?_eq_some hb)).start _

/-- **Every operation keeps a station faithful.** -/
theorem perform (h : s.Faithful c) (now : Nat) (l : Link β) (op : Operation) :
    (s.perform now l op).state.Faithful c := by
  cases op with
  | start => exact h.start l
  | update => exact h.update l
  | switchBench name => exact h.switchBench name l
  | write q => exact h.write l q
  | sendCommand short force => exact h.sendCommand short force now l
  | store r => exact h.store r l
  | read q => exact h.read now l q

end Faithful

end Station

theorem Reachable.faithful {c : Configuration} {s : Station} (h : Reachable c s) :
    s.Faithful c := by
  induction h with
  | new h =>
    obtain ⟨-, b, hb, rfl⟩ := Station.entered h
    exact Station.faithful_enter hb
  | perform h l now op ih => exact ih.perform now l op

/-! ## Answers -/

/-- The answer to a question on a bench, given its cards as they are and its categories
evaluated. -/
def RuleRead.answer (b : Bench) (cards : List Card) (k : Tracker) : RuleRead → Except Fault Value
  | .categories => .ok (.categories k.categories)
  | .category name => (k.category name).map .category
  | .code name => (k.code name).map .code
  | .availableCommands => (Command.allAvailable k b.commands).map .commands
  | .isAvailable short => ((Command.lookup b.commands short).bind (·.available k)).map .flag
  | .view => .ok (.bench ⟨b.name, cards, k.categories, b.commands, b.devices⟩)

namespace Station

theorem map_afterRefresh {β α γ : Type} (f : Station → Except Fault α) (v : α → γ) (s : Station)
    (now : Nat) (l : Link β) :
    (s.afterRefresh f now l).map v = s.afterRefresh (fun s => (f s).map v) now l := by
  unfold afterRefresh Run.map
  generalize s.refresh now l = r
  obtain ⟨res, s', l'⟩ := r
  cases res <;> rfl

/-- Whatever is read, on any link and at any time, is an answer from scratch; and a command is
dispatched or refused as the categories from scratch have it, with nothing done before but perhaps a
note. -/
structure FromScratch (c : Configuration) (s : Station) : Prop where
  bench : s.bench ∈ c.benches
  read : ∀ {β : Type} (l : Link β) (now : Nat) (q : RuleRead),
    (s.read now l q).result = s.scratch.bind (q.answer s.bench s.rig.cards)
  gate : ∀ {β : Type} [Bus β] (l : Link β) (now : Nat) (short : String) (force : Bool),
    ∃ (k : Tracker) (l' : Link β), l.Noted l' ∧ s.sendCommand short force now l =
      match s.scratch.bind (Command.resolve · s.bench.commands short force) with
      | .error f => ⟨.error f, { s with tracker := k }, l'⟩
      | .ok d => dispatch { s with tracker := k } d force l'

namespace Faithful

variable {c : Configuration} {s : Station} {β : Type}

theorem result_afterRefresh (h : s.Faithful c) {α : Type} {f : Station → Except Fault α}
    {g : Tracker → Except Fault α}
    (hf : ∀ k : Tracker, f { s with tracker := k } = g (.ofCategories k.categories)) (now : Nat)
    (l : Link β) : (s.afterRefresh f now l).result = s.scratch.bind g := by
  unfold Station.afterRefresh
  have hr := h.refreshing now l
  generalize s.refresh now l = r at hr ⊢
  cases hr with
  | refused hs =>
    rw [hs]
    rfl
  | @current k hs l' hl =>
    rw [hs]
    exact hf k

theorem result_map_afterRefresh (h : s.Faithful c) {α : Type} {f : Station → Except Fault α}
    {v : α → Value} {g : Tracker → Except Fault Value}
    (hf : ∀ k : Tracker, (f { s with tracker := k }).map v = g (.ofCategories k.categories))
    (now : Nat) (l : Link β) : ((s.afterRefresh f now l).map v).result = s.scratch.bind g := by
  rw [map_afterRefresh]
  exact h.result_afterRefresh hf now l

/-- The commands that may be dispatched are those of the bench that the categories allow. -/
theorem result_availableCommands (h : s.Faithful c) (now : Nat) (l : Link β) :
    (s.availableCommands now l).result =
      s.scratch.bind (Command.allAvailable · s.bench.commands) := by
  refine h.result_afterRefresh (fun k => ?_) now l
  show Command.allAvailable k s.commands = _
  rw [Command.allAvailable_alike k.alike_ofCategories, h.commands]

theorem result_isAvailable (h : s.Faithful c) (short : String) (now : Nat) (l : Link β) :
    (isAvailable short s now l).result =
      s.scratch.bind fun k => (Command.lookup s.bench.commands short).bind (·.available k) := by
  refine h.result_afterRefresh (fun k => ?_) now l
  show (Command.lookup s.commands short).bind (·.available k) = _
  simp only [Command.available_alike k.alike_ofCategories, h.commands]

theorem result_read (h : s.Faithful c) (now : Nat) (l : Link β) (q : RuleRead) :
    (s.read now l q).result = s.scratch.bind (q.answer s.bench s.rig.cards) := by
  have hc := h.commands
  cases q with
  | categories => exact h.result_map_afterRefresh (fun k => rfl) now l
  | category name => exact h.result_map_afterRefresh (fun k => rfl) now l
  | code name => exact h.result_map_afterRefresh (fun k => rfl) now l
  | availableCommands =>
    show (s.availableCommands now l).result.map Value.commands = _
    rw [h.result_availableCommands]
    cases s.scratch <;> rfl
  | isAvailable short =>
    show (isAvailable short s now l).result.map Value.flag = _
    rw [h.result_isAvailable]
    cases s.scratch <;> rfl
  | view =>
    refine h.result_map_afterRefresh ?_ now l
    intro k
    show Except.ok (Value.bench ⟨s.bench.name, s.rig.cards, k.categories, s.commands, _⟩) = _
    rw [hc]
    rfl

theorem sendCommand_eq (h : s.Faithful c) [Bus β] (l : Link β) (now : Nat) (short : String)
    (force : Bool) :
    ∃ (k : Tracker) (l' : Link β), l.Noted l' ∧ s.sendCommand short force now l =
      match s.scratch.bind (Command.resolve · s.bench.commands short force) with
      | .error f => ⟨.error f, { s with tracker := k }, l'⟩
      | .ok d => Station.dispatch { s with tracker := k } d force l' := by
  unfold Station.sendCommand Station.afterRefresh
  have hr := h.refreshing now l
  generalize s.refresh now l = r at hr ⊢
  cases hr with
  | refused hs =>
    rw [hs]
    exact ⟨s.tracker, l, .inl rfl, rfl⟩
  | @current k hs l' hl =>
    have hres : s.scratch.bind (Command.resolve · s.bench.commands short force) =
        Command.resolve k s.commands short force := by
      rw [hs, h.commands, Command.resolve_alike k.alike_ofCategories]
      rfl
    refine ⟨k, l', hl, ?_⟩
    rw [hres]
    show (match Command.resolve k s.commands short force with
      | .error f => (⟨.error f, { s with tracker := k }, l'⟩ : Run Station β Nat)
      | .ok d => Station.dispatch { s with tracker := k } d force l') = _
    rfl

end Faithful

end Station

/-- **Every read, and the gate before every command, is answered from an evaluation on the spot**,
after any operations, however the bus answers and whatever the clock shows. -/
theorem Reachable.from_scratch {c : Configuration} {s : Station} (h : Reachable c s) :
    s.FromScratch c where
  bench := h.faithful.bench
  read l now q := h.faithful.result_read now l q
  gate l now short force := h.faithful.sendCommand_eq l now short force

/-- A bench with one lamp, which may be lit while it is dark. -/
def lampBench : Bench :=
  ⟨"a", [⟨"J1", [⟨"A", ⟨1, 0⟩, none⟩]⟩],
    [⟨"light", [⟨"on", 1, [⟨["J1"], "A", true⟩]⟩, ⟨"off", 0, []⟩], noCode, none⟩],
    [⟨"light the lamp", "lit", [[⟨"light", 0⟩]], [⟨["J1"], "A", true⟩]⟩], []⟩

def lampConfiguration : Configuration :=
  ⟨"a", ⟨false, [⟨1, 0x20, .single⟩], [⟨[0], 0, 0x12, 0x00, 0⟩]⟩, [lampBench]⟩

/-- The lamp is dark, and is lit while the clock goes back: the write is lost on the bus, but the
light is on. -/
theorem from_scratch_lamp :
    let l := Link.ofBus (SimulatedBus.empty.setOffline 0x20 true)
    let dark := (Station.enter lampConfiguration lampBench).perform 5000 l (.read (.code "light"))
    let lit := dark.state.perform 4000 dark.link (.write (.card "J1" "A" true))
    Station.ofConfiguration lampConfiguration none =
        .ok (Station.enter lampConfiguration lampBench) ∧
      dark.result = .ok (.code 0) ∧
      lit.result =
        .error (.bus (RegisterWrite.failure ⟨0x20, 0x12, 1⟩ "device offline (simulated)")) ∧
      lit.state.FromScratch lampConfiguration ∧
      (lit.state.read 4000 lit.link (.code "light")).result = .ok (.code 1) := by
  intro l dark lit
  have h : Station.ofConfiguration lampConfiguration none =
      .ok (Station.enter lampConfiguration lampBench) := rfl
  have hscratch : lit.state.FromScratch lampConfiguration :=
    (((Reachable.new h).perform l 5000 _).perform dark.link 4000 _).from_scratch
  refine ⟨h, by decide +kernel, by decide +kernel, hscratch, ?_⟩
  rw [hscratch.read]
  decide +kernel

end PinBench
