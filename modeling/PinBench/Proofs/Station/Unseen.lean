import PinBench.Proofs.Station.Alike
import PinBench.Proofs.Station.Faithful
import PinBench.Station.Handle

/-!
# Looking is not seen

Whoever reads, or asks a request that only reads, moves nothing but the tracker, and what the
tracker holds cannot be told from outside.  So two runs of the same deeds on buses that are alike go
alike, whatever else has been read in each and whatever its clock has shown.

* `Station.Looked`: what a look may leave, and `Station.looked_read`, `Station.looked_handle`.
* `Act`, `Act.deed?`: what may be done in a run, and the operation if it is no look.
* `Unseen`: two stations, with their links, that cannot be told apart.
* `Unseen.look_left`, `Unseen.look_right`, `Unseen.perform`: **a look on either side, and the same
  deed on both, leaves them so**.
* `Station.unseen`: **two runs of the same deeds end alike**.
-/

namespace PinBench

/-! ## Looks -/

/-- Whether a request only reads. -/
def Request.reads : Request → Bool
  | writeToCard .. => false
  | writeToExpander .. => false
  | sendCommand .. => false
  | updateRegisters => false
  | switchBench _ => false
  | _ => true

theorem Link.Noted.quiet {β : Type} {l l' : Link β} (h : l.Noted l') : l.Quiet l' := by
  rcases h with rfl | ⟨severity, text, rfl⟩
  · exact .refl _
  · exact l.quiet_note severity text

namespace Station

variable {β : Type}

/-- What a look may leave: another tracker, which is as faithful, and notes. -/
structure Looked (s : Station) (l : Link β) (s' : Station) (l' : Link β) : Prop where
  station : s' = { s with tracker := s'.tracker }
  faithful : ∀ c, s.Faithful c → s'.Faithful c
  link : l.Quiet l'

theorem Looked.refl (s : Station) (l : Link β) : s.Looked l s l := ⟨rfl, fun _ h => h, .refl l⟩

theorem Looked.trans {s s₁ s₂ : Station} {l l₁ l₂ : Link β} (h : s.Looked l s₁ l₁)
    (g : s₁.Looked l₁ s₂ l₂) : s.Looked l s₂ l₂ := by
  refine ⟨?_, fun c hc => g.faithful c (h.faithful c hc), h.link.trans g.link⟩
  rw [g.station, h.station]

theorem Looked.note {s s' : Station} {l l' : Link β} (h : s.Looked l s' l') (severity : Severity)
    (text : String) : s.Looked l s' (l'.note severity text) :=
  ⟨h.station, h.faithful, h.link.trans (l'.quiet_note severity text)⟩

theorem looked_refresh (s : Station) (now : Nat) (l : Link β) :
    s.Looked l (s.refresh now l).state (s.refresh now l).link := by
  refine ⟨rfl, fun c h => h.refresh now l, ?_⟩
  have h := s.tracker.refreshed_refreshing s.rig now l
  unfold refresh
  generalize s.tracker.refreshed s.rig now l = r at h ⊢
  cases h with
  | refused hd h => exact .refl l
  | evaluated hd h severity text => exact l.quiet_note severity text
  | held hd => exact .refl l

theorem looked_read (s : Station) (now : Nat) (l : Link β) (q : RuleRead) :
    s.Looked l (s.read now l q).state (s.read now l q).link := by
  cases q <;> exact s.looked_refresh now l

variable [Bus β]

theorem looked_execute (s : Station) (now : Nat) (l : Link β) {q : Request} (hq : q.reads = true) :
    s.Looked l (s.execute now l q).state (s.execute now l q).link := by
  have hr := s.looked_refresh now l
  cases q with
  | allCategories => exact hr
  | category name => exact hr
  | availableCommands => exact hr
  | activeBench => exact hr
  | writeToCard card label level => cases hq
  | writeToExpander number pin level => cases hq
  | sendCommand name force => cases hq
  | updateRegisters => cases hq
  | switchBench name => cases hq
  | _ => exact .refl s l

/-- **A request that only reads is a look.** -/
theorem looked_handle (s : Station) (clock : Clock) {q : Request} (hq : q.reads = true)
    (l : Link β) : s.Looked l (s.handle clock q l).2.1 (s.handle clock q l).2.2 := by
  have h := s.looked_execute clock.now l hq
  unfold handle
  generalize s.execute clock.now l q = r at h ⊢
  obtain ⟨res, s', l'⟩ := r
  cases res with
  | ok data => exact h
  | error f => exact h.note ..

end Station

/-! ## Runs -/

/-- What may be done to a station in a run. -/
inductive Act where
  | perform (now : Nat) (op : Operation)
  | ask (clock : Clock) (q : Request) (h : q.reads = true)

namespace Act

/-- The operation of an act that is no look. -/
def deed? : Act → Option Operation
  | perform _ (.read _) => none
  | perform _ op => some op
  | ask .. => none

def take {β : Type} [Bus β] (s : Station) (l : Link β) : Act → Run Station β Value
  | perform now op => s.perform now l op
  | ask clock q _ => ⟨.ok .done, (s.handle clock q l).2.1, (s.handle clock q l).2.2⟩

theorem looked_of_no_deed {β : Type} [Bus β] {a : Act} (h : a.deed? = none) (s : Station)
    (l : Link β) : s.Looked l (a.take s l).state (a.take s l).link := by
  cases a with
  | perform now op =>
    cases op with
    | read q => exact s.looked_read now l q
    | _ => cases h
  | ask clock q hq => exact s.looked_handle clock hq l

theorem eq_perform_of_deed {a : Act} {op : Operation} (h : a.deed? = some op) :
    ∃ now, a = perform now op := by
  cases a with
  | perform now op' =>
    cases op' with
    | read q => cases h
    | _ =>
      cases h
      exact ⟨now, rfl⟩
  | ask clock q hq => cases h

end Act

/-- Acts in turn: the results of the deeds, and what is left in the end. -/
def Station.runAll {β : Type} [Bus β] (s : Station) (l : Link β) :
    List Act → List (Except Fault Value) × Station × Link β
  | [] => ([], s, l)
  | a :: as =>
    let r := a.take s l
    let rest := r.state.runAll r.link as
    match a.deed? with
    | none => rest
    | some _ => (r.result :: rest.1, rest.2)

section Runs

variable {β : Type} [Bus β]

theorem Station.runAll_cons_of_no_deed {a : Act} (h : a.deed? = none) (s : Station) (l : Link β)
    (as : List Act) :
    s.runAll l (a :: as) = (a.take s l).state.runAll (a.take s l).link as := by
  rw [runAll, h]

theorem Station.runAll_cons_of_deed {a : Act} {op : Operation} (h : a.deed? = some op) (s : Station)
    (l : Link β) (as : List Act) :
    s.runAll l (a :: as) =
      ((a.take s l).result :: ((a.take s l).state.runAll (a.take s l).link as).1,
        ((a.take s l).state.runAll (a.take s l).link as).2) := by
  rw [runAll, h]

/-- Looks at the beginning of a run. -/
theorem Station.looked_runAll_append {pre : List Act} (h : ∀ a ∈ pre, a.deed? = none) (s : Station)
    (l : Link β) :
    ∃ s' l', s.Looked l s' l' ∧ ∀ as, s.runAll l (pre ++ as) = s'.runAll l' as := by
  induction pre generalizing s l with
  | nil => exact ⟨s, l, .refl s l, fun as => rfl⟩
  | cons a pre ih =>
    have ha := h a List.mem_cons_self
    obtain ⟨s', l', hl, hr⟩ := ih (fun b hb => h b (List.mem_cons_of_mem a hb)) (a.take s l).state
      (a.take s l).link
    refine ⟨s', l', (Act.looked_of_no_deed ha s l).trans hl, fun as => ?_⟩
    rw [List.cons_append, runAll_cons_of_no_deed ha, hr]

end Runs

/-! ## Two runs -/

/-- Any two trackers count as the same. -/
def Tracker.Any (_ _ : Tracker) : Prop := True

theorem Tracker.lasting_any : Tracker.Lasting Tracker.Any := ⟨fun _ => trivial, fun _ => trivial⟩

theorem Station.Alike.withTrackers {K : Tracker → Tracker → Prop} {s s' : Station}
    (h : s.Alike K s') (k k' : Tracker) :
    ({ s with tracker := k } : Station).Alike Tracker.Any { s' with tracker := k' } :=
  ⟨h.configuration, h.bench, h.rig, h.commands, h.readings, trivial⟩

theorem Station.Looked.alike {β : Type} {s s' : Station} {l l' : Link β} (h : s.Looked l s' l') :
    s.Alike Tracker.Any s' := by
  rw [h.station]
  exact (Alike.refl Tracker.lasting_any s).withTrackers s.tracker s'.tracker

/-- Two stations that differ by their trackers at most, both faithful, on links that are alike. -/
structure Unseen (c : Configuration) (R : String → String → Prop) {β δ : Type} [Bus β] [Bus δ]
    (s : Station) (l : Link β) (s' : Station) (l' : Link δ) : Prop where
  left : s.Faithful c
  right : s'.Faithful c
  stations : s.Alike Tracker.Any s'
  links : l.Alike R l'

namespace Unseen

variable {c : Configuration} {R : String → String → Prop} {β δ : Type} [Bus β] [Bus δ]
  {s s' : Station} {l : Link β} {l' : Link δ}

theorem look_left (h : Unseen c R s l s' l') {s₁ : Station} {l₁ : Link β}
    (k : s.Looked l s₁ l₁) : Unseen c R s₁ l₁ s' l' := by
  refine ⟨k.faithful c h.left, h.right, ?_, h.links.quiet k.link (.refl l')⟩
  rw [k.station]
  exact h.stations.withTrackers s₁.tracker s'.tracker

theorem look_right (h : Unseen c R s l s' l') {s₁ : Station} {l₁ : Link δ}
    (k : s'.Looked l' s₁ l₁) : Unseen c R s l s₁ l₁ := by
  refine ⟨h.left, k.faithful c h.right, ?_, h.links.quiet (.refl l) k.link⟩
  rw [k.station]
  exact h.stations.withTrackers s.tracker s₁.tracker

/-- A command goes through the same gate, whatever the clocks show. -/
theorem sendCommand (h : Unseen c R s l s' l') (short : String) (force : Bool) (now now' : Nat) :
    (s.sendCommand short force now l).Alike R (Station.Alike Tracker.Any)
      (s'.sendCommand short force now' l') := by
  have hs := h.stations
  obtain ⟨k, l₁, hn, he⟩ := h.left.sendCommand_eq l now short force
  obtain ⟨k', l₁', hn', he'⟩ := h.right.sendCommand_eq l' now' short force
  have hst := hs.withTrackers k k'
  have hl := h.links.quiet hn.quiet hn'.quiet
  have hgate : s'.scratch.bind (Command.resolve · s'.bench.commands short force) =
      s.scratch.bind (Command.resolve · s.bench.commands short force) := by
    rw [Station.scratch, hs.rig, hs.bench, Station.scratch]
  rw [he, he', hgate]
  cases s.scratch.bind (Command.resolve · s.bench.commands short force) with
  | error f => exact .error (.same f) hst hl
  | ok d => exact hst.dispatch Tracker.lasting_any hl d force

/-- **The same deed ends alike**, whatever the clocks show. -/
theorem alike_perform (h : Unseen c R s l s' l') {op : Operation} (hop : ∀ q, op ≠ .read q)
    (now now' : Nat) :
    (s.perform now l op).Alike R (Station.Alike Tracker.Any) (s'.perform now' l' op) := by
  have hK := Tracker.lasting_any
  have hs := h.stations
  have hl := h.links
  cases op with
  | start => exact (hs.start hK hl).map _
  | update => exact (hs.update hK hl).map _
  | switchBench name => exact (hs.switchBench hK hl name).map _
  | write q => exact (hs.write hK hl q).map _
  | sendCommand short force => exact (h.sendCommand short force now now').map _
  | store r =>
    obtain ⟨hb, hst, hlk⟩ := hs.store hl r
    show Run.Alike R _ (⟨.ok (.flag (s.store r l).1), (s.store r l).2.1, (s.store r l).2.2⟩ :
      Run Station β Value) ⟨.ok (.flag (s'.store r l').1), (s'.store r l').2.1, (s'.store r l').2.2⟩
    rw [hb]
    exact .ok _ hst hlk
  | read q => exact absurd rfl (hop q)

/-- **And leaves both so.** -/
theorem perform (h : Unseen c R s l s' l') {op : Operation} (hop : ∀ q, op ≠ .read q)
    (now now' : Nat) :
    Unseen c R (s.perform now l op).state (s.perform now l op).link (s'.perform now' l' op).state
      (s'.perform now' l' op).link := by
  have hp := h.alike_perform hop now now'
  exact ⟨h.left.perform now l op, h.right.perform now' l' op, hp.state, hp.link⟩

/-- **Two runs of the same deeds end alike.** -/
theorem runAll (h : Unseen c R s l s' l') {as as' : List Act}
    (hd : as.filterMap Act.deed? = as'.filterMap Act.deed?) :
    List.Forall₂ (ResultAlike R) (s.runAll l as).1 (s'.runAll l' as').1 ∧
      Unseen c R (s.runAll l as).2.1 (s.runAll l as).2.2 (s'.runAll l' as').2.1
        (s'.runAll l' as').2.2 := by
  induction as generalizing s s' l l' as' with
  | nil =>
    -- nothing but looks in the second run
    have hn := List.filterMap_eq_nil_iff.mp hd.symm
    obtain ⟨s₁, l₁, hk, hr⟩ := s'.looked_runAll_append hn l'
    have hr := hr []
    rw [List.append_nil] at hr
    rw [hr]
    exact ⟨.nil, h.look_right hk⟩
  | cons a as ih =>
    cases ha : a.deed? with
    | none =>
      rw [List.filterMap_cons_none ha] at hd
      rw [Station.runAll_cons_of_no_deed ha]
      exact ih (h.look_left (Act.looked_of_no_deed ha s l)) hd
    | some op =>
      -- the second run does the same deed after some looks
      rw [List.filterMap_cons_some ha] at hd
      obtain ⟨pre, a', rest, rfl, hpre, ha', hrest⟩ := List.filterMap_eq_cons_iff.mp hd.symm
      obtain ⟨s₁, l₁, hk, hr⟩ := s'.looked_runAll_append hpre l'
      rw [hr, Station.runAll_cons_of_deed ha, Station.runAll_cons_of_deed ha']
      have h₁ := h.look_right hk
      have hop : ∀ q, op ≠ .read q := by
        rintro q rfl
        obtain ⟨now, rfl⟩ := Act.eq_perform_of_deed ha
        cases ha
      obtain ⟨now, rfl⟩ := Act.eq_perform_of_deed ha
      obtain ⟨now', rfl⟩ := Act.eq_perform_of_deed ha'
      obtain ⟨hres, hend⟩ := ih (h₁.perform hop now now') hrest.symm
      exact ⟨.cons (h₁.alike_perform hop now now').result hres, hend⟩

end Unseen

namespace Station

/-- **Two runs of the same deeds end alike**, on buses that refuse the same attempts, whatever is
read in each run and whatever its clock shows: results, attempts and events are the same up to the
reasons that the buses give, and the stations are the same up to their trackers. -/
theorem unseen {c : Configuration} {name? : Option String} {s : Station}
    (h : ofConfiguration c name? = .ok s) {R : String → String → Prop} {β δ : Type} [Bus β] [Bus δ]
    {b : β} {d : δ} (hb : Bus.Alike R b d) {as as' : List Act}
    (hd : as.filterMap Act.deed? = as'.filterMap Act.deed?) :
    let r := s.runAll (.ofBus b) as
    let r' := s.runAll (.ofBus d) as'
    List.Forall₂ (ResultAlike R) r.1 r'.1 ∧
      List.Forall₂ (Entry.Alike R) r.2.2.journal.deeds r'.2.2.journal.deeds ∧
      r.2.1.Alike Tracker.Any r'.2.1 ∧
      ((∀ x y, R x y → x = y) →
        r.1 = r'.1 ∧ r.2.2.journal.deeds = r'.2.2.journal.deeds) := by
  intro r r'
  have hf := (Reachable.new h).faithful
  have hu : Unseen c R s (.ofBus b) s (.ofBus d) :=
    ⟨hf, hf, .refl Tracker.lasting_any s, Link.alike_ofBus hb⟩
  obtain ⟨hres, hend⟩ := hu.runAll hd
  refine ⟨hres, hend.links.deeds, hend.stations, fun hR => ⟨?_, ?_⟩⟩
  · exact List.forall₂_eq_eq_eq ▸ hres.imp fun _ _ h => h.eq hR
  · exact List.forall₂_eq_eq_eq ▸ hend.links.deeds.imp fun _ _ h => h.eq hR

/-- A bus that refuses the fourth attempt, whatever has been written to it before. -/
def wornBus (log : List RegisterWrite) : InterruptedBus SimulatedBus :=
  ⟨⟨log, []⟩, 0, (· == 3), "no answer"⟩

/-- The lamp is lit, dark again and lit once more. -/
def blink : List Act :=
  [.perform 0 .start, .perform 1 (.sendCommand "lit" false),
    .perform 2 (.write (.card "J1" "A" false)), .perform 3 (.sendCommand "lit" false)]

/-- The same with looks at the lamp in between, by a clock that goes back. -/
def watchedBlink : List Act :=
  [.perform 9 .start, .perform 9 (.read .view), .perform 8 (.sendCommand "lit" false),
    .ask ⟨5000, 0⟩ (.category "light") rfl, .perform 7 (.write (.card "J1" "A" false)),
    .ask ⟨1, 0⟩ (.card "J2") rfl, .perform 0 (.sendCommand "lit" false)]

/-- The last deed is in vain, with and without the looks. -/
theorem unseen_lamp :
    let s := enter lampConfiguration lampBench
    let r := s.runAll (.ofBus (wornBus [])) blink
    let r' := s.runAll (.ofBus (wornBus [⟨0x20, 0x12, 5⟩])) watchedBlink
    r.1 = [.ok .done, .ok (.count 1), .ok (.outcome (.written ⟨0x20, 0x12, 0⟩)),
        .error (.bus ⟨0x20, 0x12, "no answer"⟩)] ∧
      r.1 = r'.1 ∧ r.2.2.journal.deeds = r'.2.2.journal.deeds ∧
      r.2.1.Alike Tracker.Any r'.2.1 := by
  have h : ofConfiguration lampConfiguration none = .ok (enter lampConfiguration lampBench) := rfl
  have hsim : Bus.Alike (· = ·) (⟨[], []⟩ : SimulatedBus)
      (⟨[⟨0x20, 0x12, 5⟩], []⟩ : SimulatedBus) :=
    SimulatedBus.alike (fun _ => rfl) rfl
  have hb : Bus.Alike (· = ·) (wornBus []) (wornBus [⟨0x20, 0x12, 5⟩]) :=
    InterruptedBus.alike hsim rfl 0 (· == 3)
  have hd : blink.filterMap Act.deed? = watchedBlink.filterMap Act.deed? := rfl
  obtain ⟨-, -, hs, he⟩ := unseen h hb hd
  obtain ⟨hres, hdeeds⟩ := he fun _ _ h => h
  exact ⟨rfl, hres, hdeeds, hs⟩

end Station

end PinBench
