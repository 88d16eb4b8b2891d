import PinBench.Proofs.BringUp
import PinBench.Proofs.PinWrite.Faults
import PinBench.Proofs.PinWrite.Spot
import PinBench.Proofs.Search
import PinBench.Proofs.Station.Dispatch

/-!
# The order of a bring-up

A bring-up has its writes laid out beforehand: all directions, and then one write for each card pin
whose bit is not at its level when its turn comes.  It makes them in this order, and ends with the
first that is lost on the bus, or at the first card pin that has no bit.

* `Rig.directionWrites`, `Rig.turns`, `Rig.levelWrites`: what there is to write.
* `Rig.BroughtUp`: what comes of it, as attempts and result.
* `Rig.broughtUp_bringUp`: **a bring-up makes these writes in order, up to the first that is lost**.
* `Station.Raised`: a run that brings the bench up and tells of it.
* `Station.raised_in_order`: **a start and an update do that too; they tell of it if it ends well,
  and leave the categories stale in any case**.
-/

namespace PinBench

/-! ## What there is to write -/

namespace Rig

/-- The directions of every group, expander by expander. -/
def directionWrites (t : Rig) : List RegisterWrite :=
  t.expanders.flatMap fun e =>
    t.groups.map fun g => ⟨e.address, g.directionAddress, g.direction⟩

/-- The bits of card pins with the levels they are to get, up to the first card pin without a bit.
Each is found as it is when its turn comes, with the bits before it at their levels. -/
def turns (t : Rig) : List (String × String × Bool) → List (Site × Bool)
  | [] => []
  | x :: xs =>
    match (PinCall.ofCard x).site t with
    | .error _ => []
    | .ok (w, s) => (s, x.2.2) :: (t.setBit (s.spot w.expander) x.2.2).turns xs

/-- One write for each bit that is not at its level. -/
def levelWrites (t : Rig) (xs : List (String × String × Bool)) : List RegisterWrite :=
  (t.turns xs).filterMap fun y => if y.1.level = y.2 then none else some (y.1.write y.2)

/-- What comes of writing `directions` and then `levels`, the writes for the card pins `xs`. -/
inductive BroughtUp (t : Rig) (directions levels : List RegisterWrite)
    (xs : List (String × String × Bool)) :
    List (RegisterWrite × Option String) → Except Fault Nat → Prop where
  /-- Every card pin has a bit, and every write gets through. -/
  | done (h : ∀ x ∈ xs, ∃ a, (PinCall.ofCard x).spot t = .ok a) :
      BroughtUp t directions levels xs ((directions ++ levels).map (·, none)) (.ok levels.length)
  /-- Every write gets through, and the first card pin without a bit tells why there is none. -/
  | stopped {f : Fault} (h : FirstFault (fun x f => (PinCall.ofCard x).spot t = .error f) xs f) :
      BroughtUp t directions levels xs ((directions ++ levels).map (·, none)) (.error f)
  /-- The last write that is tried is the only one that is lost. -/
  | lost {before after : List RegisterWrite} {w : RegisterWrite}
      (h : directions ++ levels = before ++ w :: after) (reason : String) :
      BroughtUp t directions levels xs (before.map (·, none) ++ [(w, some reason)])
        (.error (.bus (w.failure reason)))

end Rig

/-! ## Turns go by registers alone -/

namespace PinCall

theorem Means.of_shape {t t' : Rig} {q : PinCall} {w : Wiring} (h : q.Means t w)
    (hs : t'.shape = t.shape) : q.Means t' w := by
  cases h with
  | card hp =>
    obtain ⟨p', hp', hw⟩ := Rig.pin_of_shape hs hp
    rw [← hw]
    exact .card hp'
  | expander => exact .expander

/-- The levels of card pins do not matter to what a call finds. -/
theorem site_levelled (t : Rig) (q q' : PinCall) : q'.site (q.levelled t) = q'.site t := by
  have hs := shape_levelled t q
  cases h : q'.site t with
  | ok x =>
    obtain ⟨hw, hsite⟩ := site_eq_ok_iff.mp h
    exact site_eq_ok_iff.mpr ⟨hw.of_shape hs, (site?_levelled t q x.1).trans hsite⟩
  | error f =>
    have hspot := spot_eq_error_iff.mpr h
    rw [← spot_of_shape hs] at hspot
    exact spot_eq_error_iff.mp hspot

end PinCall

theorem Rig.turns_levelled (t : Rig) (q : PinCall) (xs : List (String × String × Bool)) :
    (q.levelled t).turns xs = t.turns xs := by
  induction xs generalizing t with
  | nil => rfl
  | cons x xs ih =>
    rw [turns, turns, PinCall.site_levelled]
    cases (PinCall.ofCard x).site t with
    | error f => rfl
    | ok y =>
      dsimp only
      rw [PinCall.levelled_setBit, ih]

/-! ## One turn -/

variable {β : Type} [Bus β]

/-- What a bring-up leaves of one card pin. -/
inductive LevelTurn (t : Rig) (l : Link β) (x : String × String × Bool) :
    Run Rig β Outcome → Prop where
  | refused {f : Fault} (h : (PinCall.ofCard x).site t = .error f) (t' : Rig) :
      LevelTurn t l x ⟨.error f, t', l⟩
  | idle {w : Wiring} {s : Site} (h : (PinCall.ofCard x).site t = .ok (w, s)) (hl : s.level = x.2.2)
      {t' : Rig} (ht : t'.turns = (t.setBit (s.spot w.expander) x.2.2).turns)
      (severity : Severity) (text : String) :
      LevelTurn t l x ⟨.ok .unchanged, t', l.note severity text⟩
  | moved {w : Wiring} {s : Site} (h : (PinCall.ofCard x).site t = .ok (w, s))
      (hl : s.level ≠ x.2.2) {t' : Rig}
      (ht : t'.turns = (t.setBit (s.spot w.expander) x.2.2).turns)
      (severity : Severity) (text : String) :
      LevelTurn t l x
        ⟨match Link.outcome l.bus (s.write x.2.2) with
          | .ok () => .ok (.written (s.write x.2.2))
          | .error f => .error (.bus f),
        t', (l.write (s.write x.2.2)).2.note severity text⟩

theorem levelTurn_giveLevel (t : Rig) (l : Link β) (x : String × String × Bool) :
    LevelTurn t l x (giveLevel t l x.1 x.2.1 x.2.2) := by
  obtain ⟨card, label, level⟩ := x
  let q := PinCall.card card label level
  unfold giveLevel
  cases hp : t.pin card label with
  | error f =>
    refine .refused ?_ t
    show q.site t = .error f
    rw [PinCall.site, hp]
    rfl
  | ok p =>
    have hr := q.run_ending (q.levelled t) l
    show LevelTurn t l (card, label, level) (q.run (q.levelled t) l)
    generalize q.run (q.levelled t) l = r at hr ⊢
    cases hr with
    | refused h =>
      rw [PinCall.site_levelled] at h
      exact .refused h _
    | @idle w s h hl severity text =>
      rw [PinCall.site_levelled] at h
      refine .idle h hl ?_ severity text
      have hlevel := Rig.levelAt?_spot (PinCall.site?_of_site h)
      have hstay : t.setBit (s.spot w.expander) level = t :=
        Rig.setBit_levelAt? (hlevel.trans (congrArg some hl))
      funext xs
      dsimp only
      rw [hstay, Rig.turns_levelled]
    | @moved w s h hl severity text =>
      have hafter := PinCall.change_eq_setBit h
      rw [PinCall.site_levelled] at h
      refine .moved h hl ?_ severity text
      rw [hafter, PinCall.levelled_setBit, PinCall.levelled_setBit]
      funext xs
      rw [Rig.turns_levelled, Rig.turns_levelled]
      rfl

/-! ## Turn by turn -/

namespace Rig

variable {t t' : Rig} {x : String × String × Bool} {xs : List (String × String × Bool)}

theorem levelWrites_of_error {f : Fault} (h : (PinCall.ofCard x).site t = .error f) :
    t.levelWrites (x :: xs) = [] := by
  rw [levelWrites, turns, h]
  rfl

theorem levelWrites_of_idle {w : Wiring} {s : Site} (h : (PinCall.ofCard x).site t = .ok (w, s))
    (hl : s.level = x.2.2) (ht : t'.turns = (t.setBit (s.spot w.expander) x.2.2).turns) :
    t.levelWrites (x :: xs) = t'.levelWrites xs := by
  rw [levelWrites, turns, h, levelWrites, ht]
  dsimp only
  rw [List.filterMap_cons_none]
  exact if_pos hl

theorem levelWrites_of_moved {w : Wiring} {s : Site} (h : (PinCall.ofCard x).site t = .ok (w, s))
    (hl : s.level ≠ x.2.2) (ht : t'.turns = (t.setBit (s.spot w.expander) x.2.2).turns) :
    t.levelWrites (x :: xs) = s.write x.2.2 :: t'.levelWrites xs := by
  rw [levelWrites, turns, h, levelWrites, ht]
  dsimp only
  rw [List.filterMap_cons_some]
  exact if_neg hl

/-- The card pin at the head has its bit, and the rig has changed in bytes and levels alone. -/
theorem BroughtUp.cons {w : Wiring} {s : Site} (h : (PinCall.ofCard x).site t = .ok (w, s))
    (hs : t'.shape = t.shape) {directions levels : List RegisterWrite}
    {as : List (RegisterWrite × Option String)} {r : Except Fault Nat}
    (g : t'.BroughtUp directions levels xs as r) :
    t.BroughtUp directions levels (x :: xs) as r := by
  have hx := PinCall.spot_of_site h
  cases g with
  | done g =>
    refine .done (List.forall_mem_cons.mpr ⟨⟨_, hx⟩, ?_⟩)
    intro y hy
    obtain ⟨a, ha⟩ := g y hy
    exact ⟨a, (PinCall.spot_of_shape hs _).symm.trans ha⟩
  | stopped g =>
    simp only [PinCall.spot_of_shape hs] at g
    refine .stopped (firstFault_cons.mpr (.inr ⟨?_, g⟩))
    intro f hf
    cases hx.symm.trans hf
  | lost g reason => exact .lost g reason

end Rig

/-- **Card pins are given their levels in order.**  The writes `directions` and `given` have got
through before. -/
theorem broughtUp_applyLevels {t : Rig} {l₀ l : Link β} {directions given : List RegisterWrite}
    (hl : l₀.Adds l ((directions ++ given).map (·, none)) [])
    (xs : List (String × String × Bool)) :
    ∃ as, l₀.Adds (applyLevels t l given.length xs).link as [] ∧
      t.BroughtUp directions (given ++ t.levelWrites xs) xs as
        (applyLevels t l given.length xs).result := by
  induction xs generalizing t l given with
  | nil =>
    refine ⟨_, hl, ?_⟩
    show t.BroughtUp directions (given ++ []) [] _ (.ok given.length)
    rw [List.append_nil]
    exact .done fun x hx => (List.not_mem_nil hx).elim
  | cons x xs ih =>
    have hshape := shape_giveLevel t l x.1 x.2.1 x.2.2
    have hturn := levelTurn_giveLevel t l x
    rw [applyLevels_cons]
    generalize giveLevel t l x.1 x.2.1 x.2.2 = r at hshape hturn ⊢
    cases hturn with
    | @refused f h t' =>
      refine ⟨_, hl, ?_⟩
      rw [Rig.levelWrites_of_error h, List.append_nil]
      exact .stopped (firstFault_cons.mpr (.inl (PinCall.spot_eq_error_iff.mpr h)))
    | @idle w s h hlevel t' ht severity text =>
      obtain ⟨as, ha, hb⟩ := ih (t := t') (hl.note severity text)
      refine ⟨as, ha, ?_⟩
      rw [Rig.levelWrites_of_idle h hlevel ht]
      exact hb.cons h hshape
    | @moved w s h hlevel t' ht severity text =>
      rw [Rig.levelWrites_of_moved h hlevel ht]
      cases ho : Link.outcome l.bus (s.write x.2.2) with
      | error f =>
        obtain ⟨reason, rfl, ha⟩ := hl.write_error ho
        exact ⟨_, ha.note severity text, .lost (List.append_assoc directions given _).symm reason⟩
      | ok u =>
        have ha := (hl.write_ok ho).note severity text
        have hgiven : (directions ++ given).map (·, none) ++ [(s.write x.2.2, none)] =
            (directions ++ (given ++ [s.write x.2.2])).map (·, (none : Option String)) := by simp
        rw [hgiven] at ha
        obtain ⟨as, ha, hb⟩ := ih (t := t') ha
        rw [List.length_append] at ha hb
        rw [List.append_cons]
        exact ⟨as, ha, hb.cons h hshape⟩

/-! ## Directions -/

/-- What comes of some writes in turn. -/
inductive Tried (l₀ : Link β) (ws : List RegisterWrite) : Except Fault Unit × Link β → Prop where
  | through {l : Link β} (h : l₀.Adds l (ws.map (·, none)) []) : Tried l₀ ws (.ok (), l)
  | lost {before after : List RegisterWrite} {w : RegisterWrite} (h : ws = before ++ w :: after)
      {reason : String} {l : Link β}
      (hl : l₀.Adds l (before.map (·, none) ++ [(w, some reason)]) []) :
      Tried l₀ ws (.error (.bus (w.failure reason)), l)

theorem tried_writeAll {l₀ l : Link β} {ws : List RegisterWrite}
    (hl : l₀.Adds l (ws.map (·, none)) []) (vs : List RegisterWrite) :
    Tried l₀ (ws ++ vs) (writeAll l vs) := by
  induction vs generalizing l ws with
  | nil =>
    rw [List.append_nil]
    exact .through hl
  | cons v vs ih =>
    rw [writeAll_cons]
    cases ho : Link.outcome l.bus v with
    | error f =>
      obtain ⟨reason, rfl, ha⟩ := hl.write_error ho
      exact .lost rfl ha
    | ok u =>
      have ha := hl.write_ok ho
      rw [List.append_cons]
      apply ih
      rw [List.map_append]
      exact ha

theorem tried_configureAll (groups : List PinGroup) {l₀ l : Link β} {ws : List RegisterWrite}
    (hl : l₀.Adds l (ws.map (·, none)) []) (es : List Expander) :
    Tried l₀ (ws ++ es.flatMap fun e => groups.map (·.directionWrite e))
      (configureAll groups l es) := by
  induction es generalizing l ws with
  | nil =>
    rw [List.flatMap_nil, List.append_nil]
    exact .through hl
  | cons e es ih =>
    have h := tried_writeAll hl (groups.map (·.directionWrite e))
    rw [configureAll, List.flatMap_cons, ← List.append_assoc]
    generalize writeAll l (groups.map (·.directionWrite e)) = y at h ⊢
    cases h with
    | lost h hl' =>
      rw [h, List.append_assoc, List.cons_append]
      exact .lost rfl hl'
    | through hl' => exact ih (hl'.note _ _)

/-! ## Bring-up -/

/-- **A bring-up makes its writes in order**, up to the first that is lost or the first card pin
without a bit, and tells of nothing. -/
theorem Rig.broughtUp_bringUp (t : Rig) (l : Link β) :
    ∃ as, l.Adds (bringUp t l).link as [] ∧
      t.BroughtUp t.directionWrites (t.levelWrites t.initialLevels) t.initialLevels as
        (bringUp t l).result := by
  have h : Tried l ([] ++ t.directionWrites) (configureAll t.groups l t.expanders) :=
    tried_configureAll t.groups (.refl l) t.expanders
  rw [bringUp, configureExpanders]
  generalize configureAll t.groups l t.expanders = y at h ⊢
  cases h with
  | lost h hl =>
    have hplan : t.directionWrites ++ t.levelWrites t.initialLevels = _ :=
      congrArg (· ++ t.levelWrites t.initialLevels) h
    rw [List.append_assoc, List.cons_append] at hplan
    exact ⟨_, hl, .lost hplan _⟩
  | @through l' hl =>
    rw [List.nil_append, ← List.append_nil t.directionWrites] at hl
    obtain ⟨as, ha, hb⟩ := broughtUp_applyLevels (t := t) hl t.initialLevels
    rw [List.nil_append, List.length_nil] at hb
    rw [List.length_nil] at ha
    show ∃ as, l.Adds (initialisePins t l').link as [] ∧
      t.BroughtUp _ _ _ as (initialisePins t l').result
    rw [initialisePins]
    generalize applyLevels t l' 0 t.initialLevels = r at ha hb ⊢
    obtain ⟨x, t', l''⟩ := r
    cases x with
    | error f => exact ⟨as, ha, hb⟩
    | ok count => exact ⟨as, ha.note _ _, hb⟩

/-- Two card pins of one bit, to be raised and lowered: each has its turn. -/
example :
    let t : Rig := ⟨[⟨1, 0x20, .single⟩], [⟨[0, 1], 0, 0x12, 0x00, 0⟩],
      [⟨"J1", [⟨"A", ⟨1, 0⟩, some true⟩, ⟨"B", ⟨1, 0⟩, some false⟩]⟩], false⟩
    t.levelWrites t.initialLevels = [⟨0x20, 0x12, 1⟩, ⟨0x20, 0x12, 0⟩] := by
  decide +kernel

namespace Station

/-- How a run `r` that brings the bench up and tells of it ends: `as` and `x` are the attempts and
the result of the bring-up. -/
structure Raised (s : Station) (l : Link β) (as : List (RegisterWrite × Option String))
    (x : Except Fault Nat) (event : Nat → Event) (r : Run Station β Unit) : Prop where
  result : r.result = x.map fun _ => ()
  adds : l.Adds r.link as (match x with
    | .ok writes => [event writes]
    | .error _ => [])
  stale : r.state.tracker = s.tracker.invalidate

variable {s : Station} {l : Link β} {as : List (RegisterWrite × Option String)}

theorem raised_start (h : l.Adds (bringUp s.rig l).link as []) :
    s.Raised l as (bringUp s.rig l).result (.started s.bench.name) (s.start l) := by
  rw [start, broughtUp]
  generalize bringUp s.rig l = r at h ⊢
  obtain ⟨x, t, l'⟩ := r
  cases x with
  | error f => exact ⟨rfl, h, rfl⟩
  | ok writes => exact ⟨rfl, (h.note _ _).tell _, rfl⟩

theorem raised_update (h : l.Adds (bringUp s.rig l).link as []) :
    s.Raised l as (bringUp s.rig l).result .refreshed (s.update l) := by
  rw [update, broughtUp]
  generalize bringUp s.rig l = r at h ⊢
  obtain ⟨x, t, l'⟩ := r
  cases x with
  | error f => exact ⟨rfl, h, rfl⟩
  | ok writes => exact ⟨rfl, h.tell _, rfl⟩

/-- **A bring-up makes its writes in order**, for any rig: all directions, and then one write for
each card pin whose bit is not at its level when its turn comes.  It ends with the first that is
lost, or at the first card pin without a bit, and counts the writes for the levels if it ends well.
A start and an update do the same; they tell of it, with the count, if it ends well, and leave the
categories stale in any case. -/
theorem raised_in_order (s : Station) (l : Link β) :
    ∃ as, l.Adds (bringUp s.rig l).link as [] ∧
      s.rig.BroughtUp s.rig.directionWrites (s.rig.levelWrites s.rig.initialLevels)
        s.rig.initialLevels as (bringUp s.rig l).result ∧
      s.Raised l as (bringUp s.rig l).result (.started s.bench.name) (s.start l) ∧
      s.Raised l as (bringUp s.rig l).result .refreshed (s.update l) := by
  obtain ⟨as, ha, hb⟩ := s.rig.broughtUp_bringUp l
  exact ⟨as, ha, hb, raised_start ha, raised_update ha⟩

/-- Two expanders, and card pins on both, of which one is raised.  A start goes well; an update ends
with the direction of the second expander, which does not answer. -/
theorem raised_in_order_twins :
    let b : Bench := ⟨"a", [⟨"J1", [⟨"A", ⟨2, 1⟩, some true⟩, ⟨"B", ⟨1, 0⟩, none⟩]⟩], [], [], []⟩
    let c : Configuration :=
      ⟨"a", ⟨false, [⟨1, 0x20, .single⟩, ⟨2, 0x21, .single⟩], [⟨[0, 1], 0, 0x12, 0x00, 0⟩]⟩, [b]⟩
    let s := enter c b
    let l := Link.ofBus SimulatedBus.empty
    let off := Link.ofBus (SimulatedBus.empty.setOffline 0x21 true)
    (s.start l).result = .ok () ∧
      (s.start l).link.journal.attempts =
        [(⟨0x20, 0x00, 0⟩, none), (⟨0x21, 0x00, 0⟩, none), (⟨0x21, 0x12, 2⟩, none)] ∧
      (s.start l).link.journal.events = [.started "a" 1] ∧
      (s.update off).result =
        .error (.bus (RegisterWrite.failure ⟨0x21, 0x00, 0⟩ "device offline (simulated)")) ∧
      (s.update off).link.journal.attempts =
        [(⟨0x20, 0x00, 0⟩, none), (⟨0x21, 0x00, 0⟩, some "device offline (simulated)")] ∧
      (s.update off).link.journal.events = [] := by
  intro b c s l off
  have hdirections : s.rig.directionWrites = [⟨0x20, 0x00, 0⟩, ⟨0x21, 0x00, 0⟩] := by
    decide +kernel
  have hlevels : s.rig.levelWrites s.rig.initialLevels = [⟨0x21, 0x12, 2⟩] := by
    decide +kernel
  obtain ⟨as, -, hdone, hstart, -⟩ := raised_in_order s l
  obtain ⟨_, -, -, -, hupdate⟩ := raised_in_order s off
  have hok : (bringUp s.rig l).result = .ok 1 := by decide +kernel
  have herror : (bringUp s.rig off).result =
      .error (.bus (RegisterWrite.failure ⟨0x21, 0x00, 0⟩ "device offline (simulated)")) := by
    decide +kernel
  rw [hdirections, hlevels, hok] at hdone
  rw [hok] at hstart
  rw [herror] at hupdate
  have hattempts : as = [(⟨0x20, 0x00, 0⟩, none), (⟨0x21, 0x00, 0⟩, none), (⟨0x21, 0x12, 2⟩, none)] := by
    cases hdone with
    | done => rfl
  rw [hattempts] at hstart
  exact ⟨hstart.result, hstart.adds.attempts, hstart.adds.events, hupdate.result,
    by decide +kernel, hupdate.adds.events⟩

end Station

end PinBench
