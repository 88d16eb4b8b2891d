import PinBench.Proofs.BringUp
import PinBench.Proofs.Bus.Alike
import PinBench.Proofs.Station.Operation

/-!
# Writes on buses that are alike

On buses that are alike, pin writes and bring-ups do the same to the same rig, and stations that
are alike stay so.

* `PinCall.alike_run`, `alike_bringUp`: **a pin write and a bring-up end alike**.
* `Station.Alike`: stations that differ by their trackers at most; `K` tells which trackers count as
  the same.
* `Station.Alike.write`, `Station.Alike.dispatch`, `Station.Alike.start` and so on: **whatever is
  written to stations that are alike ends alike**.
* `Station.Alike.same_write`: **on links that differ by notes, a pin write ends the same but for
  notes**.
-/

namespace PinBench

variable {R : String → String → Prop} {β δ : Type} [Bus β] [Bus δ] {l : Link β} {l' : Link δ}

/-! ## Pin writes -/

/-- **A pin write ends alike.** -/
theorem PinCall.alike_run (hl : l.Alike R l') (t : Rig) (q : PinCall) :
    (q.run t l).Alike R (· = ·) (q.run t l') := by
  have h := q.run_ending t l
  have h' := q.run_ending t l'
  generalize q.run t l = r at h ⊢
  generalize q.run t l' = r' at h' ⊢
  cases h with
  | refused hs =>
    cases h' with
    | refused hs' =>
      cases hs.symm.trans hs'
      exact .error (.same _) rfl hl
    | idle hs' => cases hs.symm.trans hs'
    | moved hs' => cases hs.symm.trans hs'
  | idle hs hq =>
    cases h' with
    | refused hs' => cases hs.symm.trans hs'
    | idle hs' => exact .ok _ rfl (hl.note ..)
    | moved hs' hq' =>
      cases hs.symm.trans hs'
      exact absurd hq hq'
  | @moved w s hs hq =>
    cases h' with
    | refused hs' => cases hs.symm.trans hs'
    | idle hs' hq' =>
      cases hs.symm.trans hs'
      exact absurd hq' hq
    | moved hs' =>
      cases hs.symm.trans hs'
      have hw := hl.write (s.write q.level)
      rcases hl.outcome (s.write q.level) with ⟨ho, ho'⟩ | ⟨reason, reason', hR, ho, ho'⟩
      · rw [ho, ho']
        exact .ok _ rfl (hw.note ..)
      · rw [ho, ho']
        exact .error (.bus _ hR) rfl (hw.note ..)

/-! ## Bring-up -/

theorem alike_writeAll (hl : l.Alike R l') (ws : List RegisterWrite) :
    ResultAlike R (writeAll l ws).1 (writeAll l' ws).1 ∧
      (writeAll l ws).2.Alike R (writeAll l' ws).2 := by
  induction ws generalizing l l' with
  | nil => exact ⟨.ok (), hl⟩
  | cons w ws ih =>
    have hw := hl.write w
    rw [writeAll_cons, writeAll_cons]
    rcases hl.outcome w with ⟨ho, ho'⟩ | ⟨reason, reason', hR, ho, ho'⟩
    · rw [ho, ho']
      exact ih hw
    · rw [ho, ho']
      exact ⟨.error (.bus w hR), hw⟩

theorem alike_configureAll (hl : l.Alike R l') (groups : List PinGroup) (es : List Expander) :
    ResultAlike R (configureAll groups l es).1 (configureAll groups l' es).1 ∧
      (configureAll groups l es).2.Alike R (configureAll groups l' es).2 := by
  induction es generalizing l l' with
  | nil => exact ⟨.ok (), hl⟩
  | cons e es ih =>
    obtain ⟨hr, hw⟩ := alike_writeAll hl (groups.map (·.directionWrite e))
    rw [configureAll, configureAll]
    generalize writeAll l (groups.map (·.directionWrite e)) = x,
      writeAll l' (groups.map (·.directionWrite e)) = y at hr hw ⊢
    obtain ⟨r, l₁⟩ := x
    obtain ⟨r', l₁'⟩ := y
    cases hr with
    | ok u => exact ih (hw.note ..)
    | error h => exact ⟨.error h, hw⟩

theorem alike_giveLevel (hl : l.Alike R l') (t : Rig) (card label : String) (level : Bool) :
    (giveLevel t l card label level).Alike R (· = ·) (giveLevel t l' card label level) := by
  unfold giveLevel
  cases t.pin card label with
  | error f => exact .error (.same f) rfl hl
  | ok p => exact PinCall.alike_run hl _ (.card card label level)

theorem alike_applyLevels (hl : l.Alike R l') (t : Rig) (count : Nat)
    (xs : List (String × String × Bool)) :
    (applyLevels t l count xs).Alike R (· = ·) (applyLevels t l' count xs) := by
  induction xs generalizing t l l' count with
  | nil => exact .ok count rfl hl
  | cons x xs ih =>
    obtain ⟨card, label, level⟩ := x
    have h := alike_giveLevel hl t card label level
    rw [applyLevels_cons, applyLevels_cons]
    generalize giveLevel t l card label level = r, giveLevel t l' card label level = r' at h ⊢
    cases h with
    | ok o ht hl =>
      subst ht
      exact ih hl _ _
    | error hf ht hl => exact .error hf ht hl

theorem alike_initialisePins (hl : l.Alike R l') (t : Rig) :
    (initialisePins t l).Alike R (· = ·) (initialisePins t l') := by
  have h := alike_applyLevels hl t 0 t.initialLevels
  rw [initialisePins, initialisePins]
  generalize applyLevels t l 0 t.initialLevels = r, applyLevels t l' 0 t.initialLevels = r' at h ⊢
  cases h with
  | ok count ht hl => exact .ok count ht (hl.note ..)
  | error hf ht hl => exact .error hf ht hl

/-- **A bring-up ends alike.** -/
theorem alike_bringUp (hl : l.Alike R l') (t : Rig) :
    (bringUp t l).Alike R (· = ·) (bringUp t l') := by
  obtain ⟨hr, hl⟩ := alike_configureAll hl t.groups t.expanders
  rw [bringUp, bringUp, configureExpanders, configureExpanders]
  generalize configureAll t.groups l t.expanders = x,
    configureAll t.groups l' t.expanders = y at hr hl ⊢
  obtain ⟨r, l₁⟩ := x
  obtain ⟨r', l₁'⟩ := y
  cases hr with
  | ok u => exact alike_initialisePins hl t
  | error h => exact .error h rfl hl

/-! ## Stations -/

/-- Stations that differ by their trackers at most. -/
structure Station.Alike (K : Tracker → Tracker → Prop) (s s' : Station) : Prop where
  configuration : s'.configuration = s.configuration
  bench : s'.bench = s.bench
  rig : s'.rig = s.rig
  commands : s'.commands = s.commands
  readings : s'.readings = s.readings
  tracker : K s.tracker s'.tracker

/-- Stations that do not even differ by their trackers are the same. -/
theorem Station.Alike.eq {s s' : Station} (h : s.Alike (· = ·) s') : s = s' := by
  obtain ⟨hc, hb, hr, hm, hd, hk⟩ := h
  cases s
  cases s'
  cases hc
  cases hb
  cases hr
  cases hm
  cases hd
  cases hk
  rfl

/-- So runs that leave such stations leave the same. -/
theorem Run.Alike.exact {α : Type} {r : Run Station β α} {r' : Run Station δ α}
    (h : r.Alike R (Station.Alike (· = ·)) r') : r.Alike R (· = ·) r' :=
  h.imp fun _ _ hs => hs.eq

/-- Trackers that count as the same still do when both have become stale. -/
structure Tracker.Lasting (K : Tracker → Tracker → Prop) : Prop where
  refl : ∀ k, K k k
  invalidate : ∀ {k k'}, K k k' → K k.invalidate k'.invalidate

theorem Tracker.lasting_eq : Tracker.Lasting (· = ·) :=
  ⟨fun _ => rfl, fun h => congrArg Tracker.invalidate h⟩

namespace Station

variable {K : Tracker → Tracker → Prop} (hK : Tracker.Lasting K) {s s' : Station}
include hK

theorem Alike.refl (s : Station) : s.Alike K s := ⟨rfl, rfl, rfl, rfl, rfl, hK.refl _⟩

omit hK in
theorem Alike.symm (hs : ∀ k k', K k k' → K k' k) (h : s.Alike K s') : s'.Alike K s :=
  ⟨h.configuration.symm, h.bench.symm, h.rig.symm, h.commands.symm, h.readings.symm,
    hs _ _ h.tracker⟩

theorem Alike.touch (h : s.Alike K s') (t : Rig) : (s.touch t).Alike K (s'.touch t) :=
  ⟨h.configuration, h.bench, rfl, h.commands, h.readings, hK.invalidate h.tracker⟩

omit hK in
theorem Alike.withRig (h : s.Alike K s') (t : Rig) :
    ({ s with rig := t } : Station).Alike K { s' with rig := t } :=
  ⟨h.configuration, h.bench, rfl, h.commands, h.readings, h.tracker⟩

namespace Alike

variable (h : s.Alike K s')
include h

theorem track {r : Run Rig β Outcome} {r' : Run Rig δ Outcome} (hr : r.Alike R (· = ·) r') :
    (s.track r).Alike R (Alike K) (s'.track r') := by
  cases hr with
  | @ok o t _ ht l l' hl =>
    subst ht
    cases o with
    | unchanged => exact .ok _ (h.withRig t) hl
    | written w => exact .ok _ (h.touch hK t) (hl.tell _)
  | @error f f' hf t _ ht l l' hl =>
    subst ht
    unfold Station.track
    dsimp only
    rw [hf.isBus]
    cases f.isBus with
    | true => exact .error hf (h.touch hK t) (hl.tell_alike (.fault hf))
    | false => exact .error hf (h.withRig t) hl

/-- **A pin write to stations that are alike ends alike.** -/
theorem write (hl : l.Alike R l') (q : PinCall) :
    (s.write l q).Alike R (Alike K) (s'.write l' q) := by
  rw [write_eq_track, write_eq_track, h.rig]
  exact h.track hK (PinCall.alike_run hl s.rig q)

theorem writeCards (hl : l.Alike R l') (count : Nat) (xs : List (String × String × Bool)) :
    (s.writeCards l count xs).Alike R (Alike K) (s'.writeCards l' count xs) := by
  induction xs generalizing s s' l l' count with
  | nil => exact .ok count h hl
  | cons x xs ih =>
    obtain ⟨card, label, level⟩ := x
    have hw := h.write hK hl (.card card label level)
    change Run.Alike R _ (s.writeCard card label level l) (s'.writeCard card label level l') at hw
    rw [Station.writeCards, Station.writeCards]
    generalize s.writeCard card label level l = r, s'.writeCard card label level l' = r' at hw ⊢
    cases hw with
    | ok o hs hl => exact ih hs hl _
    | error hf hs hl => exact .error hf hs hl

theorem dispatch (hl : l.Alike R l') (d : Command) (force : Bool) :
    (s.dispatch d force l).Alike R (Alike K) (s'.dispatch d force l') := by
  have hw := h.writeCards hK hl 0 d.writes
  rw [Station.dispatch, Station.dispatch]
  generalize s.writeCards l 0 d.writes = r, s'.writeCards l' 0 d.writes = r' at hw ⊢
  cases hw with
  | ok count hs hl => exact .ok count hs ((hl.note ..).tell _)
  | error hf hs hl => exact .error hf hs hl

theorem broughtUp (hl : l.Alike R l') : (s.broughtUp l).Alike R (Alike K) (s'.broughtUp l') := by
  have hb := alike_bringUp hl s.rig
  unfold Station.broughtUp
  rw [h.rig]
  generalize bringUp s.rig l = r, bringUp s.rig l' = r' at hb ⊢
  cases hb with
  | @ok n t _ ht l l' hl =>
    subst ht
    exact .ok n (h.touch hK t) hl
  | @error f f' hf t _ ht l l' hl =>
    subst ht
    exact .error hf (h.touch hK t) hl

theorem start (hl : l.Alike R l') : (s.start l).Alike R (Alike K) (s'.start l') := by
  have hb := h.broughtUp hK hl
  rw [Station.start, Station.start]
  generalize s.broughtUp l = r, s'.broughtUp l' = r' at hb ⊢
  cases hb with
  | ok n hs hl =>
    dsimp only
    rw [hs.bench]
    exact .ok () hs ((hl.note ..).tell _)
  | error hf hs hl => exact .error hf hs hl

theorem update (hl : l.Alike R l') : (s.update l).Alike R (Alike K) (s'.update l') := by
  have hb := h.broughtUp hK hl
  rw [Station.update, Station.update]
  generalize s.broughtUp l = r, s'.broughtUp l' = r' at hb ⊢
  cases hb with
  | ok n hs hl => exact .ok () hs (hl.tell _)
  | error hf hs hl => exact .error hf hs hl

theorem switchBench (hl : l.Alike R l') (name : String) :
    (s.switchBench name l).Alike R (Alike K) (s'.switchBench name l') := by
  rw [Station.switchBench, Station.switchBench, h.configuration]
  cases s.configuration.bench? name with
  | none => exact .error (.same _) h hl
  | some b => exact (Alike.refl hK (enter s.configuration b)).start hK (hl.note ..)

omit hK in
theorem store (hl : l.Alike R l') (r : Reading) :
    (s.store r l).1 = (s'.store r l').1 ∧ (s.store r l).2.1.Alike K (s'.store r l').2.1 ∧
      (s.store r l).2.2.Alike R (s'.store r l').2.2 := by
  unfold Station.store
  rw [h.bench]
  split
  · exact ⟨rfl, ⟨h.configuration, rfl, h.rig, h.commands, congrArg r.insert h.readings,
      h.tracker⟩, hl.tell _⟩
  · exact ⟨rfl, h, hl.note ..⟩

end Alike

end Station

/-! ## Links that differ by notes -/

section Quiet

variable {k k' : Link β} (hk : k.Quiet k')
include hk

theorem Change.same_commit (c : Change) : (c.commit k).Same (· = ·) (c.commit k') := by
  obtain ⟨severity, text, hc⟩ := PinCall.commit_eq c k
  obtain ⟨severity', text', hc'⟩ := PinCall.commit_eq c k'
  rw [hc, hc', hk.bus]
  exact ⟨rfl, rfl, (hk.write c.write).note ..⟩

theorem PinCall.same_run (t : Rig) (q : PinCall) : (q.run t k).Same (· = ·) (q.run t k') := by
  have h : ∀ (what : String) (level : Bool) (x : Except Fault (Option Change)),
      (carryOut t k what level x).Same (· = ·) (carryOut t k' what level x) := by
    intro what level x
    cases x with
    | error f => exact ⟨rfl, rfl, hk⟩
    | ok c? =>
      cases c? with
      | none => exact ⟨rfl, rfl, hk.note ..⟩
      | some c => exact Change.same_commit hk c
  cases q with
  | card card label level => exact h _ _ _
  | expander number pin level => exact h _ _ _

theorem Station.Alike.same_write {K : Tracker → Tracker → Prop} (hK : Tracker.Lasting K)
    {s s' : Station} (h : s.Alike K s') (q : PinCall) :
    (s.write k q).Same (Alike K) (s'.write k' q) := by
  have hr := PinCall.same_run hk s.rig q
  rw [write_eq_track, write_eq_track, h.rig]
  generalize q.run s.rig k = r, q.run s.rig k' = r' at hr ⊢
  obtain ⟨res, t, l₁⟩ := r
  obtain ⟨res', t', l₁'⟩ := r'
  obtain ⟨hres, ht, hl⟩ := hr
  obtain rfl : res' = res := hres
  obtain rfl : t = t' := ht
  unfold Station.track
  cases res' with
  | ok o =>
    cases o with
    | unchanged => exact ⟨rfl, h.withRig t, hl⟩
    | written w => exact ⟨rfl, h.touch hK t, hl.tell _⟩
  | error f =>
    dsimp only
    cases f.isBus with
    | true => exact ⟨rfl, h.touch hK t, hl.tell _⟩
    | false => exact ⟨rfl, h.withRig t, hl⟩

end Quiet

end PinBench
