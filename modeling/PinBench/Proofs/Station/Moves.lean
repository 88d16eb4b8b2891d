import PinBench.Proofs.BringUp
import PinBench.Proofs.Station.Operation
import PinBench.Proofs.Tracker

/-!
# Operations as moves

An operation moves the rig of the active bench, and a switch of the bench moves a new rig.

* `Operation.rig`, `Operation.ground`: the rig and the station that an operation starts from.
* `Station.WriteKept.perform`, `Station.Kept.perform`: **what pin writes and bring-ups keep, every
  operation keeps**, if trackers and readings have no part in it.
* `Station.stays_perform`, `Station.shape_perform`: **no operation but a switch leaves the bench, or
  changes the shape of the rig**.
* `Station.moves_perform`: **every operation is moves of that rig**, whether it ends well or not.
* `Station.levelled_perform`, `Station.smooth_perform`: **an operation that brings the bench up and
  ends well leaves every card pin with the level of its bit, and has lost no write**.
-/

namespace PinBench

namespace Operation

/-- The bench to which a switch turns, if there is one of the name. -/
def target? (s : Station) : Operation → Option Bench
  | switchBench name => s.configuration.bench? name
  | _ => none

theorem mem_of_target {s : Station} {op : Operation} {b : Bench} (h : op.target? s = some b) :
    b ∈ s.configuration.benches := by
  cases op with
  | switchBench name => exact List.mem_of_find?_eq_some h
  | start => cases h
  | update => cases h
  | write q => cases h
  | sendCommand short force => cases h
  | store r => cases h
  | read q => cases h

/-- The rig that an operation starts from: a switch starts from the file. -/
def rig (s : Station) (op : Operation) : Rig :=
  match op.target? s with
  | some b => s.configuration.rig b
  | none => s.rig

/-- The station that an operation starts from: a switch enters its bench. -/
def ground (s : Station) (op : Operation) : Station :=
  match op.target? s with
  | some b => .enter s.configuration b
  | none => s

/-- Whether an operation brings the bench up. -/
def bringsUp : Operation → Bool
  | start => true
  | update => true
  | switchBench _ => true
  | _ => false

end Operation

namespace Station

variable {s : Station}

theorem rig_of_no_target {o : Operation} (h : o.target? s = none) : o.rig s = s.rig := by
  unfold Operation.rig
  rw [h]

theorem rig_of_target {o : Operation} {b : Bench} (h : o.target? s = some b) :
    o.rig s = s.configuration.rig b := by
  unfold Operation.rig
  rw [h]

theorem ground_of_no_target {o : Operation} (h : o.target? s = none) : o.ground s = s := by
  unfold Operation.ground
  rw [h]

theorem ground_of_target {o : Operation} {b : Bench} (h : o.target? s = some b) :
    o.ground s = enter s.configuration b := by
  unfold Operation.ground
  rw [h]

theorem rig_ground (s : Station) (o : Operation) : (o.ground s).rig = o.rig s := by
  cases h : o.target? s with
  | none => rw [ground_of_no_target h, rig_of_no_target h]
  | some b =>
    rw [ground_of_target h, rig_of_target h]
    rfl

/-! ## What every operation keeps -/

variable {β : Type} [Bus β]

/-- What pin writes and bring-ups keep, and what does not depend on trackers. -/
structure WriteKept (β : Type) [Bus β] (P : Station → Prop) : Prop where
  write : ∀ {s} (l : Link β) (q : PinCall), P s → P (s.write l q).state
  broughtUp : ∀ {s} (l : Link β), P s → P (s.broughtUp l).state
  tracker : ∀ {s} (k : Tracker), P s → P { s with tracker := k }

namespace WriteKept

variable {P : Station → Prop} (hP : WriteKept β P)
include hP

theorem writeCards (h : P s) (l : Link β) (count : Nat) (xs : List (String × String × Bool)) :
    P (s.writeCards l count xs).state := by
  induction xs generalizing s l count with
  | nil => exact h
  | cons x xs ih =>
    obtain ⟨card, label, level⟩ := x
    have hw : P (s.writeCard card label level l).state := hP.write l (.card card label level) h
    rw [Station.writeCards]
    cases (s.writeCard card label level l).result with
    | error f => exact hw
    | ok o => exact ih hw _ _

theorem dispatch (h : P s) (d : Command) (force : Bool) (l : Link β) :
    P (s.dispatch d force l).state := by
  have hw := hP.writeCards h l 0 d.writes
  rw [Station.dispatch]
  dsimp only
  cases (s.writeCards l 0 d.writes).result <;> exact hw

theorem sendCommand (h : P s) (short : String) (force : Bool) (now : Nat) (l : Link β) :
    P (s.sendCommand short force now l).state := by
  have hr : P (s.refresh now l).state := hP.tracker _ h
  rw [Station.sendCommand]
  cases (s.afterRefresh (fun s => Command.resolve s.tracker s.commands short force)
      now l).result with
  | error f => exact hr
  | ok d => exact hP.dispatch hr d force _

theorem start (h : P s) (l : Link β) : P (s.start l).state := by
  have hb := hP.broughtUp l h
  rw [Station.start]
  dsimp only
  cases (s.broughtUp l).result <;> exact hb

theorem update (h : P s) (l : Link β) : P (s.update l).state := by
  have hb := hP.broughtUp l h
  rw [Station.update]
  cases (s.broughtUp l).result <;> exact hb

theorem switchBench {name : String} (h : P ((Operation.switchBench name).ground s)) (l : Link β) :
    P (s.switchBench name l).state := by
  rw [Station.switchBench]
  cases hb : s.configuration.bench? name with
  | none =>
    rw [ground_of_no_target (o := .switchBench name) hb] at h
    exact h
  | some b =>
    rw [ground_of_target (o := .switchBench name) hb] at h
    exact hP.start h _

/-- **Every operation but the storing of a reading keeps it**, a switch from the bench that it
enters. -/
theorem perform {op : Operation} (h : P (op.ground s)) (hop : ∀ r, op ≠ .store r) (now : Nat)
    (l : Link β) : P (s.perform now l op).state := by
  cases op with
  | start => exact hP.start h l
  | update => exact hP.update h l
  | switchBench name => exact hP.switchBench h l
  | write q => exact hP.write l q h
  | sendCommand short force => exact hP.sendCommand h short force now l
  | store r => exact absurd rfl (hop r)
  | read q => cases q <;> exact hP.tracker _ h

end WriteKept

/-- What pin writes and bring-ups keep, and what depends on neither trackers nor readings. -/
structure Kept (β : Type) [Bus β] (P : Station → Prop) : Prop extends WriteKept β P where
  readings : ∀ {s} (rs : List Reading), P s → P { s with readings := rs }

/-- **Every operation keeps it**, a switch from the bench that it enters. -/
theorem Kept.perform {P : Station → Prop} (hP : Kept β P) {op : Operation} (h : P (op.ground s))
    (now : Nat) (l : Link β) : P (s.perform now l op).state := by
  by_cases hop : ∃ r, op = .store r
  · obtain ⟨r, rfl⟩ := hop
    show P (s.store r l).2.1
    unfold store
    split
    · exact hP.readings _ h
    · exact h
  · exact hP.toWriteKept.perform h (fun r hr => hop ⟨r, hr⟩) now l

/-- The second station is on the bench of the first, whatever has become of its rig. -/
structure Stays (s s' : Station) : Prop where
  configuration : s'.configuration = s.configuration
  bench : s'.bench = s.bench
  commands : s'.commands = s.commands

theorem kept_stays (s : Station) : Kept β (s.Stays ·) where
  write l q h := by
    rcases write_eq _ l q with ⟨-, hq⟩ | ⟨e, hq⟩
    · rw [hq]
      exact h
    · rw [hq]
      exact ⟨h.configuration, h.bench, h.commands⟩
  broughtUp l h := ⟨h.configuration, h.bench, h.commands⟩
  tracker k h := ⟨h.configuration, h.bench, h.commands⟩
  readings rs h := ⟨h.configuration, h.bench, h.commands⟩

theorem stays_start (s : Station) (l : Link β) : s.Stays (s.start l).state :=
  (kept_stays s).start ⟨rfl, rfl, rfl⟩ l

/-- **Every operation stays on the bench**, a switch on the one that it enters. -/
theorem stays_perform (s : Station) (now : Nat) (l : Link β) (op : Operation) :
    (op.ground s).Stays (s.perform now l op).state :=
  (kept_stays (op.ground s)).perform ⟨rfl, rfl, rfl⟩ now l

theorem kept_shape (t : Rig) : Kept β fun s => s.rig.shape = t.shape where
  write l q h := by
    rw [rig_write, q.shape_run]
    exact h
  broughtUp l h := (shape_bringUp _ l).trans h
  tracker k h := h
  readings rs h := h

/-- **Every operation keeps the shape of the rig that it starts from.** -/
theorem shape_perform (s : Station) (now : Nat) (l : Link β) (op : Operation) :
    (s.perform now l op).state.rig.shape = (op.rig s).shape :=
  (kept_shape (op.rig s)).perform (congrArg Rig.shape (s.rig_ground op)) now l

/-! ## Operations that look -/

theorem moves_refresh (s : Station) (now : Nat) (l : Link β) :
    Moves s.rig l (s.refresh now l).state.rig (s.refresh now l).link := by
  have h := s.tracker.refreshed_refreshing s.rig now l
  unfold refresh
  generalize s.tracker.refreshed s.rig now l = r at h ⊢
  cases h with
  | refused hd h => exact .refl s.rig l
  | evaluated hd h severity text => exact .single (.note severity text)
  | held hd => exact .refl s.rig l

theorem moves_read (s : Station) (now : Nat) (l : Link β) (q : RuleRead) :
    Moves s.rig l (s.read now l q).state.rig (s.read now l q).link := by
  cases q <;> exact s.moves_refresh now l

theorem moves_store (s : Station) (r : Reading) (l : Link β) :
    Moves s.rig l (s.store r l).2.1.rig (s.store r l).2.2 := by
  unfold store
  split
  · exact .single (.tell _)
  · exact .single (.note _ _)

/-! ## Pin writes and commands -/

theorem moves_write (ht : s.rig.WellFormed) (l : Link β) (q : PinCall) :
    Moves s.rig l (s.write l q).state.rig (s.write l q).link := by
  have hm := q.moves_run ht l
  rcases s.write_eq l q with ⟨hr, hq⟩ | ⟨e, hq⟩
  · rw [hq]
    rw [hr] at hm
    exact hm
  · rw [hq]
    exact hm.tail (.tell e)

theorem moves_writeCards (ht : s.rig.WellFormed) (l : Link β) (count : Nat)
    (xs : List (String × String × Bool)) :
    Moves s.rig l (s.writeCards l count xs).state.rig (s.writeCards l count xs).link := by
  induction xs generalizing s l count with
  | nil => exact .refl s.rig l
  | cons x xs ih =>
    obtain ⟨card, label, level⟩ := x
    have hm := moves_write ht l (.card card label level)
    change Moves s.rig l (s.writeCard card label level l).state.rig
      (s.writeCard card label level l).link at hm
    rw [writeCards]
    cases (s.writeCard card label level l).result with
    | error f => exact hm
    | ok o => exact hm.trans (ih (ht.of_shape hm.shape) _ _)

theorem moves_dispatch (ht : s.rig.WellFormed) (d : Command) (force : Bool) (l : Link β) :
    Moves s.rig l (s.dispatch d force l).state.rig (s.dispatch d force l).link := by
  have hm := moves_writeCards ht l 0 d.writes
  rw [dispatch]
  cases (s.writeCards l 0 d.writes).result with
  | error f => exact hm
  | ok count => exact (hm.tail (.note _ _)).tail (.tell _)

theorem moves_sendCommand (ht : s.rig.WellFormed) (short : String) (force : Bool) (now : Nat)
    (l : Link β) :
    Moves s.rig l (s.sendCommand short force now l).state.rig
      (s.sendCommand short force now l).link := by
  have hm : Moves s.rig l
      (s.afterRefresh (fun s => Command.resolve s.tracker s.commands short force) now l).state.rig
      (s.afterRefresh (fun s => Command.resolve s.tracker s.commands short force) now l).link :=
    s.moves_refresh now l
  rw [sendCommand]
  cases (s.afterRefresh (fun s => Command.resolve s.tracker s.commands short force)
      now l).result with
  | error f => exact hm
  | ok d => exact hm.trans (moves_dispatch (ht.of_shape hm.shape) d force _)

/-! ## Bring-up -/

theorem moves_start (ht : s.rig.WellFormed) (l : Link β) :
    Moves s.rig l (s.start l).state.rig (s.start l).link := by
  have hm : Moves s.rig l (s.broughtUp l).state.rig (s.broughtUp l).link := moves_bringUp ht l
  rw [start]
  cases (s.broughtUp l).result with
  | error f => exact hm
  | ok n => exact (hm.tail (.note _ _)).tail (.tell _)

theorem moves_update (ht : s.rig.WellFormed) (l : Link β) :
    Moves s.rig l (s.update l).state.rig (s.update l).link := by
  have hm : Moves s.rig l (s.broughtUp l).state.rig (s.broughtUp l).link := moves_bringUp ht l
  rw [update]
  cases (s.broughtUp l).result with
  | error f => exact hm
  | ok n => exact hm.tail (.tell _)

/-- **Every operation is moves of the rig that it starts from.** -/
theorem moves_perform {op : Operation} (ht : (op.rig s).WellFormed) (now : Nat) (l : Link β) :
    Moves (op.rig s) l (s.perform now l op).state.rig (s.perform now l op).link := by
  cases op with
  | start => exact moves_start ht l
  | update => exact moves_update ht l
  | switchBench name =>
    show Moves _ l (s.switchBench name l).state.rig (s.switchBench name l).link
    rw [switchBench]
    cases hb : s.configuration.bench? name with
    | none =>
      rw [rig_of_no_target (o := .switchBench name) hb]
      exact .refl s.rig l
    | some b =>
      rw [rig_of_target (o := .switchBench name) hb] at ht ⊢
      exact (Moves.single (.note _ _)).trans (moves_start (s := enter s.configuration b) ht _)
  | write q => exact moves_write ht l q
  | sendCommand short force => exact moves_sendCommand ht short force now l
  | store r => exact s.moves_store r l
  | read q => exact s.moves_read now l q

/-! ## Bring-up that ends well -/

theorem bringUp_of_start {l : Link β} {u : Unit} (h : (s.start l).result = .ok u) :
    ∃ n, (bringUp s.rig l).result = .ok n ∧ (s.start l).state.rig = (bringUp s.rig l).state ∧
      ((bringUp s.rig l).link.Smooth → (s.start l).link.Smooth) := by
  have hb : (s.broughtUp l).result = (bringUp s.rig l).result := rfl
  rw [start] at h ⊢
  rw [hb] at h ⊢
  cases hr : (bringUp s.rig l).result with
  | error f =>
    rw [hr] at h
    cases h
  | ok n => exact ⟨n, rfl, rfl, fun hs => (hs.note _ _).tell _⟩

theorem bringUp_of_update {l : Link β} {u : Unit} (h : (s.update l).result = .ok u) :
    ∃ n, (bringUp s.rig l).result = .ok n ∧ (s.update l).state.rig = (bringUp s.rig l).state ∧
      ((bringUp s.rig l).link.Smooth → (s.update l).link.Smooth) := by
  have hb : (s.broughtUp l).result = (bringUp s.rig l).result := rfl
  rw [update] at h ⊢
  rw [hb] at h ⊢
  cases hr : (bringUp s.rig l).result with
  | error f =>
    rw [hr] at h
    cases h
  | ok n => exact ⟨n, rfl, rfl, fun hs => hs.tell _⟩

/-- An operation that brings the bench up and ends well has brought up the rig that it started
from. -/
theorem bringUp_of_perform {op : Operation} (hop : op.bringsUp) {now : Nat} {l : Link β} {v : Value}
    (h : (s.perform now l op).result = .ok v) :
    ∃ (l₀ : Link β) (n : Nat), (l.Smooth → l₀.Smooth) ∧ (bringUp (op.rig s) l₀).result = .ok n ∧
      (s.perform now l op).state.rig = (bringUp (op.rig s) l₀).state ∧
      ((bringUp (op.rig s) l₀).link.Smooth → (s.perform now l op).link.Smooth) := by
  have hmap : ∀ {α : Type} {x : Except Fault α} {f : α → Value}, x.map f = .ok v →
      ∃ a, x = .ok a := by
    intro α x f hx
    cases x with
    | error e => cases hx
    | ok a => exact ⟨a, rfl⟩
  cases op with
  | start =>
    obtain ⟨u, hu⟩ := hmap h
    obtain ⟨n, hn, hs, hl⟩ := bringUp_of_start hu
    exact ⟨l, n, id, hn, hs, hl⟩
  | update =>
    obtain ⟨u, hu⟩ := hmap h
    obtain ⟨n, hn, hs, hl⟩ := bringUp_of_update hu
    exact ⟨l, n, id, hn, hs, hl⟩
  | switchBench name =>
    obtain ⟨u, hu⟩ := hmap h
    show ∃ (l₀ : Link β) (n : Nat), _ ∧ _ ∧ (s.switchBench name l).state.rig = _ ∧
      (_ → (s.switchBench name l).link.Smooth)
    rw [switchBench] at hu ⊢
    cases hb : s.configuration.bench? name with
    | none =>
      rw [hb] at hu
      cases hu
    | some b =>
      rw [hb] at hu
      rw [rig_of_target (o := .switchBench name) hb]
      obtain ⟨n, hn, hs, hl⟩ := bringUp_of_start hu
      exact ⟨_, n, fun h => h.note _ _, hn, hs, hl⟩
  | write q => cases hop
  | sendCommand short force => cases hop
  | store r => cases hop
  | read q => cases hop

section BringsUp

variable {op : Operation} (ht : (op.rig s).WellFormed) (hop : op.bringsUp) {now : Nat} {l : Link β}
  {v : Value} (h : (s.perform now l op).result = .ok v)
include ht hop h

theorem levelled_perform_of_pin {card label : String} {p : CardPin}
    (hp : (op.rig s).pin card label = .ok p) :
    (s.perform now l op).state.rig.Levelled p.wiring := by
  obtain ⟨l₀, n, -, hn, hs, -⟩ := bringUp_of_perform hop h
  rw [hs]
  exact levelled_of_bringUp ht hn hp

theorem levelled_perform (hl : ∀ c ∈ (op.rig s).cards, (c.pins.map CardPin.label).Nodup)
    {p : CardPin} (hp : p ∈ (op.rig s).pins) :
    (s.perform now l op).state.rig.Levelled p.wiring := by
  obtain ⟨card, label, hpin⟩ := ht.pin_of_mem hl hp
  exact levelled_perform_of_pin ht hop h hpin

theorem smooth_perform (hl : l.Smooth) : (s.perform now l op).link.Smooth := by
  obtain ⟨l₀, n, h₀, hn, -, hsm⟩ := bringUp_of_perform hop h
  exact hsm (smooth_bringUp ht (h₀ hl) hn)

end BringsUp

end Station

end PinBench
