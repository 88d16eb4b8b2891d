import PinBench.Proofs.Station.Sound
import PinBench.Proofs.Station.Unseen

/-!
# Dispatch

A command first comes to a gate, where nothing moves.  If it is let through, its card pins are
written in turn, as if each had been asked for on its own, up to and including the first write that
fails.

* `Command.calls`: the pin writes of a command, target by target.
* `Station.writeAll`: pin writes in turn, whatever becomes of them, and `Station.UpTo`: those up to
  the first that fails.
* `Station.upTo_writeCards`: **the card pins of a command are written up to the first fault**.
* `Station.Dispatched`: what a dispatch leaves, and `Station.dispatched_dispatch`: it does not
  matter what the tracker holds, or what was noted before.
* `Station.Gate`: what may stand in the way of a command, and `Station.Sending`: how a command ends.
* `Reachable.sending_sendCommand`: **a command is refused with nothing done, or its pins are
  written**, and without force only if its conditions hold on the present levels.
* `Reachable.dispatched_of_forced`: **force opens the gate to every command of the bench**, once the
  categories can be evaluated.
* `Station.forced_unheard`: a configuration that passes its check, with a category that cannot be
  evaluated.
-/

namespace PinBench

/-- The pin writes of a command: target by target, and card by card in each. -/
def Command.calls (d : Command) : List PinCall :=
  d.targets.flatMap fun g => g.cards.map fun card => .card card g.label g.level

/-- A write of a card pin, by its names and level. -/
def PinCall.ofCard (x : String × String × Bool) : PinCall := .card x.1 x.2.1 x.2.2

theorem Command.calls_eq (d : Command) : d.calls = d.writes.map PinCall.ofCard := by
  rw [calls, writes, List.map_flatMap]
  refine List.flatMap_congr fun g _ => ?_
  rw [Target.writes, List.map_map]
  rfl

namespace Station

variable {β : Type} [Bus β]

/-! ## Pin writes in turn -/

/-- Pin writes in turn, whatever becomes of each: the results, and what is left in the end. -/
def writeAll (s : Station) (l : Link β) :
    List PinCall → List (Except Fault Outcome) × Station × Link β
  | [] => ([], s, l)
  | q :: qs =>
    let r := s.write l q
    let rest := r.state.writeAll r.link qs
    (r.result :: rest.1, rest.2)

/-- What pin writes in turn leave if the first that fails is the last: what came of each or the
fault, the station and the link. -/
inductive UpTo (s : Station) (l : Link β) (qs : List PinCall) :
    Except Fault (List Outcome) → Station → Link β → Prop where
  /-- None fails. -/
  | through {os : List Outcome} {s' : Station} {l' : Link β}
      (h : s.writeAll l qs = (os.map .ok, s', l')) : UpTo s l qs (.ok os) s' l'
  /-- The writes before `q` are done, and those after it are not tried. -/
  | stopped (done : List PinCall) {q : PinCall} {rest : List PinCall} (hq : qs = done ++ q :: rest)
      (os : List Outcome) {f : Fault} {s' : Station} {l' : Link β}
      (h : s.writeAll l (done ++ [q]) = (os.map .ok ++ [.error f], s', l')) :
      UpTo s l qs (.error f) s' l'

/-- The number of register writes that some pin writes took. -/
def written (os : List Outcome) : Nat := os.countP (!·.isUnchanged)

theorem written_cons (o : Outcome) (os : List Outcome) :
    written (o :: os) = o.count + written os := by
  rw [written, List.countP_cons, Nat.add_comm, written, Outcome.count]
  cases o.isUnchanged <;> rfl

variable {s s' : Station} {l l' : Link β} {q : PinCall} {qs : List PinCall}

theorem UpTo.cons_ok {o : Outcome} (h : (s.write l q).result = .ok o)
    {x : Except Fault (List Outcome)}
    (g : UpTo (s.write l q).state (s.write l q).link qs x s' l') :
    s.UpTo l (q :: qs) (x.map (o :: ·)) s' l' := by
  cases g with
  | through g =>
    refine .through ?_
    rw [writeAll, g, h]
    rfl
  | stopped done hq os g =>
    refine .stopped (q :: done) (by rw [hq]; rfl) (o :: os) ?_
    rw [List.cons_append, writeAll, g, h]
    rfl

theorem UpTo.cons_error {f : Fault} (h : (s.write l q).result = .error f) :
    s.UpTo l (q :: qs) (.error f) (s.write l q).state (s.write l q).link := by
  refine .stopped [] rfl [] ?_
  rw [List.nil_append, writeAll, h]
  rfl

theorem writeCards_cons (s : Station) (l : Link β) (count : Nat) (x : String × String × Bool)
    (xs : List (String × String × Bool)) :
    s.writeCards l count (x :: xs) =
      match (s.write l (.ofCard x)).result with
      | .error f => ⟨.error f, (s.write l (.ofCard x)).state, (s.write l (.ofCard x)).link⟩
      | .ok o => (s.write l (.ofCard x)).state.writeCards (s.write l (.ofCard x)).link
          (count + o.count) xs :=
  rfl

/-- **The card pins of a command are written up to the first fault.** -/
theorem upTo_writeCards (s : Station) (l : Link β) (count : Nat)
    (xs : List (String × String × Bool)) :
    ∃ (r : Except Fault (List Outcome)) (s' : Station) (l' : Link β),
      s.UpTo l (xs.map PinCall.ofCard) r s' l' ∧
      s.writeCards l count xs = ⟨r.map fun os => count + written os, s', l'⟩ := by
  induction xs generalizing s l count with
  | nil => exact ⟨.ok [], s, l, .through rfl, rfl⟩
  | cons x xs ih =>
    rw [List.map_cons, writeCards_cons]
    cases hx : (s.write l (.ofCard x)).result with
    | error f => exact ⟨.error f, _, _, .cons_error hx, rfl⟩
    | ok o =>
      obtain ⟨r, s', l', hr, hw⟩ := ih (s.write l (.ofCard x)).state (s.write l (.ofCard x)).link
        (count + o.count)
      refine ⟨r.map (o :: ·), s', l', hr.cons_ok hx, ?_⟩
      dsimp only
      rw [hw]
      cases r with
      | error f => rfl
      | ok os =>
        have hn : count + o.count + written os = count + written (o :: os) := by
          rw [written_cons, Nat.add_assoc]
        exact congrArg (fun n => (⟨.ok n, s', l'⟩ : Run Station β Nat)) hn

/-! ## Trackers and notes do not matter -/

section Alike

variable {K : Tracker → Tracker → Prop} (hK : Tracker.Lasting K)
include hK

theorem Alike.same_writeAll (h : s.Alike K s') (hl : l.Quiet l') (qs : List PinCall) :
    (s'.writeAll l' qs).1 = (s.writeAll l qs).1 ∧
      (s.writeAll l qs).2.1.Alike K (s'.writeAll l' qs).2.1 ∧
      (s.writeAll l qs).2.2.Quiet (s'.writeAll l' qs).2.2 := by
  induction qs generalizing s s' l l' with
  | nil => exact ⟨rfl, h, hl⟩
  | cons q qs ih =>
    obtain ⟨hres, hst, hlk⟩ := h.same_write hl hK q
    obtain ⟨ihr, ihs⟩ := ih hst hlk
    exact ⟨List.cons_eq_cons.mpr ⟨hres, ihr⟩, ihs⟩

theorem UpTo.same {x : Except Fault (List Outcome)} {s₁ : Station} {l₁ : Link β}
    (g : s.UpTo l qs x s₁ l₁) (h : s.Alike K s') (hl : l.Quiet l') :
    ∃ s₁' l₁', s'.UpTo l' qs x s₁' l₁' ∧ s₁.Alike K s₁' ∧ l₁.Quiet l₁' := by
  cases g with
  | through g =>
    have hw := h.same_writeAll hK hl qs
    rw [g] at hw
    generalize hy : s'.writeAll l' qs = y at hw
    obtain ⟨rs, s₁', l₁'⟩ := y
    obtain ⟨rfl, hs, hk⟩ := hw
    exact ⟨s₁', l₁', .through hy, hs, hk⟩
  | @stopped done q rest hq os f s₁ l₁ g =>
    have hw := h.same_writeAll hK hl (done ++ [q])
    rw [g] at hw
    generalize hy : s'.writeAll l' (done ++ [q]) = y at hw
    obtain ⟨rs, s₁', l₁'⟩ := y
    obtain ⟨rfl, hs, hk⟩ := hw
    exact ⟨s₁', l₁', .stopped done hq os hy, hs, hk⟩

end Alike

/-! ## Dispatch -/

/-- What a dispatch leaves: its pins are written up to the first fault, which is the result; if
there is none, the result is the number of register writes, and one event tells of it. -/
inductive Dispatched (s : Station) (l : Link β) (d : Command) (force : Bool) :
    Run Station β Nat → Prop where
  | failed {f : Fault} {s₁ s' : Station} {l₁ l' : Link β} (h : s.UpTo l d.calls (.error f) s₁ l₁)
      (hs : s₁.Alike Tracker.Any s') (hl : l₁.Quiet l') : Dispatched s l d force ⟨.error f, s', l'⟩
  | done {os : List Outcome} {s₁ s' : Station} {l₁ l' : Link β}
      (h : s.UpTo l d.calls (.ok os) s₁ l₁) (hs : s₁.Alike Tracker.Any s')
      (hl : (l₁.tell (.commandDispatched d.shortName force (written os))).Quiet l') :
      Dispatched s l d force ⟨.ok (written os), s', l'⟩

theorem dispatched_dispatch (h : s.Alike Tracker.Any s') (hl : l.Quiet l') (d : Command)
    (force : Bool) : s.Dispatched l d force (s'.dispatch d force l') := by
  have hsymm : ∀ k k', Tracker.Any k k' → Tracker.Any k' k := fun _ _ _ => trivial
  -- the writes come after the gate, but they could as well have started before it
  obtain ⟨r, s₁', l₁', hr, hw⟩ := s'.upTo_writeCards l' 0 d.writes
  rw [← d.calls_eq] at hr
  obtain ⟨s₁, l₁, hr, hs, hk⟩ := hr.same Tracker.lasting_any (h.symm hsymm) hl.symm
  rw [dispatch, hw]
  cases r with
  | error f => exact .failed hr (hs.symm hsymm) hk.symm
  | ok os =>
    show s.Dispatched l d force ⟨.ok (0 + written os), s₁', (l₁'.note _ _).tell
      (.commandDispatched d.shortName force (0 + written os))⟩
    rw [Nat.zero_add]
    exact .done hr (hs.symm hsymm) ((hk.symm.trans (l₁'.quiet_note _ _)).tell _)

/-! ## The gate -/

/-- What a command of a short name comes to at the gate, on the present levels: a fault, or the
command that is let through. -/
inductive Gate (s : Station) (short : String) (force : Bool) : Except Fault Command → Prop where
  /-- The categories cannot be evaluated. -/
  | unevaluated {f : Fault} (h : s.scratch = .error f) : Gate s short force (.error f)
  | unknown {k : Tracker} (h : s.scratch = .ok k)
      (hd : s.bench.commands.find? (·.shortName == short) = none) :
      Gate s short force (.error (.unknownCommand short))
  /-- A condition cannot be judged. -/
  | unclear {k : Tracker} {d : Command} {f : Fault} (h : s.scratch = .ok k)
      (hd : s.bench.commands.find? (·.shortName == short) = some d) (hf : force = false)
      (ha : d.available k = .error f) : Gate s short force (.error f)
  | forbidden {k : Tracker} {d : Command} (h : s.scratch = .ok k)
      (hd : s.bench.commands.find? (·.shortName == short) = some d) (hf : force = false)
      (ha : d.available k = .ok false) (hn : ¬d.Allowed k) :
      Gate s short force (.error (.forbiddenCommand short))
  | allowed {k : Tracker} {d : Command} (h : s.scratch = .ok k)
      (hd : s.bench.commands.find? (·.shortName == short) = some d) (hf : force = false)
      (ha : d.available k = .ok true) (hc : d.Allowed k) : Gate s short force (.ok d)
  | forced {k : Tracker} {d : Command} (h : s.scratch = .ok k)
      (hd : s.bench.commands.find? (·.shortName == short) = some d) (hf : force = true) :
      Gate s short force (.ok d)

omit [Bus β] in
theorem gate_resolve (s : Station) (short : String) (force : Bool) :
    s.Gate short force (s.scratch.bind (Command.resolve · s.bench.commands short force)) := by
  cases hs : s.scratch with
  | error f => exact .unevaluated hs
  | ok k =>
    show s.Gate short force (Command.resolve k s.bench.commands short force)
    rw [Command.resolve, Command.lookup]
    cases hd : s.bench.commands.find? (·.shortName == short) with
    | none => exact .unknown hs hd
    | some d =>
      dsimp only
      rw [ok_bind]
      cases hf : force with
      | true => exact .forced hs hd rfl
      | false =>
        rw [if_neg Bool.false_ne_true]
        cases ha : d.available k with
        | error f => exact .unclear hs hd rfl ha
        | ok b =>
          have hb := Command.available_iff ha
          cases b with
          | true => exact .allowed hs hd rfl ha (hb.mp rfl)
          | false => exact .forbidden hs hd rfl ha fun hc => Bool.false_ne_true (hb.mpr hc)

/-- How a command ends: refused at the gate with nothing done, or let through and dispatched. -/
inductive Sending (s : Station) (l : Link β) (short : String) (force : Bool) :
    Run Station β Nat → Prop where
  | refused {f : Fault} (g : s.Gate short force (.error f)) {s' : Station} {l' : Link β}
      (hs : s.Alike Tracker.Any s') (hl : l.Quiet l') : Sending s l short force ⟨.error f, s', l'⟩
  | through {d : Command} (g : s.Gate short force (.ok d)) {r : Run Station β Nat}
      (h : s.Dispatched l d force r) : Sending s l short force r

theorem Faithful.sending {c : Configuration} (h : s.Faithful c) (l : Link β) (now : Nat)
    (short : String) (force : Bool) :
    s.Sending l short force (s.sendCommand short force now l) := by
  obtain ⟨k, l', hn, he⟩ := h.sendCommand_eq l now short force
  have hs := (Alike.refl Tracker.lasting_any s).withTrackers s.tracker k
  have hg := s.gate_resolve short force
  rw [he]
  generalize s.scratch.bind (Command.resolve · s.bench.commands short force) = x at hg ⊢
  cases x with
  | error f => exact .refused hg hs hn.quiet
  | ok d => exact .through hg (dispatched_dispatch hs hn.quiet d force)

namespace Sending

variable {short : String} {r : Run Station β Nat}

/-- Without force, nothing is written for a command whose conditions do not hold. -/
theorem allowed_of_attempts (h : s.Sending l short false r)
    (ha : r.link.journal.attempts ≠ l.journal.attempts) :
    ∃ k d, s.scratch = .ok k ∧ s.bench.commands.find? (·.shortName == short) = some d ∧
      d.Allowed k := by
  cases h with
  | refused g hs hl => exact absurd hl.attempts ha
  | through g h =>
    cases g with
    | allowed hk hd hf ha hc => exact ⟨_, _, hk, hd, hc⟩
    | forced hk hd hf => exact absurd hf Bool.false_ne_true

/-- If the categories cannot be evaluated, nothing is done. -/
theorem refused_of_scratch {force : Bool} (h : s.Sending l short force r) {f : Fault}
    (hf : s.scratch = .error f) :
    r.result = .error f ∧ s.Alike Tracker.Any r.state ∧ l.Quiet r.link := by
  cases h with
  | refused g hs hl =>
    cases g with
    | unevaluated hf' =>
      obtain rfl := Except.error.inj (hf.symm.trans hf')
      exact ⟨rfl, hs, hl⟩
    | unknown hk => cases hf.symm.trans hk
    | unclear hk => cases hf.symm.trans hk
    | forbidden hk => cases hf.symm.trans hk
  | through g h =>
    cases g with
    | allowed hk => cases hf.symm.trans hk
    | forced hk => cases hf.symm.trans hk

variable {d : Command} (hd : s.bench.commands.find? (·.shortName == short) = some d)
include hd

/-- With force, a command that is there is dispatched if the categories can be evaluated. -/
theorem dispatched (h : s.Sending l short true r) {k : Tracker}
    (hk : s.scratch = .ok k) : s.Dispatched l d true r := by
  cases h with
  | refused g hs hl =>
    cases g with
    | unevaluated hk' => cases hk.symm.trans hk'
    | unknown hk' hd' => cases hd.symm.trans hd'
    | unclear hk' hd' hf => exact absurd hf.symm Bool.false_ne_true
    | forbidden hk' hd' hf => exact absurd hf.symm Bool.false_ne_true
  | through g h =>
    cases g with
    | allowed hk' hd' =>
      obtain rfl := Option.some.inj (hd.symm.trans hd')
      exact h
    | forced hk' hd' =>
      obtain rfl := Option.some.inj (hd.symm.trans hd')
      exact h

end Sending

end Station

section Reachable

variable {c : Configuration} {s : Station} {β : Type} [Bus β]

/-- **A command is refused with nothing done, or its pins are written in turn**, in every state that
operations lead to; and without force nothing is written unless the conditions of the command hold
on the present levels. -/
theorem Reachable.sending_sendCommand (h : Reachable c s) (l : Link β) (now : Nat) (short : String)
    (force : Bool) :
    let r := s.sendCommand short force now l
    s.Sending l short force r ∧
      (force = false → r.link.journal.attempts ≠ l.journal.attempts →
        ∃ k d, s.scratch = .ok k ∧
          s.bench.commands.find? (·.shortName == short) = some d ∧ d.Allowed k) := by
  intro r
  have hr : s.Sending l short force r := h.faithful.sending l now short force
  refine ⟨hr, ?_⟩
  rintro rfl
  exact hr.allowed_of_attempts

/-- A command that is meant for the dark. -/
def ringCommand : Command :=
  ⟨"light the lamp and ring", "ring", [[⟨"light", 0⟩]],
    [⟨["J1"], "A", true⟩, ⟨["J1"], "B", true⟩]⟩

/-- A bench with a lamp and a bell, and with a command for a card too that is not there. -/
def bellBench : Bench :=
  ⟨"a", [⟨"J1", [⟨"A", ⟨1, 0⟩, none⟩, ⟨"B", ⟨1, 1⟩, none⟩]⟩],
    [⟨"light", [⟨"on", 1, [⟨["J1"], "A", true⟩]⟩, ⟨"off", 0, []⟩], noCode, none⟩],
    [⟨"light all lamps and ring", "lit", [[⟨"light", 0⟩]],
        [⟨["J1", "J9"], "A", true⟩, ⟨["J1"], "B", true⟩]⟩, ringCommand], []⟩

def bellConfiguration (b : Bench) : Configuration :=
  ⟨"a", ⟨false, [⟨1, 0x20, .single⟩], [⟨[0, 1], 0, 0x12, 0x00, 0⟩]⟩, [b]⟩

/-- The lamp is lit before the second card is missed, and the bell does not ring. -/
theorem sending_sendCommand_bell :
    let l := Link.ofBus SimulatedBus.empty
    let s := ((Station.enter (bellConfiguration bellBench) bellBench).perform 0 l .start).state
    let r := s.sendCommand "lit" false 1 l
    Reachable (bellConfiguration bellBench) s ∧ s.Sending l "lit" false r ∧
      (∃ k d, s.scratch = .ok k ∧ s.bench.commands.find? (·.shortName == "lit") = some d ∧
        d.Allowed k) ∧
      r.result = .error (.unknownCard "J9") ∧
      r.link.journal.attempts = [(⟨0x20, 0x12, 1⟩, none)] ∧
      r.state.rig.level "J1" "A" = .ok true ∧ r.state.rig.level "J1" "B" = .ok false := by
  intro l s
  have h₀ : Station.ofConfiguration (bellConfiguration bellBench) none =
      .ok (Station.enter (bellConfiguration bellBench) bellBench) := rfl
  have h : Reachable (bellConfiguration bellBench) s := (Reachable.new h₀).perform l 0 .start
  obtain ⟨hr, ha⟩ := h.sending_sendCommand l 1 "lit" false
  exact ⟨h, hr, ha rfl (by decide +kernel), by decide +kernel, by decide +kernel,
    by decide +kernel, by decide +kernel⟩

/-- **Force opens the gate to every command of the bench**, whatever its conditions are, once the
categories can be evaluated; if they cannot, because a state looks at a card pin that is not in the
file, that fault is the result and nothing is done. -/
theorem Reachable.dispatched_of_forced (h : Reachable c s) {d : Command}
    (hd : d ∈ s.bench.commands) (l : Link β) (now : Nat) :
    let r := s.sendCommand d.shortName true now l
    (∀ k, s.scratch = .ok k → s.Dispatched l d true r) ∧
      ∀ f, s.scratch = .error f →
        (∃ e ∈ s.bench.categories, ∃ x ∈ e.pins, (c.rig s.bench).pin x.1 x.2 = .error f) ∧
          r.result = .error f ∧ s.Alike Tracker.Any r.state ∧ l.Quiet r.link := by
  intro r
  have hr : s.Sending l d.shortName true r := h.faithful.sending l now d.shortName true
  have hfind := h.find?_command hd
  exact ⟨fun k hk => hr.dispatched hfind hk,
    fun f hf => ⟨h.exists_of_scratch hf, hr.refused_of_scratch hf⟩⟩

/-- The lamp is on and the second command is refused; with force it rings the bell. -/
theorem dispatched_of_forced_bell :
    let l := Link.ofBus SimulatedBus.empty
    let s := ((Station.enter (bellConfiguration bellBench) bellBench).perform 0 l .start).state
    let s := (s.perform 1 l (.sendCommand "lit" false)).state
    let r := s.sendCommand "ring" true 2 l
    Reachable (bellConfiguration bellBench) s ∧ ringCommand ∈ s.bench.commands ∧
      (s.sendCommand "ring" false 2 l).result = .error (.forbiddenCommand "ring") ∧
      s.Dispatched l ringCommand true r ∧ r.result = .ok 1 ∧
      r.link.journal.attempts = [(⟨0x20, 0x12, 3⟩, none)] := by
  intro l s₁ s
  have h₀ : Station.ofConfiguration (bellConfiguration bellBench) none =
      .ok (Station.enter (bellConfiguration bellBench) bellBench) := rfl
  have h₁ := (Reachable.new h₀).perform l 0 .start
  have h : Reachable (bellConfiguration bellBench) s := h₁.perform l 1 (.sendCommand "lit" false)
  have hd : ringCommand ∈ s.bench.commands := by decide +kernel
  have hk : s.scratch = .ok (.ofCategories [⟨"light",
      [⟨"on", 1, [⟨["J1"], "A", true⟩]⟩, ⟨"off", 0, []⟩], 1, some "on"⟩]) := by decide +kernel
  have hr := (h.dispatched_of_forced hd l 2).1 _ hk
  exact ⟨h, hd, by decide +kernel, hr, by decide +kernel, by decide +kernel⟩

/-- The bench of the lamp and the bell, if its category looked at the card that is not there. -/
def blindBench : Bench :=
  { bellBench with
    categories := [⟨"light", [⟨"on", 1, [⟨["J9"], "A", true⟩]⟩, ⟨"off", 0, []⟩], noCode, none⟩] }

/-- A configuration that passes its check, and a start that ends well.  The category cannot be
evaluated, and so a command is refused although it is forced and its pins could be written. -/
theorem Station.forced_unheard :
    let s := enter (bellConfiguration blindBench) blindBench
    let r := s.start (.ofBus SimulatedBus.empty)
    let r' := r.state.sendCommand "ring" true 1 r.link
    ofConfiguration (bellConfiguration blindBench) none = .ok s ∧ r.result = .ok () ∧
      ringCommand ∈ r.state.bench.commands ∧
      (r.state.writeAll r.link ringCommand.calls).1 =
        [.ok (.written ⟨0x20, 0x12, 1⟩), .ok (.written ⟨0x20, 0x12, 3⟩)] ∧
      r'.result = .error (.unknownCard "J9") ∧
      r'.link.journal.attempts = r.link.journal.attempts := by
  intro s
  have h₀ : ofConfiguration (bellConfiguration blindBench) none = .ok s := rfl
  exact ⟨h₀, by decide +kernel, by decide +kernel, by decide +kernel, by decide +kernel,
    by decide +kernel⟩

end Reachable

end PinBench
