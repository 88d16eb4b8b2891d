import PinBench.Proofs.Availability
import PinBench.Proofs.Station.Dispatch

/-!
# What a station tells of its writes

The events of a write are made from its result, not at the bus.  All the same there is one for each
attempt: the write that got through, or the failure of the one that was lost.

* `Station.Told`: how a call ends that tells of each attempt, and of nothing else but its own end.
* `Station.told_write`: a pin write tells of its one attempt, if it makes one.
* `Station.told_writeCards`: card pins in turn tell of all their attempts.
* `Station.writes_told`: **pin writes and commands tell of every attempt, in order**; a command that
  ends well tells of itself last.
-/

namespace PinBench

/-! ## What may stand in the way of a command -/

theorem Tracker.offBus_evaluate (t : Rig) (cs : List Category) : OffBus (evaluate t cs) := by
  intro f h
  obtain ⟨-, r, -, -, -, hr⟩ := evaluate_eq_error_iff.mp h
  cases hr.2 <;> rfl

namespace Command

variable {k : Tracker} {cs : List Command} {short : String} {force : Bool} {d : Command}

theorem offBus_available (k : Tracker) (d : Command) : OffBus (d.available k) := by
  intro f h
  obtain ⟨-, q, -, -, -, -, -, rfl⟩ := available_eq_error_iff.mp h
  rfl

theorem error_of_lookup {f : Fault} (h : lookup cs short = .error f) :
    f = .unknownCommand short := by
  unfold lookup at h
  split at h <;> cases h
  rfl

theorem shortName_of_lookup (h : lookup cs short = .ok d) : d.shortName = short := by
  unfold lookup at h
  cases hd : cs.find? (·.shortName == short) with
  | none =>
    rw [hd] at h
    cases h
  | some e =>
    rw [hd] at h
    cases h
    have he := List.find?_some hd
    exact beq_iff_eq.mp he

/-- What comes of a search for a command to dispatch. -/
theorem resolve_cases (k : Tracker) (cs : List Command) (short : String) (force : Bool) :
    (∃ f, resolve k cs short force = .error f ∧ f.isBus = false) ∨
      ∃ d, resolve k cs short force = .ok d ∧ d.shortName = short := by
  unfold resolve
  cases hd : lookup cs short with
  | error f => exact .inl ⟨f, rfl, by rw [error_of_lookup hd]; rfl⟩
  | ok d =>
    have hname := shortName_of_lookup hd
    cases force with
    | true => exact .inr ⟨d, rfl, hname⟩
    | false =>
      cases ha : d.available k with
      | error f => exact .inl ⟨f, by rw [ok_bind, ha]; rfl, offBus_available k d f ha⟩
      | ok b =>
        cases b with
        | true => exact .inr ⟨d, by rw [ok_bind, ha]; rfl, hname⟩
        | false => exact .inl ⟨_, by rw [ok_bind, ha]; rfl, rfl⟩

end Command

namespace Station

variable {β : Type}

/-- The end of a call that tells of every attempt: of the writes that got through, and of the last
one if it was lost.  A call that ends well has lost none, and tells of `after` last. -/
inductive Told (l : Link β) (after : Nat → List Event) : Except Fault Nat → Link β → Prop where
  | through (ws : List RegisterWrite) {l' : Link β}
      (h : l.Adds l' (ws.map (·, none)) (ws.map .registerWritten ++ after ws.length)) :
      Told l after (.ok ws.length) l'
  /-- The last attempt is lost, and the failure of the bus is told and given back. -/
  | lost (ws : List RegisterWrite) {w : RegisterWrite} {reason : String} {l' : Link β}
      (h : l.Adds l' (ws.map (·, none) ++ [(w, some reason)])
        (ws.map .registerWritten ++ [.busFault (Fault.bus (w.failure reason)).message])) :
      Told l after (.error (.bus (w.failure reason))) l'
  /-- No attempt is lost, but something is missing. -/
  | refused {f : Fault} (hf : f.isBus = false) (ws : List RegisterWrite) {l' : Link β}
      (h : l.Adds l' (ws.map (·, none)) (ws.map .registerWritten)) : Told l after (.error f) l'

variable {l₀ l l' : Link β}

theorem offBus_refresh (s : Station) (now : Nat) (l : Link β) :
    OffBus (s.refresh now l).result := by
  have h := s.tracker.refreshed_refreshing s.rig now l
  unfold refresh
  generalize s.tracker.refreshed s.rig now l = r at h ⊢
  cases h with
  | refused hd h =>
    intro f' h'
    cases h'
    exact Tracker.offBus_evaluate s.rig _ _ h
  | evaluated hd h severity text => rintro f ⟨⟩
  | held hd => rintro f ⟨⟩

theorem Told.of_error {after : Nat → List Event} {f : Fault}
    (h : Told l (fun _ => []) (.error f) l') : Told l after (.error f) l' := by
  cases h with
  | lost ws h => exact .lost ws h
  | refused hf ws h => exact .refused hf ws h

theorem Told.of_ok {n : Nat} (h : Told l (fun _ => []) (.ok n) l') :
    ∃ ws : List RegisterWrite, ws.length = n ∧
      l.Adds l' (ws.map (·, none)) (ws.map .registerWritten) := by
  cases h with
  | through ws h =>
    rw [List.append_nil] at h
    exact ⟨ws, rfl, h⟩

variable [Bus β]

/-- **A pin write tells of its one attempt**, if it makes one.  The writes `ws` have got through
before, and were told. -/
theorem told_write (ws : List RegisterWrite)
    (hl : l₀.Adds l (ws.map (·, none)) (ws.map .registerWritten)) (s : Station) (q : PinCall) :
    Told l₀ (fun _ => []) ((s.write l q).result.map (ws.length + ·.count)) (s.write l q).link := by
  have hr := q.run_ending s.rig l
  rw [write_eq_track]
  generalize q.run s.rig l = r at hr ⊢
  cases hr with
  | refused h =>
    have hf := q.offBus_site s.rig _ h
    rw [track_of_offBus hf]
    exact .refused hf ws hl
  | idle h hlevel severity text =>
    refine .through ws ?_
    rw [List.append_nil]
    exact hl.note severity text
  | @moved w site h hlevel severity text =>
    cases ho : Link.outcome l.bus (site.write q.level) with
    | ok u =>
      have ha := ((hl.write_ok ho).note severity text).tell (.registerWritten (site.write q.level))
      have hn : ws.length + 1 = (ws ++ [site.write q.level]).length := by simp
      show Told l₀ _ (.ok (ws.length + 1)) _
      rw [hn]
      refine .through (ws ++ [site.write q.level]) ?_
      rw [List.map_append, List.map_append, List.append_nil]
      exact ha
    | error f =>
      obtain ⟨reason, rfl, ha⟩ := hl.write_error ho
      exact .lost ws ((ha.note severity text).tell _)

/-- **Card pins in turn tell of all their attempts.** -/
theorem told_writeCards (ws : List RegisterWrite)
    (hl : l₀.Adds l (ws.map (·, none)) (ws.map .registerWritten)) (s : Station)
    (xs : List (String × String × Bool)) :
    Told l₀ (fun _ => []) (s.writeCards l ws.length xs).result
      (s.writeCards l ws.length xs).link := by
  induction xs generalizing s l ws with
  | nil =>
    refine .through ws ?_
    rw [List.append_nil]
    exact hl
  | cons x xs ih =>
    have h := told_write ws hl s (.ofCard x)
    rw [writeCards_cons]
    generalize s.write l (.ofCard x) = r at h ⊢
    obtain ⟨y, s', l'⟩ := r
    cases y with
    | error f => exact h
    | ok o =>
      obtain ⟨vs, hvs, ha⟩ := h.of_ok
      have hn : ws.length + o.count = vs.length := hvs.symm
      dsimp only
      rw [hn]
      exact ih vs ha s'

theorem told_dispatch (hl : l₀.Adds l [] []) (s : Station) (d : Command) (force : Bool) :
    Told l₀ (fun n => [.commandDispatched d.shortName force n]) (s.dispatch d force l).result
      (s.dispatch d force l).link := by
  have h : Told l₀ (fun _ => []) (s.writeCards l 0 d.writes).result
      (s.writeCards l 0 d.writes).link :=
    told_writeCards [] hl s d.writes
  rw [dispatch]
  generalize s.writeCards l 0 d.writes = r at h ⊢
  obtain ⟨y, s', l'⟩ := r
  cases y with
  | error f => exact h.of_error
  | ok n =>
    obtain ⟨ws, rfl, ha⟩ := h.of_ok
    exact .through ws ((ha.note _ _).tell _)

theorem told_sendCommand (s : Station) (l : Link β) (short : String) (force : Bool) (now : Nat) :
    Told l (fun n => [.commandDispatched short force n]) (s.sendCommand short force now l).result
      (s.sendCommand short force now l).link := by
  have hl := (s.looked_refresh now l).link.adds
  have hoff := s.offBus_refresh now l
  rw [sendCommand, afterRefresh]
  generalize s.refresh now l = r at hl hoff ⊢
  obtain ⟨x, s', l'⟩ := r
  cases x with
  | error f => exact .refused (hoff f rfl) [] hl
  | ok u =>
    dsimp only [Except.bind]
    rcases Command.resolve_cases s'.tracker s'.commands short force with
      ⟨f, hx, hf⟩ | ⟨d, hx, hd⟩
    · rw [hx]
      exact .refused hf [] hl
    · rw [hx, ← hd]
      exact told_dispatch hl s' d force

/-- **Pin writes and commands tell of every attempt, in order**: of a write that got through, or of
the failure of the bus, after which there is no other attempt.  A command that ends well tells last
of itself, with the number of writes that it has told of; nothing else is told. -/
theorem writes_told (s : Station) (l : Link β) :
    (∀ q : PinCall,
      Told l (fun _ => []) ((s.write l q).result.map Outcome.count) (s.write l q).link) ∧
    ∀ (short : String) (force : Bool) (now : Nat),
      Told l (fun n => [.commandDispatched short force n]) (s.sendCommand short force now l).result
        (s.sendCommand short force now l).link := by
  constructor
  · intro q
    have h := told_write [] (.refl l) s q
    simpa using h
  · exact s.told_sendCommand l

end Station

end PinBench
