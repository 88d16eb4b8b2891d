import PinBench.Proofs.Station.Dispatch

/-!
# What is available, in three views

Whether a command may be dispatched is found in a list of all that may, asked of one command, or
tried.  Each view refreshes the categories and judges the conditions for itself, and the last two
find the command by its short name.

* `Command.allAvailable_eq_filter`: the list holds the commands that are available, in their order.
* `PinCall.run_ne_forbidden`, `Station.dispatch_ne_forbidden`: no pin write is forbidden, and so no
  command once it is let through.
* `Station.Faithful.sendCommand_forbidden_iff`: **a command is forbidden at the gate or not at
  all**.
* `Reachable.result_isAvailable_of_mem`, `Reachable.sendCommand_forbidden_iff_of_mem`,
  `Station.Faithful.unknown_of_lookup`: what each view says of a command of the bench, and of a name
  that no command has.
* `Reachable.views_agree`: **the three views agree** in every state that operations lead to, if the
  list can be had at all.
-/

namespace PinBench

/-! ## Lists -/

namespace Command

variable {k : Tracker} {cs ds : List Command}

/-- The list holds the commands that are available, in their order. -/
theorem allAvailable_eq_filter (h : allAvailable k cs = .ok ds) :
    ds = cs.filter fun d => d.available k = .ok true := by
  induction cs generalizing ds with
  | nil =>
    cases h
    rfl
  | cons c cs ih =>
    obtain ⟨here, hc, h⟩ := ok_of_bind h
    obtain ⟨rest, hrest, h⟩ := ok_of_bind h
    cases h
    rw [List.filter_cons, ← ih hrest, hc]
    cases here <;> simp

/-- There is a list only if every command can be judged. -/
theorem exists_available_of_allAvailable (h : allAvailable k cs = .ok ds) {d : Command}
    (hd : d ∈ cs) : ∃ b, d.available k = .ok b := by
  induction cs generalizing ds with
  | nil => cases hd
  | cons c cs ih =>
    obtain ⟨here, hc, h⟩ := ok_of_bind h
    obtain ⟨rest, hrest, -⟩ := ok_of_bind h
    rcases List.mem_cons.mp hd with rfl | hd
    · exact ⟨here, hc⟩
    · exact ih hrest hd

theorem lookup_eq_error {short : String} (h : ∀ d ∈ cs, d.shortName ≠ short) :
    lookup cs short = .error (.unknownCommand short) := by
  have hn : cs.find? (·.shortName == short) = none := by simpa using h
  rw [lookup, hn]

theorem resolve_of_lookup {short : String} {d : Command} {b : Bool}
    (hd : lookup cs short = .ok d) (hb : d.available k = .ok b) :
    resolve k cs short false = if b then .ok d else .error (.forbiddenCommand short) := by
  rw [resolve, hd, ok_bind, if_neg Bool.false_ne_true, hb]
  rfl

theorem resolve_of_unknown {short : String} {force : Bool} {f : Fault}
    (hf : lookup cs short = .error f) : resolve k cs short force = .error f := by
  rw [resolve, hf]
  rfl

end Command

/-! ## Forbidden commands -/

section Forbidden

variable {β : Type} [Bus β]

theorem PinCall.run_ne_forbidden (t : Rig) (l : Link β) (q : PinCall) (name : String) :
    (q.run t l).result ≠ .error (.forbiddenCommand name) := by
  have h := q.run_ending t l
  generalize q.run t l = r at h ⊢
  intro hr
  cases h with
  | refused hs =>
    cases hr
    cases q.ofLookup_site t _ hs
  | idle => cases hr
  | @moved w s hs hl severity text =>
    dsimp only at hr
    cases hb : Link.outcome l.bus (s.write q.level) with
    | ok u =>
      rw [hb] at hr
      cases hr
    | error e =>
      rw [hb] at hr
      cases hr

namespace Station

theorem writeCards_ne_forbidden (s : Station) (l : Link β) (count : Nat)
    (xs : List (String × String × Bool)) (name : String) :
    (s.writeCards l count xs).result ≠ .error (.forbiddenCommand name) := by
  induction xs generalizing s l count with
  | nil =>
    intro h
    cases h
  | cons x xs ih =>
    have hx := (PinCall.ofCard x).run_ne_forbidden s.rig l name
    rw [← result_write] at hx
    rw [writeCards_cons]
    cases hr : (s.write l (.ofCard x)).result with
    | error f =>
      intro h
      cases h
      exact hx hr
    | ok o => exact ih _ _ _

/-- A command that is let through is not forbidden. -/
theorem dispatch_ne_forbidden (s : Station) (d : Command) (force : Bool) (l : Link β)
    (name : String) : (s.dispatch d force l).result ≠ .error (.forbiddenCommand name) := by
  have hw := s.writeCards_ne_forbidden l 0 d.writes name
  rw [dispatch]
  dsimp only
  cases hr : (s.writeCards l 0 d.writes).result with
  | error f => exact hw
  | ok count =>
    intro h
    cases h

namespace Faithful

variable {c : Configuration} {s : Station} (h : s.Faithful c)
include h

theorem result_sendCommand_of_error {short : String} {force : Bool} {f : Fault}
    (hf : s.scratch.bind (Command.resolve · s.bench.commands short force) = .error f)
    (l : Link β) (now : Nat) : (s.sendCommand short force now l).result = .error f := by
  obtain ⟨k, l', -, he⟩ := h.sendCommand_eq l now short force
  rw [he, hf]

/-- **A command is forbidden at the gate or not at all.** -/
theorem sendCommand_forbidden_iff (l : Link β) (now : Nat) {short : String} {force : Bool}
    {name : String} : (s.sendCommand short force now l).result = .error (.forbiddenCommand name) ↔
      s.scratch.bind (Command.resolve · s.bench.commands short force) =
        .error (.forbiddenCommand name) := by
  refine ⟨fun hr => ?_, fun hf => h.result_sendCommand_of_error hf l now⟩
  obtain ⟨k, l', -, he⟩ := h.sendCommand_eq l now short force
  rw [he] at hr
  cases hx : s.scratch.bind (Command.resolve · s.bench.commands short force) with
  | error f =>
    rw [hx] at hr
    cases hr
    rfl
  | ok d =>
    rw [hx] at hr
    exact (dispatch_ne_forbidden _ d force l' name hr).elim

end Faithful

end Station

end Forbidden

/-! ## The three views -/

section Views

variable {c : Configuration} {s : Station} {k : Tracker}

theorem Reachable.lookup_command (h : Reachable c s) {d : Command} (hd : d ∈ s.bench.commands) :
    Command.lookup s.bench.commands d.shortName = .ok d := by
  rw [Command.lookup, h.find?_command hd]

/-- A command of the bench is asked for by its short name, and is judged itself. -/
theorem Reachable.result_isAvailable_of_mem (h : Reachable c s) (hk : s.scratch = .ok k)
    {d : Command} (hd : d ∈ s.bench.commands) {β : Type} (l : Link β) (now : Nat) :
    (s.isAvailable d.shortName now l).result = d.available k := by
  rw [h.faithful.result_isAvailable, hk, h.lookup_command hd]
  rfl

/-- A command of the bench is forbidden if it is not available, under its own name. -/
theorem Reachable.sendCommand_forbidden_iff_of_mem (h : Reachable c s) (hk : s.scratch = .ok k)
    {d : Command} (hd : d ∈ s.bench.commands) {b : Bool} (hb : d.available k = .ok b) {β : Type}
    [Bus β] (l : Link β) (now : Nat) {name : String} :
    (s.sendCommand d.shortName false now l).result = .error (.forbiddenCommand name) ↔
      name = d.shortName ∧ b = false := by
  rw [h.faithful.sendCommand_forbidden_iff, hk]
  show Command.resolve k _ _ _ = _ ↔ _
  rw [Command.resolve_of_lookup (h.lookup_command hd) hb]
  cases b <;> simp [eq_comm]

/-- Who gives a name that no command has is told so, once the categories can be evaluated. -/
theorem Station.Faithful.unknown_of_lookup (h : s.Faithful c) (hk : s.scratch = .ok k)
    {short : String} {f : Fault} (hf : Command.lookup s.bench.commands short = .error f) {β : Type}
    [Bus β] (l : Link β) (now : Nat) :
    (s.isAvailable short now l).result = .error f ∧
      ∀ force, (s.sendCommand short force now l).result = .error f := by
  constructor
  · rw [h.result_isAvailable, hk, hf]
    rfl
  · intro force
    refine h.result_sendCommand_of_error ?_ l now
    rw [hk]
    exact Command.resolve_of_unknown hf

/-- **The three views of what is available agree.**  In every state in which the list can be had, it
holds the commands of the bench that are available when asked for one by one, each once and in their
order; a command is forbidden if and only if it is not in the list; and a name that no command has
is unknown to all. -/
theorem Reachable.views_agree (h : Reachable c s) {β : Type} (l : Link β) (now : Nat)
    {ds : List Command} (hds : (s.availableCommands now l).result = .ok ds) :
    s.bench ∈ c.benches ∧ s.commands = s.bench.commands ∧ ds.Nodup ∧
    ∀ {γ : Type} [Bus γ] (l' : Link γ) (now' : Nat),
      (ds = s.bench.commands.filter fun d =>
        (s.isAvailable d.shortName now' l').result = .ok true) ∧
      (∀ d ∈ s.bench.commands, ∀ name,
        (s.sendCommand d.shortName false now' l').result = .error (.forbiddenCommand name) ↔
          name = d.shortName ∧ d ∉ ds) ∧
      ∀ short, (∀ d ∈ s.bench.commands, d.shortName ≠ short) →
        (s.isAvailable short now' l').result = .error (.unknownCommand short) ∧
        ∀ force, (s.sendCommand short force now' l').result = .error (.unknownCommand short) := by
  rw [h.faithful.result_availableCommands] at hds
  obtain ⟨k, hk, hall⟩ := ok_of_bind hds
  have hlist : ds = s.bench.commands.filter fun d => d.available k = .ok true :=
    Command.allAvailable_eq_filter hall
  have hnodup : s.bench.commands.Nodup := .of_map Command.shortName h.sound.commands
  refine ⟨h.faithful.bench, h.faithful.commands, ?_, ?_⟩
  · rw [hlist]
    exact hnodup.filter _
  intro γ _ l' now'
  refine ⟨?_, ?_, ?_⟩
  · rw [hlist]
    apply List.filter_congr
    intro d hd
    rw [h.result_isAvailable_of_mem hk hd]
  · intro d hd name
    obtain ⟨b, hb⟩ := Command.exists_available_of_allAvailable hall hd
    have hmem : d ∉ ds ↔ b = false := by simp [hlist, hd, hb]
    rw [h.sendCommand_forbidden_iff_of_mem hk hd hb, hmem]
  · intro short hn
    exact h.faithful.unknown_of_lookup hk (Command.lookup_eq_error hn) l' now'

def lightCommand : Command := ⟨"light the lamp", "lit", [[⟨"light", 0⟩]], [⟨["J1"], "A", true⟩]⟩

def dimCommand : Command := ⟨"put the lamp out", "dim", [[⟨"light", 1⟩]], [⟨["J1"], "A", false⟩]⟩

def bellCommand : Command := ⟨"ring the bell", "bell", [], [⟨["J1"], "B", true⟩]⟩

/-- The bench of the lamp and the bell, with a command for each state of the lamp and one for
both. -/
def switchBench : Bench := { bellBench with commands := [lightCommand, dimCommand, bellCommand] }

/-- The lamp has been lit: it can be put out and the bell can be rung, but it cannot be lit again;
and there is no window. -/
theorem views_agree_switch :
    let l := Link.ofBus SimulatedBus.empty
    let s := ((Station.enter (bellConfiguration switchBench) switchBench).perform 0 l .start).state
    let s := (s.perform 1 l (.sendCommand "lit" false)).state
    Reachable (bellConfiguration switchBench) s ∧
      (s.availableCommands 2 l).result = .ok [dimCommand, bellCommand] ∧
      (s.sendCommand "lit" false 2 l).result = .error (.forbiddenCommand "lit") ∧
      (s.sendCommand "bell" false 2 l).result ≠ .error (.forbiddenCommand "bell") ∧
      (s.isAvailable "window" 2 l).result = .error (.unknownCommand "window") ∧
      (s.sendCommand "window" true 2 l).result = .error (.unknownCommand "window") := by
  intro l s₁ s
  have h₀ : Station.ofConfiguration (bellConfiguration switchBench) none =
      .ok (Station.enter (bellConfiguration switchBench) switchBench) := rfl
  have h₁ := (Reachable.new h₀).perform l 0 .start
  have h : Reachable (bellConfiguration switchBench) s := h₁.perform l 1 (.sendCommand "lit" false)
  have hds : (s.availableCommands 2 l).result = .ok [dimCommand, bellCommand] := by decide +kernel
  obtain ⟨-, -, -, hviews⟩ := h.views_agree l 2 hds
  obtain ⟨-, hforbidden, hunknown⟩ := hviews l 2
  obtain ⟨hask, hsend⟩ := hunknown "window" (by decide +kernel)
  have hlit := (hforbidden lightCommand (by decide +kernel) "lit").mpr ⟨rfl, by decide +kernel⟩
  have hbell := (hforbidden bellCommand (by decide +kernel) "bell").not.mpr
    (fun hn => hn.2 (by decide +kernel))
  exact ⟨h, hds, hlit, hbell, hask, hsend true⟩

end Views

end PinBench
