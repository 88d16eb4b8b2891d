import PinBench.Bus.I2c
import PinBench.Proofs.Station.Demand
import PinBench.Proofs.Station.Switch

/-!
# Why a bus refuses a write does not matter

On two buses that refuse the same writes, a station does the same, whatever reasons the buses give:
a reason stands in the texts of faults, answers and events, and nothing is decided by it.

* `SimulatedBus.alike_i2c`: a simulated bus and an I2C bus that fail on the same addresses.
* `Answer.Alike`, `Given.Alike`: what is given back is the same up to such reasons.
* `Station.alike_perform`, `Station.alike_execute`: **operations and requests end alike**.
* `Station.alike_serve`: **and so does a run of them**, which leaves the same station.
* `Station.reasons_unseen`: two runs from one station.
-/

namespace PinBench

variable {R : String → String → Prop}

/-! ## Buses -/

/-- **A simulated bus and an I2C bus refuse the same writes, if they fail on the same addresses**,
whatever the faults of the one. -/
theorem SimulatedBus.alike_i2c (hR : ∀ reason reason', R reason reason') {b : SimulatedBus}
    {p : FaultyPeripheral}
    (h : ∀ address, b.offline.contains address = (p.fault? address).isSome) :
    Bus.Alike R b (⟨p⟩ : I2cBus FaultyPeripheral) := by
  refine Bus.alike_of_step (I := fun (b : SimulatedBus) (d : I2cBus FaultyPeripheral) =>
    ∀ address, b.offline.contains address = (d.peripheral.fault? address).isSome) ?_ h
  intro b d h w
  have hw := h w.address
  dsimp only [Bus.write, Peripheral.transfer]
  cases hf : d.peripheral.fault? w.address with
  | some f =>
    rw [hf, Option.isSome_some] at hw
    rw [if_pos hw]
    exact ⟨.some (hR _ _), h⟩
  | none =>
    rw [hf, Option.isSome_none] at hw
    rw [if_neg (Bool.eq_false_iff.mp hw)]
    exact ⟨.none, h⟩

/-! ## What is given back -/

/-- The same answer, or answers to one request that tell of failures of the same write. -/
inductive Answer.Alike (R : String → String → Prop) : Answer → Answer → Prop where
  | same (a : Answer) : Alike R a a
  | fault (date : Nat) (request : String) {f f' : Fault} (h : f.Alike R f') :
      Alike R (.ofFault date request f) (.ofFault date request f')

inductive Given.Alike (R : String → String → Prop) : Given → Given → Prop where
  | result {r r' : Except Fault Value} (h : ResultAlike R r r') : Alike R (.result r) (.result r')
  | answer {a a' : Answer} (h : a.Alike R a') : Alike R (.answer a) (.answer a')

/-! ## Demands -/

variable {β δ : Type} [Bus β] [Bus δ] {l : Link β} {l' : Link δ}

/-- Runs of one result that leave the same state. -/
theorem Run.Alike.of_result {σ α : Type} (x : Except Fault α) (s : σ) (hl : l.Alike R l') :
    Run.Alike R (· = ·) (⟨x, s, l⟩ : Run σ β α) ⟨x, s, l'⟩ := by
  cases x with
  | ok a => exact .ok a rfl hl
  | error f => exact .error (.same f) rfl hl

namespace Station

section Alike

variable (hl : l.Alike R l')
include hl

theorem alike_refresh (s : Station) (now : Nat) :
    (s.refresh now l).Alike R (· = ·) (s.refresh now l') := by
  unfold refresh Tracker.refreshed
  cases s.tracker.refresh s.rig now with
  | error f => exact .error (.same f) rfl hl
  | ok x =>
    obtain ⟨evaluated, k⟩ := x
    cases evaluated with
    | true => exact .ok () rfl (hl.note ..)
    | false => exact .ok () rfl hl

theorem alike_afterRefresh {α : Type} (f : Station → Except Fault α) (s : Station) (now : Nat) :
    (afterRefresh f s now l).Alike R (· = ·) (afterRefresh f s now l') := by
  have h := alike_refresh hl s now
  unfold afterRefresh
  generalize s.refresh now l = r, s.refresh now l' = r' at h ⊢
  cases h with
  | @ok u t t' ht k k' hk =>
    subst ht
    exact .of_result (f t) t hk
  | error hf ht hk => exact .error hf ht hk

theorem alike_read (s : Station) (now : Nat) (q : RuleRead) :
    (s.read now l q).Alike R (· = ·) (s.read now l' q) := by
  cases q with
  | categories => exact (alike_afterRefresh hl _ s now).map _
  | category name => exact (alike_afterRefresh hl _ s now).map _
  | code name => exact (alike_afterRefresh hl _ s now).map _
  | availableCommands => exact (alike_afterRefresh hl _ s now).map _
  | isAvailable short => exact (alike_afterRefresh hl _ s now).map _
  | view => exact (alike_afterRefresh hl _ s now).map _

theorem alike_write (s : Station) (q : PinCall) :
    (s.write l q).Alike R (· = ·) (s.write l' q) :=
  ((Alike.refl Tracker.lasting_eq s).write Tracker.lasting_eq hl q).exact

theorem alike_sendCommand (s : Station) (short : String) (force : Bool) (now : Nat) :
    (s.sendCommand short force now l).Alike R (· = ·) (s.sendCommand short force now l') := by
  have h := alike_afterRefresh hl (fun s => Command.resolve s.tracker s.commands short force) s now
  rw [sendCommand, sendCommand]
  generalize afterRefresh (fun s => Command.resolve s.tracker s.commands short force) s now l = r,
    afterRefresh (fun s => Command.resolve s.tracker s.commands short force) s now l' = r' at h ⊢
  cases h with
  | @ok d t t' ht k k' hk =>
    subst ht
    exact ((Alike.refl Tracker.lasting_eq t).dispatch Tracker.lasting_eq hk d force).exact
  | error hf ht hk => exact .error hf ht hk

theorem alike_update (s : Station) : (s.update l).Alike R (· = ·) (s.update l') :=
  ((Alike.refl Tracker.lasting_eq s).update Tracker.lasting_eq hl).exact

theorem alike_switchBench (s : Station) (name : String) :
    (s.switchBench name l).Alike R (· = ·) (s.switchBench name l') :=
  ((Alike.refl Tracker.lasting_eq s).switchBench Tracker.lasting_eq hl name).exact

/-- **An operation ends alike.** -/
theorem alike_perform (s : Station) (now : Nat) (op : Operation) :
    (s.perform now l op).Alike R (· = ·) (s.perform now l' op) := by
  cases op with
  | start => exact (((Alike.refl Tracker.lasting_eq s).start Tracker.lasting_eq hl).map _).exact
  | update => exact (alike_update hl s).map _
  | switchBench name => exact (alike_switchBench hl s name).map _
  | write q => exact (alike_write hl s q).map _
  | sendCommand short force => exact (alike_sendCommand hl s short force now).map _
  | store r =>
    obtain ⟨hb, hs, hk⟩ := (Alike.refl Tracker.lasting_eq s).store hl r
    show Run.Alike R _ (⟨.ok (.flag (s.store r l).1), (s.store r l).2.1, (s.store r l).2.2⟩ :
      Run Station β Value) ⟨.ok (.flag (s.store r l').1), (s.store r l').2.1, (s.store r l').2.2⟩
    rw [hb]
    exact .ok _ hs.eq hk
  | read q => exact alike_read hl s now q

/-- **And so does what a request does.** -/
theorem alike_execute (s : Station) (now : Nat) (q : Request) :
    (s.execute now l q).Alike R (· = ·) (s.execute now l' q) := by
  cases q with
  | allCategories => exact (alike_afterRefresh hl _ s now).map _
  | category name => exact (alike_afterRefresh hl _ s now).map _
  | availableCommands => exact (alike_afterRefresh hl _ s now).map _
  | activeBench => exact (alike_afterRefresh hl _ s now).map _
  | writeToCard card label level =>
    simp only [execute]
    cases level.toBool with
    | error f => exact .error (.same f) rfl hl
    | ok v => exact (alike_write hl s (.card card label v)).map _
  | writeToExpander number pin level =>
    simp only [execute]
    cases pinArguments number pin level with
    | error f => exact .error (.same f) rfl hl
    | ok x => exact (alike_write hl s (.expander x.1 x.2.1 x.2.2)).map _
  | sendCommand name force => exact (alike_sendCommand hl s name force now).map _
  | updateRegisters => exact (alike_update hl s).map _
  | switchBench name =>
    have h := alike_switchBench hl s name
    simp only [execute]
    generalize s.switchBench name l = r, s.switchBench name l' = r' at h ⊢
    cases h with
    | @ok u t t' ht k k' hk =>
      subst ht
      exact (alike_afterRefresh hk _ t now).map _
    | error hf ht hk => exact .error hf ht hk
  -- what only looks at the station asks no bus
  | _ => exact (Run.Alike.of_result _ s hl).map _

/-- **A demand is met alike**, and leaves the same station. -/
theorem alike_meet (s : Station) (d : Demand) :
    (s.meet l d).1.Alike R (s.meet l' d).1 ∧ (s.meet l d).2.1 = (s.meet l' d).2.1 ∧
      (s.meet l d).2.2.Alike R (s.meet l' d).2.2 := by
  cases d with
  | perform now op =>
    have h := alike_perform hl s now op
    exact ⟨.result h.result, h.state, h.link⟩
  | ask clock q =>
    have h := alike_execute hl s clock.now q
    simp only [meet, handle]
    generalize s.execute clock.now l q = r, s.execute clock.now l' q = r' at h ⊢
    cases h with
    | ok data ht hk => exact ⟨.answer (.same _), ht, hk⟩
    | error hf ht hk => exact ⟨.answer (.fault _ _ hf), ht, hk.note ..⟩

theorem alike_serve (s : Station) (ds : List Demand) :
    List.Forall₂ (Given.Alike R) (s.serve l ds).1 (s.serve l' ds).1 ∧
      (s.serve l ds).2.1 = (s.serve l' ds).2.1 ∧
      (s.serve l ds).2.2.Alike R (s.serve l' ds).2.2 := by
  induction ds generalizing s l l' with
  | nil => exact ⟨.nil, rfl, hl⟩
  | cons d ds ih =>
    obtain ⟨hgiven, hstation, hk⟩ := alike_meet hl s d
    obtain ⟨hrest, hend⟩ := ih hk (s.meet l d).2.1
    rw [serve, serve, ← hstation]
    exact ⟨.cons hgiven hrest, hend⟩

end Alike

/-- **On buses that refuse the same writes, a run is the same but for the reasons of the buses**:
what is given back for each demand, the attempts and events in their order, and the station in the
end. -/
theorem reasons_unseen {b : β} {d : δ} (h : Bus.Alike R b d) (s : Station) (ds : List Demand) :
    let r := s.serve (.ofBus b) ds
    let r' := s.serve (.ofBus d) ds
    List.Forall₂ (Given.Alike R) r.1 r'.1 ∧ r.2.1 = r'.2.1 ∧
      List.Forall₂ (Entry.Alike R) r.2.2.journal.deeds r'.2.2.journal.deeds := by
  intro r r'
  obtain ⟨hgiven, hstation, hlink⟩ := alike_serve (Link.alike_ofBus h) s ds
  exact ⟨hgiven, hstation, hlink.deeds⟩

/-- The expander of the lamp is off the bus, and each bus has its own words for that.  The lamp
counts as lit all the same, so that the command to light it is forbidden in both runs. -/
theorem reasons_unseen_offline :
    let b : SimulatedBus := ⟨[], [0x20]⟩
    let d : I2cBus FaultyPeripheral := ⟨⟨[(0x20, .noAcknowledge .address)], []⟩⟩
    let s := enter lampConfiguration lampBench
    let ds : List Demand := [.perform 0 .start, .perform 1 (.write (.card "J1" "A" true)),
      .ask ⟨2, 0⟩ (.sendCommand "lit" false)]
    let r := s.serve (.ofBus b) ds
    let r' := s.serve (.ofBus d) ds
    Bus.Alike (fun _ _ => True) b d ∧
      List.Forall₂ (Given.Alike fun _ _ => True) r.1 r'.1 ∧ r.2.1 = r'.2.1 ∧
      List.Forall₂ (Entry.Alike fun _ _ => True) r.2.2.journal.deeds r'.2.2.journal.deeds ∧
      r.2.2.journal.events = [.busFault
        "I2C bus error: write to 0x20 register 0x12 failed: device offline (simulated)"] ∧
      r'.2.2.journal.events = [.busFault
        "I2C bus error: write to 0x20 register 0x12 failed: NoAcknowledge(Address)"] ∧
      r.1[2]? = some (.answer (.ofFault 0 "sendCommand" (.forbiddenCommand "lit"))) := by
  intro b d s ds r r'
  have h : Bus.Alike (fun _ _ => True) b d := by
    refine SimulatedBus.alike_i2c (fun _ _ => trivial) fun address => ?_
    by_cases ha : address = 0x20
    · subst ha
      rfl
    · simp [b, FaultyPeripheral.fault?, List.lookup_cons, beq_eq_false_iff_ne.mpr ha, ha]
  obtain ⟨hgiven, hstation, hdeeds⟩ := reasons_unseen h s ds
  exact ⟨h, hgiven, hstation, hdeeds, by decide +kernel, by decide +kernel, rfl⟩

end Station

end PinBench
