import PinBench.Station.Writes
import PinBench.Proofs.PinWrite.Call

/-!
# Operations on a station

Everything that can be done to a station between two requests, as data, and the stations that come
of it.

* `RuleRead`: a question whose answer depends on the categories.
* `Operation`, `Station.perform`: an operation, and what it does and gives.
* `Reachable`: the stations that operations lead to, on any links and at any times.
* `Station.write_eq`: **a write that moves nothing leaves the station alone, and one that does makes
  its categories stale**.
-/

namespace PinBench

/-- A question whose answer depends on the categories. -/
inductive RuleRead where
  | categories
  | category (name : String)
  | code (name : String)
  | availableCommands
  | isAvailable (short : String)
  | view
  deriving DecidableEq

inductive Operation where
  | start
  | update
  | switchBench (name : String)
  | write (q : PinCall)
  | sendCommand (short : String) (force : Bool)
  | store (r : Reading)
  | read (q : RuleRead)
  deriving DecidableEq

/-- What an operation gives. -/
inductive Value where
  | done
  | outcome (o : Outcome)
  | count (n : Nat)
  | flag (b : Bool)
  | categories (cs : List Category)
  | category (c : Category)
  | code (n : Int32)
  | commands (cs : List Command)
  | bench (b : Bench)
  deriving DecidableEq

namespace Station

variable {β : Type}

def read (s : Station) (now : Nat) (l : Link β) : RuleRead → Run Station β Value
  | .categories => (s.categories now l).map .categories
  | .category name => (category name s now l).map .category
  | .code name => (code name s now l).map .code
  | .availableCommands => (s.availableCommands now l).map .commands
  | .isAvailable short => (isAvailable short s now l).map .flag
  | .view => (s.view now l).map .bench

variable [Bus β]

def write (s : Station) (l : Link β) : PinCall → Run Station β Outcome
  | .card card label level => s.writeCard card label level l
  | .expander number pin level => s.writePin number pin level l

def perform (s : Station) (now : Nat) (l : Link β) : Operation → Run Station β Value
  | .start => (s.start l).map fun _ => .done
  | .update => (s.update l).map fun _ => .done
  | .switchBench name => (s.switchBench name l).map fun _ => .done
  | .write q => (s.write l q).map .outcome
  | .sendCommand short force => (s.sendCommand short force now l).map .count
  | .store r => ⟨.ok (.flag (s.store r l).1), (s.store r l).2.1, (s.store r l).2.2⟩
  | .read q => s.read now l q

end Station

/-- The stations of a configuration after any operations, whatever the bus makes of each and
whatever the clock shows. -/
inductive Reachable (c : Configuration) : Station → Prop where
  | new {name? : Option String} {s : Station} (h : Station.ofConfiguration c name? = .ok s) :
      Reachable c s
  | perform {s : Station} (h : Reachable c s) {β : Type} [Bus β] (l : Link β) (now : Nat)
      (op : Operation) : Reachable c (s.perform now l op).state

/-! ## Pin writes -/

namespace Station

variable {β : Type}

/-- A fault that is not of the bus is not tracked. -/
theorem track_of_offBus {f : Fault} (hf : f.isBus = false) (s : Station) (l : Link β) :
    s.track ⟨.error f, s.rig, l⟩ = ⟨.error f, s, l⟩ := by
  unfold track
  dsimp only
  rw [hf]
  rfl

variable [Bus β]

theorem write_eq_track (s : Station) (l : Link β) (q : PinCall) :
    s.write l q = s.track (q.run s.rig l) := by
  cases q <;> rfl

/-- A write that moves nothing leaves the station alone; one that does makes the categories stale,
and is told. -/
theorem write_eq (s : Station) (l : Link β) (q : PinCall) :
    (q.run s.rig l).state = s.rig ∧
        s.write l q = ⟨(q.run s.rig l).result, s, (q.run s.rig l).link⟩ ∨
      ∃ e, s.write l q =
        ⟨(q.run s.rig l).result, s.touch (q.run s.rig l).state, (q.run s.rig l).link.tell e⟩ := by
  rw [write_eq_track]
  have h := q.run_ending s.rig l
  generalize q.run s.rig l = r at h ⊢
  cases h with
  | refused h => exact .inl ⟨rfl, track_of_offBus (q.offBus_site s.rig _ h) s l⟩
  | idle h hl severity text => exact .inl ⟨rfl, rfl⟩
  | @moved w site h hl severity text =>
    refine .inr ?_
    cases Link.outcome l.bus (site.write q.level) with
    | ok u => exact ⟨_, rfl⟩
    | error f => exact ⟨_, rfl⟩

/-- A write through a station is the write of its rig. -/
theorem result_write (s : Station) (l : Link β) (q : PinCall) :
    (s.write l q).result = (q.run s.rig l).result := by
  rcases s.write_eq l q with ⟨-, h⟩ | ⟨e, h⟩ <;> rw [h]

theorem rig_write (s : Station) (l : Link β) (q : PinCall) :
    (s.write l q).state.rig = (q.run s.rig l).state := by
  rcases s.write_eq l q with ⟨hr, h⟩ | ⟨e, h⟩
  · rw [h, hr]
  · rw [h]
    rfl

end Station

end PinBench
