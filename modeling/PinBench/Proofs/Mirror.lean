import PinBench.Bus.Simulated
import PinBench.Proofs.BringUp

/-!
# Card pins mirror register bits

A card pin with a level has the level of its register bit, through any pin writes and bring-ups.

* `Rig.Mirrors`: every card pin with a level has the level of its bit, if it has a bit.
* `Rig.Keeps`: every card pin is still there, and has a level if it had one.
* `Move.mirrors`, `Move.keeps`: what one move keeps.
* `RigCall`: a pin write, or the levels of a bring-up.
* `RigCall.mirrors_runAll`: **no run of such calls breaks the mirror or loses a level**.
-/

namespace PinBench

namespace Rig

/-- A card pin with a level has the level of its register bit. -/
def Mirrors (t : Rig) : Prop :=
  ∀ p ∈ t.pins, ∀ level b, p.level? = some level → t.bit? p.wiring = some b → level = b

/-- The card pins stand where they stood, and those with a level have one. -/
def Keeps (t t' : Rig) : Prop :=
  t'.shape = t.shape ∧ ∀ (i : Nat) (p : CardPin), t.pins[i]? = some p → p.level?.isSome →
    ∃ p', t'.pins[i]? = some p' ∧ p'.label = p.label ∧ p'.wiring = p.wiring ∧ p'.level?.isSome

theorem Keeps.refl (t : Rig) : t.Keeps t := ⟨rfl, fun _ p hp hl => ⟨p, hp, rfl, rfl, hl⟩⟩

theorem Keeps.trans {t t₁ t₂ : Rig} (h : t.Keeps t₁) (g : t₁.Keeps t₂) : t.Keeps t₂ := by
  refine ⟨g.1.trans h.1, fun i p hp hl => ?_⟩
  obtain ⟨p₁, hp₁, hlab₁, hw₁, hl₁⟩ := h.2 i p hp hl
  obtain ⟨p₂, hp₂, hlab₂, hw₂, hl₂⟩ := g.2 i p₁ hp₁ hl₁
  exact ⟨p₂, hp₂, hlab₂.trans hlab₁, hw₂.trans hw₁, hl₂⟩

theorem keeps_setWired (t : Rig) (w : Wiring) (level : Bool) : t.Keeps (t.setWired w level) := by
  refine ⟨shape_setWired t w level, ?_⟩
  intro i p hp hl
  rw [pins_setWired, List.getElem?_map, hp]
  refine ⟨_, rfl, ?_⟩
  dsimp only
  by_cases hw : p.wiring = w
  · rw [if_pos hw]
    exact ⟨rfl, rfl, rfl⟩
  · rw [if_neg hw]
    exact ⟨rfl, rfl, hl⟩

end Rig

/-! ## One move -/

variable {β : Type} [Bus β]

theorem Move.mirrors {t t' : Rig} {l l' : Link β} (ht : t.WellFormed) (hm : t.Mirrors)
    (m : Move t l t' l') : t'.Mirrors := by
  cases m with
  | note severity text => exact hm
  | tell e => exact hm
  | direct he hg => exact hm
  | level w level h =>
    intro p hp v b hv hb
    rcases Rig.mem_pins_setWired hp with ⟨hw, hl⟩ | ⟨-, hq⟩
    · rw [hl, Option.some.injEq] at hv
      rw [hw] at hb
      exact hv.symm.trans (h b hb).symm
    · exact hm p hq v b hv hb
  | settle h level hl =>
    intro p hp v b hv hb
    rw [ht.bit?_settle h] at hb
    rcases Rig.mem_pins_setWired hp with ⟨hw, hl⟩ | ⟨hw, hq⟩
    · rw [if_pos hw, ← hl, hv, Option.some.injEq] at hb
      exact hb
    · rw [if_neg hw] at hb
      exact hm p hq v b hv hb

theorem Move.keeps {t t' : Rig} {l l' : Link β} (m : Move t l t' l') : t.Keeps t' := by
  cases m with
  | note severity text => exact .refl t
  | tell e => exact .refl t
  | direct he hg => exact .refl t
  | level w level h => exact Rig.keeps_setWired t w level
  | settle h level hl => exact ⟨Rig.shape_settle t _ _ level, (Rig.keeps_setWired t _ level).2⟩

theorem Moves.keeps {t t' : Rig} {l l' : Link β} (h : Moves t l t' l') : t.Keeps t' := by
  induction h with
  | refl => exact .refl t
  | tail prior m ih => exact ih.trans m.keeps

/-! ## Runs -/

/-- A pin write, or the levels of a bring-up. -/
inductive RigCall where
  | write (q : PinCall)
  | initialise
  deriving DecidableEq

namespace RigCall

/-- The rig and the link after a call, whatever its result. -/
def run (t : Rig) (l : Link β) : RigCall → Rig × Link β
  | write q => ((q.run t l).state, (q.run t l).link)
  | initialise => ((initialisePins t l).state, (initialisePins t l).link)

def runAll (t : Rig) (l : Link β) : List RigCall → Rig × Link β
  | [] => (t, l)
  | q :: qs => runAll (q.run t l).1 (q.run t l).2 qs

theorem moves_run {t : Rig} (ht : t.WellFormed) (l : Link β) (q : RigCall) :
    Moves t l (q.run t l).1 (q.run t l).2 := by
  cases q with
  | write q => exact q.moves_run ht l
  | initialise => exact moves_initialisePins ht l

theorem moves_runAll {t : Rig} (ht : t.WellFormed) (l : Link β) (qs : List RigCall) :
    Moves t l (runAll t l qs).1 (runAll t l qs).2 := by
  induction qs generalizing t l with
  | nil => exact .refl t l
  | cons q qs ih =>
    have h := q.moves_run ht l
    exact h.trans (ih (ht.of_shape h.shape) _)

/-- **No run of calls breaks the mirror or loses a level**, whatever is called for and however the
bus answers. -/
theorem mirrors_runAll {t : Rig} (ht : t.WellFormed) (hm : t.Mirrors) (l : Link β)
    (qs : List RigCall) : (runAll t l qs).1.Mirrors ∧ t.Keeps (runAll t l qs).1 := by
  have h := moves_runAll ht l qs
  exact ⟨h.keep (P := fun t _ => t.Mirrors) (fun ht hm m => m.mirrors ht hm) ht hm, h.keeps⟩

/-- Two card pins in one byte, one with a level and one without. -/
def pair : Rig :=
  ⟨[⟨1, 0x20, .single⟩], [⟨[0, 1], 0, 0x12, 0x00, 0⟩],
    [⟨"J1", [⟨"A", ⟨1, 0⟩, some false⟩, ⟨"B", ⟨1, 1⟩, none⟩]⟩], false⟩

/-- Writes that are all lost on the bus keep the mirror. -/
theorem mirrors_runAll_pair :
    let l := Link.ofBus (SimulatedBus.empty.setOffline 0x20 true)
    let qs := [write (.card "J1" "A" true), initialise, write (.expander 1 1 true)]
    pair.WellFormed ∧ pair.Mirrors ∧ (runAll pair l qs).1.Mirrors ∧
      pair.Keeps (runAll pair l qs).1 := by
  have ht : pair.WellFormed :=
    ⟨by decide, by decide, by decide, by decide, by decide, by decide, by decide⟩
  have hm : pair.Mirrors := by
    unfold Rig.Mirrors
    decide
  exact ⟨ht, hm, mirrors_runAll ht hm _ _⟩

end RigCall

end PinBench
