import PinBench.BringUp
import PinBench.Proofs.PinWrite.Call
import PinBench.Proofs.Rig.WellFormed

/-!
# Moves

Whatever is done to a well-formed rig and its link is done in moves of a few kinds.

* `Move`: a line in the journal, a direction write, a level for card pins whose bit has it already,
  or a bit that takes a level together with its card pin.
* `Moves`: moves in turn; they keep the shape (`Moves.shape`).
* `Moves.keep`: **what every move keeps holds after all of them**.
* `PinCall.moves_run`: **a pin write is moves**.
-/

namespace PinBench

variable {β : Type} [Bus β]

/-- One thing that happens to a rig and its link. -/
inductive Move (t : Rig) (l : Link β) : Rig → Link β → Prop where
  | note (severity : Severity) (text : String) : Move t l t (l.note severity text)
  | tell (e : Event) : Move t l t (l.tell e)
  | direct {e : Expander} (he : e ∈ t.expanders) {g : PinGroup} (hg : g ∈ t.groups) :
      Move t l t (l.write (g.directionWrite e)).2
  /-- The bit has the level, unless there is no bit. -/
  | level (w : Wiring) (level : Bool) (h : ∀ b, t.bit? w = some b → b = level) :
      Move t l (t.setWired w level) l
  | settle {w : Wiring} {s : Site} (h : t.site? w = some s) (level : Bool) (hl : s.level ≠ level) :
      Move t l (t.settle w s level) (l.write (s.write level)).2

/-- Moves in turn. -/
inductive Moves : Rig → Link β → Rig → Link β → Prop
  | refl (t : Rig) (l : Link β) : Moves t l t l
  | tail {t t₁ t₂ : Rig} {l l₁ l₂ : Link β} (prior : Moves t l t₁ l₁) (m : Move t₁ l₁ t₂ l₂) :
      Moves t l t₂ l₂

theorem Move.shape {t t' : Rig} {l l' : Link β} (m : Move t l t' l') : t'.shape = t.shape := by
  cases m with
  | note severity text => rfl
  | tell e => rfl
  | direct he hg => rfl
  | level w level h => exact Rig.shape_setWired t w level
  | settle h level hl => exact Rig.shape_settle t _ _ level

namespace Moves

theorem single {t t' : Rig} {l l' : Link β} (m : Move t l t' l') : Moves t l t' l' :=
  .tail (.refl t l) m

theorem trans {t t₁ t₂ : Rig} {l l₁ l₂ : Link β} (h : Moves t l t₁ l₁) (g : Moves t₁ l₁ t₂ l₂) :
    Moves t l t₂ l₂ := by
  induction g with
  | refl => exact h
  | tail prior m ih => exact .tail (ih h) m

theorem shape {t t' : Rig} {l l' : Link β} (h : Moves t l t' l') : t'.shape = t.shape := by
  induction h with
  | refl => rfl
  | tail prior m ih => exact m.shape.trans ih

theorem keep {P : Rig → Link β → Prop}
    (hm : ∀ {t t' : Rig} {l l' : Link β}, t.WellFormed → P t l → Move t l t' l' → P t' l')
    {t t' : Rig} {l l' : Link β} (ht : t.WellFormed) (hp : P t l) (h : Moves t l t' l') :
    P t' l' := by
  induction h with
  | refl => exact hp
  | tail prior m ih => exact hm (ht.of_shape prior.shape) (ih hp) m

end Moves

/-! ## Pin writes -/

namespace PinCall

/-- In a well-formed rig both kinds of call give their level to the same card pins. -/
theorem levelled_eq {t : Rig} (ht : t.WellFormed) {q : PinCall} {w : Wiring} {s : Site}
    (h : q.site t = .ok (w, s)) : q.levelled t = t.setWired w q.level := by
  cases q with
  | card c label level =>
    obtain ⟨p, hp, rfl⟩ := pin_of_site h
    exact ht.setPin_eq_setWired hp level
  | expander number pin level => rw [wiring_of_site h, levelled, PinCall.level]

theorem after_change {t : Rig} (ht : t.WellFormed) {q : PinCall} {w : Wiring} {s : Site}
    (h : q.site t = .ok (w, s)) : (q.change t w s).after = t.settle w s q.level := by
  rw [change, levelled_eq ht h, Rig.settle]

/-- **A pin write is moves.** -/
theorem moves_run {t : Rig} (ht : t.WellFormed) (l : Link β) (q : PinCall) :
    Moves t l (q.run t l).state (q.run t l).link := by
  have h := run_ending t l q
  generalize q.run t l = r at h ⊢
  cases h with
  | refused h => exact .refl t l
  | idle h hl severity text => exact .single (.note severity text)
  | @moved w s h hl severity text =>
    dsimp only
    rw [after_change ht h]
    exact .tail (.single (.settle (site?_of_site h) q.level hl)) (.note severity text)

end PinCall

end PinBench
