import PinBench.Proofs.Mirror
import PinBench.Proofs.PinWrite.Spot
import PinBench.Proofs.Rig.Levels

/-!
# Pin writes commute

Two pin writes to different spots can change places.  Bits of one byte commute as bits of different
bytes do, and the card pins that follow the one call are none of those that follow the other, since
they are wired elsewhere.

* `PinCall.levelled_comm`, `PinCall.after_comm`: the rigs after two calls.
* `PinCall.run_comm`: **calls to different spots end in one rig, ask the bus as often and are idle
  or effective alike, in whatever order**, and whatever the bus makes of the writes.
-/

namespace PinBench

/-! ## Calls -/

/-- Both are idle, or both are effective. -/
def SameChoice (x y : Except Fault Outcome) : Prop :=
  (x = .ok .unchanged ∧ y = .ok .unchanged) ∨ (Effective x ∧ Effective y)

theorem SameChoice.symm {x y : Except Fault Outcome} (h : SameChoice x y) : SameChoice y x :=
  h.imp And.symm And.symm

namespace PinCall

variable {t : Rig} {q q' : PinCall} {a b : Spot}

theorem levelled_comm (h : q.spot t = .ok a) (h' : q'.spot t = .ok b) (hne : a ≠ b) :
    q'.levelled (q.levelled t) = q.levelled (q'.levelled t) := by
  obtain ⟨w, s, hs, rfl⟩ := exists_site_of_spot h
  obtain ⟨w', s', hs', rfl⟩ := exists_site_of_spot h'
  have hw : w ≠ w' := by
    rintro rfl
    cases Option.some.inj ((site?_of_site hs).symm.trans (site?_of_site hs'))
    exact hne rfl
  cases q with
  | card card label level =>
    obtain ⟨p, hp, rfl⟩ := pin_of_site hs
    cases q' with
    | card card' label' level' =>
      obtain ⟨p', hp', rfl⟩ := pin_of_site hs'
      apply Rig.setPin_comm
      rintro rfl rfl
      cases hp.symm.trans hp'
      exact hw rfl
    | expander number' pin' level' =>
      obtain rfl := wiring_of_site hs'
      exact Rig.setWired_setPin hp hw
  | expander number pin level =>
    obtain rfl := wiring_of_site hs
    cases q' with
    | card card' label' level' =>
      obtain ⟨p', hp', rfl⟩ := pin_of_site hs'
      exact (Rig.setWired_setPin hp' hw.symm).symm
    | expander number' pin' level' =>
      obtain rfl := wiring_of_site hs'
      exact Rig.setWired_comm hw

/-- **The rigs after two calls to different spots.** -/
theorem after_comm (h : q.spot t = .ok a) (h' : q'.spot t = .ok b) (hne : a ≠ b) :
    q'.after (q.after t a) b = q.after (q'.after t b) a := by
  have hb := levelAt?_after_of_ne (q := q) (t := t) hne.symm
  have ha := levelAt?_after_of_ne (q := q') (t := t) hne
  by_cases hq : t.levelAt? a = some q.level
  · rw [after_of_level hq, after_of_level (ha.trans hq)]
  · by_cases hq' : t.levelAt? b = some q'.level
    · rw [after_of_level (hb.trans hq'), after_of_level hq']
    · rw [after_of_level_ne (hb ▸ hq'), after_of_level_ne hq, after_of_level_ne (ha ▸ hq),
        after_of_level_ne hq', ← levelled_setBit, ← levelled_setBit, levelled_comm h h' hne,
        Rig.setBit_comm hne.symm]

variable {β δ : Type} [Bus β] [Bus δ]

theorem sameChoice_of_level {t' : Rig} (h : q.spot t = .ok a) (hs : t'.shape = t.shape)
    (hl : t'.levelAt? a = t.levelAt? a) (l : Link β) (k : Link δ) :
    SameChoice (q.run t' l).result (q.run t k).result := by
  have h' := (spot_of_shape hs q).trans h
  by_cases hq : t.levelAt? a = some q.level
  · exact .inl ⟨(unchanged_iff h' l).mpr (hl.trans hq), (unchanged_iff h k).mpr hq⟩
  · exact .inr ⟨(effective_iff h' l).mpr (hl ▸ hq), (effective_iff h k).mpr hq⟩

/-- **Calls to different spots commute**, whatever the bus makes of the writes in either order: the
rig after both is the same, the bus is asked as often, and each call is idle or effective as it is
in the other order. -/
theorem run_comm (h : q.spot t = .ok a) (h' : q'.spot t = .ok b) (hne : a ≠ b) (l : Link β)
    (k : Link δ) :
    let r := q.run t l
    let r' := q'.run r.state r.link
    let s' := q'.run t k
    let s := q.run s'.state s'.link
    r'.state = s.state ∧
      (∃ n, r'.link.journal.attempts.length = l.journal.attempts.length + n ∧
        s.link.journal.attempts.length = k.journal.attempts.length + n) ∧
      SameChoice r.result s.result ∧ SameChoice r'.result s'.result := by
  intro r r' s' s
  have hshape := shape_run t l q
  have hshape' := shape_run t k q'
  have hr : r.state = q.after t a := state_run h l
  have hs' : s'.state = q'.after t b := state_run h' k
  have hb : r.state.levelAt? b = t.levelAt? b := by
    rw [hr, levelAt?_after_of_ne hne.symm]
  have ha : s'.state.levelAt? a = t.levelAt? a := by
    rw [hs', levelAt?_after_of_ne hne]
  have hq' : q'.spot r.state = .ok b := (spot_of_shape hshape q').trans h'
  have hq : q.spot s'.state = .ok a := (spot_of_shape hshape' q).trans h
  have hstate : r'.state = s.state := by
    rw [state_run hq' r.link, state_run hq s'.link, hr, hs', after_comm h h' hne]
  have hlength : r'.link.journal.attempts.length =
      l.journal.attempts.length + (q.cost t a + q'.cost t b) := by
    rw [length_attempts_run hq' r.link, length_attempts_run h l, cost, cost, cost, hb,
      Nat.add_assoc]
  have hlength' : s.link.journal.attempts.length =
      k.journal.attempts.length + (q.cost t a + q'.cost t b) := by
    rw [length_attempts_run hq s'.link, length_attempts_run h' k, cost, cost, cost, ha,
      Nat.add_assoc, Nat.add_comm (ite ..)]
  exact ⟨hstate, ⟨_, hlength, hlength'⟩, (sameChoice_of_level h hshape' ha s'.link l).symm,
    sameChoice_of_level h' hshape hb r.link k⟩

/-- Two bits of one byte, on a device that is offline in the one order and answers in the other. -/
theorem run_comm_pair :
    let q := PinCall.card "J1" "A" true
    let q' := PinCall.expander 1 1 true
    let l := Link.ofBus (SimulatedBus.empty.setOffline 0x20 true)
    let k := Link.ofBus SimulatedBus.empty
    q.spot RigCall.pair = .ok ⟨1, 0, 0⟩ ∧ q'.spot RigCall.pair = .ok ⟨1, 0, 1⟩ ∧
      (q'.run (q.run RigCall.pair l).state (q.run RigCall.pair l).link).state =
        (q.run (q'.run RigCall.pair k).state (q'.run RigCall.pair k).link).state := by
  intro q q' l k
  have h : q.spot RigCall.pair = .ok ⟨1, 0, 0⟩ := by decide +kernel
  have h' : q'.spot RigCall.pair = .ok ⟨1, 0, 1⟩ := by decide +kernel
  exact ⟨h, h', (run_comm h h' (by decide) l k).1⟩

end PinCall

end PinBench
