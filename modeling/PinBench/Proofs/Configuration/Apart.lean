import PinBench.Bus.Simulated
import PinBench.Proofs.Configuration.Check
import PinBench.Proofs.PinWrite.Call

/-!
# Registers with two groups

The check of a configuration goes through the pin numbers of all groups, but not through their
registers.  Two groups on one register have their pins at the same bits of it.

* `Rig.Isolated`: a write moves no bit but that of its own pin.
* `Hardware.Unshared`: no two groups with pins are on one register.
* `Rig.not_isolated`: **where two pins share a bit, a write to one moves the other**.
* `Configuration.apart_iff`: **pins have bits of their own in a configuration that passes its check
  if no register is shared, and only then**; and only then are writes isolated.
* `Configuration.shared_bit`: a configuration that passes its check, with two pins on one bit.
-/

namespace PinBench

/-- A write that finds its bit moves no other, whatever the bus makes of it. -/
def Rig.Isolated (t : Rig) : Prop :=
  ∀ (β : Type) [Bus β] (l : Link β) (q : PinCall) (w : Wiring) (s : Site), q.site t = .ok (w, s) →
    ∀ v, v ≠ w → (q.run t l).state.bit? v = t.bit? v

/-- No two groups with pins are on one register. -/
def Hardware.Unshared (h : Hardware) : Prop :=
  ∀ g ∈ h.groups, ∀ g' ∈ h.groups, g.pins ≠ [] → g'.pins ≠ [] → g.register = g'.register → g = g'

theorem Rig.Apart.of_shape {t t' : Rig} (h : t.Apart) (hs : t'.shape = t.shape) : t'.Apart := by
  intro p q a b ha hb
  rw [← locate_shape, hs, locate_shape] at ha hb
  exact h p q a b ha hb

theorem Rig.Apart.isolated {t : Rig} (h : t.Apart) : t.Isolated := by
  intro β _ l q w s hs v hv
  exact PinCall.bit?_run_of_ne hs l h hv

/-! ## Sharing a bit -/

section Shared

variable {t : Rig} {p q : UInt8} {a b : BitPlace} (ha : t.locate p .caller = .ok a)
  (hb : t.locate q .caller = .ok b) (hr : a.register = b.register) (hbit : a.bit = b.bit)
include ha hb hr hbit

/-- Pins at one bit of a register read alike on every expander. -/
theorem Rig.bit?_eq_of_shared (n : UInt8) : t.bit? ⟨n, p⟩ = t.bit? ⟨n, q⟩ := by
  unfold bit? site?
  dsimp only
  rw [ha, hb]
  cases t.expander n .caller with
  | error f => rfl
  | ok e =>
    dsimp only
    rw [hr]
    cases e.registers.get? b.register with
    | none => rfl
    | some r =>
      show some (a.bit.test r) = some (b.bit.test r)
      rw [hbit]

/-- **Where two pins share a bit, a write to one moves the other.** -/
theorem Rig.not_isolated {w : Site} {n : UInt8} (hs : t.site? ⟨n, p⟩ = some w) (hne : p ≠ q) :
    ¬t.Isolated := by
  intro h
  have hc := PinCall.site_of_site? hs (!w.level)
  let l := Link.ofBus SimulatedBus.empty
  let r := (PinCall.expander n p (!w.level)).run t l
  have hp : r.state.bit? ⟨n, p⟩ = some (!w.level) := PinCall.bit?_run hc l
  have hq : r.state.bit? ⟨n, q⟩ = t.bit? ⟨n, q⟩ :=
    h _ l _ _ _ hc ⟨n, q⟩ fun he => hne (congrArg Wiring.pin he).symm
  have hloc : ∀ pin, r.state.locate pin .caller = t.locate pin .caller := by
    intro pin
    rw [← locate_shape, PinCall.shape_run, locate_shape]
  have hsame := bit?_eq_of_shared ((hloc p).trans ha) ((hloc q).trans hb) hr hbit n
  rw [hp, hq, ← bit?_eq_of_shared ha hb hr hbit n, bit?, hs, Option.map_some,
    Option.some.injEq] at hsame
  cases hw : w.level <;> rw [hw] at hsame <;> cases hsame

end Shared

/-! ## Configurations -/

namespace Configuration

variable {c : Configuration}

theorem apart_of_unshared (hs : c.hardware.Sound) (h : c.hardware.Unshared) (b : Bench) :
    (c.rig b).Apart := by
  intro p q a a' ha ha' hr hbit
  obtain ⟨g, hg, hp, hgr, -⟩ := Rig.group_of_locate (t := c.rig b) hs.sizes ha
  obtain ⟨g', hg', hq, hgr', -⟩ := Rig.group_of_locate (t := c.rig b) hs.sizes ha'
  have hreg : g.register = g'.register := by
    apply UInt64.toNat_inj.mp
    rw [← hgr, ← hgr', hr]
  obtain rfl := h g hg g' hg' (List.ne_nil_of_mem (List.mem_of_getElem? hp))
    (List.ne_nil_of_mem (List.mem_of_getElem? hq)) hreg
  rw [hbit, hq, Option.some.injEq] at hp
  exact hp.symm

/-- The lowest bits of a shared register have two pins. -/
theorem shared_of_not_unshared (hs : c.hardware.Sound) (h : ¬c.hardware.Unshared) (b : Bench) :
    ∃ p q a a', (c.rig b).locate p .caller = .ok a ∧ (c.rig b).locate q .caller = .ok a' ∧
      a.register = a'.register ∧ a.bit = a'.bit ∧ p ≠ q ∧
      ∀ e ∈ c.hardware.expanders, a.register < e.registers.bytes.length := by
  unfold Hardware.Unshared at h
  push Not at h
  obtain ⟨g, hg, g', hg', hp, hq, hr, hne⟩ := h
  obtain ⟨p, ps, hp⟩ := List.exists_cons_of_ne_nil hp
  obtain ⟨q, qs, hq⟩ := List.exists_cons_of_ne_nil hq
  have hp₀ : g.pins[(0 : Bit).val]? = some p := by rw [hp]; rfl
  have hq₀ : g'.pins[(0 : Bit).val]? = some q := by rw [hq]; rfl
  have ha := Rig.locate_of_mem (t := c.rig b) hs.sizes hs.pinNumbers hg hp₀ .caller
  have ha' := Rig.locate_of_mem (t := c.rig b) hs.sizes hs.pinNumbers hg' hq₀ .caller
  refine ⟨p, q, _, _, ha, ha', congrArg UInt64.toNat hr, rfl, ?_, hs.present g hg⟩
  rintro rfl
  exact hne (eq_of_mem_flatMap hs.pinNumbers hg hg' (hp ▸ List.mem_cons_self)
    (hq ▸ List.mem_cons_self))

theorem apart_iff_unshared (hs : c.hardware.Sound) (b : Bench) :
    (c.rig b).Apart ↔ c.hardware.Unshared := by
  refine ⟨fun h => ?_, fun h => apart_of_unshared hs h b⟩
  by_contra hu
  obtain ⟨p, q, a, a', ha, ha', hr, hbit, hne, -⟩ := shared_of_not_unshared hs hu b
  exact hne (h p q a a' ha ha' hr hbit)

/-- Without expanders there is no bit to find. -/
theorem isolated_of_no_expanders {t : Rig} (h : t.expanders = []) : t.Isolated := by
  intro β _ l q w s hs
  obtain ⟨e, he, -⟩ := (Rig.site?_eq_some_iff .caller .caller).mp (PinCall.site?_of_site hs)
  rw [Rig.expander_ok_iff, h] at he
  cases he

theorem not_isolated_of_shared (hs : c.hardware.Sound) (h : ¬c.hardware.Unshared)
    (he : c.hardware.expanders ≠ []) (b : Bench) : ¬(c.rig b).Isolated := by
  obtain ⟨p, q, a, a', ha, ha', hr, hbit, hne, hreg⟩ := shared_of_not_unshared hs h b
  obtain ⟨e, es, hes⟩ := List.exists_cons_of_ne_nil he
  have hfind : (c.rig b).expander e.number .caller = .ok e := by
    rw [Rig.expander_ok_iff]
    show c.hardware.expanders.find? _ = some e
    rw [hes]
    exact List.find?_cons_of_pos (beq_self_eq_true e.number)
  have hbyte := List.getElem?_eq_getElem (hreg e (hes ▸ List.mem_cons_self))
  have hsite := (Rig.site?_eq_some_iff (t := c.rig b) (w := ⟨e.number, p⟩)
    (s := ⟨e.address, a, _⟩) .caller .caller).mpr ⟨e, hfind, ha, hbyte, rfl⟩
  exact Rig.not_isolated ha ha' hr hbit hsite hne

/-- **In a configuration that passes its check, pins have bits of their own if no register is
shared, and only then; and only then does no write move the bit of another pin**, with the registers
and levels at whatever they have come to, unless there are no expanders at all. -/
theorem apart_iff (hc : c.check = .ok ()) (b : Bench) :
    ((c.rig b).Apart ↔ c.hardware.Unshared) ∧
      ((∀ t : Rig, t.shape = (c.rig b).shape → t.Isolated) ↔
        c.hardware.Unshared ∨ c.hardware.expanders = []) := by
  obtain ⟨hs, -⟩ := check_eq_ok.mp hc
  refine ⟨apart_iff_unshared hs b, fun h => ?_, fun h t ht => ?_⟩
  · by_contra hu
    rw [not_or] at hu
    exact not_isolated_of_shared hs hu.1 hu.2 b (h _ rfl)
  · rcases h with h | h
    · exact ((apart_of_unshared hs h b).of_shape ht).isolated
    · have he : t.expanders.map Expander.shape = [] := by
        rw [← show t.shape.expanders = t.expanders.map Expander.shape from rfl, ht]
        show c.hardware.expanders.map Expander.shape = []
        rw [h, List.map_nil]
      exact isolated_of_no_expanders (List.map_eq_nil_iff.mp he)

/-- An expander with two registers and two groups of one pin; the first group is on register 0. -/
def secondOn (register : UInt64) : Configuration :=
  ⟨"a", ⟨false, [⟨1, 0x20, ⟨[0, 0], by decide⟩⟩],
    [⟨[0], 0, 0x12, 0x00, 0⟩, ⟨[1], register, 0x13, 0x01, 0⟩]⟩, [⟨"a", [], [], [], []⟩]⟩

/-- A register for each group. -/
theorem apart_iff_secondOn :
    let c := secondOn 1
    let t := c.rig ⟨"a", [], [], [], []⟩
    c.check = .ok () ∧ c.hardware.Unshared ∧ t.Apart ∧
      ∀ t' : Rig, t'.shape = t.shape → t'.Isolated := by
  have hc : (secondOn 1).check = .ok () := rfl
  have hu : (secondOn 1).hardware.Unshared := by
    unfold Hardware.Unshared
    decide
  obtain ⟨ha, hi⟩ := apart_iff hc ⟨"a", [], [], [], []⟩
  exact ⟨hc, hu, ha.mpr hu, hi.mpr (.inl hu)⟩

/-- One register for both groups passes the check.  Their pins are at one bit, and a write to the
one moves the other. -/
theorem shared_bit :
    let c := secondOn 0
    let t := c.rig ⟨"a", [], [], [], []⟩
    let r := (PinCall.expander 1 0 true).run t (.ofBus SimulatedBus.empty)
    c.check = .ok () ∧
      (∃ a b, t.locate 0 .caller = .ok a ∧ t.locate 1 .caller = .ok b ∧
        a.register = b.register ∧ a.bit = b.bit) ∧
      t.bit? ⟨1, 1⟩ = some false ∧ r.state.bit? ⟨1, 1⟩ = some true :=
  ⟨rfl, ⟨_, _, rfl, rfl, rfl, rfl⟩, rfl, rfl⟩

end Configuration

end PinBench
