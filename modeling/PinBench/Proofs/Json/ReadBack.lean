import PinBench.Configuration.Check
import PinBench.Proofs.Json.Variation
import PinBench.Request

/-!
# Configurations and requests are read back

The codec of every type of the configuration is lawful, and so is that of the requests: whatever is
written in JSON is read back as it was.  The records of a configuration are read whatever the order
of their members.

* `Expander.tolerant`, …, `Configuration.tolerant`: the types of a configuration, from the inside
  out, each with the `variation` of what is written that it tolerates.
* `Request.options_read`: **the name of a request tells how its options are read**.
* `Request.lawful`: the requests.
* `Codec.ReadsBack`: a codec whose texts are read back.
* `read_back`: **every value of every type is read back from its text**, and a configuration that
  passes its check comes back from its file.
-/

namespace PinBench

open Json (Codec Fields Values Variation)
open Json.Variation (same list record)
open Json.Codec (lawful_bool lawful_text lawful_byte lawful_word16 lawful_word64 lawful_int32
  lawful_hexByte)
open Json.Field (lawful_required lawful_withDefault lawful_ofOption tolerant_required
  tolerant_withDefault)

/-! ## Hardware -/

theorem RegisterBank.lawful : RegisterBank.codec.Lawful := by
  refine ⟨fun r => lawful_byte.itemsFit r.bytes, fun r => ?_⟩
  have hread := lawful_byte.readUpTo r.size_le
  have hwrite : (RegisterBank.codec.write r).outline =
      .arr (Json.itemOutlines (r.bytes.map Codec.byte.write)) none :=
    rfl
  rw [hwrite]
  simp only [RegisterBank.codec]
  split
  · next bytes h =>
    rw [hread] at h
    cases h
    rfl
  · next e h =>
    rw [hread] at h
    cases h

def Expander.variation : Variation :=
  record [("API_Address", same), ("address", same), ("registers", same)]

theorem Expander.tolerant : Expander.codec.Tolerant variation :=
  .record
    (.cons (lawful_required lawful_byte _).tolerant (by decide) <|
      .cons (lawful_required lawful_hexByte _).tolerant (by decide) <|
      .cons (lawful_required RegisterBank.lawful _).tolerant (by decide) .nil)
    fun _ => rfl

def PinGroup.variation : Variation :=
  record [("pins", same), ("register_number", same), ("gpio_register", same),
    ("iodir_register", same), ("direction", same)]

theorem PinGroup.tolerant : PinGroup.codec.Tolerant variation :=
  .record
    (.cons (lawful_required lawful_byte.list _).tolerant (by decide) <|
      .cons (lawful_required lawful_word64 _).tolerant (by decide) <|
      .cons (lawful_required lawful_hexByte _).tolerant (by decide) <|
      .cons (lawful_required lawful_hexByte _).tolerant (by decide) <|
      .cons (lawful_withDefault lawful_byte _ _).tolerant (by decide) .nil)
    fun _ => rfl

def Hardware.variation : Variation :=
  record [("defaultState", same), ("modules", list Expander.variation),
    ("pinout", list PinGroup.variation)]

theorem Hardware.tolerant : Hardware.codec.Tolerant variation :=
  .record
    (.cons (lawful_withDefault lawful_bool _ _).tolerant (by decide) <|
      .cons (tolerant_required Expander.tolerant.list _) (by decide) <|
      .cons (tolerant_required PinGroup.tolerant.list _) (by decide) .nil)
    fun _ => rfl

/-! ## Benches -/

def Wiring.variation : Variation := record [("Module", same), ("Pin", same)]

theorem Wiring.tolerant : Wiring.codec.Tolerant variation :=
  .record
    (.cons (lawful_required lawful_byte _).tolerant (by decide) <|
      .cons (lawful_required lawful_byte _).tolerant (by decide) .nil)
    fun _ => rfl

def CardPin.variation : Variation :=
  record [("NumberOnCard", same), ("GPIO", Wiring.variation), ("state", same)]

theorem CardPin.tolerant : CardPin.codec.Tolerant variation :=
  .record
    (.cons (lawful_required lawful_text _).tolerant (by decide) <|
      .cons (tolerant_required Wiring.tolerant _) (by decide) <|
      .cons (lawful_ofOption lawful_bool nofun _).tolerant (by decide) .nil)
    fun _ => rfl

def Card.variation : Variation := record [("cardName", same), ("pins", list CardPin.variation)]

theorem Card.tolerant : Card.codec.Tolerant variation :=
  .record
    (.cons (lawful_required lawful_text _).tolerant (by decide) <|
      .cons (tolerant_withDefault CardPin.tolerant.list _ _) (by decide) .nil)
    fun _ => rfl

def Target.variation : Variation :=
  record [("cards", same), ("NumberOnCard", same), ("state", same)]

theorem Target.tolerant : Target.codec.Tolerant variation :=
  .record
    (.cons (lawful_required lawful_text.list _).tolerant (by decide) <|
      .cons (lawful_required lawful_text _).tolerant (by decide) <|
      .cons (lawful_required lawful_bool _).tolerant (by decide) .nil)
    fun _ => rfl

def CodedState.variation : Variation :=
  record [("name", same), ("code", same), ("outputs", list Target.variation)]

theorem CodedState.tolerant : CodedState.codec.Tolerant variation :=
  .record
    (.cons (lawful_required lawful_text _).tolerant (by decide) <|
      .cons (lawful_required lawful_int32 _).tolerant (by decide) <|
      .cons (tolerant_withDefault Target.tolerant.list _ _) (by decide) .nil)
    fun _ => rfl

def Category.variation : Variation :=
  record [("name", same), ("states", list CodedState.variation), ("actualCode", same),
    ("actualState", same)]

theorem Category.tolerant : Category.codec.Tolerant variation :=
  .record
    (.cons (lawful_required lawful_text _).tolerant (by decide) <|
      .cons (tolerant_withDefault CodedState.tolerant.list _ _) (by decide) <|
      .cons (lawful_withDefault lawful_int32 _ _).tolerant (by decide) <|
      .cons (lawful_ofOption lawful_text nofun _).tolerant (by decide) .nil)
    fun _ => rfl

def Condition.variation : Variation := record [("etat", same), ("code", same)]

theorem Condition.tolerant : Condition.codec.Tolerant variation :=
  .record
    (.cons (lawful_required lawful_text _).tolerant (by decide) <|
      .cons (lawful_required lawful_int32 _).tolerant (by decide) .nil)
    fun _ => rfl

def Command.variation : Variation :=
  record [("name", same), ("shortName", same), ("conditions", list (list Condition.variation)),
    ("outputs", list Target.variation)]

theorem Command.tolerant : Command.codec.Tolerant variation :=
  .record
    (.cons (lawful_required lawful_text _).tolerant (by decide) <|
      .cons (lawful_required lawful_text _).tolerant (by decide) <|
      .cons (tolerant_withDefault Condition.tolerant.list.list _ _) (by decide) <|
      .cons (tolerant_withDefault Target.tolerant.list _ _) (by decide) .nil)
    fun _ => rfl

def Device.variation : Variation :=
  record [("name", same), ("host", same), ("port", same), ("password", same)]

theorem Device.tolerant : Device.codec.Tolerant variation :=
  .record
    (.cons (lawful_required lawful_text _).tolerant (by decide) <|
      .cons (lawful_required lawful_text _).tolerant (by decide) <|
      .cons (lawful_withDefault lawful_word16 _ _).tolerant (by decide) <|
      .cons (lawful_withDefault lawful_text _ _).tolerant (by decide) .nil)
    fun _ => rfl

def Bench.variation : Variation :=
  record [("Name", same), ("Cards", list Card.variation), ("Etats", list Category.variation),
    ("Commandes", list Command.variation), ("Telnet", list Device.variation)]

theorem Bench.tolerant : Bench.codec.Tolerant variation :=
  .record
    (.cons (lawful_required lawful_text _).tolerant (by decide) <|
      .cons (tolerant_withDefault Card.tolerant.list _ _) (by decide) <|
      .cons (tolerant_withDefault Category.tolerant.list _ _) (by decide) <|
      .cons (tolerant_withDefault Command.tolerant.list _ _) (by decide) <|
      .cons (tolerant_withDefault Device.tolerant.list _ _) (by decide) .nil)
    fun _ => rfl

/-! ## Configurations -/

namespace Configuration

def generalVariation : Variation := record [("defaultConfig", same)]

theorem tolerant_general : generalCodec.Tolerant generalVariation :=
  .record (.cons (lawful_required lawful_text _).tolerant (by decide) .nil) fun _ => rfl

def variation : Variation :=
  record [("app", generalVariation), ("gpio", Hardware.variation),
    ("configs", list Bench.variation)]

theorem tolerant : codec.Tolerant variation :=
  .record
    (.cons (tolerant_required tolerant_general _) (by decide) <|
      .cons (tolerant_required Hardware.tolerant _) (by decide) <|
      .cons (tolerant_required Bench.tolerant.list _) (by decide) .nil)
    fun _ => rfl

/-- **The text of a configuration gives it back, checked.** -/
theorem ofText_encode (c : Configuration) :
    ofText (codec.encode c) = c.check.map fun _ => c := by
  rw [ofText, tolerant.decode_encode]
  show (do
    c.check
    Except.ok c) = _
  cases c.check <;> rfl

end Configuration

/-! ## Requests -/

theorem Level.lawful (around : Nat) : (Level.codec around).Lawful := by
  constructor
  · intro l
    cases l <;> trivial
  · intro l
    cases l <;> rfl

theorem Numeral.lawful (around : Nat) : (Numeral.codec around).Lawful := by
  constructor
  · intro n
    cases n with
    | number n => exact lawful_byte.fits n
    | text s => trivial
  · intro n
    cases n with
    | number n =>
      have hread : Codec.byte.read (Codec.byte.write n).outline = .ok n := lawful_byte.read_write n
      have hhold : (Codec.byte.write n).outline.hold (Json.maxOpen - around) = .ok () := rfl
      simp only [Numeral.codec, Codec.either, hread, hhold]
      rfl
    | text s => rfl

namespace Request

theorem lawful_card : cardFields.Lawful :=
  .cons (lawful_required lawful_text _) (by decide) .nil

theorem lawful_pin : pinFields.Lawful :=
  .cons (lawful_required lawful_text _) (by decide) <|
    .cons (lawful_required lawful_text _) (by decide) .nil

theorem lawful_expander : expanderFields.Lawful :=
  .cons (lawful_required (Numeral.lawful 2) _) (by decide) .nil

theorem lawful_category : categoryFields.Lawful :=
  .cons (lawful_required lawful_text _) (by decide) .nil

theorem lawful_writeToCard : writeToCardFields.Lawful :=
  .cons (lawful_required lawful_text _) (by decide) <|
    .cons (lawful_required lawful_text _) (by decide) <|
    .cons (lawful_required (Level.lawful 2) _) (by decide) .nil

theorem lawful_writeToExpander : writeToExpanderFields.Lawful :=
  .cons (lawful_required (Numeral.lawful 2) _) (by decide) <|
    .cons (lawful_required (Numeral.lawful 2) _) (by decide) <|
    .cons (lawful_required (Level.lawful 2) _) (by decide) .nil

theorem lawful_sendCommand : sendCommandFields.Lawful :=
  .cons (lawful_required lawful_text _) (by decide) <|
    .cons (lawful_withDefault lawful_bool _ _) (by decide) .nil

theorem lawful_switchBench : switchBenchFields.Lawful :=
  .cons (lawful_required lawful_text _) (by decide) .nil

/-- The names of the options of a request. -/
def optionNames : Request → List String
  | card _ => ["cardName"]
  | pin .. => ["cardName", "numberOnCard"]
  | expander _ => ["module"]
  | category _ => ["name"]
  | writeToCard .. => ["cardName", "numberOnCard", "state"]
  | writeToExpander .. => ["module", "pin", "state"]
  | sendCommand .. => ["commandName", "force"]
  | switchBench _ => ["configurationName"]
  | _ => []

/-- **The name of a request tells how its options are read**: a request without options is given by
its name, and any other by the values of some lawful fields. -/
theorem options_read (r : Request) :
    r.options? = none ∧ reader r.name = .ok (bare r) ∨
      ∃ (αs : List Type) (fs : Fields αs) (as : Values αs) (of : Values αs → Request), fs.Lawful ∧
        r.optionNames = fs.names ∧ r.options? = some (fs.members as) ∧
        reader r.name = .ok (having fs of) ∧ of as = r := by
  cases r with
  | card c => exact .inr ⟨_, cardFields, (c, ()), _, lawful_card, rfl, rfl, rfl, rfl⟩
  | pin c l => exact .inr ⟨_, pinFields, (c, l, ()), _, lawful_pin, rfl, rfl, rfl, rfl⟩
  | expander n => exact .inr ⟨_, expanderFields, (n, ()), _, lawful_expander, rfl, rfl, rfl, rfl⟩
  | category n => exact .inr ⟨_, categoryFields, (n, ()), _, lawful_category, rfl, rfl, rfl, rfl⟩
  | writeToCard c l v =>
    exact .inr ⟨_, writeToCardFields, (c, l, v, ()), _, lawful_writeToCard, rfl, rfl, rfl, rfl⟩
  | writeToExpander n p v =>
    exact .inr
      ⟨_, writeToExpanderFields, (n, p, v, ()), _, lawful_writeToExpander, rfl, rfl, rfl, rfl⟩
  | sendCommand n f =>
    exact .inr ⟨_, sendCommandFields, (n, f, ()), _, lawful_sendCommand, rfl, rfl, rfl, rfl⟩
  | switchBench n =>
    exact .inr ⟨_, switchBenchFields, (n, ()), _, lawful_switchBench, rfl, rfl, rfl, rfl⟩
  | _ => exact .inl ⟨rfl, rfl⟩

/-- The tag comes first, and then the options if there are any. -/
theorem write_eq (r : Request) : codec.write r =
    .obj ((Part.tag.name, .str r.name) :: r.options?.elim [] fun os =>
      [(Part.options.name, .obj os)]) := by
  simp only [codec]
  cases r.options? <;> rfl

theorem lawful : codec.Lawful := by
  refine ⟨fun r => ?_, fun r => ?_⟩
  · rw [write_eq]
    rcases r.options_read with ⟨ho, -⟩ | ⟨αs, fs, as, of, hfs, -, ho, -, -⟩
    · rw [ho]
      exact ⟨trivial, trivial⟩
    · rw [ho]
      exact ⟨trivial, hfs.membersFit as, trivial⟩
  · rw [write_eq]
    rcases r.options_read with ⟨ho, hr⟩ | ⟨αs, fs, as, of, hfs, -, ho, hr, rfl⟩
    · rw [ho]
      show (do
        let f ← reader r.name
        f none) = _
      rw [hr, ok_bind]
      rfl
    · rw [ho]
      show (do
        let f ← reader (of as).name
        let q ← f (some (.obj (Json.memberOutlines (fs.members as)) none))
        noPart [] none
        Except.ok q) = _
      rw [hr, ok_bind, having, hfs.ofMembers_members]
      rfl

end Request

/-! ## Everything -/

/-- What is written is read back. -/
def Json.Codec.ReadsBack {α : Type} (c : Codec α) : Prop := ∀ a, c.decode (c.encode a) = .ok a

/-- **Every value of a configuration and every request is read back from its text**, and so is a
configuration from its file if it passes its check. -/
theorem read_back :
    Wiring.codec.ReadsBack ∧ CardPin.codec.ReadsBack ∧ Card.codec.ReadsBack ∧
      Expander.codec.ReadsBack ∧ PinGroup.codec.ReadsBack ∧ Hardware.codec.ReadsBack ∧
      Target.codec.ReadsBack ∧ CodedState.codec.ReadsBack ∧ Category.codec.ReadsBack ∧
      Condition.codec.ReadsBack ∧ Command.codec.ReadsBack ∧ Device.codec.ReadsBack ∧
      Bench.codec.ReadsBack ∧ Configuration.codec.ReadsBack ∧ Request.codec.ReadsBack ∧
      ∀ c : Configuration, Configuration.ofText (Configuration.codec.encode c) =
        c.check.map fun _ => c := by
  exact ⟨Wiring.tolerant.decode_encode, CardPin.tolerant.decode_encode, Card.tolerant.decode_encode,
    Expander.tolerant.decode_encode, PinGroup.tolerant.decode_encode,
    Hardware.tolerant.decode_encode, Target.tolerant.decode_encode,
    CodedState.tolerant.decode_encode, Category.tolerant.decode_encode,
    Condition.tolerant.decode_encode, Command.tolerant.decode_encode, Device.tolerant.decode_encode,
    Bench.tolerant.decode_encode, Configuration.tolerant.decode_encode,
    Request.lawful.decode_encode, Configuration.ofText_encode⟩

end PinBench
