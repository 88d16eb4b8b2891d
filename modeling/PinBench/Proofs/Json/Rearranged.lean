import PinBench.Proofs.Json.Magnitude
import PinBench.Proofs.Json.ReadBack

/-!
# Texts that are rearranged

What is written may be read in another order and among more members.  Of a request the options may
come before the name, and are held back then: so another reader meets them, one that minds what it
is given even where nothing is made of it.

* `Request.nextPart_append`: members that do not matter are passed over.
* `Request.read_varied`: **a request is read whichever of its two members comes first**.
* `Codec.ReadsVaried`: a codec that reads its values from any text of a varied value.
* `read_rearranged`: **every value of every type is read from every such text**, as long as its
  numbers have values.
* `Variation.record_reverse`: one order that is always allowed.
* `Request.order_matters`: a number that has none is minded only in options that come first.
-/

namespace PinBench

open Json (Codec Fields Values Key Outline Wording Literal Variation)
open Json.Variation (same record)
open Json (exists_of_perm_cons exists_of_perm_cons_cons)

/-! ## Requests -/

namespace Request

/-- The tag and the options in any order, the options varied as a record, and other members among
both. -/
def variation (r : Request) : Variation :=
  record [(Part.tag.name, same),
    (Part.options.name, record (r.optionNames.map fun name => (name, same)))]

/-- A member that is none of the two parts. -/
def Passed (m : Key × Outline) : Prop :=
  (∃ name, m.1 = .ok name ∧ name ≠ Part.tag.name ∧ name ≠ Part.options.name) ∧ m.2.Whole

/-- Members that are none of the two parts are passed over. -/
theorem nextPart_append {ms : List (Key × Outline)} (h : ∀ m ∈ ms, Passed m)
    (rest : List (Key × Outline)) (cut : Option Json.Break) :
    nextPart (ms ++ rest) cut = nextPart rest cut := by
  induction ms with
  | nil => rfl
  | cons m ms ih =>
    obtain ⟨⟨⟨name, hname, htag, hoptions⟩, hw⟩, hrest⟩ := List.forall_mem_cons.mp h
    obtain ⟨key, v⟩ := m
    obtain rfl : key = .ok name := hname
    show (if name = Part.tag.name then _ else if name = Part.options.name then _ else do
      Json.Flaw.lift v.skip
      nextPart (ms ++ rest) cut) = _
    rw [if_neg htag, if_neg hoptions, hw.skip]
    exact ih hrest

theorem nextPart_of_passed {ms : List (Key × Outline)} (h : ∀ m ∈ ms, Passed m) :
    nextPart ms none = .ok none := by
  rw [← List.append_nil ms, nextPart_append h]
  rfl

/-- A part as a member. -/
def Part.member (p : Part) (o : Outline) : Key × Outline := (.ok p.name, o)

theorem nextPart_member (p : Part) (o : Outline) (ms : List (Key × Outline))
    (cut : Option Json.Break) : nextPart (p.member o :: ms) cut = .ok (some (p, o, ms)) := by
  cases p <;> rfl

theorem noPart_of_passed {ms : List (Key × Outline)} (h : ∀ m ∈ ms, Passed m) :
    noPart ms none = .ok () := by
  rw [noPart, nextPart_of_passed h]
  rfl

section Orders

variable {name : String} {read : OptionReader} {r : Request} {o : Outline}
  {before between after : List (Key × Outline)} (hread : reader name = .ok read)
  (hbefore : ∀ m ∈ before, Passed m) (hafter : ∀ m ∈ after, Passed m)
include hread hbefore hafter

theorem ofMembers_bare :
    ofMembers (before ++ Part.tag.member (.str (.ok name)) :: after) none = read none := by
  simp only [ofMembers, nextPart_append hbefore, nextPart_member, ok_bind, readTag, hread,
    nextPart_of_passed hafter]

variable (hbetween : ∀ m ∈ between, Passed m) (ho : read (some o) = .ok r)
include hbetween ho

theorem ofMembers_tag_first :
    ofMembers (before ++ Part.tag.member (.str (.ok name)) ::
      (between ++ Part.options.member o :: after)) none = .ok r := by
  simp only [ofMembers, nextPart_append hbefore, nextPart_member, ok_bind, readTag, hread,
    nextPart_append hbetween, ho, noPart_of_passed hafter]

/-- Options that come first are held back. -/
theorem ofMembers_options_first (hhold : o.hold (Json.maxOpen - 1) = .ok ()) :
    ofMembers (before ++ Part.options.member o ::
      (between ++ Part.tag.member (.str (.ok name)) :: after)) none = .ok r := by
  have hheld : Json.Flaw.lift (o.hold (Json.maxOpen - 1)) = .ok () := by
    rw [hhold]
    rfl
  simp only [ofMembers, nextPart_append hbefore, nextPart_member, ok_bind, hheld, readTag, hread,
    nextPart_append hbetween, ho, noPart_of_passed hafter]

end Orders

theorem passed_of_unknown {v w : Variation} {m : Key × Outline}
    (h : Json.Variation.Unknown [(Part.tag.name, v), (Part.options.name, w)] m) (hw : m.2.Whole) :
    Passed m := by
  obtain ⟨name, hname, hn⟩ := h
  simp only [List.map_cons, List.map_nil, List.mem_cons, List.not_mem_nil, or_false, not_or] at hn
  exact ⟨⟨name, hname, hn.1, hn.2⟩, hw⟩

/-- What is given for options that are written is read as these. -/
theorem having_varied {αs : List Type} {fs : Fields αs} (hfs : fs.Lawful) (as : Values αs)
    (of : Values αs → Request) {o : Outline}
    (ho : record (fs.names.map fun name => (name, same)) (Json.obj (fs.members as)).outline o)
    (hw : o.Whole) : having fs of (some o) = .ok (of as) := by
  obtain ⟨all, rfl, hall⟩ := hfs.tolerant.ofMembers as ho hw
  show (fs.ofMembers all none).map of = _
  rw [hall]
  rfl

/-- **A request is read whichever of its two members comes first**, as long as there is room for its
options to be held back. -/
theorem read_varied (r : Request) {o : Outline} (ho : r.variation (codec.write r).outline o)
    (hhold : o.hold Json.maxOpen = .ok ()) : codec.read o = .ok r := by
  obtain ⟨ms, ms', extra, all, heq, rfl, hms, hextra, hall⟩ := ho
  have hheld : ∀ m ∈ all, m.2.hold (Json.maxOpen - 1) = .ok () := (Outline.hold_members hhold).2
  have hpassed : ∀ {ns : List (Key × Outline)}, ns.Perm extra → (∀ m ∈ ns, m ∈ all) →
      ∀ m ∈ ns, Passed m := fun hns hsub m hm =>
    passed_of_unknown (hextra m (hns.mem_iff.mp hm)) ⟨_, hheld m (hsub m hm)⟩
  show ofMembers all none = .ok r
  have hparts : ∀ {v : Variation}, Part.tag.name ∉ [(Part.options.name, v)].map Prod.fst := by
    intro v
    simp [Part.name]
  rw [write_eq] at heq
  rcases r.options_read with ⟨hopt, hr⟩ | ⟨αs, fs, as, of, hfs, hnames, hopt, hr, rfl⟩
  · rw [hopt] at heq
    obtain rfl : [Part.tag.member (.str (.ok r.name))] = ms := (Outline.obj.inj heq).1
    obtain ⟨⟨key, o⟩, _, htag, hnil, rfl⟩ := List.forall₂_cons_left_iff.mp hms
    obtain ⟨rfl, rfl⟩ := Json.Fields.member_of_first hparts htag rfl
    cases hnil
    obtain ⟨before, after, rfl, hrest⟩ := exists_of_perm_cons hall
    have hothers := hpassed hrest fun m hm => by
      rw [List.mem_append, List.mem_cons]
      exact (List.mem_append.mp hm).imp_right .inr
    obtain ⟨hbefore, hafter⟩ := List.forall_mem_append.mp hothers
    exact ofMembers_bare hr hbefore hafter
  · rw [hopt] at heq
    obtain rfl : [Part.tag.member (.str (.ok (of as).name)),
      Part.options.member (Json.obj (fs.members as)).outline] = ms := (Outline.obj.inj heq).1
    obtain ⟨⟨key, t⟩, _, htag, hrest, rfl⟩ := List.forall₂_cons_left_iff.mp hms
    obtain ⟨⟨key', o⟩, _, hoptions, hnil, rfl⟩ := List.forall₂_cons_left_iff.mp hrest
    obtain ⟨rfl, rfl⟩ := Json.Fields.member_of_first hparts htag rfl
    have hother := Json.Fields.member_of_other hoptions ⟨_, rfl, by decide⟩
    obtain ⟨rfl, ho⟩ := Json.Fields.member_of_first List.not_mem_nil hother rfl
    cases hnil
    obtain ⟨before, between, after, horder, hrest⟩ := exists_of_perm_cons_cons hall
    have hsub : ∀ m ∈ before ++ (between ++ after), m ∈ all := by
      intro m hm
      rcases horder with rfl | rfl <;> simp only [List.mem_append, List.mem_cons] at hm ⊢ <;> tauto
    have hall' := hpassed hrest hsub
    simp only [List.forall_mem_append] at hall'
    obtain ⟨hbefore, hbetween, hafter⟩ := hall'
    have ho' : o.hold (Json.maxOpen - 1) = .ok () :=
      hheld (Part.options.member o) (by rcases horder with rfl | rfl <;> simp [Part.member])
    rw [hnames] at ho
    have hread := having_varied hfs as of ho ⟨_, ho'⟩
    rcases horder with rfl | rfl
    · exact ofMembers_tag_first hr hbefore hafter hbetween hread
    · exact ofMembers_options_first hr hbefore hafter hbetween hread ho'

end Request

/-! ## Texts -/

namespace Json.Codec

variable {α : Type} {c : Codec α}

/-- Every text of a value that is varied is read as what was written, if its numbers have values and
fewer than a hundred of its brackets are open at once. -/
def ReadsVaried (c : Codec α) (v : α → Variation) : Prop :=
  ∀ (a : α) (w : Wording), v a (c.write a).outline w.outline →
    (∀ l ∈ w.numbers, l.value?.isSome) → w.depth < 100 → c.decode w.text = .ok a

theorem decode_text (c : Codec α) (w : Wording) : c.decode w.text = c.read w.outline := by
  unfold decode
  rw [w.read_text]
  dsimp only
  cases c.read w.outline <;> rfl

theorem Tolerant.readsVaried {r : Variation} (h : c.Tolerant r) : c.ReadsVaried fun _ => r :=
  fun a w hr hn _ =>
    (c.decode_text w).trans (h.read_varied a w.outline hr ⟨_, w.hold_outline hn le_rfl⟩)

end Json.Codec

theorem Request.readsVaried : Request.codec.ReadsVaried Request.variation :=
  fun r w hr hn hd => (codec.decode_text w).trans
    (r.read_varied hr (w.hold_outline hn (Nat.le_trans (Nat.le_of_lt hd) (by decide))))

/-- A member of a text without blanks. -/
def Request.plainMember (name : String) (w : Wording) : Json.MemberName × Wording :=
  (⟨.none, .of name, .none⟩, w)

/-- **Every value of a configuration and every request is read from any text in which its members
come in another order and others stand among them**, if all numbers of the text have values; and
these have all numbers up to the third largest double. -/
theorem read_rearranged :
    Wiring.codec.ReadsVaried (fun _ => Wiring.variation) ∧
      CardPin.codec.ReadsVaried (fun _ => CardPin.variation) ∧
      Card.codec.ReadsVaried (fun _ => Card.variation) ∧
      Expander.codec.ReadsVaried (fun _ => Expander.variation) ∧
      PinGroup.codec.ReadsVaried (fun _ => PinGroup.variation) ∧
      Hardware.codec.ReadsVaried (fun _ => Hardware.variation) ∧
      Target.codec.ReadsVaried (fun _ => Target.variation) ∧
      CodedState.codec.ReadsVaried (fun _ => CodedState.variation) ∧
      Category.codec.ReadsVaried (fun _ => Category.variation) ∧
      Condition.codec.ReadsVaried (fun _ => Condition.variation) ∧
      Command.codec.ReadsVaried (fun _ => Command.variation) ∧
      Device.codec.ReadsVaried (fun _ => Device.variation) ∧
      Bench.codec.ReadsVaried (fun _ => Bench.variation) ∧
      Configuration.generalCodec.ReadsVaried (fun _ => Configuration.generalVariation) ∧
      Configuration.codec.ReadsVaried (fun _ => Configuration.variation) ∧
      Request.codec.ReadsVaried Request.variation ∧
      ∀ l : Literal, l.digits.length < 2 ^ 31 → l.magnitude ≤ Literal.largeDouble →
        l.value?.isSome :=
  ⟨Wiring.tolerant.readsVaried, CardPin.tolerant.readsVaried, Card.tolerant.readsVaried,
    Expander.tolerant.readsVaried, PinGroup.tolerant.readsVaried, Hardware.tolerant.readsVaried,
    Target.tolerant.readsVaried, CodedState.tolerant.readsVaried, Category.tolerant.readsVaried,
    Condition.tolerant.readsVaried, Command.tolerant.readsVaried, Device.tolerant.readsVaried,
    Bench.tolerant.readsVaried, Configuration.tolerant_general.readsVaried,
    Configuration.tolerant.readsVaried, Request.readsVaried,
    fun _ hl h => Literal.value?_isSome hl h⟩

/-- The members of a record the other way round, with others in front. -/
theorem Json.Variation.record_reverse {fields : List (String × Variation)}
    {ms : List (Key × Outline)} (own others : List (Key × Outline))
    (hown : List.Forall₂ (Json.Variation.Member fields) ms own)
    (hothers : ∀ m ∈ others, Json.Variation.Unknown fields m) :
    record fields (.obj ms none) (.obj (own ++ others).reverse none) :=
  ⟨ms, own, others, _, rfl, rfl, hown, hothers, List.reverse_perm _⟩

/-- A request with its options first and in reverse, and with a stranger among the members of both. -/
theorem read_rearranged_reverse :
    let options := Request.plainMember "options"
      (.obj .none [Request.plainMember "x" (.arr .none [.num (.ofInt 7)]),
        Request.plainMember "state" (.bool true),
        Request.plainMember "numberOnCard" (.str (.of "B")),
        Request.plainMember "cardName" (.str (.of "J1"))])
    let w : Wording := .obj .none [Request.plainMember "note" .null, options,
      Request.plainMember "command" (.str (.of "writeToCard"))]
    let r := Request.writeToCard "J1" "B" (.bool true)
    String.ofList w.text = "\x7b\"note\":null,\"options\":\x7b\"x\":[7],\"state\":true," ++
        "\"numberOnCard\":\"B\",\"cardName\":\"J1\"\x7d,\"command\":\"writeToCard\"\x7d" ∧
      r.variation (Request.codec.write r).outline w.outline ∧ (∀ l ∈ w.numbers, l.value?.isSome) ∧
      w.depth < 100 ∧ Request.codec.decode w.text = .ok r := by
  intro options w r
  have hoptions : record (r.optionNames.map fun name => (name, same))
      (Json.obj (Request.writeToCardFields.members ("J1", "B", .bool true, ()))).outline
        options.2.outline := by
    refine Json.Variation.record_reverse [(.ok "cardName", .str (.ok "J1")),
      (.ok "numberOnCard", .str (.ok "B")), (.ok "state", .bool true)]
      [(.ok "x", .arr [.num (Json.Token.number (.ofInt 7))] none)] ?_ ?_
    · exact .cons ⟨_, _, .head _, rfl, rfl, rfl⟩ <|
        .cons ⟨_, _, .tail _ (.head _), rfl, rfl, rfl⟩ <|
        .cons ⟨_, _, .tail _ (.tail _ (.head _)), rfl, rfl, rfl⟩ .nil
    · exact List.forall_mem_singleton.mpr ⟨"x", rfl, by decide⟩
  have hvaried : r.variation (Request.codec.write r).outline w.outline := by
    refine Json.Variation.record_reverse [Request.Part.tag.member (.str (.ok "writeToCard")),
      Request.Part.options.member options.2.outline] [(.ok "note", .null)] ?_ ?_
    · exact .cons ⟨_, _, .head _, rfl, rfl, rfl⟩ <|
        .cons ⟨_, _, .tail _ (.head _), rfl, rfl, hoptions⟩ .nil
    · exact List.forall_mem_singleton.mpr ⟨"note", rfl, by decide⟩
  have hnumbers : ∀ l ∈ w.numbers, l.value?.isSome := by
    rw [show w.numbers = [.ofInt 7] from rfl, List.forall_mem_singleton,
      Literal.value?_ofInt ⟨by decide, by decide⟩]
    rfl
  have hdepth : w.depth < 100 := by decide
  obtain ⟨-, -, -, -, -, -, -, -, -, -, -, -, -, -, -, hrequest, -⟩ := read_rearranged
  exact ⟨by decide +kernel, hvaried, hnumbers, hdepth, hrequest r w hvaried hnumbers hdepth⟩

namespace Request

/-- A number that is smaller than the largest double, and that rounds to none as it is judged. -/
def hugeFigure : Json.Figure where
  literal := ⟨false, ['1'], some "797693134862315708".toList, some (false, "308".toList)⟩
  capital := false
  plus := false
  digits := by decide
  zero := fun h => absurd h (by decide)
  fraction := by
    intro ds h
    cases h
    decide
  exponent := by
    intro e h
    cases h
    decide

theorem magnitude_hugeFigure : hugeFigure.literal.magnitude ≤ 2 ^ 1024 - 2 ^ 971 := by
  have hdigits : Nat.ofDigitChars 10
      (hugeFigure.literal.digits ++ hugeFigure.literal.fraction.getD []) 0 =
        1797693134862315708 := by
    decide +kernel
  have hpower : hugeFigure.literal.power - (hugeFigure.literal.fraction.getD []).length =
      (290 : Nat) := by
    decide +kernel
  have hle : 1797693134862315708 * 10 ^ 290 + 2 ^ 971 ≤ 2 ^ 1024 := by decide +kernel
  rw [Literal.magnitude, hdigits, hpower, zpow_natCast, le_sub_iff_add_le]
  exact_mod_cast hle

/-- **The order of the members matters**: a number that has no value is minded in options that are
held back, and skipped in others. -/
theorem order_matters :
    let options := plainMember "options"
      (.obj .none [plainMember "cardName" (.str (.of "J1")), plainMember "x" (.num hugeFigure)])
    let tag := plainMember "command" (.str (.of "card"))
    let w : Wording := .obj .none [options, tag]
    let r := Request.card "J1"
    String.ofList w.text = "\x7b\"options\":\x7b\"cardName\":\"J1\",\"x\":1.797693134862315708e308\x7d,\"command\":\"card\"\x7d" ∧
      r.variation (codec.write r).outline w.outline ∧ w.depth < 100 ∧
      (∀ l ∈ w.numbers, l.magnitude ≤ 2 ^ 1024 - 2 ^ 971) ∧
      codec.decode w.text = .error (.flaw .malformed) ∧
      codec.decode (Wording.obj .none [tag, options]).text = .ok r := by
  intro options tag w r
  have hoptions : record (r.optionNames.map fun name => (name, same))
      (Json.obj (cardFields.members ("J1", ()))).outline options.2.outline :=
    ⟨_, [(.ok "cardName", .str (.ok "J1"))],
      [(.ok "x", .num (Json.Token.number hugeFigure.literal))], _, rfl, rfl, .cons ⟨_, _, List.mem_cons_self, rfl, rfl, rfl⟩ .nil,
      List.forall_mem_singleton.mpr ⟨"x", rfl, by decide⟩, .refl _⟩
  have hvaried : r.variation (codec.write r).outline w.outline := by
    refine Json.Variation.record_reverse
      [Part.tag.member (.str (.ok "card")), Part.options.member options.2.outline] [] ?_ nofun
    exact .cons ⟨_, _, .head _, rfl, rfl, rfl⟩ <|
      .cons ⟨_, _, .tail _ (.head _), rfl, rfl, hoptions⟩ .nil
  refine ⟨by decide +kernel, hvaried, by decide, ?_, ?_, ?_⟩
  · have hnumbers : w.numbers = [hugeFigure.literal] := rfl
    rw [hnumbers, List.forall_mem_singleton]
    exact magnitude_hugeFigure
  · rw [codec.decode_text]
    decide +kernel
  · rw [codec.decode_text]
    decide +kernel

end Request

end PinBench
