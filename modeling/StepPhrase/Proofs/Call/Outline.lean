import StepPhrase.Proofs.Argument.Quotation
import StepPhrase.Proofs.Call.Matching
import StepPhrase.Proofs.Keyword.Stripping
import StepPhrase.Proofs.Reference.Conversion
import StepPhrase.Proofs.Reference.Quoted
import StepPhrase.Proofs.Reference.Unbound
import StepPhrase.Proofs.Template.Reading

/-!
# Values that come from outlines

An outline is a call with parameters in angle brackets. They are converted to references, references
that are words get quotes, and expansion puts values between the quotes. The quotes are there before
the value is known, and nothing in the value is escaped: a value arrives as it is only if a reader
of quotations takes it for the text of one, and finds nothing in it to take a backslash off from.

Of the value it is enough to know how it is read between single quotes, since nothing else of the
call comes from it. A value with a dollar sign is left out: it may hold references of its own, and
what they stand for is another question.

* **`outline_parameter`** — what an outline with one parameter comes to.
* **`arguments?_behind_lead`** — a slot behind literal text gets the first token there.
* **`match?_outline_iff`** — the values that arrive.
-/

namespace StepPhrase

namespace Reference

variable {engine : Engine} {scope : Scope} {front lead name value t : Text}

/-! ## Outlines

Conversion writes the parameter as a reference, quoting puts single quotes around it and expansion
its value between them. Each of the three leaves the text in front alone, since that has no special
characters. -/

/-- A call that comes from an outline: its parameters are converted, those that are words get
quotes, and then they are replaced by their values. -/
def outline (scope : Scope) (t : Text) : Text := expand scope (quoteWords (dollarForm t))

/-- An outline whose only parameter stands behind some text. -/
abbrev parameterBehind (lead name : Text) : Text := lead ++ '<' :: (name ++ ['>'])

/-- The characters that mean something to those who read definitions, references or quotations. A
text without them is read by all three as it stands. -/
def special : List Char := ['\\', '{', '}', '<', '$', '\'', '"']

/-- Literal text that may stand in front of the parameter: it has no special characters and ends
with a blank. -/
structure IsLead (lead : Text) : Prop where
  plain : ∀ c ∈ lead, c ∉ special
  blank : lead.getLast? = some ' '

instance : DecidablePred IsLead := fun lead =>
  have : Decidable (∀ c ∈ lead, c ∉ special) := List.decidableBAll _ lead
  decidable_of_iff ((∀ c ∈ lead, c ∉ special) ∧ lead.getLast? = some ' ')
    ⟨fun h => ⟨h.1, h.2⟩, fun h => ⟨h.plain, h.blank⟩⟩

theorem IsLead.not_mem {c : Char} (h : IsLead lead) (hc : c ∈ special) : c ∉ lead :=
  fun hmem => h.plain c hmem hc

theorem IsLead.isPlain (h : IsLead lead) : Template.IsPlain lead := by
  intro c hc
  have hplain := h.plain c hc
  simp only [special, List.mem_cons, not_or] at hplain
  exact ⟨hplain.1, hplain.2.1⟩

/-- Single quotes protect nothing: a reference between them is read as one, and the quotes are
characters like others. -/
theorem chunks_between_quotes (hfront : '$' ∉ front) (hname : '}' ∉ name) :
    chunks true false (front ++ '\'' :: (written name ++ ['\''])) =
      (front ++ ['\'']).map .char ++ [.reference name, .char '\''] := by
  have hdollar : '$' ∉ front ++ ['\''] := by simpa using hfront
  have hcut : (name ++ '}' :: ['\'']).cut? '}' = some (name, ['\'']) :=
    Text.cut?_eq_some_iff.mpr ⟨rfl, hname⟩
  have happend : chunks true false _ = _ :=
    chunks_append hdollar ('$' :: '{' :: (name ++ '}' :: ['\'']))
  rw [endsInQuote_append, endsInQuote_cons, endsInQuote_nil,
    chunks_reference (by decide) hcut] at happend
  simpa [written, chunks] using happend

/-- **A reference between single quotes is replaced** by its value, whatever that is. Only double
quotes keep a reference from being replaced. -/
theorem expand_between_quotes (hfront : ∀ c ∈ front, c ∉ ['\\', '<', '$'])
    (hname : ∀ c ∈ name, c ∉ ['\\', '<', '}']) (hvalue : scope.lookup? name = some value)
    (hdollar : '$' ∉ value) :
    expand scope (front ++ '\'' :: (written name ++ ['\''])) =
      front ++ '\'' :: (value ++ ['\'']) := by
  have hbracket : '<' ∉ front ∧ '<' ∉ name :=
    ⟨fun hmem => hfront _ hmem (by decide), fun hmem => hname _ hmem (by decide)⟩
  have hback : '\\' ∉ front ∧ '\\' ∉ name :=
    ⟨fun hmem => hfront _ hmem (by decide), fun hmem => hname _ hmem (by decide)⟩
  have hconverted : dollarForm (front ++ '\'' :: (written name ++ ['\''])) =
      front ++ '\'' :: (written name ++ ['\'']) :=
    dollarForm_of_not_mem (by simpa [written] using hbracket) (by simpa [written] using hback)
  have hchunks := chunks_between_quotes (fun hmem => hfront _ hmem (by decide))
    (fun hmem => hname _ hmem (by decide))
  rw [expand_eq, outermost, hconverted, Level.expansion, Level.chunks, hchunks, List.flatMap_append,
    Level.flatMap_map_char, List.flatMap_cons, Level.replacement_inside hvalue List.not_mem_nil,
    Level.expansion_of_dollar_not_mem hdollar, List.append_assoc]
  rfl

/-- **An outline with a parameter that has a value** has the value there, between quotes. The value
is not changed on the way: no mark in it is escaped. -/
theorem outline_parameter (hlead : IsLead lead) (hne : name ≠ [])
    (hname : ∀ c ∈ name, isNameCharacter c = true) (hvalue : scope.lookup? name = some value)
    (hdollar : '$' ∉ value) :
    outline scope (parameterBehind lead name) = lead ++ '\'' :: (value ++ ['\'']) := by
  have hother : ∀ c ∈ name, ∀ d, isNameCharacter d = false → c ≠ d :=
    fun c hc d hd => ne_of_isNameCharacter (hname c hc) hd
  have hangle : angleName? (name ++ ['>']) = some (name, []) := by
    refine angleName?_eq_some_iff.mpr ⟨rfl, hne, fun c hc => ?_⟩
    simp [isInAngle, hother c hc '>' (by decide), hother c hc '\n' (by decide)]
  -- conversion writes the parameter as a reference
  have hconverted : dollarForm (parameterBehind lead name) = lead ++ written name := by
    rw [parameterBehind, dollarForm_append (hlead.not_mem (by decide)) (hlead.not_mem (by decide)),
      dollarForm_parameter hangle, dollarForm_nil, List.append_nil]
  obtain ⟨front, rfl⟩ := List.getLast?_eq_some_iff.mp hlead.blank
  have hdollarFront : '$' ∉ front := fun hmem => hlead.plain '$' (by simp [hmem]) (by decide)
  -- quoting finds the reference behind the blank that ends the lead
  have hquoted : quoteWords (front ++ [' '] ++ written name) =
      front ++ [' '] ++ '\'' :: (written name ++ ['\'']) := by
    simpa using quoteWords_written hdollarFront (by decide) hname
  rw [outline, hconverted, hquoted]
  -- expansion needs less of the text in front than a definition does
  have hread : ['\\', '<', '$'] ⊆ special := by decide
  refine expand_between_quotes (fun c hc hmem => hlead.plain c hc (hread hmem))
    (fun c hc => ?_) hvalue hdollar
  simp [hother c hc '\\' (by decide), hother c hc '<' (by decide), hother c hc '}' (by decide)]

/-- Brackets with nothing between them are no parameter, and they stay as they are through
conversion, quoting and expansion. -/
theorem outline_parameter_nil (hlead : IsLead lead) :
    outline scope (parameterBehind lead []) = parameterBehind lead [] := by
  have hconverted : dollarForm (parameterBehind lead []) = parameterBehind lead [] := by
    rw [parameterBehind, dollarForm_append (hlead.not_mem (by decide)) (hlead.not_mem (by decide)),
      List.nil_append, dollarForm_bracket (by decide),
      dollarForm_of_not_mem (by decide) (by decide)]
  have hdollar : '$' ∉ parameterBehind lead [] := by
    simpa [parameterBehind] using hlead.not_mem (by decide)
  rw [outline, hconverted, quoteWords_of_dollar_not_mem hdollar, expand_eq]
  have htext : (outermost (parameterBehind lead [])).text = parameterBehind lead [] := hconverted
  rw [Level.expansion_of_dollar_not_mem (by rwa [htext]), htext]

end Reference

namespace Call

open Template Text Reference

variable {setting : Setting} {template : Template} {scope : Scope}
    {lead name value t : Text} {s : Slot}

/-! ## Calls with one argument behind literal text

The definition is the text in front of the parameter and a slot. So the whole of the call behind
that text is searched for a token, and the first one found is the argument. -/

/-- A slot behind literal text gets the first token there. Nothing has to stand behind it, so the
search goes to the end of the call if it must. -/
theorem arguments?_behind_lead (hpieces : template.pieces = [.literal lead, .slot s])
    (hindex : s.index = none) (t : Text) :
    arguments? template (lead ++ t) =
      (firstToken? (beginsWith sameFolded []) t).map fun found =>
        [(Argument.ofToken found.1).unquoted] := by
  have hframes : template.frames = [⟨lead, s, []⟩] := by
    rw [frames, hpieces]
    rfl
  have hslots : template.slots = [s] := by
    rw [slots, hpieces]
    rfl
  have hskip : skip? lead (lead ++ t) = some t :=
    skip?_eq_some_iff.mpr ⟨[], lead, rfl, isFirstOccurrence_nil (sameBy_refl sameLowered_refl lead)⟩
  have htake : takeToken? ⟨lead, s, []⟩ (lead ++ t) = firstToken? (beginsWith sameFolded []) t := by
    have hstay : skip? [] t = some t := if_pos rfl
    simp only [takeToken?, hskip, hstay]
  rw [arguments?, rawArguments?, hframes, hslots, takeTokens?, htake]
  cases firstToken? (beginsWith sameFolded []) t with
  | none => rfl
  | some found =>
    simp only [takeTokens?, Option.map_some, Option.bind_some, List.map_cons, List.map_nil, hindex]
    rfl

theorem pieces_of_lead (hlead : IsLead lead)
    (hparsed : ofText? engine (lead ++ "\x7bx\x7d".toList) = .ok template) :
    ∃ s : Slot, s.index = none ∧ template.pieces = [.literal lead, .slot s] := by
  -- the slot by itself is the definition that is put behind the lead
  have hslot : ofText? .unlimited "\x7bx\x7d".toList =
      .ok ⟨"\x7bx\x7d".toList, [.slot ⟨"\x7bx\x7d".toList, 0, none⟩]⟩ := by
    decide +kernel
  have hne : lead ≠ [] := by
    rintro rfl
    cases hlead.blank
  refine ⟨⟨"\x7bx\x7d".toList, 0 + lead.byteLength, none⟩, rfl, ?_⟩
  rw [pieces_append hlead.isPlain hparsed hslot, foldr_consChar hne]
  simp [Piece.moved, Slot.moved, Piece.behindLiteral]

theorem fits_behind_lead (keywords : List Text)
    (hpieces : template.pieces = [.literal lead, .slot s])
    (htoken : Shape.token.Matches t) : fits keywords template.pieces (lead ++ t) = true := by
  refine fits_iff.mpr ⟨[], lead ++ t, [t], rfl, isOpening_nil keywords, ?_⟩
  rw [hpieces]
  exact division_literal_iff.mpr ⟨lead, t, rfl, sameBy_refl sameFolded_refl lead,
    division_slot_iff.mpr ⟨t, [], [], (List.append_nil t).symm, rfl, htoken, .nil⟩⟩

/-- **What is found in a value between single quotes** is the value as it is exactly if it may stand
there and has no single quote in it. Any other token that is found there is shorter than the
quotation, or the quotation with another value. -/
theorem firstToken?_between_quotes_iff :
    (firstToken? (beginsWith sameFolded []) ('\'' :: (value ++ ['\'']))).map
        (fun found => [(Argument.ofToken found.1).unquoted]) = some [⟨value, .string⟩] ↔
      Quote.single.mark ∉ value ∧ Shape.Quotable Quote.single.mark value := by
  rw [← unquoted_enclosed_iff]
  constructor
  · intro h
    obtain ⟨⟨token, rest⟩, hfound, harguments⟩ := Option.map_eq_some_iff.mp h
    obtain ⟨gap, hsplit, -⟩ := firstToken?_eq_some_iff.mp hfound
    have hunquoted : (Argument.ofToken token).unquoted = ⟨value, .string⟩ :=
      List.singleton_inj.mp harguments
    obtain ⟨hvalue, hshape⟩ := Argument.mk.inj hunquoted
    -- a token with the value in it leaves no room for anything else
    have hle := length_unquote_add_two_le hshape
    have hlength := congrArg List.length hsplit
    simp only [List.length_cons, List.length_append, List.length_nil] at hlength
    rw [Argument.ofToken] at hvalue
    rw [hvalue] at hle
    obtain rfl : gap = [] := List.eq_nil_of_length_eq_zero (by omega)
    obtain rfl : rest = [] := List.eq_nil_of_length_eq_zero (by omega)
    rw [List.nil_append, List.append_nil] at hsplit
    rwa [← hsplit] at hunquoted
  · intro h
    have htoken := Shape.token_matches_of_quotable (unquoted_enclosed_iff.mp h).2
    have hfound : firstToken? (beginsWith sameFolded []) ('\'' :: (value ++ ['\''])) = _ :=
      firstToken?_of_token_matches htoken rfl
    rw [hfound, Option.map_some]
    exact congrArg (some [·]) h

/-- **A value from an outline arrives as a string exactly if it can stand between single quotes as
it is**: it has no single quote, and backslashes only in pairs. The parameter must have a name, and
the value no reference of its own. -/
theorem match?_outline_iff (hlead : IsLead lead)
    (hunled : ∀ keyword ∈ setting.properties.keywords, Keyword.dropWithBlanks? lead keyword = none)
    (hname : ∀ c ∈ name, isNameCharacter c = true)
    (hvalue : scope.context.get? name = some (.string value)) (hdollar : '$' ∉ value)
    (hparsed : ofText? setting.engine (lead ++ "\x7bx\x7d".toList) = .ok template)
    (hcall : setting.limit.permits (outline scope (parameterBehind lead name)) = true)
    (hsource : setting.limit.permits template.source = true)
    (hcompiles : setting.engine.compiles
      (.call setting.properties.keywords (bodyOf template.pieces)) = true) :
    match? setting template (outline scope (parameterBehind lead name)) = some [⟨value, .string⟩] ↔
      name ≠ [] ∧ Quote.single.mark ∉ value ∧ Shape.Quotable Quote.single.mark value := by
  obtain ⟨s, hindex, hpieces⟩ := pieces_of_lead hlead hparsed
  have hstripped : setting.stripped template = template :=
    withoutKeyword_of_unled (by rwa [hpieces])
  rw [match?_eq_some_iff, Setting.compiles, hstripped]
  by_cases hne : name = []
  · subst hne
    refine iff_of_false ?_ fun h => h.1 rfl
    rintro ⟨-, -, -, -, harguments⟩
    rw [outline_parameter_nil hlead, arguments?_behind_lead hpieces hindex] at harguments
    -- without a name the brackets stay, and no token begins in them
    have hnone : firstToken? (beginsWith sameFolded []) "<>".toList = none := by decide
    cases harguments.symm.trans (congrArg _ hnone)
  · have hlookup : scope.lookup? name = some value := by
      rw [Scope.lookup?, hvalue]
      rfl
    rw [outline_parameter hlead hne hname hlookup hdollar] at hcall ⊢
    rw [arguments?_behind_lead hpieces hindex, firstToken?_between_quotes_iff]
    refine ⟨fun h => ⟨hne, h.2.2.2.2⟩, fun h => ⟨hcall, hsource, hcompiles, ?_, h.2⟩⟩
    exact fits_behind_lead _ hpieces (Shape.token_matches_of_quotable h.2.2)

/-- A value with a pair of backslashes, double quotes and a line break. -/
theorem match?_outline_iff_path :
    ∃ scope template value, IsLead "open ".toList
      ∧ value = "C:\\\\dir \"new\"\n".toList
      ∧ scope.context.get? "file.path".toList = some (.string value)
      ∧ ofText? .unlimited "open \x7bx\x7d".toList = .ok template
      ∧ match? ⟨.unlimited, .empty, .default⟩ template (outline scope "open <file.path>".toList) =
          some [⟨value, .string⟩] := by
  let scope : Scope := ⟨⟨[("file.path".toList, .string "C:\\\\dir \"new\"\n".toList)]⟩, .empty⟩
  let template : Template :=
    ⟨"open \x7bx\x7d".toList, [.literal "open ".toList, .slot ⟨"\x7bx\x7d".toList, 5, none⟩]⟩
  have hlead : IsLead "open ".toList := by decide
  have hname : ∀ c ∈ "file.path".toList, isNameCharacter c = true :=
    List.all_eq_true.mp (by decide +kernel)
  have hvalue : scope.context.get? "file.path".toList =
    some (.string "C:\\\\dir \"new\"\n".toList) := rfl
  have hparsed : ofText? .unlimited ("open ".toList ++ "\x7bx\x7d".toList) = .ok template := by
    decide +kernel
  have harrives : match? ⟨.unlimited, .empty, .default⟩ template
        (outline scope (parameterBehind "open ".toList "file.path".toList)) =
          some [⟨_, .string⟩] ↔ _ :=
    match?_outline_iff hlead (by decide +kernel) hname hvalue (by decide) hparsed
      (by decide +kernel) (by decide) (by decide +kernel)
  exact ⟨scope, template, _, hlead, rfl, hvalue, hparsed,
    harrives.mpr ⟨by decide, by decide, by decide +kernel⟩⟩

/-- A value with a single quote ends the quotation too early, and one that has it behind a backslash
loses that. -/
theorem exists_match?_outline_ne :
    ∃ scope template, IsLead "say ".toList
      ∧ (∀ keyword ∈ Bindings.empty.keywords, Keyword.dropWithBlanks? "say ".toList keyword = none)
      ∧ (∀ c ∈ "xy".toList, isNameCharacter c = true)
      ∧ scope.context.get? "x".toList = some (.string "it's".toList) ∧ '$' ∉ "it's".toList
      ∧ scope.context.get? "y".toList = some (.string "it\\'s".toList) ∧ '$' ∉ "it\\'s".toList
      ∧ ofText? .unlimited "say \x7bx\x7d".toList = .ok template
      ∧ SizeLimit.default.permits (outline scope "say <x>".toList) = true
      ∧ SizeLimit.default.permits template.source = true
      ∧ Engine.unlimited.compiles (.call Bindings.empty.keywords (bodyOf template.pieces)) = true
      ∧ match? ⟨.unlimited, .empty, .default⟩ template (outline scope "say <x>".toList) = none
      ∧ match? ⟨.unlimited, .empty, .default⟩ template (outline scope "say <y>".toList) =
          some [⟨"it's".toList, .string⟩] := by
  refine ⟨⟨⟨[("x".toList, .string "it's".toList), ("y".toList, .string "it\\'s".toList)]⟩, .empty⟩,
    ⟨"say \x7bx\x7d".toList, [.literal "say ".toList, .slot ⟨"\x7bx\x7d".toList, 4, none⟩]⟩,
    by decide, ?_, List.all_eq_true.mp (by decide +kernel),
    rfl, ?_, rfl, ?_, ?_, ?_, ?_, ?_, ?_, ?_⟩
  all_goals decide +kernel

end Call

end StepPhrase
