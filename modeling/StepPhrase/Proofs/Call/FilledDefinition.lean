import StepPhrase.Proofs.Argument.Quotation
import StepPhrase.Proofs.Call.EscapedText
import StepPhrase.Proofs.Call.Positions
import StepPhrase.Proofs.Template.Filled

/-!
# Filled definitions as calls

A definition that is written out with values for a report is a call as well. Each value stands there
as a quotation, and a quotation ends with its mark, so nothing that follows can be taken for a part
of it: the filled definition is a filling of the pieces with the longest tokens, which is what
extraction finds.

Two things could go wrong and are excluded. A quotation with another mark or a backslash inside
might be read as a longer or a shorter token, so values are asked not to have any. And the filled
definition might begin with a keyword, in which case the blanks behind it are not those of the
definition.

* **`fillsLongest_fill`** — a definition, written out with quotations for the slots, fills the
  pieces.
* **`arguments?_fill`** — the arguments found are the values.
* **`match?_fill`** — the filled definition matches with its values, if the engine compiles the
  expression that has the keywords in it.
-/

namespace StepPhrase.Call

open Template Text
open Piece (leadingLiteral ofItems)

variable {engine : Engine} {definition : Text} {start : Nat} {items : List Item}
    {values : List Text} {template : Template} {setting : Setting}

/-! ## Fillings

Filling goes through the items of the definition, and pieces are made of the same items, so the
longest filling is found by one induction over them. -/

/-- **The items with quotations in the place of the slots fill the pieces** that are made of the
items. -/
theorem fillsLongest_fillItems (hplain : '\\' ∉ items.flatMap Item.source)
    (hlength : values.length = (slotsOf (ofItems start items)).length)
    (hvalues : ∀ value ∈ values, Shape.Quotable Quote.single.mark value) :
    FillsLongest (ofItems start items) (values.map quotation) (fillItems items values) := by
  induction items generalizing start values with
  | nil =>
    obtain rfl := List.length_eq_zero_iff.mp hlength
    exact .nil
  | cons item items ih =>
    rw [List.flatMap_cons, List.mem_append, not_or] at hplain
    cases item with
    | plain d =>
      rw [ofItems, slotsOf_consChar] at hlength
      exact (ih hplain.2 hlength hvalues).consChar d
    | escaped d => exact absurd List.mem_cons_self hplain.1
    | backslash => exact absurd List.mem_cons_self hplain.1
    | slot inside =>
      obtain ⟨value, values, rfl⟩ := List.exists_cons_of_length_eq_add_one hlength
      obtain ⟨hvalue, hvalues⟩ := List.forall_mem_cons.mp hvalues
      -- what follows the quotation begins with the next literal, so the quotation is the longest
      -- token
      have hrest := ih hplain.2 (Nat.succ.inj hlength) hvalues
      have htoken := Shape.isLongestToken_of_quotable hvalue hrest.beginsWith
      rw [fillItems_slot]
      exact .slot htoken hrest

/-! ## The pieces of a definition without backslashes

Only a backslash makes the text of a literal differ from the text it is written as. Without one a
definition and its first literal begin alike, so whether a keyword is taken off can be seen from the
definition itself. -/

/-- A definition without backslashes begins with its first literal as that is. With backslashes the
literal would be shorter than what it is written with. -/
theorem leadingLiteral_prefix_source (hplain : '\\' ∉ items.flatMap Item.source) :
    leadingLiteral (ofItems start items) <+: items.flatMap Item.source := by
  induction items generalizing start with
  | nil => exact List.nil_prefix
  | cons item items ih =>
    rw [List.flatMap_cons, List.mem_append, not_or] at hplain
    cases item with
    | plain d =>
      rw [ofItems, leadingLiteral_consChar, List.flatMap_cons, Item.source, List.singleton_append,
        List.prefix_cons_inj]
      exact ih hplain.2
    | escaped d => exact absurd List.mem_cons_self hplain.1
    | backslash => exact absurd List.mem_cons_self hplain.1
    | slot inside => exact List.nil_prefix

/-- What does not begin with a keyword and a blank loses nothing when templates lose their keywords.
-/
theorem stripped_of_unled (hparsed : ofText? engine definition = .ok template)
    (hplain : '\\' ∉ definition)
    (hunled : ∀ keyword ∈ setting.properties.keywords, ∀ front blank rest,
      definition = front ++ blank :: rest → SameBy sameFolded keyword front →
        Unicode.isWhiteSpace blank = false) :
    setting.stripped template = template := by
  obtain ⟨items, hitems, hpieces⟩ := exists_items_of_ofText? hparsed
  have hsource : definition = items.flatMap Item.source := (isReading_iff.mpr hitems).1
  rw [hsource] at hplain
  refine withoutKeyword_of_unled fun keyword hkeyword => Keyword.dropWithBlanks?_eq_none_iff.mpr ?_
  intro front blank behind heq hsame
  -- what the literal begins with the definition begins with as well
  obtain ⟨rest, hrest⟩ := @leadingLiteral_prefix_source 0 _ hplain
  rw [← hpieces, heq, List.append_assoc, List.cons_append, ← hsource] at hrest
  exact hunled keyword hkeyword front blank _ hrest.symm hsame

/-! ## Filled definitions

The arguments found are the tokens of the longest filling with the quotes taken off, and the longest
filling is the one that was written. -/

/-- **A definition with quotations in the place of the slots fills the pieces** of its template,
with the longest tokens. The values may be any that can stand between single quotes. -/
theorem fillsLongest_fill (hparsed : ofText? engine definition = .ok template)
    (hplain : '\\' ∉ definition)
    (hslots : template.slots ≠ []) (hlength : values.length = template.slots.length)
    (hvalues : ∀ value ∈ values, Shape.Quotable Quote.single.mark value) :
    FillsLongest template.pieces (values.map quotation) (fill definition values) := by
  obtain ⟨items, hitems, hpieces⟩ := exists_items_of_ofText? hparsed
  -- with no values at all the definition would be left as it is, so there must be one
  have hne : values ≠ [] := by
    rw [← List.length_pos_iff, hlength, List.length_pos_iff]
    exact hslots
  rw [slots, hpieces] at hlength
  have hreading := isReading_iff.mpr hitems
  rw [hreading.1] at hplain
  rw [fill_eq_fillItems hreading hne hlength, hpieces]
  exact fillsLongest_fillItems hplain hlength hvalues

/-- **The arguments of a filled definition are its values**, if they may stand between quotes as
they are and no slot asks for another position than its own. -/
theorem arguments?_fill (hparsed : ofText? engine definition = .ok template)
    (hplain : '\\' ∉ definition)
    (hslots : template.slots ≠ []) (hindex : ∀ s ∈ template.slots, s.index = none)
    (hlength : values.length = template.slots.length)
    (hvalues : ∀ value ∈ values,
      Quote.single.mark ∉ value ∧ Shape.Quotable Quote.single.mark value) :
    arguments? template (fill definition values) =
      some (values.map fun value => ⟨value, .string⟩) := by
  have hlongest := fillsLongest_fill hparsed hplain hslots hlength fun value hvalue =>
    (hvalues value hvalue).2
  -- the walk finds the quotations, which are strings and lose their quotes
  obtain ⟨hextracts, -⟩ :=
    (extracts_and_fills_iff (alternating_of_ofText? hparsed)).mpr hlongest.fillsGreedily
  have hraw := rawArguments?_eq_some_iff.mpr ⟨_, rfl, hextracts⟩
  rw [arguments?, hraw, Option.bind_some, arrange?_of_unindexed (by simp [hlength]),
    Option.some_inj, List.map_map, List.map_map]
  · exact List.map_congr_left fun value hvalue => unquoted_enclosed_iff.mpr (hvalues value hvalue)
  · intro index hmem
    obtain ⟨s, hs, rfl⟩ := List.mem_map.mp hmem
    exact hindex s hs

/-- **A filled definition is a call that matches with its values**, in order and as strings, if the
engine compiles the expression that has the keywords and the definition in it. If it does not, the
definition matches no call at all. -/
theorem match?_fill (hparsed : ofText? setting.engine definition = .ok template)
    (hplain : '\\' ∉ definition)
    (hslots : template.slots ≠ []) (hindex : ∀ s ∈ template.slots, s.index = none)
    (hunled : ∀ keyword ∈ setting.properties.keywords, ∀ front blank rest,
      definition = front ++ blank :: rest → SameBy sameFolded keyword front →
        Unicode.isWhiteSpace blank = false)
    (hlength : values.length = template.slots.length)
    (hvalues : ∀ value ∈ values, '\'' ∉ value ∧ '\\' ∉ value)
    (hdefinition : setting.limit.permits definition = true)
    (hfilled : setting.limit.permits (fill definition values) = true) :
    match? setting template (fill definition values) =
      if setting.engine.compiles (.call setting.properties.keywords (bodyOf template.pieces)) then
        some (values.map fun value => ⟨value, .string⟩)
      else none := by
  have hstays := stripped_of_unled hparsed hplain hunled
  have hquotable : ∀ value ∈ values, Shape.Quotable Quote.single.mark value := fun value hvalue =>
    Shape.quotable_of_not_mem (hvalues value hvalue).2 (hvalues value hvalue).1
  have harguments := arguments?_fill hparsed hplain hslots hindex hlength fun value hvalue =>
    ⟨(hvalues value hvalue).1, hquotable value hvalue⟩
  have hlongest := fillsLongest_fill hparsed hplain hslots hlength hquotable
  have hfits : fits setting.properties.keywords template.pieces (fill definition values) = true :=
    fits_iff.mpr ⟨[], _, _, rfl, isOpening_nil _, hlongest.fillsGreedily.fills⟩
  split
  · next hcompiles =>
    rw [← (ofText?_eq_ok hparsed).1] at hdefinition
    refine match?_eq_some_iff.mpr ⟨hfilled, hdefinition, ?_⟩
    rw [Setting.compiles, hstays]
    exact ⟨hcompiles, hfits, harguments⟩
  · next hcompiles =>
    refine Option.eq_none_iff_forall_ne_some.mpr fun arguments hmatch => hcompiles ?_
    have hfound := (match?_eq_some_iff.mp hmatch).2.2.1
    rwa [Setting.compiles, hstays] at hfound

/-- Two slots side by side behind a keyword that no blank follows, and values that look like other
parts of the definition. -/
theorem match?_fill_adjacent :
    ∃ template, ofText? .unlimited "Given\x7ba\x7d\x7ba\x7d to \x7bb\x7d".toList = .ok template
      ∧ match? ⟨.unlimited, .empty, .default⟩ template "Given'\x7ba\x7d'' to ' to '\"\n\"'".toList =
          some [⟨"\x7ba\x7d".toList, .string⟩, ⟨" to ".toList, .string⟩,
            ⟨"\"\n\"".toList, .string⟩] := by
  let definition : Text := "Given\x7ba\x7d\x7ba\x7d to \x7bb\x7d".toList
  let values : List Text := ["\x7ba\x7d".toList, " to ".toList, "\"\n\"".toList]
  let template : Template :=
    ⟨definition, [.literal "Given".toList, .slot ⟨"\x7ba\x7d".toList, 5, none⟩,
    .slot ⟨"\x7ba\x7d".toList, 8, none⟩, .literal " to ".toList,
    .slot ⟨"\x7bb\x7d".toList, 15, none⟩]⟩
  have hparsed : ofText? .unlimited definition = .ok template := by decide +kernel
  have hunled : ∀ keyword ∈ Bindings.empty.keywords,
      Keyword.dropWithBlanks? definition keyword = none := by
    decide +kernel
  have hfill : fill definition values = "Given'\x7ba\x7d'' to ' to '\"\n\"'".toList := by
    decide +kernel
  refine ⟨template, hparsed, ?_⟩
  rw [← hfill, @match?_fill _ values _ ⟨.unlimited, .empty, .default⟩ hparsed (by decide)
    (by decide) (by decide)
    (fun keyword hkeyword => Keyword.dropWithBlanks?_eq_none_iff.mp (hunled keyword hkeyword))
    (by decide) (by decide) (by decide) (by decide)]
  decide +kernel

/-- A synonym of 700000 letters, and a filled definition that does not match. Everything else about
the definition and its call is as the theorem above asks for. -/
theorem match?_fill_bulky :
    ∃ template, ofText? (upTo 500000) "\x7bx\x7d".toList = .ok template
      ∧ '\\' ∉ "\x7bx\x7d".toList ∧ template.slots ≠ [] ∧ (∀ s ∈ template.slots, s.index = none)
      ∧ (∀ keyword ∈ (bulky 700000).keywords, ∀ front blank rest,
          "\x7bx\x7d".toList = front ++ blank :: rest → SameBy sameFolded keyword front →
            Unicode.isWhiteSpace blank = false)
      ∧ [['5']].length = template.slots.length
      ∧ (∀ value ∈ [['5']], '\'' ∉ value ∧ '\\' ∉ value)
      ∧ SizeLimit.default.permits "\x7bx\x7d".toList = true
      ∧ SizeLimit.default.permits (fill "\x7bx\x7d".toList [['5']]) = true
      ∧ match? ⟨upTo 500000, bulky 700000, .default⟩ template
        (fill "\x7bx\x7d".toList [['5']]) = none := by
  refine ⟨⟨"\x7bx\x7d".toList, [.slot ⟨"\x7bx\x7d".toList, 0, none⟩]⟩, by decide +kernel,
    by decide, by decide, by decide, ?_, rfl, by decide, by decide, by decide, ?_⟩
  · intro keyword _ front blank rest heq _
    have hnoBlank : "\x7bx\x7d".toList.all (fun c => !Unicode.isWhiteSpace c) = true := by decide
    rw [heq] at hnoBlank
    simpa using List.all_eq_true.mp hnoBlank blank (List.mem_append_right front List.mem_cons_self)
  · refine Option.isNone_iff_eq_none.mp (Option.isSome_eq_false_iff.mp (isMatch_of_not_compiles ?_))
    exact compiles_upTo_eq_false (replicate_mem_keywords_bulky (by decide))
      (by rw [List.length_replicate]; decide) _

end StepPhrase.Call
