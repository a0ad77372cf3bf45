import StepPhrase.Argument.Quotation
import StepPhrase.Proofs.Template.Layout
import StepPhrase.Proofs.Text.Slices
import StepPhrase.Template.Filled

/-!
# Filled definitions

Between its slots a definition has gaps: the text in front of the first slot, the texts from one
slot to the next, and the text behind the last. A definition is its gaps and its slots in turn, and
filled it is its gaps and the values in turn. The gaps can be sliced off the definition at the
places of the slots, with no slice failing, so they are whole: escapes and characters of several
bytes stay as they are.

Filling is described twice, over the items and over the slices of the text, and both descriptions
are woven of the same gaps. The one over slices has a choice that the other has not: what to do
where a slice fails. As none fails, the choice is never made.

* **`weave_gapsFrom_tokens`**, **`weave_gapsFrom_values`** — what is woven of the gaps of some
  items.
* **`mapM_between?_gapRanges`** — the gaps are slices.
* **`fillFrom_eq_weave`** — where no slice fails, the slices and the values make the filled
  definition.
* **`fill_spec`** — all of it for a definition, and the ones that are not filled.
-/

namespace StepPhrase.Template

open Text
open Piece (ofItems)

/-- A value as it stands in a filled definition. -/
abbrev quotation (value : Text) : Text := Quote.single.mark :: (value ++ [Quote.single.mark])

/-- Gaps and what fills them in turn, with what is left over of either at the end. With one gap more
than there are fillers the last gap ends the text. -/
def weave : List Text → List Text → Text
  | gap :: gaps, filler :: fillers => gap ++ (filler ++ weave gaps fillers)
  | gaps, fillers => gaps.flatten ++ fillers.flatten

/-- The texts between the slots of some items, with `gap` in front of the first of these texts.
There is always one more of them than there are slots. -/
def gapsFrom (gap : Text) : List Item → List Text
  | [] => [gap]
  | .slot _ :: items => gap :: gapsFrom [] items
  | item :: items => gapsFrom (gap ++ item.source) items

/-- The byte ranges between some slots, from one offset to another. Two slots side by side have an
empty range between them. -/
def gapRanges (start : Nat) : List Slot → Nat → List (Nat × Nat)
  | [], stop => [(start, stop)]
  | s :: slots, stop => (start, s.start) :: gapRanges s.stop slots stop

/-- A definition from an offset on with values for its slots, put together from slices. A slice that
fails counts as empty. -/
def fillFrom (definition : Text) (start : Nat) : List (Slot × Text) → Text
  | [] => (dropBytes? start definition).getD []
  | (s, value) :: rest =>
    (definition.between? (start, s.start)).getD [] ++
      (quotation value ++ fillFrom definition s.stop rest)

variable {definition before gap inside value : Text} {start : Nat} {item : Item} {items : List Item}
  {slots : List Slot} {gaps values : List Text}

/-! ## Items

A gap grows item by item until a slot ends it. By induction on the items with the gap so far in
front, so that an item which is no slot only moves over to the gap. -/

theorem slotsOf_ofItems_cons (h : ∀ inside, item ≠ .slot inside) :
    slotsOf (ofItems start (item :: items)) =
      slotsOf (ofItems (start + item.byteLength) items) := by
  cases item with
  | plain c => exact slotsOf_consChar c _
  | escaped c => exact slotsOf_consChar c _
  | backslash => exact slotsOf_consChar '\\' _
  | slot inside => exact absurd rfl (h inside)

theorem slotsOf_ofItems_slot : slotsOf (ofItems start (.slot inside :: items)) =
    .ofInside start inside :: slotsOf (ofItems (start + (Item.slot inside).byteLength) items) := rfl

theorem fillItems_slot : fillItems (.slot inside :: items) (value :: values) =
    quotation value ++ fillItems items values := by
  simp [fillItems, quotation, Quote.mark]

theorem fillItems_cons (h : ∀ inside, item ≠ .slot inside) :
    fillItems (item :: items) values = item.source ++ fillItems items values :=
  fillItems.eq_3 _ _ _ fun inside _ _ _ heq => h inside heq

theorem length_gapsFrom :
    (gapsFrom gap items).length = (slotsOf (ofItems start items)).length + 1 := by
  induction gap, items using gapsFrom.induct generalizing start with
  | case1 gap => rfl
  | case2 gap inside items ih =>
    rw [gapsFrom, List.length_cons, ih, slotsOf_ofItems_slot,
      List.length_cons]
  | case3 gap item items hitem ih => rw [gapsFrom.eq_3 _ _ _ hitem, ih, slotsOf_ofItems_cons hitem]

/-- **With the slots as they are written the gaps make the items again**: nothing of the definition
is in neither, and nothing is in both. -/
theorem weave_gapsFrom_tokens :
    weave (gapsFrom gap items) ((slotsOf (ofItems start items)).map Slot.token) =
      gap ++ items.flatMap Item.source := by
  induction gap, items using gapsFrom.induct generalizing start with
  | case1 gap => simp [gapsFrom, weave, ofItems]
  | case2 gap inside items ih =>
    rw [gapsFrom, slotsOf_ofItems_slot, List.map_cons, weave, ih, List.nil_append]
    rfl
  | case3 gap item items hitem ih =>
    rw [gapsFrom.eq_3 _ _ _ hitem, slotsOf_ofItems_cons hitem, ih, List.flatMap_cons,
      List.append_assoc]

/-- **With the values they make the filled items.** There is one value for each slot, so each gap
but the last has one behind it. -/
theorem weave_gapsFrom_values (hlength : values.length = (slotsOf (ofItems start items)).length) :
    weave (gapsFrom gap items) (values.map quotation) = gap ++ fillItems items values := by
  induction gap, items using gapsFrom.induct generalizing start values with
  | case1 gap =>
    obtain rfl := List.length_eq_zero_iff.mp hlength
    simp [gapsFrom, weave, fillItems]
  | case2 gap inside items ih =>
    obtain ⟨value, values, rfl⟩ := List.exists_cons_of_length_eq_add_one hlength
    rw [gapsFrom, List.map_cons, weave, ih (Nat.succ.inj hlength), fillItems_slot, List.nil_append]
  | case3 gap item items hitem ih =>
    rw [slotsOf_ofItems_cons hitem] at hlength
    rw [gapsFrom.eq_3 _ _ _ hitem, ih hlength, fillItems_cons hitem, List.append_assoc]

/-! ## Slices

The offsets are counted in bytes from the beginning of the definition. What has been passed is kept
as a text, `before`, so that each offset is the length of a text and the slice there is known. -/

/-- **The gaps are slices of the definition at the ranges between the slots.** Of the definition,
`before` and the gap have been passed. -/
theorem mapM_between?_gapRanges
    (hdefinition : definition = before ++ (gap ++ items.flatMap Item.source))
    (hstart : start = byteLength (before ++ gap)) :
    (gapRanges before.byteLength (slotsOf (ofItems start items)) definition.byteLength).mapM
      definition.between? = some (gapsFrom gap items) := by
  induction gap, items using gapsFrom.induct generalizing before start with
  | case1 gap =>
    -- the last gap is what is left of the definition
    have hslice := between?_append before gap []
    rw [List.flatMap_nil, List.append_nil] at hdefinition
    rw [List.append_nil, ← hdefinition] at hslice
    simp [gapRanges, ofItems, gapsFrom, hslice]
  | case2 gap inside items ih =>
    have hslice := between?_append before gap
      ((Item.slot inside).source ++ items.flatMap Item.source)
    rw [List.flatMap_cons] at hdefinition
    rw [← hdefinition, ← hstart] at hslice
    have hstop : (Slot.ofInside start inside).stop =
        byteLength (before ++ gap ++ (Item.slot inside).source) := by
      rw [byteLength_append, ← hstart]
      rfl
    -- behind the slot nothing has been passed of the next gap
    have hrest : (gapRanges (byteLength (before ++ gap ++ (Item.slot inside).source))
        (slotsOf (ofItems (start + (Item.slot inside).byteLength) items))
          definition.byteLength).mapM
          definition.between? = some (gapsFrom [] items) := by
      refine ih ?_ ?_
      · simpa using hdefinition
      · rw [List.append_nil, ← hstop]
        rfl
    rw [slotsOf_ofItems_slot, gapRanges, hstop, List.mapM_cons, hrest]
    simp only [Slot.ofInside, hslice]
    rfl
  | case3 gap item items hitem ih =>
    -- the gap goes on, and is sliced off as a whole where it ends
    rw [gapsFrom.eq_3 _ _ _ hitem, slotsOf_ofItems_cons hitem]
    refine ih ?_ ?_
    · rw [hdefinition, List.flatMap_cons, List.append_assoc]
    · rw [← List.append_assoc, byteLength_append, ← hstart, Item.byteLength]

/-- **Where no slice fails, nothing is lost by counting it as empty.** The slices are the gaps then,
and they are woven with the values one by one. -/
theorem fillFrom_eq_weave
    (hgaps : (gapRanges start slots definition.byteLength).mapM definition.between? = some gaps)
    (hlength : values.length = slots.length) :
    fillFrom definition start (slots.zip values) = weave gaps (values.map quotation) := by
  induction slots generalizing start gaps values with
  | nil =>
    -- the last gap is a slice up to the end, where `fillFrom` takes all that is left
    obtain rfl := List.length_eq_zero_iff.mp hlength
    rw [gapRanges, List.mapM_cons] at hgaps
    obtain ⟨gap, hgap, hrest⟩ := Option.bind_eq_some_iff.mp hgaps
    obtain rfl := Option.some.inj hrest
    simp [fillFrom, weave, dropBytes?_of_between? hgap]
  | cons s slots ih =>
    obtain ⟨value, values, rfl⟩ := List.exists_cons_of_length_eq_add_one hlength
    rw [gapRanges, List.mapM_cons] at hgaps
    obtain ⟨gap, hgap, hrest⟩ := Option.bind_eq_some_iff.mp hgaps
    obtain ⟨later, hlater, hcons⟩ := Option.bind_eq_some_iff.mp hrest
    obtain rfl := Option.some.inj hcons
    rw [List.zip_cons_cons, fillFrom, hgap, Option.getD_some, ih hlater (Nat.succ.inj hlength),
      List.map_cons, weave]

/-! ## Definitions

With no values, or with another number of them than there are slots, a definition stays as it is; so
does one that cannot be read. -/

theorem fill_eq_fillItems (hreading : IsReading definition items) (hvalues : values ≠ [])
    (hlength : values.length = (slotsOf (ofItems 0 items)).length) :
    fill definition values = fillItems items values := by
  rw [fill, items?, isReading_iff.mp hreading]
  exact if_pos ⟨hvalues, hlength⟩

/-- **Filling replaces the slots and nothing else.** The slots of a definition are slices of it, and
so are the gaps between them, of which there is one more; in turn they make the definition. With one
value for each slot, filled it is made of the same gaps and of the values in quotes, and slices that
count as empty where they fail come to the same. Without values, with another number of them, and
without pieces the definition stays as it is. -/
theorem fill_spec (definition : Text) :
    (∀ pieces, pieces? definition = .ok pieces →
      ∃ gaps, gaps.length = (slotsOf pieces).length + 1
        ∧ (gapRanges 0 (slotsOf pieces) definition.byteLength).mapM definition.between? = some gaps
        ∧ (∀ s ∈ slotsOf pieces, definition.between? (s.start, s.stop) = some s.token)
        ∧ definition = weave gaps ((slotsOf pieces).map Slot.token)
        ∧ ∀ values, values ≠ [] → values.length = (slotsOf pieces).length →
            fill definition values = weave gaps (values.map quotation)
              ∧ fillFrom definition 0 ((slotsOf pieces).zip values) = fill definition values)
      ∧ ∀ values, (∀ pieces, pieces? definition = .ok pieces →
          values = [] ∨ values.length ≠ (slotsOf pieces).length) →
          fill definition values = definition := by
  constructor
  · intro pieces hpieces
    obtain ⟨items, hreading, rfl⟩ := pieces?_eq_ok_iff.mp hpieces
    have hgaps : (gapRanges (byteLength []) (slotsOf (ofItems 0 items)) definition.byteLength).mapM
        definition.between? = some (gapsFrom [] items) :=
      mapM_between?_gapRanges hreading.1 rfl
    refine ⟨gapsFrom [] items, length_gapsFrom, hgaps, fun s hs => ?_, ?_,
      fun values hvalues hlength => ?_⟩
    · obtain ⟨front, back, hsplit, hstart, hstop⟩ :=
        exists_eq_append_token hreading (layout_ofItems 0 items) hs
      rw [hstart, hstop, hsplit]
      exact between?_append front s.token back
    · rw [weave_gapsFrom_tokens, List.nil_append]
      exact hreading.1
    · have hfill : fill definition values = weave (gapsFrom [] items) (values.map quotation) := by
        rw [fill_eq_fillItems hreading hvalues hlength, weave_gapsFrom_values hlength,
          List.nil_append]
      exact ⟨hfill, (fillFrom_eq_weave hgaps hlength).trans hfill.symm⟩
  · intro values hvalues
    rw [fill]
    split
    · rfl
    · next items hitems =>
      have hpieces : pieces? definition = .ok (ofItems 0 items) := by
        rw [pieces?, hitems]
        rfl
      -- a definition is filled only with one value for each slot, and with one at least
      refine if_neg ?_
      rintro ⟨hne, hlength⟩
      exact (hvalues _ hpieces).elim hne fun hother => hother hlength

/-- Characters of several bytes, an escaped brace that would open a slot, slots side by side, and a
backslash at the end; and a brace that opens no slot. -/
theorem fill_spec_escaped :
    ∃ (definition : Text) (values : List Text) (pieces : List Piece),
      definition = "é\\\x7bv\x7d {a}{1:ß}\\".toList ∧ values = [['n'], "ü'".toList]
      ∧ pieces? definition = .ok pieces ∧ values ≠ [] ∧ values.length = (slotsOf pieces).length
      ∧ (gapRanges 0 (slotsOf pieces) definition.byteLength).mapM definition.between? =
          some ["é\\\x7bv\x7d ".toList, [], ['\\']]
      ∧ fill definition values = "é\\\x7bv\x7d 'n''ü''\\".toList
      ∧ fillFrom definition 0 ((slotsOf pieces).zip values) = fill definition values
      ∧ fill "set \x7ba".toList values = "set \x7ba".toList := by
  let definition : Text := "é\\\x7bv\x7d {a}{1:ß}\\".toList
  let values : List Text := [['n'], "ü'".toList]
  let pieces : List Piece := [.literal "é\x7bv\x7d ".toList, .slot ⟨"{a}".toList, 7, none⟩,
    .slot ⟨"{1:ß}".toList, 10, some 1⟩, .literal ['\\']]
  have hpieces : pieces? definition = .ok pieces := by decide +kernel
  have hranges : (gapRanges 0 (slotsOf pieces) definition.byteLength).mapM definition.between? =
      some ["é\\\x7bv\x7d ".toList, [], ['\\']] := by
    decide +kernel
  obtain ⟨gaps, -, hgaps, -, -, hvalues⟩ := (fill_spec definition).1 pieces hpieces
  obtain rfl := Option.some.inj (hranges.symm.trans hgaps)
  obtain ⟨hfill, hslices⟩ := hvalues values (by decide) rfl
  refine ⟨definition, values, pieces, rfl, rfl, hpieces, by decide, rfl, hranges,
    hfill, hslices, ?_⟩
  have hunclosed : pieces? "set \x7ba".toList = .error (.badSlot 4 (.unclosed "\x7ba".toList)) := by
    decide +kernel
  exact (fill_spec "set \x7ba".toList).2 values fun pieces hread =>
    by cases hunclosed.symm.trans hread

end StepPhrase.Template
