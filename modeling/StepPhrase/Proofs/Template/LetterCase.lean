import StepPhrase.Proofs.Template.Expression

/-!
# Definitions that differ in the case of letters

The reader of definitions looks for backslashes and braces only, so it takes a definition in small
letters apart in the same places. Two definitions that differ in the case of letters outside of
their slots have the same gist.

That slots are left alone is not for the sake of their names, which do not count, but to keep what
is compared simple: with the same tokens they have the same indices.

* **`readFrom_small`** — the items of a definition in small letters are its items, in small letters.
* **`exists_gist_of_small`** — the second definition is a template too, with the same gist.
-/

namespace StepPhrase.Template

open Text
open Piece (ofItems)

variable {engine : Engine}

/-! ## Items

The reader steps in the same way on a letter and on its small form, for the three characters that it
looks for are no letters. -/

/-- An item in small letters. -/
def Item.small : Item → Item
  | .plain c => .plain c.toLower
  | .escaped c => .escaped c.toLower
  | .backslash => .backslash
  | .slot inside => .slot (Text.small inside)

/-- What is wrong with a brace, in small letters. -/
def Fault.small : Fault → Fault
  | .empty => .empty
  | .unclosed rest => .unclosed (Text.small rest)

/-- Where a reader stands in a text in small letters. -/
def Reading.small : Reading → Reading
  | .between => .between
  | .escape => .escape
  | .opened => .opened
  | .inside read => .inside (Text.small read)

/-- **A definition in small letters is taken apart in the same places**, and what is wrong with it
is wrong in the same place. -/
theorem readFrom_small (reading : Reading) (done : List Item) (t : Text) :
    readFrom reading.small (done.map Item.small) (Text.small t) =
      ((readFrom reading done t).1.map Item.small,
        (readFrom reading done t).2.map Fault.small) := by
  induction t generalizing reading done with
  | nil => cases reading <;> simp [readFrom, Reading.small, Item.small, Fault.small]
  | cons c t ih =>
    cases reading with
    | between =>
      rw [Reading.small, small_cons, readFrom, readFrom]
      simp only [toLower_eq_iff (m := '\\') (by decide), toLower_eq_iff (m := '{') (by decide)]
      split
      · exact ih .escape done
      · split
        · exact ih .opened done
        · exact ih .between (.plain c :: done)
    | escape => exact ih .between (.escaped c :: done)
    | opened =>
      rw [Reading.small, small_cons, readFrom, readFrom]
      simp only [toLower_eq_iff (m := '}') (by decide)]
      split
      · simp [Fault.small]
      · exact ih (.inside [c]) done
    | inside read =>
      rw [Reading.small, small_cons, readFrom, readFrom]
      simp only [toLower_eq_iff (m := '}') (by decide)]
      split
      · have hrest := ih .between (.slot read.reverse :: done)
        rwa [List.map_cons, Item.small, small_reverse] at hrest
      · exact ih (.inside (c :: read)) done

theorem readItems_small (t : Text) :
    readItems (small t) = ((readItems t).1.map Item.small, (readItems t).2.map Fault.small) :=
  readFrom_small .between [] t

/-! ## Pieces

Two lists of items that are the same in small letters are of the same kinds one by one. A slot has
the same index in both because its token is the same. -/

theorem eq_of_source_slot_eq {inside other : Text}
    (h : (Item.slot inside).source = (Item.slot other).source) : inside = other :=
  List.append_cancel_right (List.cons.inj h).2

/-- **Items that differ in the case of letters, and not in their slots, have the same gist.** The
offsets may differ; they only say where the slots stand. -/
theorem map_gist_of_small {items others : List Item} (start start' : Nat)
    (h : items.map Item.small = others.map Item.small)
    (htokens : (slotsOf (ofItems start items)).map Slot.token =
      (slotsOf (ofItems start' others)).map Slot.token) :
    items.map Item.gist = others.map Item.gist := by
  induction items generalizing others start start' with
  | nil => rw [List.map_eq_nil_iff.mp h.symm]
  | cons item items ih =>
    cases others with
    | nil => cases h
    | cons other others =>
      obtain ⟨hitem, hitems⟩ := List.cons.inj h
      have hrest := ih (start + item.byteLength) (start' + other.byteLength) hitems
      cases item <;> cases other <;> simp only [Item.small, reduceCtorEq, Item.plain.injEq,
        Item.escaped.injEq, Item.slot.injEq] at hitem
      case plain.plain c d =>
        simp only [ofItems, slotsOf_consChar] at htokens
        simp only [List.map_cons, Item.gist, hitem, hrest htokens]
      case escaped.escaped c d =>
        simp only [ofItems, slotsOf_consChar] at htokens
        simp only [List.map_cons, Item.gist, hitem, hrest htokens]
      case backslash.backslash =>
        simp only [ofItems, slotsOf_consChar] at htokens
        simp only [List.map_cons, hrest htokens]
      case slot.slot inside inside' =>
        simp only [ofItems, slotsOf_slot, List.map_cons, List.cons.injEq] at htokens
        obtain ⟨htoken, htokens⟩ := htokens
        obtain rfl := eq_of_source_slot_eq htoken
        simp only [List.map_cons, hrest htokens]

/-! ## Definitions

The gist goes from the items to the pieces, and the expressions are given by the gist. -/

/-- **A definition that differs from a template's in the case of letters outside of the slots is a
template with the same gist**, for an engine that is blind to case. -/
theorem exists_gist_of_small (hblind : engine.IsCaseBlind) {definition other : Text}
    {template : Template} (hparsed : ofText? engine definition = .ok template)
    (hcase : small definition = small other) (hslots : slotTokens? definition = slotTokens? other) :
    ∃ variant, ofText? engine other = .ok variant
      ∧ variant.pieces.map Piece.gist = template.pieces.map Piece.gist := by
  obtain ⟨items, hitems, -⟩ := exists_items_of_ofText? hparsed
  -- the other definition has items as well, and they are the same in small letters
  have hread : readItems (small definition) = readItems (small other) := by rw [hcase]
  rw [readItems_small, readItems_small, hitems, Prod.mk.injEq] at hread
  obtain ⟨hsmall, hfault⟩ := hread
  cases hothers : readItems other with
  | mk others fault =>
    rw [hothers] at hsmall hfault
    obtain rfl : fault = none := by simpa using hfault.symm
    have htokens : (slotsOf (ofItems 0 items)).map Slot.token =
        (slotsOf (ofItems 0 others)).map Slot.token := by
      simpa [slotTokens?, pieces?, items?, hitems, hothers, Except.map] using hslots
    have hgist : (ofItems 0 others).map Piece.gist = template.pieces.map Piece.gist := by
      rw [pieces_eq_ofItems (isReading_iff.mpr hitems) hparsed, map_gist_ofItems, map_gist_ofItems,
        map_gist_of_small 0 0 hsmall htokens]
    -- the engine has compiled the template, so it compiles whatever has the same gist
    have hcompiles := (forall_compiles_iff_of_gist hblind hgist).mpr (ofText?_eq_ok hparsed).2.2
    exact ⟨_, ofText?_eq_ok_of_isReading (isReading_iff.mpr hothers) hcompiles, hgist⟩

end StepPhrase.Template
