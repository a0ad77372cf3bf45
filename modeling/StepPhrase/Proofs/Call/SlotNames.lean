import StepPhrase.Proofs.Call.Gist

/-!
# What slots are called makes no difference

Of the text in the braces of a slot only the number that it begins with counts. Any other text with
the same digits in front can stand there: the definition is taken apart in the same places, is as
specific, and matches the same calls with the same arguments.

A name may hold whatever does not close the braces: opening braces, backslashes, characters that
take more bytes. That shifts all slots behind it, and makes the definition longer, which can take it
over the limit on the length of definitions; nothing else can be seen of it.

* **`Item.Renamed`** — the items that a slot can be exchanged for.
* **`IsReading.renamed`** — the definition with other names is read as the items with other names.
* **`match?_renamed`** — in terms of definitions and calls.
-/

namespace StepPhrase

namespace Template

open Piece (ofItems)

variable {engine : Engine}

/-- An item and what may stand in its place: a slot with any other text that begins with the same
digits. -/
inductive Item.Renamed : Item → Item → Prop
  | same (item : Item) : Renamed item item
  | slot {inside other : Text} (hne : other ≠ []) (hclosing : '}' ∉ other)
      (hdigits : other.takeWhile Char.isDigit = inside.takeWhile Char.isDigit) :
      Renamed (.slot inside) (.slot other)

variable {item other : Item} {items others : List Item}

theorem Item.Renamed.isWhole (h : item.Renamed other) (hitem : item.IsWhole) : other.IsWhole := by
  cases h with
  | same => exact hitem
  | slot hne hclosing _ => exact ⟨hne, hclosing⟩

/-- **With other names the pieces are the same but for names and places.** An other name may be
longer or shorter, so the items behind it stand elsewhere. -/
theorem map_unnamed_of_renamed (h : List.Forall₂ Item.Renamed items others) (start start' : Nat) :
    (ofItems start items).map Piece.unnamed = (ofItems start' others).map Piece.unnamed := by
  induction h generalizing start start' with
  | nil => rfl
  | @cons item other _ _ hitem _ ih =>
    have hrest := ih (start + item.byteLength) (start' + other.byteLength)
    cases hitem with
    | same =>
      cases item with
      | slot inside => exact congrArg₂ List.cons rfl hrest
      | _ => rw [ofItems, ofItems, map_unnamed_consChar, map_unnamed_consChar, hrest]
    | slot _ _ hdigits =>
      refine congrArg₂ List.cons ?_ hrest
      simp only [Piece.unnamed, Slot.ofInside, Slot.indexOf, hdigits]

theorem forall_isWhole_of_renamed (h : List.Forall₂ Item.Renamed items others)
    (hwhole : ∀ item ∈ items, item.IsWhole) : ∀ item ∈ others, item.IsWhole := by
  induction h with
  | nil => exact hwhole
  | cons hitem _ ih =>
    obtain ⟨hfirst, hrest⟩ := List.forall_mem_cons.mp hwhole
    exact List.forall_mem_cons.mpr ⟨hitem.isWhole hfirst, ih hrest⟩

/-- **With other names in its slots a definition is read in the same way**, whatever stands in those
names. -/
theorem IsReading.renamed {definition : Text} (h : IsReading definition items)
    (hrenamed : List.Forall₂ Item.Renamed items others) :
    IsReading (others.flatMap Item.source) others := by
  obtain ⟨-, whole, last, rfl, hwhole, hlast⟩ := h
  -- the items that are whole and the one that need not be are exchanged one by one
  have hfront := List.forall₂_take whole.length hrenamed
  have hback := List.forall₂_drop whole.length hrenamed
  rw [List.take_left] at hfront
  rw [List.drop_left] at hback
  refine ⟨rfl, others.take whole.length, others.drop whole.length, (List.take_append_drop _ _).symm,
    forall_isWhole_of_renamed hfront hwhole, ?_⟩
  rcases hlast with rfl | rfl
  · exact .inl (List.forall₂_nil_left_iff.mp hback)
  · -- a lone backslash has no other name
    obtain ⟨_, _, hlone, hnil, heq⟩ := List.forall₂_cons_left_iff.mp hback
    cases hlone
    rw [heq, List.forall₂_nil_left_iff.mp hnil]
    exact .inr rfl

end Template

namespace Call

open Template
open Piece (ofItems)

/-- **What the slots of a definition are called makes no difference.** With other texts in the
braces of any slots, as long as they begin with the same digits, a definition is still a template,
is as specific and matches the same calls with the same arguments, up to the limit on the length of
definitions. -/
theorem match?_renamed {definition : Text} {items others : List Item} {template : Template}
    (hreading : IsReading definition items) (hrenamed : List.Forall₂ Item.Renamed items others)
    (hparsed : ofText? engine definition = .ok template) :
    ∃ variant, ofText? engine (others.flatMap Item.source) = .ok variant
      ∧ variant.rank = template.rank
      ∧ ∀ (setting : Setting) (call : Text), setting.limit.permits definition = true →
        setting.limit.permits (others.flatMap Item.source) = true →
        match? setting variant call = match? setting template call := by
  have hunnamed : (ofItems 0 others).map Piece.unnamed = template.pieces.map Piece.unnamed := by
    rw [pieces_eq_ofItems hreading hparsed, map_unnamed_of_renamed hrenamed 0 0]
  -- the expressions are the same, so the engine compiles those of the other definition too
  have hcompiles : ∀ e ∈ expressionsOf (ofItems 0 others), engine.compiles e = true := by
    rw [expressionsOf_eq_of_unnamed hunnamed]
    exact (ofText?_eq_ok hparsed).2.2
  have hvariant := ofText?_eq_ok_of_isReading (hreading.renamed hrenamed) hcompiles
  refine ⟨_, hvariant, rank_eq_of_gist (map_gist_of_unnamed hunnamed),
    fun setting call hdefinition hother => ?_⟩
  -- the limit is all that a longer definition could fail
  refine match?_eq_of_unnamed ?_ (pieces_withoutKeyword_map_unnamed hunnamed) call
  rw [(ofText?_eq_ok hvariant).1, (ofText?_eq_ok hparsed).1, hdefinition, hother]

/-- Names with a brace, a backslash and a character of more than one byte. -/
theorem match?_renamed_brace :
    ∃ template variant, ofText? .unlimited "copy \x7b1:from\x7d to \x7b0\x7d".toList = .ok template
      ∧ ofText? .unlimited "copy \x7b1\x7b\\é\x7d to \x7b0\x7d".toList = .ok variant
      ∧ variant.rank = template.rank
      ∧ (match? ⟨.unlimited, .empty, .default⟩ variant "copy 'b' to 'a'".toList).map
        (·.map Argument.value) =
        some ["a".toList, "b".toList] := by
  let items (name : Text) : List Item :=
    "copy ".toList.map .plain ++ [.slot name] ++ " to ".toList.map .plain ++ [.slot "0".toList]
  have hreading : IsReading "copy \x7b1:from\x7d to \x7b0\x7d".toList (items "1:from".toList) :=
    isReading_iff.mpr (by decide +kernel)
  have hslot : Item.Renamed (.slot "1:from".toList) (.slot "1\x7b\\é".toList) :=
    .slot (by decide) (by decide) (by decide)
  have hrenamed : List.Forall₂ Item.Renamed (items "1:from".toList) (items "1\x7b\\é".toList) :=
    List.rel_append (List.rel_append
      (List.rel_append (List.forall₂_same.mpr fun item _ => .same item)
      (.cons hslot .nil)) (List.forall₂_same.mpr fun item _ => .same item)) (.cons (.same _) .nil)
  have hparsed : ofText? .unlimited "copy \x7b1:from\x7d to \x7b0\x7d".toList =
      .ok ⟨"copy \x7b1:from\x7d to \x7b0\x7d".toList, [.literal "copy ".toList,
        .slot ⟨"\x7b1:from\x7d".toList, 5, some 1⟩, .literal " to ".toList,
        .slot ⟨"\x7b0\x7d".toList, 17, some 0⟩]⟩ := by
    decide +kernel
  obtain ⟨variant, hvariant, hrank, hmatch⟩ := match?_renamed hreading hrenamed hparsed
  refine ⟨_, variant, hparsed, hvariant, hrank, ?_⟩
  rw [hmatch ⟨.unlimited, .empty, .default⟩ _ (by decide) (by decide)]
  decide +kernel

end Call

end StepPhrase
