import Mathlib.Data.List.Basic
import StepPhrase.Proofs.Template.Reading

/-!
# The layout of a template

The pieces of a definition lie over its items: a slot over the item of a slot, and a literal over
all of the items between two slots, with one character for each.

A layout alone does not determine the pieces, for the items between two slots could be shared out
among several literals. Alternation says that they are all in one. Offsets count what the items are
written with, so an escaped character counts with its backslash, which the literal does not have.

* **`layout_iff`** — the pieces that are made of items are the only alternating ones that lie over
  them.
* **`Layout.exists_eq_append`** — a slot is where it says, and has the text that is there for its
  token.
* **`Layout.pairwise`** — the slots stand one behind the other.
* **`pieces?_spec`** — the definitions that have pieces, which pieces these are, and what is wrong
  with the other definitions.
-/

namespace StepPhrase.Template

open Piece (leadingLiteral consChar ofItems)

/-- The pieces lie over the items, the first of which stands at an offset in the definition. A
literal lies over a run of items that stand for its characters, a slot over the item that it is. -/
inductive Layout : Nat → List Item → List Piece → Prop
  | nil {start : Nat} : Layout start [] []
  | literal {start : Nat} {run items : List Item} {literal : Text} {pieces : List Piece}
      (hrun : run.map Item.character? = literal.map some)
      (hrest : Layout (start + total Item.byteLength run) items pieces) :
      Layout start (run ++ items) (.literal literal :: pieces)
  | slot {start : Nat} {inside : Text} {items : List Item} {pieces : List Piece}
      (hrest : Layout (start + (Item.slot inside).byteLength) items pieces) :
      Layout start (.slot inside :: items) (.slot (.ofInside start inside) :: pieces)

variable {definition : Text} {start : Nat} {item : Item} {items : List Item}
    {pieces : List Piece} {s : Slot}

/-! ## Pieces and items

Pieces are made from the last item to the first. In a layout a character makes the literal behind it
longer, or is one of its own in front of a slot or the end. -/

theorem Layout.consChar {c : Char} (hitem : item.character? = some c)
    (h : Layout (start + item.byteLength) items pieces) :
    Layout start (item :: items) (consChar c pieces) := by
  have hone : [item].map Item.character? = [c].map some := by
    rw [List.map_singleton, hitem, List.map_singleton]
  cases h with
  | nil =>
    show Layout start ([item] ++ []) [.literal [c]]
    exact .literal hone .nil
  | @literal _ run items literal pieces hrun hrest =>
    have hlonger : (item :: run).map Item.character? = (c :: literal).map some := by
      rw [List.map_cons, hitem, hrun, List.map_cons]
    rw [Nat.add_assoc, ← total_cons] at hrest
    exact .literal hlonger hrest
  | @slot _ inside items pieces hrest =>
    show Layout start ([item] ++ .slot inside :: items) (.literal [c] :: _)
    exact .literal hone (.slot hrest)

theorem layout_ofItems (start : Nat) (items : List Item) :
    Layout start items (ofItems start items) := by
  induction items generalizing start with
  | nil => exact .nil
  | cons item items ih =>
    have hrest := ih (start + item.byteLength)
    cases item with
    | plain c => exact hrest.consChar rfl
    | escaped c => exact hrest.consChar rfl
    | backslash => exact hrest.consChar rfl
    | slot inside => exact .slot hrest

theorem Layout.eq_ofItems (h : Layout start items pieces) (halternating : Alternating pieces) :
    pieces = ofItems start items := by
  induction h with
  | nil => rfl
  | @literal start run items literal pieces hrun _ ih =>
    -- the literal takes all characters up to the next slot, since no other literal follows
    obtain ⟨hne, hnext, halternating⟩ := halternating
    rw [ofItems_append hrun, ← ih halternating, foldr_consChar hne, hnext, List.append_nil]
    have hbehind := halternating.eq_leading
    rw [if_pos hnext] at hbehind
    rw [← hbehind]
  | slot _ ih => rw [ofItems, ← ih halternating]

/-- **The pieces made of items are the alternating ones that lie over them.** There is nothing to
choose: where a literal begins and ends is given by the slots. -/
theorem layout_iff :
    pieces = ofItems start items ↔ Layout start items pieces ∧ Alternating pieces := by
  constructor
  · rintro rfl
    exact ⟨layout_ofItems start items, alternating_ofItems start items⟩
  · rintro ⟨h, halternating⟩
    exact h.eq_ofItems halternating

/-! ## Slots and their places

A slot stands behind the items in front of it, and its offset is what these are written with. So its
token is found in the definition at this offset. -/

theorem byteLength_flatMap_source (items : List Item) :
    Text.byteLength (items.flatMap Item.source) = total Item.byteLength items := by
  induction items with
  | nil => rfl
  | cons item items ih =>
    rw [List.flatMap_cons, Text.byteLength_append, ih, total_cons,
      Item.byteLength]

/-- **A slot of the template is a slot of the definition**, and stands behind the items in front of
it. -/
theorem Layout.exists_eq_append (h : Layout start items pieces) (hs : s ∈ slotsOf pieces) :
    ∃ front inside back, items = front ++ .slot inside :: back
      ∧ s = .ofInside (start + total Item.byteLength front) inside := by
  induction h with
  | nil => cases hs
  | @literal _ run _ _ _ _ _ ih =>
    obtain ⟨front, inside, back, rfl, rfl⟩ := ih hs
    exact ⟨run ++ front, inside, back, by rw [List.append_assoc],
      by rw [total_append, Nat.add_assoc]⟩
  | @slot _ inside items _ _ ih =>
    rcases List.mem_cons.mp hs with rfl | hs
    · exact ⟨[], inside, items, rfl, rfl⟩
    · obtain ⟨front, other, back, rfl, rfl⟩ := ih hs
      exact ⟨.slot inside :: front, other, back, rfl, by rw [total_cons, Nat.add_assoc]⟩

/-- **The slots stand one behind the other**, in the order of the pieces, and no two of them
overlap. -/
theorem Layout.pairwise (h : Layout start items pieces) :
    (slotsOf pieces).Pairwise fun s further => s.stop ≤ further.start := by
  induction h with
  | nil => exact List.Pairwise.nil
  | literal _ _ ih => exact ih
  | slot hrest ih =>
    refine List.pairwise_cons.mpr ⟨fun further hfurther => ?_, ih⟩
    obtain ⟨front, _, _, -, rfl⟩ := hrest.exists_eq_append hfurther
    exact Nat.le_add_right _ _

/-! ## Definitions

The layout is over the items of a definition, of which there is at most one sequence, so everything
that is said of the pieces is said of the definition. -/

theorem pieces?_eq_ok_iff :
    pieces? definition = .ok pieces ↔ ∃ items, IsReading definition items ∧ pieces =
      ofItems 0 items := by
  simp only [isReading_iff, pieces?, items?]
  cases readItems definition with
  | mk items fault =>
    cases fault with
    | none => simp [Except.map, eq_comm]
    | some fault => simp [Except.map]

theorem pieces?_eq_error_iff {e : Error} :
    pieces? definition = .error e ↔ ∃ items fault, readItems definition = (items, some fault)
      ∧ e = .badSlot (Text.byteLength (items.flatMap Item.source)) fault := by
  simp only [byteLength_flatMap_source, pieces?, items?]
  cases readItems definition with
  | mk items fault =>
    cases fault with
    | none => simp [Except.map]
    | some fault =>
      simp only [Except.map, Except.error.injEq, Prod.mk.injEq, Option.some.injEq]
      constructor
      · rintro rfl
        exact ⟨items, fault, ⟨rfl, rfl⟩, rfl⟩
      · rintro ⟨_, _, ⟨rfl, rfl⟩, rfl⟩
        rfl

/-- A slot has the text of the definition between its two offsets. -/
theorem exists_eq_append_token (hreading : IsReading definition items) (h : Layout 0 items pieces)
    (hs : s ∈ slotsOf pieces) :
    ∃ before after, definition = before ++ (s.token ++ after) ∧ s.start = Text.byteLength before
      ∧ s.stop = Text.byteLength (before ++ s.token) := by
  obtain ⟨front, inside, back, rfl, rfl⟩ := h.exists_eq_append hs
  have hstart : 0 + total Item.byteLength front = Text.byteLength (front.flatMap Item.source) := by
    rw [byteLength_flatMap_source, Nat.zero_add]
  refine ⟨front.flatMap Item.source, back.flatMap Item.source, ?_, hstart, ?_⟩
  · rw [hreading.1, List.flatMap_append, List.flatMap_cons]
    rfl
  · rw [Text.byteLength_append, ← hstart]
    rfl

/-- **A definition has pieces exactly if it is a sequence of items**, of which there is one at most.
The pieces are the alternating ones that lie over the items. Each slot has the text of the
definition between its two offsets, and the slots stand one behind the other. A definition that has
no pieces is a sequence of whole items up to a brace, and the error has the offset of the brace and
tells whether a closing one follows at once or not at all. -/
theorem pieces?_spec (definition : Text) :
    ((∃ pieces, pieces? definition = .ok pieces) ↔ ∃ items, IsReading definition items)
      ∧ (∀ items others, IsReading definition items → IsReading definition others → items = others)
      ∧ (∀ pieces, pieces? definition = .ok pieces ↔
          ∃ items, IsReading definition items ∧ Layout 0 items pieces ∧ Alternating pieces)
      ∧ (∀ pieces, pieces? definition = .ok pieces →
          (∀ s ∈ slotsOf pieces, ∃ before after, definition = before ++ (s.token ++ after)
            ∧ s.start = Text.byteLength before ∧ s.stop = Text.byteLength (before ++ s.token))
          ∧ (slotsOf pieces).Pairwise fun s further => s.stop ≤ further.start)
      ∧ ∀ e, pieces? definition = .error e ↔
          ∃ (whole : List Item) (rest : Text) (fault : Fault), (∀ item ∈ whole, item.IsWhole)
            ∧ definition = whole.flatMap Item.source ++ '{' :: rest
            ∧ e = .badSlot (Text.byteLength (whole.flatMap Item.source)) fault
            ∧ (rest.head? = some '}' ∧ fault = .empty
              ∨ '}' ∉ rest ∧ fault = .unclosed ('{' :: rest)) := by
  have hpieces : ∀ pieces, pieces? definition = .ok pieces ↔
      ∃ items, IsReading definition items ∧ Layout 0 items pieces ∧ Alternating pieces := by
    simp only [pieces?_eq_ok_iff, layout_iff, implies_true]
  refine ⟨?_, fun items others hitems hothers => ?_, hpieces, fun pieces h => ?_, fun e => ?_⟩
  · simp only [pieces?_eq_ok_iff]
    constructor
    · rintro ⟨_, items, hitems, -⟩
      exact ⟨items, hitems⟩
    · rintro ⟨items, hitems⟩
      exact ⟨_, items, hitems, rfl⟩
  · rw [isReading_iff] at hitems hothers
    exact (Prod.mk.inj (hitems.symm.trans hothers)).1
  · obtain ⟨items, hreading, hlayout, -⟩ := (hpieces pieces).mp h
    exact ⟨fun s hs => exists_eq_append_token hreading hlayout hs, hlayout.pairwise⟩
  · -- a definition without pieces is read up to a fault, behind which nothing is looked at
    simp only [pieces?_eq_error_iff, readItems_eq_fault_iff]
    constructor
    · rintro ⟨whole, fault, ⟨hwhole, rest, heq, hfault⟩, he⟩
      exact ⟨whole, rest, fault, hwhole, heq, he, hfault⟩
    · rintro ⟨whole, rest, fault, hwhole, heq, he, hfault⟩
      exact ⟨whole, fault, ⟨hwhole, rest, heq, hfault⟩, he⟩

/-- A slot behind an escaped brace and characters of several bytes, and a brace that opens none. -/
theorem pieces?_spec_escaped :
    (∃ items, IsReading "é\\\x7b {1:ß}".toList items)
      ∧ pieces? "é\\\x7b {1:ß}".toList =
        .ok [.literal "é\x7b ".toList, .slot ⟨"{1:ß}".toList, 5, some 1⟩]
      ∧ (∃ before after, "é\\\x7b {1:ß}".toList = before ++ ("{1:ß}".toList ++ after)
          ∧ 5 = Text.byteLength before ∧ 11 = Text.byteLength (before ++ "{1:ß}".toList))
      ∧ pieces? "é\\\x7b \x7b\x7d".toList = .error (.badSlot 5 .empty) := by
  have hpieces : pieces? "é\\\x7b {1:ß}".toList =
      .ok [.literal "é\x7b ".toList, .slot ⟨"{1:ß}".toList, 5, some 1⟩] := by
    decide +kernel
  obtain ⟨hreads, -, -, hplaces, -⟩ := pieces?_spec "é\\\x7b {1:ß}".toList
  obtain ⟨-, -, -, -, herrors⟩ := pieces?_spec "é\\\x7b \x7b\x7d".toList
  refine ⟨hreads.mp ⟨_, hpieces⟩, hpieces, (hplaces _ hpieces).1 _ List.mem_cons_self, ?_⟩
  refine (herrors _).mpr
    ⟨[.plain 'é', .escaped '{', .plain ' '], "\x7d".toList, .empty, ?_, ?_, ?_, .inl ⟨?_, rfl⟩⟩
  · simp [Item.IsWhole]
  · decide
  · decide
  · decide

end StepPhrase.Template
