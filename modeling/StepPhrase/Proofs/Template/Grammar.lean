import StepPhrase.Template.Item

/-!
# The grammar of definitions

A definition is a sequence of items. Where an item begins, its first character says which kind it
is, and with that where it ends, so there is no other way to divide the definition. Reading goes on
until no whole item follows: at the end of the text, at a backslash that is its last character, or
at a brace that opens no slot.

The reader is a machine with four states and no way back, and a reading is a division of a text with
no machine at all. They are related by what begins a text: a whole item, which the machine reads and
is between items again, or one of four endings.

* **`readItems_source_append`** — a whole item is read whatever follows it.
* **`readItems_eq_iff`** — what is read: whole items, and what the text ends with.
* **`isReading_iff`**, **`readItems_eq_fault_iff`** — the definitions that are read to their end,
  and the places where the others stop.
-/

namespace StepPhrase.Template

/-! ## Items

An item is whole if it would be read as itself wherever it stands. Plain characters are not those
that begin something else, and a slot ends at its first closing brace. -/

namespace Item

/-- An item that may stand anywhere: any but a lone backslash, which can only be the last one. -/
def IsWhole : Item → Prop
  | .plain c => c ≠ '\\' ∧ c ≠ '{'
  | .escaped _ => True
  | .backslash => False
  | .slot inside => inside ≠ [] ∧ '}' ∉ inside

/-- The character that an item stands for, if it is not a slot. -/
def character? : Item → Option Char
  | .plain c | .escaped c => some c
  | .backslash => some '\\'
  | .slot _ => none

theorem length_source_pos (item : Item) : 0 < item.source.length := by
  cases item <;> simp [source]

end Item

/-- A definition is written as a sequence of items, of which only the last may be a lone backslash.
-/
def IsReading (definition : Text) (items : List Item) : Prop :=
  definition = items.flatMap Item.source
    ∧ ∃ whole last : List Item, items = whole ++ last ∧ (∀ item ∈ whole, item.IsWhole)
      ∧ (last = [] ∨ last = [.backslash])

variable {definition inside read rest t : Text} {items whole : List Item} {item : Item}
    {fault : Option Fault}

/-! ## The reader

What has been found does not influence what is read next, so a text behind some items is read as if
it stood alone. -/

/-- The reader does not look at what it has found, so a text can be read in parts and what is found
put together. -/
theorem readFrom_eq (reading : Reading) (done : List Item) (t : Text) :
    readFrom reading done t =
      (done.reverse ++ (readFrom reading [] t).1, (readFrom reading [] t).2) := by
  -- the same step is taken whatever has been found, and only adds to it
  induction t generalizing reading done with
  | nil => cases reading <;> simp [readFrom]
  | cons c t ih =>
    cases reading with
    | between =>
      rw [readFrom, readFrom]
      split
      · exact ih .escape done
      · split
        · exact ih .opened done
        · rw [ih .between (.plain c :: done), ih .between [.plain c]]
          simp
    | escape =>
      rw [readFrom, readFrom, ih .between (.escaped c :: done), ih .between [.escaped c]]
      simp
    | opened =>
      rw [readFrom, readFrom]
      split
      · simp
      · exact ih (.inside [c]) done
    | inside read =>
      rw [readFrom, readFrom]
      split
      · rw [ih .between (.slot read.reverse :: done), ih .between [.slot read.reverse]]
        simp
      · exact ih (.inside (c :: read)) done

theorem readFrom_inside_append (done : List Item) (hinside : '}' ∉ inside) (t : Text) :
    readFrom (.inside read) done (inside ++ '}' :: t) =
      readFrom .between (.slot (read.reverse ++ inside) :: done) t := by
  induction inside generalizing read with
  | nil => rw [List.nil_append, readFrom, if_pos rfl, List.append_nil]
  | cons c inside ih =>
    rw [List.mem_cons, not_or] at hinside
    rw [List.cons_append, readFrom, if_neg (Ne.symm hinside.1), ih hinside.2]
    simp

theorem readFrom_inside_unclosed (done : List Item) (h : '}' ∉ t) :
    readFrom (.inside read) done t =
      (done.reverse, some (.unclosed ('{' :: (read.reverse ++ t)))) := by
  induction t generalizing read with
  | nil => rw [readFrom, List.append_nil]
  | cons c t ih =>
    rw [List.mem_cons, not_or] at h
    rw [readFrom, if_neg (Ne.symm h.1), ih h.2]
    simp

theorem readItems_opened (t : Text) : readItems ('{' :: t) = readFrom .opened [] t := by
  rw [readItems, readFrom, if_neg (by decide), if_pos rfl]

/-- **A whole item is read whatever follows it.** Its end can be told from the item itself, so
nothing behind it has to be known. -/
theorem readItems_source_append (h : item.IsWhole) (t : Text) :
    readItems (item.source ++ t) = (item :: (readItems t).1, (readItems t).2) := by
  have hbehind : readFrom .between [item] t = (item :: (readItems t).1, (readItems t).2) :=
    readFrom_eq .between [item] t
  cases item with
  | plain c =>
    rw [Item.source, List.singleton_append, readItems, readFrom, if_neg h.1, if_neg h.2, hbehind]
  | escaped c =>
    rw [Item.source, List.cons_append, List.singleton_append, readItems, readFrom, if_pos rfl,
      readFrom, hbehind]
  | backslash => exact absurd h id
  | slot inside =>
    obtain ⟨c, inside, rfl⟩ := List.exists_cons_of_ne_nil h.1
    have hclosing := h.2
    rw [List.mem_cons, not_or] at hclosing
    have hsource : (Item.slot (c :: inside)).source ++ t = '{' :: c :: (inside ++ '}' :: t) := by
      simp [Item.source]
    rw [hsource, readItems_opened, readFrom, if_neg (Ne.symm hclosing.1),
      readFrom_inside_append _ hclosing.2]
    exact hbehind

theorem readItems_flatMap_append (h : ∀ item ∈ items, item.IsWhole) (t : Text) :
    readItems (items.flatMap Item.source ++ t) = (items ++ (readItems t).1, (readItems t).2) := by
  induction items with
  | nil => rfl
  | cons item items ih =>
    obtain ⟨hitem, hitems⟩ := List.forall_mem_cons.mp h
    rw [List.flatMap_cons, List.append_assoc, readItems_source_append hitem, ih hitems,
      List.cons_append]

/-! ## Where reading ends

Every text begins with a whole item or is an ending, and as items have characters that comes to an
end. So every text is whole items and an ending, and what is read of it is read off this division.
-/

/-- A text that begins with no whole item, with what is read of it and what is wrong with it. A text
ends in good order, or with a lone backslash, or at a brace that opens no slot. -/
inductive Ending : Text → List Item → Option Fault → Prop
  | nil : Ending [] [] none
  | backslash : Ending ['\\'] [.backslash] none
  | empty (t : Text) : Ending ('{' :: '}' :: t) [] (some .empty)
  | unclosed {t : Text} (h : '}' ∉ t) : Ending ('{' :: t) [] (some (.unclosed ('{' :: t)))

theorem Ending.readItems_eq (h : Ending t items fault) : readItems t = (items, fault) := by
  cases h with
  | nil => rfl
  | backslash => rfl
  | empty t => rw [readItems_opened, readFrom, if_pos rfl]; rfl
  | @unclosed t h =>
    rw [readItems_opened]
    cases t with
    | nil => rfl
    | cons c t =>
      rw [List.mem_cons, not_or] at h
      rw [readFrom, if_neg (Ne.symm h.1), readFrom_inside_unclosed _ h.2]
      rfl

/-- A text begins with a whole item or it is an ending, which its first character decides but for a
brace: that depends on whether and where it is closed. -/
theorem exists_whole_or_ending (t : Text) :
    (∃ (item : Item) (rest : Text), t = item.source ++ rest ∧ item.IsWhole)
      ∨ ∃ items fault, Ending t items fault := by
  cases t with
  | nil => exact .inr ⟨_, _, .nil⟩
  | cons c t =>
    by_cases hescape : c = '\\'
    · subst hescape
      cases t with
      | nil => exact .inr ⟨_, _, .backslash⟩
      | cons d t => exact .inl ⟨.escaped d, t, rfl, trivial⟩
    · by_cases hbrace : c = '{'
      · subst hbrace
        by_cases hclosed : '}' ∈ t
        · obtain ⟨inside, rest, rfl, hinside⟩ := List.eq_append_cons_of_mem hclosed
          by_cases hempty : inside = []
          · subst hempty
            exact .inr ⟨_, _, .empty rest⟩
          · exact .inl ⟨.slot inside, rest, by simp [Item.source], hempty, hinside⟩
        · exact .inr ⟨_, _, .unclosed hclosed⟩
      · exact .inl ⟨.plain c, t, rfl, hescape, hbrace⟩

theorem exists_flatMap_append_ending (t : Text) :
    ∃ (whole : List Item) (rest : Text) (last : List Item) (fault : Option Fault),
      t = whole.flatMap Item.source ++ rest ∧ (∀ item ∈ whole, item.IsWhole)
        ∧ Ending rest last fault := by
  -- on the length of the text, since items are of different lengths
  induction hn : t.length using Nat.strongRecOn generalizing t with
  | ind n ih =>
    rcases exists_whole_or_ending t with ⟨item, rest, rfl, hitem⟩ | ⟨last, fault, hending⟩
    · have hlength : rest.length < n := by
        have := item.length_source_pos
        rw [List.length_append] at hn
        omega
      obtain ⟨whole, tail, last, fault, rfl, hwhole, hending⟩ := ih _ hlength rest rfl
      refine ⟨item :: whole, tail, last, fault, by simp,
        List.forall_mem_cons.mpr ⟨hitem, hwhole⟩, hending⟩
    · exact ⟨[], t, last, fault, rfl, fun _ h => absurd h List.not_mem_nil, hending⟩

/-- **What is read of a text**: whole items, and what it ends with. A lone backslash at the end is
an item as well, and the only one that is not whole. -/
theorem readItems_eq_iff :
    readItems t = (items, fault) ↔ ∃ (whole : List Item) (rest : Text) (last : List Item),
      t = whole.flatMap Item.source ++ rest ∧ (∀ item ∈ whole, item.IsWhole)
        ∧ Ending rest last fault ∧ items = whole ++ last := by
  constructor
  · intro h
    -- the text can be divided, and what is read of it is the division
    obtain ⟨whole, rest, last, fault', rfl, hwhole, hending⟩ := exists_flatMap_append_ending t
    rw [readItems_flatMap_append hwhole, hending.readItems_eq] at h
    obtain ⟨rfl, rfl⟩ := Prod.mk.inj h
    exact ⟨whole, rest, last, rfl, hwhole, hending, rfl⟩
  · rintro ⟨whole, rest, last, rfl, hwhole, hending, rfl⟩
    rw [readItems_flatMap_append hwhole, hending.readItems_eq]

/-- **The items of a definition are what is read of it, if it is read to its end.** So a definition
is a sequence of items in one way at most. -/
theorem isReading_iff : IsReading definition items ↔ readItems definition = (items, none) := by
  rw [readItems_eq_iff]
  constructor
  · rintro ⟨rfl, whole, last, rfl, hwhole, rfl | rfl⟩
    · exact ⟨whole, [], [], by simp, hwhole, .nil, rfl⟩
    · exact ⟨whole, ['\\'], [.backslash], by simp [Item.source], hwhole, .backslash, rfl⟩
  · rintro ⟨whole, rest, last, rfl, hwhole, hending, rfl⟩
    cases hending with
    | nil => exact ⟨by simp, whole, [], rfl, hwhole, .inl rfl⟩
    | backslash => exact ⟨by simp [Item.source], whole, [.backslash], rfl, hwhole, .inr rfl⟩

/-- **A definition that is not read to its end stops at a brace behind whole items**: a closing
brace follows at once, or none does. -/
theorem readItems_eq_fault_iff {fault : Fault} :
    readItems t = (items, some fault) ↔ (∀ item ∈ items, item.IsWhole)
      ∧ ∃ rest, t = items.flatMap Item.source ++ '{' :: rest
        ∧ (rest.head? = some '}' ∧ fault = .empty
          ∨ '}' ∉ rest ∧ fault = .unclosed ('{' :: rest)) := by
  rw [readItems_eq_iff]
  constructor
  · rintro ⟨whole, rest, last, rfl, hwhole, hending, rfl⟩
    cases hending with
    | empty t => exact ⟨by simpa using hwhole, '}' :: t, by simp, .inl ⟨rfl, rfl⟩⟩
    | @unclosed t h => exact ⟨by simpa using hwhole, t, by simp, .inr ⟨h, rfl⟩⟩
  · rintro ⟨hwhole, rest, rfl, ⟨hhead, rfl⟩ | ⟨hclosing, rfl⟩⟩
    · obtain ⟨t, rfl⟩ := List.head?_eq_some_iff.mp hhead
      exact ⟨items, _, [], rfl, hwhole, .empty t, by simp⟩
    · exact ⟨items, _, [], rfl, hwhole, .unclosed hclosing, by simp⟩

end StepPhrase.Template
