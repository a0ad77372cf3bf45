import StepPhrase.Proofs.Call.Ranges

/-!
# Searching by byte offsets

A search for a literal can also be written with byte offsets: it goes through the offsets at which
characters begin, slices the text there, and counts the bytes that the literal takes. A slice fails
where no character begins, and such a failure would pass for a literal that is not there. `BadSlice`
keeps the two apart.

The offset of a front part of a text is the number of its bytes, and every offset at which a
character begins is of that kind. So the search is followed with the text split into what it has
passed and what is ahead of it. That a literal and the place where it is found may differ in bytes
does no harm, because the two are compared by characters.

* **`Text.sliceFrom_append`** — a slice behind some characters does not fail.
* **`Call.exists_search`** — so no slice fails in a search, and it finds the first occurrence unless
  there is none.
* **`Call.search_isFirstRun`** — in terms of bytes and of lower-case forms: the run with the least
  offset is found.
-/

namespace StepPhrase

namespace Text

/-- An attempt to slice a text where no character begins, or behind its end. A program that slices
by bytes fails there. -/
structure BadSlice where
  /-- The offset in question, in bytes. -/
  offset : Nat
  deriving DecidableEq, Repr

/-- What is left of a text from an offset on. At the end of the text that is nothing, which is no
failure. -/
def sliceFrom (t : Text) (offset : Nat) : Except BadSlice Text :=
  match dropBytes? offset t with
  | some rest => .ok rest
  | none => .error ⟨offset⟩

/-- The offsets at which the characters of a text begin, counted from this one. -/
def starts (offset : Nat) : Text → List Nat
  | [] => []
  | c :: t => offset :: starts (offset + c.utf8Size) t

/-- The bytes that a literal takes at the front of a text, if it is there. They may be more or fewer
than the literal has, because small and capital letters may differ in size. -/
def literalBytes? (literal t : Text) : Option Nat :=
  (dropLiteral? sameLowered literal t).map fun rest => t.byteLength - rest.byteLength

/-- The first of some offsets at which a literal stands, and where it ends. A slice is made at each
offset that is tried, and any of these could fail. -/
def searchAt (literal t : Text) : List Nat → Except BadSlice (Option (Nat × Nat))
  | [] => return none
  | start :: starts => do
    match literalBytes? literal (← sliceFrom t start) with
    | some n => return some (start, start + n)
    | none => searchAt literal t starts

/-- Where a literal first occurs in a text, as a range of bytes. Only offsets at which a character
begins are tried. -/
def search (literal t : Text) : Except BadSlice (Option (Nat × Nat)) :=
  searchAt literal t (starts 0 t)

theorem sliceFrom_append (front rest : Text) :
    sliceFrom (front ++ rest) front.byteLength = .ok rest := by
  rw [sliceFrom, dropBytes?_append]

theorem searchAt_cons (literal front t : Text) (later : List Nat) :
    searchAt literal (front ++ t) (front.byteLength :: later) =
      match literalBytes? literal t with
      | some n => .ok (some (front.byteLength, front.byteLength + n))
      | none => searchAt literal (front ++ t) later := by
  rw [searchAt, sliceFrom_append]
  rfl

theorem literalBytes?_eq_none_iff {literal t : Text} :
    literalBytes? literal t = none ↔ ∀ found rest, t = found ++ rest →
      ¬SameBy sameLowered literal found := by
  rw [literalBytes?, Option.map_eq_none_iff, Option.eq_none_iff_forall_ne_some]
  constructor
  · intro h found rest heq hsame
    exact h rest (dropLiteral?_eq_some_iff.mpr ⟨found, heq, hsame⟩)
  · intro h rest hdrop
    obtain ⟨found, heq, hsame⟩ := dropLiteral?_eq_some_iff.mp hdrop
    exact h found rest heq hsame

theorem literalBytes?_eq_some {literal t : Text} {n : Nat} (h : literalBytes? literal t = some n) :
    ∃ found rest, t = found ++ rest ∧ SameBy sameLowered literal found ∧ n = found.byteLength := by
  obtain ⟨rest, hdrop, rfl⟩ := Option.map_eq_some_iff.mp h
  obtain ⟨found, rfl, hsame⟩ := dropLiteral?_eq_some_iff.mp hdrop
  exact ⟨found, rest, rfl, hsame, by rw [byteLength_append, Nat.add_sub_cancel]⟩

end Text

namespace Call

open Text Unicode

variable {literal t : Text}

/-- What a search for a literal behind `front` is to find: the range of its first occurrence, or
`none` if there is no occurrence. -/
def IsFirstRange (literal front t : Text) : Option (Nat × Nat) → Prop
  | some range => ∃ before found rest, t = before ++ (found ++ rest)
      ∧ IsFirstOccurrence sameLowered literal before found rest
      ∧ range = (byteLength (front ++ before), byteLength (front ++ before) + found.byteLength)
  | none => ¬Occurs literal t

/-- A literal that does not stand at the front of a text is to be found behind its first character.
-/
theorem IsFirstRange.cons {c : Char} {front : Text} {range : Option (Nat × Nat)}
    (hhere : ∀ found rest, c :: t = found ++ rest → ¬SameBy sameLowered literal found)
    (h : IsFirstRange literal (front ++ [c]) t range) :
    IsFirstRange literal front (c :: t) range := by
  cases range with
  | none =>
    rintro ⟨before, found, rest, heq, hsame⟩
    cases before with
    | nil => exact hhere found rest heq hsame
    | cons d before => exact h ⟨before, found, rest, (List.cons.inj heq).2, hsame⟩
  | some range =>
    obtain ⟨before, found, rest, rfl, hfirst, rfl⟩ := h
    refine ⟨c :: before, found, rest, rfl, hfirst.cons hhere, ?_⟩
    rw [List.append_assoc, List.singleton_append]

/-- **No slice fails while a literal is searched for**, behind whatever the search has already
passed. -/
theorem exists_searchAt (hne : literal ≠ []) (front t : Text) :
    ∃ range, searchAt literal (front ++ t) (starts front.byteLength t) = .ok range
      ∧ IsFirstRange literal front t range := by
  induction t generalizing front with
  | nil =>
    refine ⟨none, rfl, ?_⟩
    -- a literal that is not empty does not occur in an empty text
    rintro ⟨before, found, rest, heq, hsame⟩
    obtain ⟨-, htail⟩ := List.append_eq_nil_iff.mp heq.symm
    rw [(List.append_eq_nil_iff.mp htail).1] at hsame
    exact hne (List.forall₂_nil_right_iff.mp hsame)
  | cons c t ih =>
    rw [starts, searchAt_cons]
    cases hhere : literalBytes? literal (c :: t) with
    | some n =>
      -- found right here, behind what has been passed
      obtain ⟨found, rest, heq, hsame, rfl⟩ := literalBytes?_eq_some hhere
      refine ⟨some (front.byteLength, front.byteLength + found.byteLength), rfl, ?_⟩
      exact ⟨[], found, rest, heq, isFirstOccurrence_nil hsame, by rw [List.append_nil]⟩
    | none =>
      -- not here, so the character is passed and the search goes on behind it
      obtain ⟨range, hrange, hfirst⟩ := ih (front ++ [c])
      rw [byteLength_append, byteLength_cons, byteLength_nil, Nat.add_zero,
        List.append_assoc] at hrange
      exact ⟨range, hrange, hfirst.cons (literalBytes?_eq_none_iff.mp hhere)⟩

/-- **A search by byte offsets finds the first occurrence**, or there is none. It never fails, since
it slices the text at ends of characters only. -/
theorem exists_search (hne : literal ≠ []) (t : Text) :
    ∃ range, search literal t = .ok range ∧ IsFirstRange literal [] t range :=
  exists_searchAt hne [] t

theorem IsFirstRange.skip?_eq_none (h : IsFirstRange literal [] t none) : skip? literal t = none :=
  Option.eq_none_iff_forall_ne_some.mpr fun rest hrest => h (exists_skip?_iff.mp ⟨rest, hrest⟩)

theorem IsFirstRange.skip?_eq_some {range : Nat × Nat}
    (h : IsFirstRange literal [] t (some range)) :
    ∃ front rest, t = front ++ rest ∧ range.2 = front.byteLength ∧ skip? literal t = some rest := by
  obtain ⟨before, run, rest, rfl, hfirst, rfl⟩ := h
  refine ⟨before ++ run, rest, ?_, ?_, skip?_eq_some_iff.mpr ⟨before, run, rfl, hfirst⟩⟩
  · rw [List.append_assoc]
  · rw [List.nil_append, byteLength_append]

/-! ## Runs of characters

This is what a search should find, said without a search: as many characters as the literal has,
with the same lower-case forms one by one, at the least offset. The least offset and the least
number of characters in front are the same thing, since more characters take more bytes. -/

/-- From the first of these offsets to the second the text has as many characters as the literal,
and these have the lower-case forms of the literal's characters. -/
def IsRun (literal t : Text) (range : Nat × Nat) : Prop :=
  ∃ before run rest, t = before ++ (run ++ rest) ∧ run.map lowerCase = literal.map lowerCase
    ∧ range = (before.byteLength, byteLength (before ++ run))

/-- A run that begins no later than any other. -/
structure IsFirstRun (literal t : Text) (range : Nat × Nat) : Prop where
  isRun : IsRun literal t range
  start_le : ∀ other, IsRun literal t other → range.1 ≤ other.1

/-- An offset from which a text can be sliced: a character begins there, or the text ends. -/
def IsBoundary (t : Text) (offset : Nat) : Prop := ∃ rest, sliceFrom t offset = .ok rest

theorem exists_isRun_iff : (∃ range, IsRun literal t range) ↔ Occurs literal t := by
  constructor
  · rintro ⟨_, before, run, rest, heq, hrun, -⟩
    exact ⟨before, run, rest, heq, sameBy_sameLowered_iff.mpr hrun.symm⟩
  · rintro ⟨before, run, rest, heq, hsame⟩
    exact ⟨_, before, run, rest, heq, (sameBy_sameLowered_iff.mp hsame).symm, rfl⟩

theorem IsRun.isBoundary {range : Nat × Nat} (h : IsRun literal t range) :
    IsBoundary t range.1 ∧ IsBoundary t range.2 := by
  obtain ⟨before, run, rest, rfl, -, rfl⟩ := h
  refine ⟨⟨run ++ rest, sliceFrom_append before _⟩, ⟨rest, ?_⟩⟩
  rw [← List.append_assoc]
  exact sliceFrom_append (before ++ run) rest

/-- In a text the bytes are in the order of the characters, so the first occurrence is the run with
the least offset, and the other way round. -/
theorem isFirstRange_some_iff {range : Nat × Nat} :
    IsFirstRange literal [] t (some range) ↔ IsFirstRun literal t range := by
  constructor
  · rintro ⟨before, run, rest, rfl, hfirst, rfl⟩
    have hrun := (sameBy_sameLowered_iff.mp hfirst.sameBy).symm
    refine ⟨⟨before, run, rest, rfl, hrun, by rw [List.nil_append, byteLength_append]⟩, ?_⟩
    rintro _ ⟨other, found, behind, heq, hfound, rfl⟩
    rw [List.nil_append, byteLength_le_iff_of_append_eq heq]
    exact hfirst.before_length_le other found behind heq (sameBy_sameLowered_iff.mpr hfound.symm)
  · rintro ⟨⟨before, run, rest, rfl, hrun, rfl⟩, hle⟩
    have hfirst : IsFirstOccurrence sameLowered literal before run rest := by
      refine ⟨sameBy_sameLowered_iff.mpr hrun.symm, fun other found behind heq hfound => ?_⟩
      rw [← byteLength_le_iff_of_append_eq heq]
      exact hle _ ⟨other, found, behind, heq, (sameBy_sameLowered_iff.mp hfound).symm, rfl⟩
    exact ⟨before, run, rest, rfl, hfirst, by rw [List.nil_append, byteLength_append]⟩

/-- Runs that begin at one offset end at one offset: both have as many characters as the literal,
and they are the same characters of the text. -/
theorem IsRun.eq_of_start_eq {range other : Nat × Nat} (h : IsRun literal t range)
    (h' : IsRun literal t other) (hstart : range.1 = other.1) : range = other := by
  obtain ⟨before, run, rest, rfl, hrun, rfl⟩ := h
  obtain ⟨before', run', rest', heq, hrun', rfl⟩ := h'
  -- the fronts have the same number of bytes, so they are the same front, and the runs begin
  -- together
  have hle := (byteLength_le_iff_of_append_eq heq).mp (Nat.le_of_eq hstart)
  have hge := (byteLength_le_iff_of_append_eq heq.symm).mp (Nat.le_of_eq hstart.symm)
  obtain ⟨rfl, htail⟩ := List.append_inj heq (Nat.le_antisymm hle hge)
  have hlength : run.length = run'.length := by
    simpa using congrArg List.length (hrun.trans hrun'.symm)
  obtain ⟨rfl, -⟩ := List.append_inj htail hlength
  rfl

theorem IsFirstRun.eq {range other : Nat × Nat} (h : IsFirstRun literal t range)
    (h' : IsFirstRun literal t other) :
    range = other :=
  h.isRun.eq_of_start_eq h'.isRun (Nat.le_antisymm (h.start_le _ h'.isRun) (h'.start_le _ h.isRun))

/-- **A search without regard to case is exact.** No slice of the text fails in it. It finds
something exactly if the text has a run of as many characters as the literal, with the same
lower-case forms one by one. What it finds is then the one run with the least offset, from the first
byte of its first character to the last byte of its last, however many bytes the literal itself has.
And this is the search of an extraction, which goes on behind the run. -/
theorem search_isFirstRun (hne : literal ≠ []) (t : Text) :
    ∃ found, search literal t = .ok found
      ∧ (found.isSome = true ↔ ∃ range, IsRun literal t range)
      ∧ (∀ range, found = some range ↔ IsFirstRun literal t range)
      ∧ (∀ range, found = some range → IsBoundary t range.1 ∧ IsBoundary t range.2)
      ∧ skip? literal t = found.bind fun range => dropBytes? range.2 t := by
  obtain ⟨found, hsearch, hfound⟩ := exists_search hne t
  refine ⟨found, hsearch, ?_⟩
  cases found with
  | none =>
    -- nothing was found, so there is no run, and no range could be the first one
    have hnone : ¬∃ range, IsRun literal t range := fun hrun => hfound (exists_isRun_iff.mp hrun)
    refine ⟨iff_of_false Bool.false_ne_true hnone, fun range => ?_, ?_, hfound.skip?_eq_none⟩
    · exact iff_of_false (Option.some_ne_none range).symm fun hfirst => hnone ⟨range, hfirst.isRun⟩
    · rintro _ ⟨⟩
  | some range =>
    -- the range is the first run, of which there is only one
    have hfirst := isFirstRange_some_iff.mp hfound
    refine ⟨iff_of_true rfl ⟨range, hfirst.isRun⟩, fun other => ?_, ?_, ?_⟩
    · constructor
      · rintro ⟨⟩
        exact hfirst
      · intro hother
        rw [hfirst.eq hother]
    · rintro _ ⟨⟩
      exact hfirst.isRun.isBoundary
    · obtain ⟨front, rest, rfl, hstop, hskip⟩ := hfound.skip?_eq_some
      rw [hskip, Option.bind_some, hstop, dropBytes?_append]

/-- A Kelvin sign and a capital sharp s take more bytes than the letters that are searched for.
Further on there are these letters themselves. -/
theorem search_isFirstRun_kelvin :
    "k\u00df".toList ≠ []
      ∧ search "k\u00df".toList "a\u212a\u1e9ek\u00df".toList = .ok (some (1, 7))
      ∧ IsFirstRun "k\u00df".toList "a\u212a\u1e9ek\u00df".toList (1, 7)
      ∧ skip? "k\u00df".toList "a\u212a\u1e9ek\u00df".toList = some "k\u00df".toList := by
  have hne : "k\u00df".toList ≠ [] := by decide
  have hsearch : search "k\u00df".toList "a\u212a\u1e9ek\u00df".toList = .ok (some (1, 7)) := by rfl
  obtain ⟨found, hfound, -, hfirst, -, hskip⟩ := search_isFirstRun hne "a\u212a\u1e9ek\u00df".toList
  obtain rfl := Except.ok.inj (hfound.symm.trans hsearch)
  exact ⟨hne, hsearch, (hfirst _).mp rfl, hskip.trans (by decide +kernel)⟩

end Call

end StepPhrase
