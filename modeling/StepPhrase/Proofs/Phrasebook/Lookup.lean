import StepPhrase.Phrasebook
import StepPhrase.Proofs.Template.Rank

/-!
# What a lookup finds

A lookup goes over the entries once and leaves out those that cannot win any more, so most of them
are never matched. It still answers as if it had matched them all:

An entry is left out if its rank is no higher than that of the best so far. Such an entry could not
have become the best even if it matched: of equal ranks the first one in the book wins. So leaving
it out and matching it in vain come to the same.

* **`IsFirstBest`** — an entry that matches, with only lower ranks among the matching entries in
  front of it and no higher ones among those behind it.
* **`IsAnswer`** — the answer to a lookup: such an entry, or nothing if none matches.
* **`isAnswer_better`**, **`isAnswer_foldl`** — one entry keeps the answer right for what has been
  seen, and so does a run over many.
* **`find?_eq_iff`** — a lookup gives the answer, and there is only one.
-/

namespace StepPhrase.Phrasebook

variable {α : Type} {setting : Call.Setting} {call : Text}

/-- What was found belongs to an entry that matches. Matching entries in front of it are of lower
rank, and matching entries behind it of no higher rank. -/
structure IsFirstBest (setting : Call.Setting) (call : Text) (entries : List (Template × α))
    (found : Found α) : Prop where
  isMatch : Call.match? setting found.template call = some found.arguments
  isFirst : ∃ before after, entries = before ++ (found.template, found.payload) :: after
    ∧ (∀ entry ∈ before, Call.isMatch setting entry.1 call = true →
        entry.1.rank < found.template.rank)
    ∧ ∀ entry ∈ after, Call.isMatch setting entry.1 call = true →
        entry.1.rank ≤ found.template.rank

/-- The answer to a lookup: nothing if no entry matches, else the first one of the highest rank.
Nothing is said about how the entries are gone through. -/
def IsAnswer (setting : Call.Setting) (call : Text) (entries : List (Template × α)) :
    Option (Found α) → Prop
  | none => ∀ entry ∈ entries, Call.match? setting entry.1 call = none
  | some found => IsFirstBest setting call entries found

theorem isMatch_eq_false_iff {template : Template} :
    Call.isMatch setting template call = false ↔ Call.match? setting template call = none := by
  rw [Call.isMatch, Option.isSome_eq_false_iff, Option.isNone_iff_eq_none]

theorem IsFirstBest.rank_le {entries : List (Template × α)} {found : Found α}
    (h : IsFirstBest setting call entries found) {entry : Template × α} (hmem : entry ∈ entries)
    (hmatch : Call.isMatch setting entry.1 call = true) : entry.1.rank ≤ found.template.rank := by
  obtain ⟨before, after, rfl, hbefore, hafter⟩ := h.isFirst
  rcases List.mem_append.mp hmem with hmem | hmem
  · exact le_of_lt (hbefore entry hmem hmatch)
  · rcases List.mem_cons.mp hmem with rfl | hmem
    · exact le_refl _
    · exact hafter entry hmem hmatch

/-! ## Seeing one more entry

The entry that is added stands behind all others. So it is the answer only if its rank is higher
than that of every matching entry in front, and that of the best so far is enough to compare with.
-/

theorem IsFirstBest.concat {entries : List (Template × α)} {found : Found α}
    (h : IsFirstBest setting call entries found) {entry : Template × α}
    (hentry : Call.isMatch setting entry.1 call = true → entry.1.rank ≤ found.template.rank) :
    IsFirstBest setting call (entries ++ [entry]) found := by
  obtain ⟨before, after, rfl, hbefore, hafter⟩ := h.isFirst
  refine ⟨h.isMatch, before, after ++ [entry], by simp, hbefore, fun other hmem => ?_⟩
  rcases List.mem_append.mp hmem with hmem | hmem
  · exact hafter other hmem
  · rw [List.mem_singleton.mp hmem]
    exact hentry

theorem isFirstBest_concat {entries : List (Template × α)} {template : Template} {payload : α}
    {arguments : List Argument} (hmatch : Call.match? setting template call = some arguments)
    (hrank : ∀ entry ∈ entries, Call.isMatch setting entry.1 call = true →
      entry.1.rank < template.rank) :
    IsFirstBest setting call (entries ++ [(template, payload)]) ⟨template, payload, arguments⟩ :=
  ⟨hmatch, entries, [], rfl, hrank, by simp⟩

theorem isAnswer_better {entries : List (Template × α)} {best : Option (Found α)}
    (h : IsAnswer setting call entries best) (entry : Template × α) :
    IsAnswer setting call (entries ++ [entry]) (better setting call best entry) := by
  obtain ⟨template, payload⟩ := entry
  unfold better
  cases best with
  | none =>
    simp only [Option.any_none, Bool.false_eq_true, if_false]
    split
    · next arguments hmatch =>
      -- none of the entries so far matches, so this one is the first that does
      refine isFirstBest_concat hmatch fun entry hmem hisMatch => ?_
      rw [isMatch_eq_false_iff.mpr (h entry hmem)] at hisMatch
      cases hisMatch
    · next hnone =>
      intro entry hmem
      rcases List.mem_append.mp hmem with hmem | hmem
      · exact h entry hmem
      · rw [List.mem_singleton.mp hmem]
        exact hnone
  | some found =>
    simp only [Option.any_some, Template.Rank.isGE_compare_iff]
    split
    · next hle =>
      -- the entry is not even matched, but it could not have won
      exact IsFirstBest.concat h fun _ => hle
    · next hlt =>
      split
      · next arguments hmatch =>
        -- it beats what was found, and with it all that has been seen
        refine isFirstBest_concat hmatch fun entry hmem hisMatch => ?_
        exact lt_of_le_of_lt (IsFirstBest.rank_le h hmem hisMatch) (lt_of_not_ge hlt)
      · next hnone =>
        refine IsFirstBest.concat h fun hisMatch => ?_
        rw [isMatch_eq_false_iff.mpr hnone] at hisMatch
        cases hisMatch

/-! ## Seeing all entries

The answer for the entries seen so far is the invariant of the run, from the empty list to the whole
book. That there is no other answer follows from ranks being in a linear order. -/

/-- **What the run over the entries keeps.** The best so far is the answer for the entries so far.
-/
theorem isAnswer_foldl {seen : List (Template × α)} {best : Option (Found α)}
    (h : IsAnswer setting call seen best) (entries : List (Template × α)) :
    IsAnswer setting call (seen ++ entries) (entries.foldl (better setting call) best) := by
  induction entries generalizing seen best with
  | nil => simpa using h
  | cons entry entries ih =>
    have hrest := ih (isAnswer_better h entry)
    rwa [List.append_assoc, List.singleton_append] at hrest

theorem IsFirstBest.mem {entries : List (Template × α)} {found : Found α}
    (h : IsFirstBest setting call entries found) : (found.template, found.payload) ∈ entries := by
  obtain ⟨before, after, rfl, -⟩ := h.isFirst
  simp

theorem IsFirstBest.isMatch_template {entries : List (Template × α)} {found : Found α}
    (h : IsFirstBest setting call entries found) :
    Call.isMatch setting found.template call = true := by
  rw [Call.isMatch, h.isMatch, Option.isSome_some]

/-- Two entries cannot both come first: each is of the highest rank among those that match, so they
are of the same rank, and the one further behind would have to be of a higher one. -/
theorem IsFirstBest.eq {entries : List (Template × α)} {found other : Found α}
    (h : IsFirstBest setting call entries found) (h' : IsFirstBest setting call entries other) :
    found = other := by
  have hrank : found.template.rank = other.template.rank :=
    le_antisymm (h'.rank_le h.mem h.isMatch_template) (h.rank_le h'.mem h'.isMatch_template)
  have hsame : (found.template, found.payload) = (other.template, other.payload) := by
    obtain ⟨before, after, rfl, hbefore, -⟩ := h.isFirst
    obtain ⟨before', after', heq, hbefore', -⟩ := h'.isFirst
    -- neither stands in front of the other, since it would have to be of lower rank
    rcases List.append_eq_append_iff.mp heq with ⟨between, rfl, htail⟩ | ⟨between, rfl, htail⟩
    · cases between with
      | nil => exact (List.cons.inj htail).1
      | cons entry between =>
        obtain ⟨rfl, -⟩ := List.cons.inj htail
        have hlt := hbefore' (found.template, found.payload) (by simp) h.isMatch_template
        exact absurd hrank (ne_of_lt hlt)
    · cases between with
      | nil => exact (List.cons.inj htail).1.symm
      | cons entry between =>
        obtain ⟨rfl, -⟩ := List.cons.inj htail
        have hlt := hbefore (other.template, other.payload) (by simp) h'.isMatch_template
        exact absurd hrank.symm (ne_of_lt hlt)
  obtain ⟨template, payload, arguments⟩ := found
  obtain ⟨template', payload', arguments'⟩ := other
  obtain ⟨rfl, rfl⟩ := Prod.mk.inj hsame
  -- the arguments are those of the match, which is a function of the template and the call
  obtain rfl := Option.some.inj (h.isMatch.symm.trans h'.isMatch)
  rfl

/-- There is one answer, whichever way it was found. -/
theorem IsAnswer.eq {entries : List (Template × α)} {best other : Option (Found α)}
    (h : IsAnswer setting call entries best) (h' : IsAnswer setting call entries other) :
    best = other := by
  cases best with
  | none =>
    cases other with
    | none => rfl
    | some other =>
      have hnone := h _ (IsFirstBest.mem h')
      cases hnone.symm.trans h'.isMatch
  | some best =>
    cases other with
    | none =>
      have hnone := h' _ (IsFirstBest.mem h)
      cases hnone.symm.trans h.isMatch
    | some other => rw [IsFirstBest.eq h h']

/-- **A lookup gives the answer**, and nothing else is one: the entries that were left out make no
difference. -/
theorem find?_eq_iff {book : Phrasebook α} {result : Option (Found α)} :
    book.find? setting call = result ↔ IsAnswer setting call book.entries result := by
  have hnothing : IsAnswer setting call [] (none : Option (Found α)) := by simp [IsAnswer]
  have hfind : IsAnswer setting call book.entries (book.find? setting call) :=
    isAnswer_foldl hnothing book.entries
  constructor
  · rintro rfl
    exact hfind
  · exact hfind.eq

end StepPhrase.Phrasebook
