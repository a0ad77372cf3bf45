import StepPhrase.Call.Values
import StepPhrase.Proofs.Argument.FirstToken
import StepPhrase.Proofs.Text.Occurrence

/-!
# Extractions

`takeTokens?` walks over a call once and never goes back. `Extracts` is that walk as a relation
between the frames of a template, a call and the tokens found, in terms of occurrences and of tokens
only.

The relation says nothing about searching. A first occurrence is one in front of which there is no
other, and a first token is one in front of which no token with the boundary behind it begins; both
are unique, so the walk is a function although it is written as a relation.

* **`skip?_eq_some_iff`** — a search for a literal ends behind its first occurrence, and it does not
  move where there is no literal.
* **`takeTokens?_eq_some_iff`** — the walk finds some tokens exactly when `Extracts` relates them to
  the call.
* **`Extracts.length_eq`** — there is a token for each frame.
-/

namespace StepPhrase.Call

open Template Text

/-- A literal occurs in a text, whatever its case, where case is told by the small forms of the
letters. -/
def Occurs (literal t : Text) : Prop :=
  ∃ before front behind, t = before ++ (front ++ behind) ∧ SameBy sameLowered literal front

/-- The walk of an extraction over a call. For each frame it moves behind the first occurrence of
the lead and takes the first token with the boundary right behind it, provided that the boundary
occurs. -/
inductive Extracts : List Frame → Text → List Text → Prop where
  | nil (t : Text) : Extracts [] t []
  | cons {frame : Frame} {frames : List Frame} {before front gap token rest : Text}
      {tokens : List Text}
      (hlead : IsFirstOccurrence sameLowered frame.lead before front (gap ++ (token ++ rest)))
      (hboundary : Occurs frame.boundary (gap ++ (token ++ rest)))
      (htoken : IsFirstToken (beginsWith sameFolded frame.boundary) gap token rest)
      (hrest : Extracts frames rest tokens) :
      Extracts (frame :: frames) (before ++ (front ++ (gap ++ (token ++ rest)))) (token :: tokens)

/-! ## Searching for a literal

An empty literal is found at once and a literal that is not empty by going through the text. The two
are told apart only here: an empty text is its own first occurrence, at the beginning. -/

theorem occurs_nil (t : Text) : Occurs [] t := ⟨[], [], t, rfl, sameBy_nil⟩

theorem Occurs.append_left {literal t : Text} (h : Occurs literal t) (before : Text) :
    Occurs literal (before ++ t) := by
  obtain ⟨before', front, behind, rfl, hsame⟩ := h
  exact ⟨before ++ before', front, behind, by rw [List.append_assoc], hsame⟩

theorem skip?_eq_some_iff {literal t rest : Text} :
    skip? literal t = some rest ↔
      ∃ before front, t = before ++ (front ++ rest)
        ∧ IsFirstOccurrence sameLowered literal before front rest := by
  unfold skip?
  split
  · next hnil =>
    subst hnil
    rw [Option.some_inj]
    constructor
    · rintro rfl
      exact ⟨[], [], rfl, isFirstOccurrence_nil sameBy_nil⟩
    · rintro ⟨before, front, rfl, hfirst⟩
      -- the empty text occurs at the beginning, so nothing is in front of its first occurrence
      have hbefore := hfirst.before_length_le [] [] _ rfl sameBy_nil
      rw [List.length_eq_zero_iff.mp (Nat.le_zero.mp hbefore), sameBy_nil_left_iff.mp hfirst.sameBy]
      rfl
  · next hne => exact dropThrough?_eq_some_iff hne

theorem exists_skip?_iff {literal t : Text} :
    (∃ rest, skip? literal t = some rest) ↔ Occurs literal t := by
  constructor
  · rintro ⟨rest, hskip⟩
    obtain ⟨before, front, heq, hfirst⟩ := skip?_eq_some_iff.mp hskip
    exact ⟨before, front, rest, heq, hfirst.sameBy⟩
  · rintro ⟨before, front, behind, rfl, hsame⟩
    unfold skip?
    split
    · exact ⟨_, rfl⟩
    · next hne => exact exists_dropThrough? hne before behind hsame

/-! ## Taking tokens

One step of the walk is one constructor of `Extracts`, so the induction for the whole walk is over
the frames in one direction and over the relation in the other. -/

/-- One step of the walk: the lead, a gap and the token. The boundary has to occur somewhere behind
the lead, which is asked for apart from the token that ends in front of one. -/
theorem takeToken?_eq_some_iff {frame : Frame} {t token rest : Text} :
    takeToken? frame t = some (token, rest) ↔
      ∃ before front gap, t = before ++ (front ++ (gap ++ (token ++ rest)))
        ∧ IsFirstOccurrence sameLowered frame.lead before front (gap ++ (token ++ rest))
        ∧ Occurs frame.boundary (gap ++ (token ++ rest))
        ∧ IsFirstToken (beginsWith sameFolded frame.boundary) gap token rest := by
  unfold takeToken?
  constructor
  · intro h
    split at h
    · cases h
    · next u hlead =>
      obtain ⟨before, front, rfl, hfirst⟩ := skip?_eq_some_iff.mp hlead
      split at h
      · cases h
      · next found hboundary =>
        -- where the boundary was found does not matter, only that it was
        obtain ⟨gap, rfl, htoken⟩ := firstToken?_eq_some_iff.mp h
        exact ⟨before, front, gap, rfl, hfirst, exists_skip?_iff.mp ⟨found, hboundary⟩, htoken⟩
  · rintro ⟨before, front, gap, rfl, hfirst, hboundary, htoken⟩
    obtain ⟨found, hfound⟩ := exists_skip?_iff.mpr hboundary
    rw [skip?_eq_some_iff.mpr ⟨before, front, rfl, hfirst⟩]
    simp only [hfound]
    exact firstToken?_eq_some_iff.mpr ⟨gap, rfl, htoken⟩

theorem exists_front_of_takeToken? {frame : Frame} {t token rest : Text}
    (h : takeToken? frame t = some (token, rest)) : ∃ front, t = front ++ (token ++ rest) := by
  obtain ⟨before, front, gap, rfl, -⟩ := takeToken?_eq_some_iff.mp h
  exact ⟨before ++ (front ++ gap), by simp only [List.append_assoc]⟩

/-- **The walk finds some tokens exactly when they are extracted.** What a step finds is decided by
the frame and the text alone, so the tokens are determined by both. -/
theorem takeTokens?_eq_some_iff {frames : List Frame} {t : Text} {tokens : List Text} :
    takeTokens? frames t = some tokens ↔ Extracts frames t tokens := by
  constructor
  · intro h
    induction frames generalizing t tokens with
    | nil =>
      rw [← Option.some.inj h]
      exact .nil t
    | cons frame frames ih =>
      rw [takeTokens?] at h
      split at h
      · cases h
      · next token rest htake =>
        obtain ⟨others, hothers, rfl⟩ := Option.map_eq_some_iff.mp h
        obtain ⟨before, front, gap, rfl, hlead, hboundary, htoken⟩ :=
          takeToken?_eq_some_iff.mp htake
        exact .cons hlead hboundary htoken (ih hothers)
  · intro h
    induction h with
    | nil t => rfl
    | cons hlead hboundary htoken _ ih =>
      have htake := takeToken?_eq_some_iff.mpr ⟨_, _, _, rfl, hlead, hboundary, htoken⟩
      rw [takeTokens?, htake]
      simp only [ih, Option.map_some]

theorem Extracts.length_eq {frames : List Frame} {t : Text} {tokens : List Text}
    (h : Extracts frames t tokens) : tokens.length = frames.length := by
  induction h with
  | nil t => rfl
  | cons _ _ _ _ ih => rw [List.length_cons, List.length_cons, ih]

theorem Extracts.eq {frames : List Frame} {t : Text} {tokens others : List Text}
    (h : Extracts frames t tokens) (h' : Extracts frames t others) : tokens = others :=
  Option.some.inj ((takeTokens?_eq_some_iff.mpr h).symm.trans (takeTokens?_eq_some_iff.mpr h'))

theorem Extracts.isToken {frames : List Frame} {t : Text} {tokens : List Text}
    (h : Extracts frames t tokens) : ∀ token ∈ tokens, Shape.token.Matches token := by
  induction h with
  | nil t => simp
  | cons _ _ htoken _ ih =>
    intro token hmem
    rcases List.mem_cons.mp hmem with rfl | hmem
    · exact htoken.isToken
    · exact ih token hmem

/-! ## Raw arguments

A raw argument is a token with the shape that its text has; it is not changed before the arguments
are put in order. -/

theorem rawArguments?_eq_some_iff {template : Template} {t : Text} {raw : List Argument} :
    rawArguments? template t = some raw ↔
      ∃ values, raw = values.map Argument.ofToken ∧ Extracts template.frames t values := by
  rw [rawArguments?, Option.map_eq_some_iff]
  constructor
  · rintro ⟨values, hvalues, rfl⟩
    exact ⟨values, rfl, takeTokens?_eq_some_iff.mp hvalues⟩
  · rintro ⟨values, rfl, hvalues⟩
    exact ⟨values, takeTokens?_eq_some_iff.mpr hvalues, rfl⟩

end StepPhrase.Call
