import StepPhrase.Proofs.Call.Matching
import StepPhrase.Proofs.Text.CaseVariants

/-!
# Keywords in front of a call

A call that fits a template fits it with a keyword in front as well. The arguments, however, are
searched for in the whole call, keyword included. Only the first search can tell: whatever is in
front of the first token is never looked at again.

A first search with more text in front may find its lead earlier, even across the border to the
call, and a token earlier still. If it finds the same token as before, everything behind the token
is the same, and so are all other tokens.

* **`exists_skip?_append`** — with more text in front, a search ends where it did or earlier.
* **`Overlooked`** — the text in front adds nothing that the first search could take for its token.
* **`takeToken?_append_iff`** — the first token and what is behind it stay the same exactly then.
* **`overlooked_of_first_eq_none`** — it is so when no token can begin in the text in front and the
  call begins with its lead.
* **`match?_behind_keyword`** — what this means for matches.
-/

namespace StepPhrase.Call

open Template Text

variable {frame : Frame} {opening call rest : Text}

/-! ## The first search

Two searches are compared, in a call and in the call with a text in front. The one behind the lead
has the longer rest, and the token of the other is the first in both exactly when none begins in the
part by which that rest is longer. -/

/-- With more text in front, a search ends where it did or earlier: the literal is still where it
was found, so the first place is that one or one in front of it. -/
theorem exists_skip?_append {literal : Text} (opening : Text) (h : skip? literal call = some rest) :
    ∃ extra, skip? literal (opening ++ call) = some (extra ++ rest) := by
  have hoccurs : Occurs literal (opening ++ call) :=
    (exists_skip?_iff.mp ⟨rest, h⟩).append_left opening
  obtain ⟨rest', hskip⟩ := exists_skip?_iff.mpr hoccurs
  obtain ⟨before, front, heq, hfirst⟩ := skip?_eq_some_iff.mp h
  obtain ⟨before', front', heq', hfirst'⟩ := skip?_eq_some_iff.mp hskip
  -- the place where the call alone has the literal is one place where the longer text has it
  have hsplit : before' ++ (front' ++ rest') = (opening ++ before) ++ (front ++ rest) := by
    rw [← heq', heq, List.append_assoc]
  have hbefore := hfirst'.before_length_le (opening ++ before) front rest hsplit hfirst.sameBy
  have hfront := hfirst.sameBy.length_eq.symm.trans hfirst'.sameBy.length_eq
  have hlength := congrArg List.length hsplit
  simp only [List.length_append] at hbefore hlength
  -- both rests are ends of the same text, and the new one is at least as long
  have hrest : rest <:+ rest' :=
    List.suffix_of_suffix_length_le
      (List.suffix_append_of_suffix (List.suffix_append_of_suffix (List.suffix_refl rest)))
      (hsplit ▸ List.suffix_append_of_suffix
        (List.suffix_append_of_suffix (List.suffix_refl rest')))
      (by omega)
  obtain ⟨extra, rfl⟩ := hrest
  exact ⟨extra, hskip⟩

/-- The text in front of a call adds nothing that the search for the first token could take: each
token with the boundary behind it that is found with the text in front lies in what was searched
without it. -/
def Overlooked (frame : Frame) (opening call : Text) : Prop :=
  ∀ rest rest', skip? frame.lead call = some rest →
    skip? frame.lead (opening ++ call) = some rest' →
    ∀ gap token behind, rest' = gap ++ (token ++ behind) → Shape.token.Matches token →
      beginsWith sameFolded frame.boundary behind = true → (token ++ behind).length ≤ rest.length

/-- **The first token stays the same exactly when the text in front is overlooked.** The same token,
with the same text behind it: where that text ends is what decides about all other tokens. -/
theorem takeToken?_append_iff {token behind : Text}
    (h : takeToken? frame call = some (token, behind)) :
    takeToken? frame (opening ++ call) = takeToken? frame call ↔ Overlooked frame opening call := by
  obtain ⟨before, front, gap, hcall, hlead, hboundary, htoken⟩ := takeToken?_eq_some_iff.mp h
  have hskip : skip? frame.lead call = some (gap ++ (token ++ behind)) :=
    skip?_eq_some_iff.mpr ⟨before, front, hcall, hlead⟩
  obtain ⟨extra, hskip'⟩ := exists_skip?_append opening hskip
  rw [h, takeToken?_eq_some_iff]
  constructor
  · intro htaken rest rest' hrest hrest' before' other behind' heq hother hfollows
    obtain ⟨before'', front'', gap', hcall', hlead', -, htoken'⟩ := htaken
    have hsame : rest' = gap' ++ (token ++ behind) :=
      Option.some.inj (hrest'.symm.trans
        (skip?_eq_some_iff.mpr ⟨before'', front'', hcall', hlead'⟩))
    obtain rfl : gap ++ (token ++ behind) = rest := Option.some.inj (hskip.symm.trans hrest)
    -- no token begins before the one taken, which is in `rest`
    have hle := htoken'.gap_length_le before' other behind' (hsame.symm.trans heq) hother hfollows
    have hlength := congrArg List.length (hsame.symm.trans heq)
    simp only [List.length_append] at hlength ⊢
    omega
  · intro hoverlooked
    -- the same token is found behind the longer gap; that it is the first one is to be shown
    obtain ⟨before', front', hcall', hlead'⟩ := skip?_eq_some_iff.mp hskip'
    rw [← List.append_assoc extra] at hcall' hlead'
    refine ⟨before', front', extra ++ gap, hcall', hlead', ?_, htoken.toIsLongestToken, ?_⟩
    · rw [List.append_assoc]
      exact hboundary.append_left extra
    · intro before'' other behind' heq hother hfollows
      rw [List.append_assoc] at heq
      have hle := hoverlooked _ _ hskip hskip' before'' other behind' heq hother hfollows
      have hlength := congrArg List.length heq
      simp only [List.length_append] at hle hlength
      -- so the other token stands behind what was added, where the first one was first
      have hextra : extra <+: before'' ++ (other ++ behind') := ⟨_, heq⟩
      obtain ⟨added, rfl⟩ : extra <+: before'' :=
        List.prefix_of_prefix_length_le hextra (List.prefix_append _ _) (by omega)
      rw [List.append_assoc, List.append_cancel_left_eq] at heq
      have hgap := htoken.gap_length_le added other behind' heq hother hfollows
      simp only [List.length_append]
      omega

/-- What stays the same for the first frame stays the same for all, since the others are searched
for in what the first has left. -/
theorem takeTokens?_append {frames : List Frame} {tokens : List Text}
    (hfirst : ∀ frame ∈ frames.head?, Overlooked frame opening call)
    (h : takeTokens? frames call = some tokens) :
    takeTokens? frames (opening ++ call) = some tokens := by
  cases frames with
  | nil => exact h
  | cons frame frames =>
    have hoverlooked : Overlooked frame opening call := hfirst frame rfl
    rw [takeTokens?] at h ⊢
    cases htake : takeToken? frame call with
    | none =>
      rw [htake] at h
      cases h
    | some taken =>
      rw [(takeToken?_append_iff htake).mpr hoverlooked]
      exact h

/-! ## Openings in which no token begins

The lead may be found partly in the opening and partly in the call. What is searched in addition is
then not only the end of the opening but some of the lead itself, so it has to be shown that no
token begins in that either. -/

/-- Where a text stands twice, but for case, and begins the first time in front of its second place,
a character that begins a token would be found again and again, until it is found in front. This is
the induction over the places of the text: each is one of the opening, or the same as an earlier
one. -/
theorem first_eq_none_of_overlap {front before front' extra : Text}
    (hopening : ∀ c ∈ opening, Scan.first c = none) (hfronts : SameBy sameLowered front front')
    (heq : opening ++ front = before ++ (front' ++ extra))
    (hbefore : before.length < opening.length) :
    ∀ c ∈ front, Scan.first c = none := by
  have hplace : ∀ i : Nat, ∀ (hi : i < front.length), Scan.first front[i] = none := by
    intro i
    -- on the place: by how much `front` has moved is not known, only that it has moved forwards
    induction i using Nat.strong_induction_on with
    | _ i ih =>
      intro hi
      cases hfirst : Scan.first front[i] with
      | none => rfl
      | some state =>
        have hi' : i < front'.length := hfronts.length_eq ▸ hi
        have hsame : front[i] = front'[i] :=
          eq_of_sameLowered_of_first hfirst ((List.forall₂_iff_get.mp hfronts).2 i hi hi')
        -- the same character, so many places further to the front
        have hearlier : (opening ++ front)[before.length + i]? = some front[i] := by
          rw [heq, List.getElem?_append_right (Nat.le_add_right _ _), Nat.add_sub_cancel_left,
            List.getElem?_append_left hi', List.getElem?_eq_getElem hi', hsame]
        by_cases hwithin : before.length + i < opening.length
        · rw [List.getElem?_append_left hwithin] at hearlier
          have hnone := hopening _ (List.mem_of_getElem? hearlier)
          rw [hfirst] at hnone
          exact hnone
        · rw [List.getElem?_append_right (Nat.le_of_not_lt hwithin)] at hearlier
          obtain ⟨hlt, hget⟩ := List.getElem?_eq_some_iff.mp hearlier
          have hnone := ih (before.length + i - opening.length) (by omega) hlt
          rw [hget, hfirst] at hnone
          exact hnone
  intro c hc
  obtain ⟨i, hi, rfl⟩ := List.getElem_of_mem hc
  exact hplace i hi

/-- What stands from the end of its first place to the end of its second one begins no token either.
-/
theorem first_eq_none_of_extra {front before front' extra : Text}
    (hopening : ∀ c ∈ opening, Scan.first c = none) (hfronts : SameBy sameLowered front front')
    (heq : opening ++ front = before ++ (front' ++ extra)) : ∀ c ∈ extra, Scan.first c = none := by
  have hlength := congrArg List.length heq
  have hsame := hfronts.length_eq
  simp only [List.length_append] at hlength
  -- the first place either begins in the opening, or it is the second place and nothing is between
  by_cases hbefore : before.length < opening.length
  · intro c hc
    have hmem : c ∈ opening ++ front := by
      rw [heq]
      simp [hc]
    rcases List.mem_append.mp hmem with hmem | hmem
    · exact hopening c hmem
    · exact first_eq_none_of_overlap hopening hfronts heq hbefore c hmem
  · have hempty : extra = [] := List.length_eq_zero_iff.mp (by omega)
    simp [hempty]

theorem exists_first_of_token {token : Text} (h : Shape.token.Matches token) :
    ∃ c t state, token = c :: t ∧ Scan.first c = some state := by
  rw [Shape.token_matches_iff] at h
  cases token with
  | nil =>
    rw [Scan.accepts_nil_iff] at h
    cases h
  | cons c t =>
    obtain ⟨state, hstate, -⟩ := Scan.accepts_cons_iff.mp h
    exact ⟨c, t, state, rfl, hstate⟩

/-- A token stands behind the characters that begin none, because it has a first character and that
one begins it. -/
theorem length_le_of_first_eq_none {extra gap token behind : Text}
    (hextra : ∀ c ∈ extra, Scan.first c = none)
    (htoken : Shape.token.Matches token) (heq : extra ++ rest = gap ++ (token ++ behind)) :
    extra.length ≤ gap.length := by
  obtain ⟨c, t, state, rfl, hstate⟩ := exists_first_of_token htoken
  -- otherwise the token begins with one of those characters
  by_contra hshort
  have hmem : c ∈ extra := by
    have hget : (extra ++ rest)[gap.length]? = some c := by
      rw [heq, List.getElem?_append_right (Nat.le_refl _), Nat.sub_self]
      rfl
    rw [List.getElem?_append_left (by omega)] at hget
    exact List.mem_of_getElem? hget
  rw [hextra c hmem] at hstate
  cases hstate

/-- **Where no token can begin in the text in front and the call begins with its lead, that text is
overlooked.** -/
theorem overlooked_of_first_eq_none (hopening : ∀ c ∈ opening, Scan.first c = none)
    (hlead : beginsWith sameLowered frame.lead call = true) : Overlooked frame opening call := by
  intro rest rest' hrest hrest' gap token behind heq htoken _
  obtain ⟨front, rest'', rfl, hfront⟩ := beginsWith_iff.mp hlead
  obtain rfl : rest'' = rest := by
    have hskip : skip? frame.lead (front ++ rest'') = some rest'' :=
      skip?_eq_some_iff.mpr ⟨[], front, rfl, isFirstOccurrence_nil hfront⟩
    exact Option.some.inj (hskip.symm.trans hrest)
  obtain ⟨extra, hextra⟩ := exists_skip?_append opening hrest
  obtain rfl : extra ++ rest'' = rest' := Option.some.inj (hextra.symm.trans hrest')
  obtain ⟨before, front', hcall, hfirst⟩ := skip?_eq_some_iff.mp hextra
  have hadded : opening ++ front = before ++ (front' ++ extra) := by
    have h : (opening ++ front) ++ rest'' = (before ++ (front' ++ extra)) ++ rest'' := by
      simpa only [List.append_assoc] using hcall
    exact List.append_cancel_right h
  have hgap : extra.length ≤ gap.length :=
    length_le_of_first_eq_none
      (first_eq_none_of_extra hopening (hfront.lowered_common hfirst.sameBy) hadded) htoken heq
  have hlength := congrArg List.length heq
  simp only [List.length_append] at hlength ⊢
  omega

/-! ## Matching

Blanks begin no token, which is a fact about the two tables of characters. So for a keyword only its
own characters count. -/

/-- A blank begins no token. -/
theorem first_eq_none_of_isWhiteSpace {blank : Char} (h : Unicode.isWhiteSpace blank = true) :
    Scan.first blank = none := by
  cases hfirst : Scan.first blank with
  | none => rfl
  | some state =>
    obtain ⟨range, hrange, hwithin⟩ := Unicode.exists_tokenRange_of_first hfirst
    obtain ⟨blanks, hblanks, hwithin'⟩ := List.any_eq_true.mp h
    rw [Bool.and_eq_true, decide_eq_true_eq, decide_eq_true_eq] at hwithin'
    -- the ranges of the two tables lie apart
    have hapart : ∀ range ∈ Unicode.tokenRanges, ∀ blanks ∈ Unicode.whiteSpaceRanges,
        range.2 < blanks.1 ∨ blanks.2 < range.1 := by
      decide
    have hor := hapart range hrange blanks hblanks
    omega

variable {setting : Setting} {template : Template}

theorem fits_nil_iff {pieces : List Piece} :
    fits [] pieces call = true ↔ ∃ tokens, Fills sameFolded pieces tokens call := by
  rw [fits_iff]
  constructor
  · rintro ⟨opening, body, tokens, rfl, hnil | ⟨keyword, hkeyword, -⟩, hfills⟩
    · rw [hnil]
      exact ⟨tokens, hfills⟩
    · cases hkeyword
  · rintro ⟨tokens, hfills⟩
    exact ⟨[], call, tokens, rfl, isOpening_nil [], hfills⟩

theorem fits_append {keywords : List Text} {pieces : List Piece}
    (hopening : IsOpening keywords opening)
    (h : fits [] pieces call = true) : fits keywords pieces (opening ++ call) = true := by
  obtain ⟨tokens, hfills⟩ := fits_nil_iff.mp h
  exact fits_iff.mpr ⟨opening, call, tokens, rfl, hopening, hfills⟩

/-- A call that matches and fits without a keyword matches with the same arguments behind an opening
that is overlooked. -/
theorem match?_append {arguments : List Argument}
    (hopening : IsOpening setting.properties.keywords opening)
    (hpermits : setting.limit.permits (opening ++ call) = true)
    (hfits : fits [] (setting.stripped template).pieces call = true)
    (hmatch : match? setting template call = some arguments)
    (hfirst : ∀ frame ∈ (setting.stripped template).frames.head?, Overlooked frame opening call) :
    match? setting template (opening ++ call) = some arguments := by
  obtain ⟨-, hsource, hbulk, -, harguments⟩ := match?_eq_some_iff.mp hmatch
  obtain ⟨raw, hraw, harrange⟩ := Option.bind_eq_some_iff.mp harguments
  obtain ⟨tokens, htokens, rfl⟩ := Option.map_eq_some_iff.mp hraw
  have hwalk := takeTokens?_append hfirst htokens
  refine match?_eq_some_iff.mpr ⟨hpermits, hsource, hbulk, fits_append hopening hfits, ?_⟩
  rw [arguments?, rawArguments?, hwalk]
  exact harrange

/-- A call that matches has a token for the first slot, and the search for the others goes on behind
it. -/
theorem exists_takeToken?_of_match? {arguments : List Argument}
    (hmatch : match? setting template call = some arguments)
    (hframe : frame ∈ (setting.stripped template).frames.head?) :
    ∃ token behind, takeToken? frame call = some (token, behind) := by
  obtain ⟨-, -, -, -, harguments⟩ := match?_eq_some_iff.mp hmatch
  obtain ⟨raw, hraw, -⟩ := Option.bind_eq_some_iff.mp harguments
  obtain ⟨tokens, htokens, -⟩ := Option.map_eq_some_iff.mp hraw
  obtain ⟨frames, hframes⟩ := List.head?_eq_some_iff.mp hframe
  rw [hframes, takeTokens?] at htokens
  cases htake : takeToken? frame call with
  | none =>
    rw [htake] at htokens
    cases htokens
  | some taken => exact ⟨taken.1, taken.2, rfl⟩

/-- **A keyword in front of a call that matches changes the arguments only through the first
search.** The longer call fits. The first token is the same, with the same text behind it, exactly
when keyword and blank are overlooked, and then the call matches with the same arguments. It is so
for each keyword in which no token begins, if the call begins with the first lead, and where there
is no slot. -/
theorem match?_behind_keyword {keyword : Text} {blank : Char} {arguments : List Argument}
    (hkeyword : keyword ∈ setting.properties.keywords) (hblank : Unicode.isWhiteSpace blank = true)
    (hpermits : setting.limit.permits (keyword ++ blank :: call) = true)
    (hfits : fits [] (setting.stripped template).pieces call = true)
    (hmatch : match? setting template call = some arguments) :
    fits setting.properties.keywords (setting.stripped template).pieces
      (keyword ++ blank :: call) = true
      ∧ (∀ frame ∈ (setting.stripped template).frames.head?,
          takeToken? frame (keyword ++ blank :: call) = takeToken? frame call ↔
            Overlooked frame (keyword ++ [blank]) call)
      ∧ ((∀ frame ∈ (setting.stripped template).frames.head?,
            Overlooked frame (keyword ++ [blank]) call) →
          match? setting template (keyword ++ blank :: call) = some arguments)
      ∧ ((∀ c ∈ keyword, Scan.first c = none) →
          (∀ frame ∈ (setting.stripped template).frames.head?,
            beginsWith sameLowered frame.lead call = true) →
          match? setting template (keyword ++ blank :: call) = some arguments) := by
  have happend : keyword ++ blank :: call = (keyword ++ [blank]) ++ call := by
    rw [List.append_assoc, List.singleton_append]
  have hopening : IsOpening setting.properties.keywords (keyword ++ [blank]) :=
    Or.inr ⟨keyword, hkeyword, keyword, blank, rfl, sameBy_refl sameFolded_refl keyword, hblank⟩
  rw [happend] at hpermits ⊢
  refine ⟨fits_append hopening hfits, fun frame hframe => ?_,
    match?_append hopening hpermits hfits hmatch, fun hnone hlead => ?_⟩
  · obtain ⟨token, behind, htake⟩ := exists_takeToken?_of_match? hmatch hframe
    exact takeToken?_append_iff htake
  · have hopeningNone : ∀ c ∈ keyword ++ [blank], Scan.first c = none := by
      intro c hc
      rcases List.mem_append.mp hc with hc | hc
      · exact hnone c hc
      · rw [List.mem_singleton.mp hc]
        exact first_eq_none_of_isWhiteSpace hblank
    exact match?_append hopening hpermits hfits hmatch fun frame hframe =>
      overlooked_of_first_eq_none hopeningNone (hlead frame hframe)

/-- A call with the usual keyword in front. -/
theorem match?_behind_given :
    ∃ template, ofText? .unlimited "{n} apples".toList = .ok template
      ∧ match? ⟨.unlimited, .empty, .default⟩ template "5 apples".toList = some [.ofToken ['5']]
      ∧ match? ⟨.unlimited, .empty, .default⟩ template "Given 5 apples".toList =
        some [.ofToken ['5']] := by
  have hparsed : ofText? .unlimited "{n} apples".toList =
      .ok ⟨"{n} apples".toList, [.slot ⟨"{n}".toList, 0, none⟩, .literal " apples".toList]⟩ := by
    decide
  have hmatch : match? ⟨.unlimited, .empty, .default⟩
      ⟨"{n} apples".toList, [.slot ⟨"{n}".toList, 0, none⟩, .literal " apples".toList]⟩
      "5 apples".toList = some [.ofToken ['5']] := by
    decide
  have hkeyword : "Given".toList ∈ Bindings.empty.keywords := by decide
  have hblank : Unicode.isWhiteSpace ' ' = true := by decide
  obtain ⟨-, -, -, hnone⟩ := match?_behind_keyword hkeyword hblank (by decide) (by decide) hmatch
  have hgiven : ∀ c ∈ "Given".toList, Scan.first c = none := by
    have hall : "Given".toList.all (fun c => Scan.first c == none) = true := by decide
    intro c hc
    simpa using List.all_eq_true.mp hall c hc
  exact ⟨_, hparsed, hmatch, hnone hgiven (by decide)⟩

/-- With a synonym that has a number in it the search finds the number in the synonym, because it
starts at the front of the call and not behind the keyword. -/
theorem exists_match?_behind_number :
    ∃ template properties, ofText? .unlimited "{n}".toList = .ok template
      ∧ "Step 1".toList ∈ Bindings.keywords properties
      ∧ fits [] (Setting.stripped ⟨.unlimited, properties, .default⟩ template).pieces ['5'] = true
      ∧ match? ⟨.unlimited, properties, .default⟩ template ['5'] = some [.ofToken ['5']]
      ∧ match? ⟨.unlimited, properties, .default⟩ template "Step 1 5".toList =
        some [.ofToken ['1']] := by
  refine ⟨⟨"{n}".toList, [.slot ⟨"{n}".toList, 0, none⟩]⟩,
    Bindings.empty.set "Given".toList (.string "Step 1".toList), ?_, ?_, ?_, ?_, ?_⟩
  all_goals decide

end StepPhrase.Call
