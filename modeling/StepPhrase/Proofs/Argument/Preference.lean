import StepPhrase.Proofs.Argument.FirstToken
import StepPhrase.Proofs.Pattern.Search
import StepPhrase.Proofs.Unicode.CaseTable

/-!
# The search for a token as a search for its pattern

A value is what a search for the pattern of tokens captures in front of a literal. Such a search
takes the way that comes first, which need not be the longest one; for tokens it is.

A repetition is tried as often as possible first, so by itself it comes longest first; an
alternative comes first although a later one may take more. The proof goes through the parts of the
pattern of tokens and shows at each that this does no harm: either there is one way at most, or what
is tried later takes less.

* **`longestFirst_ways_token`** — the ways in which a token can begin a text come longest first. Of
  the alternatives only one has any ways at all, since each of them begins with characters of its
  own (`exclusive_ways`).
* **`capture?_token`** — so the search captures the leftmost token, and of those that begin there
  the longest; it is the search that `firstToken?` runs, and the order of the alternatives does not
  matter.
-/

namespace StepPhrase

/-- The alternatives of a token, in order. -/
def Shape.alternatives : List Pattern :=
  [map.pattern, list.pattern, quoted '\'', quoted '"', double.pattern]

namespace Pattern

open Text

/-- One of several patterns, an earlier one before a later one. Without any pattern to choose from
nothing matches. -/
def anyOf : List Pattern → Pattern
  | [] => .oneOf []
  | [p] => p
  | p :: ps => .alt p (anyOf ps)

/-- Each way leaves more of the text than those in front of it, so the first of the ways takes the
longest part of the text. -/
def LongestFirst (rests : List Text) : Prop := rests.Pairwise fun a b => a.length < b.length

/-! ## The first way and the longest one

If the ways come longest first, the first one that can be gone on from is the longest of those.
Lists of ways are put together in two manners: one list for each alternative, of which one at most
has members (`Exclusive`), and one list behind each way of what is in front. -/

section LongestFirst

variable {α : Type}

/-- What is found first in such a list is the longest of what could be found in it. Ways are rests
of one text, so the longest match is the one that leaves the least. -/
theorem LongestFirst.find?_eq_some_iff {rests : List Text} (h : LongestFirst rests)
    {follows : Text → Bool} {rest : Text} :
    rests.find? follows = some rest ↔
      rest ∈ rests ∧ follows rest = true ∧ ∀ other ∈ rests, follows other = true →
        rest.length ≤ other.length := by
  induction h with
  | nil => simp
  | @cons first others hfirst _ ih =>
    rw [List.find?_cons]
    cases hfollows : follows first with
    | true =>
      -- the first one is longer than all others, so nothing else could be the answer
      simp only [Option.some_inj, List.mem_cons, forall_eq_or_imp]
      constructor
      · rintro rfl
        exact ⟨.inl rfl, hfollows, fun _ => Nat.le_refl _, fun other hother _ =>
          Nat.le_of_lt (hfirst other hother)⟩
      · rintro ⟨rfl | hmem, -, hle, -⟩
        · rfl
        · exact absurd (hle hfollows) (Nat.not_le_of_lt (hfirst rest hmem))
    | false =>
      simp only [ih, List.mem_cons, forall_eq_or_imp, hfollows, Bool.false_eq_true,
        false_implies, true_and]
      -- the first one is no candidate, and the answer is that for the others
      refine and_congr_left fun hrest => ⟨.inr, fun hmem => hmem.resolve_left ?_⟩
      rintro rfl
      exact absurd (hfollows.symm.trans hrest.1) Bool.false_ne_true

theorem eq_nil_or_singleton_of_length_le {l : List α} (h : l.length ≤ 1) :
    l = [] ∨ ∃ a, l = [a] := by
  rcases Nat.le_one_iff_eq_zero_or_eq_one.mp h with h | h
  · exact .inl (List.length_eq_zero_iff.mp h)
  · exact .inr (List.length_eq_one_iff.mp h)

theorem longestFirst_of_length_le_one {rests : List Text} (h : rests.length ≤ 1) :
    LongestFirst rests := by
  rcases eq_nil_or_singleton_of_length_le h with rfl | ⟨rest, rfl⟩
  · exact .nil
  · exact List.pairwise_singleton _ rest

/-- At most one of some lists has members, so it makes no difference in which order they are put
together. -/
def Exclusive (lists : List (List α)) : Prop := lists.Pairwise fun l l' => l = [] ∨ l' = []

theorem exclusive_of_place {lists : List (List α)} (place : Nat)
    (h : ∀ x ∈ lists.zipIdx, x.1 = [] ∨ place = x.2) :
    Exclusive lists := by
  have hget : ∀ i (hi : i < lists.length), lists[i] = [] ∨ place = i := fun i hi =>
    h (lists[i], i) (List.mk_mem_zipIdx_iff_getElem?.mpr (List.getElem?_eq_getElem hi))
  refine List.pairwise_iff_getElem.mpr fun i j hi hj hlt => ?_
  rcases hget i hi with hnil | rfl
  · exact .inl hnil
  · exact .inr ((hget j hj).resolve_right (Nat.ne_of_lt hlt))

theorem Exclusive.longestFirst_flatten {lists : List (List Text)} (h : Exclusive lists)
    (hlists : ∀ rests ∈ lists, LongestFirst rests) : LongestFirst lists.flatten := by
  refine List.pairwise_flatten.mpr ⟨hlists, h.imp ?_⟩
  rintro l l' (rfl | rfl)
  · exact fun _ hmem => absurd hmem List.not_mem_nil
  · exact fun _ _ _ hmem => absurd hmem List.not_mem_nil

theorem Exclusive.flatten_eq_of_perm {lists lists' : List (List α)} (h : Exclusive lists)
    (hperm : lists.Perm lists') : lists.flatten = lists'.flatten := by
  induction hperm with
  | nil => rfl
  | cons l _ ih => rw [List.flatten_cons, List.flatten_cons, ih (List.pairwise_cons.mp h).2]
  | swap l l' lists =>
    have hpair := (List.pairwise_cons.mp h).1 l List.mem_cons_self
    rcases hpair with rfl | rfl <;> rfl
  | trans hperm _ ih ih' => rw [ih h, ih' (h.perm hperm Or.symm)]

end LongestFirst

/-! ## Classes and repetitions

A class of characters can be matched in one way at most. Repeated, it gives up its characters one by
one, from the last. -/

theorem length_behindOne_le (inClass : Char → Bool) (t : Text) :
    (behindOne inClass t).length ≤ 1 := by
  cases t with
  | nil => exact Nat.zero_le _
  | cons c t =>
    rw [behindOne]
    split <;> simp

theorem length_eq_of_mem_behindOne {inClass : Char → Bool} {t rest : Text}
    (h : rest ∈ behindOne inClass t) :
    t.length = rest.length + 1 := by
  obtain ⟨c, rfl, -⟩ := mem_behindOne_iff.mp h
  rfl

theorem length_le_of_mem_behindMany {step : Text → List Text} {t rest : Text}
    (h : rest ∈ behindMany step t) :
    rest.length ≤ t.length := by
  induction hn : t.length using Nat.strongRecOn generalizing t with
  | ind n ih =>
    rw [behindMany, List.mem_append, List.mem_flatMap, List.mem_singleton] at h
    rcases h with ⟨middle, -, hrest⟩ | rfl
    · split at hrest
      · next hlt => exact Nat.le_of_lt (Nat.lt_of_le_of_lt (ih _ (hn ▸ hlt) hrest rfl) (hn ▸ hlt))
      · cases hrest
    · exact Nat.le_of_eq hn

/-- Repetitions of what can be done in one way at most come longest first, since to go on comes
before to stop and takes more. By induction on the length of the text. -/
theorem longestFirst_behindMany {step : Text → List Text}
    (hstep : ∀ t, (step t).length ≤ 1) (t : Text) :
    LongestFirst (behindMany step t) := by
  induction hn : t.length using Nat.strongRecOn generalizing t with
  | ind n ih =>
    rw [behindMany]
    rcases eq_nil_or_singleton_of_length_le (hstep t) with hnone | ⟨middle, hone⟩
    · rw [hnone]
      exact List.pairwise_singleton _ t
    · rw [hone, List.flatMap_singleton]
      split
      · next hlt =>
        -- going on has taken something, and stopping here takes nothing
        have hmiddle := ih _ (hn ▸ hlt) middle rfl
        refine List.pairwise_append.mpr ⟨hmiddle, List.pairwise_singleton _ t, fun rest hrest => ?_⟩
        rw [List.forall_mem_singleton]
        exact Nat.lt_of_le_of_lt (length_le_of_mem_behindMany hrest) hlt
      · exact List.pairwise_singleton _ t

theorem behindMany_behindOne_cons (inClass : Char → Bool) (c : Char) (t : Text) :
    behindMany (behindOne inClass) (c :: t) =
      (if inClass c then behindMany (behindOne inClass) t else []) ++ [c :: t] := by
  rw [behindMany, behindOne]
  split
  · have hlt : t.length < (c :: t).length := Nat.lt_succ_self _
    rw [List.flatMap_singleton, if_pos hlt]
  · rfl

/-- Where a class is repeated once less, the next character belongs to it. -/
theorem pairwise_behindMany_behindOne (inClass : Char → Bool) (t : Text) :
    (behindMany (behindOne inClass) t).Pairwise fun a b =>
      a.length < b.length ∧ ∃ c u, b = c :: u ∧ inClass c = true := by
  induction t with
  | nil =>
    rw [behindMany]
    exact List.pairwise_singleton _ []
  | cons c t ih =>
    rw [behindMany_behindOne_cons]
    split
    · next hc =>
      refine List.pairwise_append.mpr ⟨ih, List.pairwise_singleton _ _, fun rest hrest => ?_⟩
      rw [List.forall_mem_singleton]
      exact ⟨Nat.lt_succ_of_le (length_le_of_mem_behindMany hrest), c, t, rfl, hc⟩
    · exact List.pairwise_singleton _ _

theorem longestFirst_behindMany_behindOne (inClass : Char → Bool) (t : Text) :
    LongestFirst (behindMany (behindOne inClass) t) :=
  longestFirst_behindMany (length_behindOne_le inClass) t

theorem LongestFirst.flatMap_behindOne {rests : List Text} (h : LongestFirst rests)
    (inClass : Char → Bool) :
    LongestFirst (rests.flatMap (behindOne inClass)) := by
  refine List.pairwise_flatMap.mpr
    ⟨fun rest _ => longestFirst_of_length_le_one (length_behindOne_le _ rest),
    h.imp fun hlt x hx y hy => ?_⟩
  have hx := length_eq_of_mem_behindOne hx
  have hy := length_eq_of_mem_behindOne hy
  omega

theorem longestFirst_flatMap {rests : List Text} (h : rests.length ≤ 1) {step : Text → List Text}
    (hstep : ∀ t, LongestFirst (step t)) : LongestFirst (rests.flatMap step) := by
  rcases eq_nil_or_singleton_of_length_le h with rfl | ⟨rest, rfl⟩
  · exact .nil
  · rw [List.flatMap_singleton]
    exact hstep rest

/-! ## The characters of tokens -/

theorem isCaseless_token : IsCaseless Shape.token := by
  intro a ha c hsame
  have hall : (Shape.token.characters.all fun a =>
      Unicode.CaseRun.isCaseless Unicode.foldRuns (a.toNat, a.toNat)) = true := by
    decide
  have hcaseless := List.all_eq_true.mp hall a ha
  rw [sameFolded_iff, Unicode.foldCase_eq_convert, Unicode.foldCase_eq_convert] at hsame
  exact (Unicode.CaseRun.convert_eq_iff_of_caseless hcaseless ⟨Nat.le_refl _, Nat.le_refl _⟩).mp
    hsame

theorem isCaseless_of_subset {p : Pattern} (h : p.characters ⊆ Shape.token.characters) :
    IsCaseless p :=
  fun a ha => isCaseless_token a (h ha)

theorem ways_char_seq {a : Char} (ha : a ∈ Shape.token.characters) (p : Pattern)
    (c : Char) (t : Text) :
    ways (.seq (.char a) p) (c :: t) = if c = a then ways p t else [] := by
  rw [ways, ways, behindOne]
  by_cases h : c = a
  · rw [if_pos (h ▸ sameFolded_refl c), if_pos h, List.flatMap_singleton]
  · rw [if_neg fun hsame => h (isCaseless_token a ha c hsame).symm, if_neg h, List.flatMap_nil]

/-! ## The alternatives

Maps and lists run to a closing bracket that they give up one after the other; strings can be read
in one way only, unit by unit; numbers give up their fraction first, and then digits. -/

theorem longestFirst_ways_enclosed (opening closing : Char) (t : Text) :
    LongestFirst (ways (Shape.enclosed opening closing) t) :=
  longestFirst_flatMap (length_behindOne_le _ t) fun u =>
    (longestFirst_behindMany_behindOne _ u).flatMap_behindOne _

theorem mark_mem_characters (q : Quote) : q.mark ∈ Shape.token.characters := by
  cases q <;> decide

/-- There is one way at most to read a unit of a quotation: what is behind a backslash tells the two
pairs apart. -/
theorem length_ways_quotedUnit_le (q : Quote) (t : Text) :
    (ways (Shape.quotedUnit q.mark) t).length ≤ 1 := by
  cases t with
  | nil => exact Nat.zero_le _
  | cons c t =>
    have hunfold : ways (Shape.quotedUnit q.mark) (c :: t) =
        behindOne (fun c => !isAmong ['\\', q.mark] c) (c :: t)
          ++ (ways (.seq (.char '\\') (.char '\\')) (c :: t)
            ++ ways (.seq (.char '\\') (.char q.mark)) (c :: t)) := rfl
    rw [hunfold, ways_char_seq (by decide), ways_char_seq (by decide)]
    by_cases hback : c = '\\'
    · -- a backslash is no unit by itself, and what is behind it is a backslash or the mark, not
      -- both
      have hamong : isAmong ['\\', q.mark] c = true := by
        rw [hback, isAmong, List.any_cons, sameFolded_refl, Bool.true_or]
      rw [behindOne, hamong, if_pos hback, if_pos hback, Bool.not_true, if_neg Bool.false_ne_true,
        List.nil_append, ways, ways]
      cases t with
      | nil => exact Nat.zero_le _
      | cons d t =>
        rw [behindOne, behindOne]
        split
        · next hd =>
          -- the character is the backslash, so it is not the mark, whatever folding makes of it
          have hmark : ¬sameFolded q.mark d = true := fun hsame =>
            Scan.mark_ne_backslash q ((isCaseless_token _ (mark_mem_characters q) d hsame).trans
              (isCaseless_token '\\' (by decide) d hd).symm)
          rw [if_neg hmark]
          exact Nat.le_refl 1
        · split <;> simp
    · rw [if_neg hback, if_neg hback, List.append_nil, List.append_nil]
      exact length_behindOne_le _ _

theorem longestFirst_ways_quoted (q : Quote) (t : Text) :
    LongestFirst (ways (Shape.quoted q.mark) t) :=
  longestFirst_flatMap (length_behindOne_le _ t) fun u =>
    (longestFirst_behindMany (length_ways_quotedUnit_le q) u).flatMap_behindOne _

/-- A point and digits. -/
abbrev fraction : Pattern := .seq (.char '.') (.plus .digit)

theorem longestFirst_ways_digits (t : Text) : LongestFirst (ways (.plus .digit) t) :=
  longestFirst_flatMap (length_behindOne_le _ t) fun u => longestFirst_behindMany_behindOne _ u

/-- A fraction takes characters, so it comes before none; and its digits come longest first.
Optional parts are greedy in the same way. -/
theorem longestFirst_ways_opt_fraction (t : Text) : LongestFirst (ways (.opt fraction) t) := by
  cases t with
  | nil => exact List.pairwise_singleton _ []
  | cons c t =>
    rw [ways, ways_char_seq (by decide)]
    split
    · refine List.pairwise_append.mpr
        ⟨longestFirst_ways_digits t, List.pairwise_singleton _ _, fun rest hrest => ?_⟩
      obtain ⟨middle, hmiddle, hrest⟩ := List.mem_flatMap.mp hrest
      -- a fraction takes the point at least
      have hle := length_le_of_mem_behindMany hrest
      have hlength := length_eq_of_mem_behindOne hmiddle
      rw [List.forall_mem_singleton, List.length_cons]
      omega
    · exact List.pairwise_singleton _ _

theorem length_le_of_mem_ways_opt_fraction {t rest : Text} (h : rest ∈ ways (.opt fraction) t) :
    rest.length ≤ t.length := by
  rcases List.mem_append.mp h with h | h
  · obtain ⟨s, rfl, -⟩ := (mem_ways_iff (isCaseless_of_subset (by decide))).mp h
    rw [List.length_append]
    exact Nat.le_add_left _ _
  · rw [List.mem_singleton.mp h]

/-- The digits of a number come longest first, each time with a fraction before none. Only behind
all of the digits there can be one. -/
theorem longestFirst_ways_unsigned (t : Text) :
    LongestFirst (ways (.seq (.plus .digit) (.opt fraction)) t) := by
  rw [ways, ways, List.flatMap_assoc]
  refine longestFirst_flatMap (length_behindOne_le _ t) fun u => List.pairwise_flatMap.mpr ⟨?_, ?_⟩
  · exact fun rest _ => longestFirst_ways_opt_fraction rest
  · -- with digits left out the next character is a digit, so there is no fraction, and this way
    -- takes less
    refine (pairwise_behindMany_behindOne _ u).imp ?_
    rintro a _ ⟨hlt, c, b, rfl, hdigit⟩ x hx y hy
    have hpoint : c ≠ '.' := by
      rintro rfl
      exact absurd hdigit (by decide)
    rw [ways, ways_char_seq (by decide), if_neg hpoint, List.nil_append, List.mem_singleton] at hy
    rw [hy]
    exact Nat.lt_of_le_of_lt (length_le_of_mem_ways_opt_fraction hx) hlt

theorem ways_unsigned_eq_nil {c : Char} (h : Unicode.isDecimalDigit c = false) (t : Text) :
    ways (.seq (.plus .digit) (.opt fraction)) (c :: t) = [] := by
  rw [ways, ways, ways, behindOne, h]
  rfl

theorem isAmong_signs_iff {c : Char} : isAmong ['-', '+'] c = true ↔ c = '-' ∨ c = '+' := by
  have hcaseless : IsCaseless (.oneOf ['-', '+']) := isCaseless_of_subset (by decide)
  rw [@isAmong_iff ['-', '+'] hcaseless, List.mem_pair]

/-- Behind a sign a number goes on without one, and no number without a sign begins with one. -/
theorem ways_double_cons (c : Char) (t : Text) :
    ways Shape.double.pattern (c :: t) =
      if c = '-' ∨ c = '+' then ways (.seq (.plus .digit) (.opt fraction)) t
      else ways (.seq (.plus .digit) (.opt fraction)) (c :: t) := by
  have hunfold : ways Shape.double.pattern (c :: t) =
      (behindOne (isAmong ['-', '+']) (c :: t) ++ [c :: t]).flatMap
        (ways (.seq (.plus .digit) (.opt fraction))) := rfl
  rw [hunfold, List.flatMap_append, List.flatMap_singleton, behindOne]
  by_cases hsign : c = '-' ∨ c = '+'
  · -- a sign is not skipped: what does not take it finds no digit there
    have hdigit : Unicode.isDecimalDigit c = false := by
      rcases hsign with rfl | rfl <;> decide
    rw [if_pos (isAmong_signs_iff.mpr hsign), if_pos hsign, ways_unsigned_eq_nil hdigit,
      List.append_nil, List.flatMap_singleton]
  · rw [if_neg (isAmong_signs_iff.not.mpr hsign), if_neg hsign, List.flatMap_nil, List.nil_append]

theorem longestFirst_ways_double (t : Text) : LongestFirst (ways Shape.double.pattern t) := by
  cases t with
  | nil => exact .nil
  | cons c t =>
    rw [ways_double_cons]
    split <;> exact longestFirst_ways_unsigned _

/-! ## One alternative at most -/

/-- The characters that a number begins with. None of them begins a token of another kind. -/
def BeginsNumber (c : Char) : Prop := c = '-' ∨ c = '+' ∨ Unicode.isDecimalDigit c = true

instance : DecidablePred BeginsNumber := fun _ => inferInstanceAs (Decidable (_ ∨ _ ∨ _))

/-- The place of the alternative that a character begins, if it begins one at all. Where it begins
none the place does not matter. -/
def placeOf (c : Char) : Nat :=
  if c = '{' then 0 else if c = '[' then 1 else if c = '\'' then 2 else if c = '"' then 3 else 4

theorem placeOf_eq_of_beginsNumber {c : Char} (h : BeginsNumber c) : placeOf c = 4 := by
  have hne : ∀ d, ¬BeginsNumber d → c ≠ d := by
    rintro d hd rfl
    exact hd h
  rw [placeOf, if_neg (hne '{' (by decide)), if_neg (hne '[' (by decide)),
    if_neg (hne '\'' (by decide)), if_neg (hne '"' (by decide))]

theorem ways_char_seq_eq_nil_or {a : Char} (ha : a ∈ Shape.token.characters) (p : Pattern)
    (c : Char) (t : Text) :
    ways (.seq (.char a) p) (c :: t) = [] ∨ placeOf c = placeOf a := by
  rw [ways_char_seq ha]
  split
  · next hc => exact .inr (congrArg placeOf hc)
  · exact .inl rfl

theorem ways_double_eq_nil_or (c : Char) (t : Text) :
    ways Shape.double.pattern (c :: t) = [] ∨ placeOf c = 4 := by
  rw [ways_double_cons]
  split
  · next hsign => exact .inr (placeOf_eq_of_beginsNumber (hsign.imp_right .inl))
  · cases hdigit : Unicode.isDecimalDigit c with
    | false => exact .inl (ways_unsigned_eq_nil hdigit t)
    | true => exact .inr (placeOf_eq_of_beginsNumber (.inr (.inr hdigit)))

/-- **At most one alternative has any ways**, since each begins with characters of its own. So the
order in which the alternatives are tried makes no difference. -/
theorem exclusive_ways (t : Text) : Exclusive (Shape.alternatives.map (ways · t)) := by
  -- the first character tells which alternative it can be; an empty text begins none
  refine exclusive_of_place (t.head?.elim 0 placeOf) ?_
  simp only [Shape.alternatives, List.map_cons, List.map_nil, List.zipIdx_cons, List.zipIdx_nil,
    List.forall_mem_cons]
  cases t with
  | nil =>
    exact ⟨.inl rfl, .inl rfl, .inl rfl, .inl rfl, .inl rfl, fun _ h =>
      absurd h List.not_mem_nil⟩
  | cons c t =>
    exact ⟨ways_char_seq_eq_nil_or (by decide) _ c t, ways_char_seq_eq_nil_or (by decide) _ c t,
      ways_char_seq_eq_nil_or (by decide) _ c t, ways_char_seq_eq_nil_or (by decide) _ c t,
      ways_double_eq_nil_or c t, fun _ h => absurd h List.not_mem_nil⟩

theorem ways_token (t : Text) :
    ways Shape.token t = (Shape.alternatives.map (ways · t)).flatten := by
  simp [Shape.token, Shape.alternatives, Shape.pattern, ways]

/-- **The ways in which a token can begin a text come longest first.** Only one alternative has any,
and each of them takes as much as it can before it gives any of it back. -/
theorem longestFirst_ways_token (t : Text) : LongestFirst (ways Shape.token t) := by
  rw [ways_token]
  refine (exclusive_ways t).longestFirst_flatten ?_
  simp only [Shape.alternatives, List.map_cons, List.map_nil, List.forall_mem_cons]
  exact ⟨longestFirst_ways_enclosed _ _ t, longestFirst_ways_enclosed _ _ t,
    longestFirst_ways_quoted .single t,
    longestFirst_ways_quoted .double t, longestFirst_ways_double t, fun _ h =>
      absurd h List.not_mem_nil⟩

/-! ## What the search captures

The search goes from place to place and takes the first way at the first place that has one from
which the literal can go on. With the ways longest first, that is the token which `firstToken?`
finds. -/

/-- Of the ways in which a token can begin a text and a literal go on, the first is the longest:
tokens and ways are the same thing, counted from the front and from what is left behind. -/
theorem find?_ways_token_iff {boundary token rest : Text} :
    (ways Shape.token (token ++ rest)).find? (goesOn (boundary.map .char)) = some rest ↔
      IsLongestToken (beginsWith sameFolded boundary) token rest := by
  rw [(longestFirst_ways_token _).find?_eq_some_iff, goesOn_literal]
  constructor
  · rintro ⟨hmem, hrest, hlongest⟩
    obtain ⟨s, hsplit, htoken⟩ := (mem_ways_iff isCaseless_token).mp hmem
    obtain rfl := List.append_cancel_right hsplit
    refine ⟨htoken, hrest, fun other behind heq hother hbehind => ?_⟩
    rw [length_le_iff_of_append_eq heq]
    exact hlongest behind ((mem_ways_iff isCaseless_token).mpr ⟨other, heq, hother⟩)
      ((goesOn_literal boundary behind).trans hbehind)
  · rintro ⟨htoken, hrest, hlongest⟩
    refine ⟨(mem_ways_iff isCaseless_token).mpr ⟨token, rfl, htoken⟩, hrest,
      fun behind hmem hbehind => ?_⟩
    obtain ⟨other, heq, hother⟩ := (mem_ways_iff isCaseless_token).mp hmem
    rw [← length_le_iff_of_append_eq heq]
    exact hlongest other behind heq hother ((goesOn_literal boundary behind).symm.trans hbehind)

/-- The search captures the leftmost token in front of a literal, and of those that begin there the
longest. That is what `IsFirstToken` says, put together in another way. -/
theorem capture?_token_eq_some_iff {boundary t gap token rest : Text} :
    capture? Shape.token (boundary.map .char) t = some (gap, token, rest) ↔
      t = gap ++ (token ++ rest)
      ∧ IsFirstToken (beginsWith sameFolded boundary) gap token rest := by
  rw [capture?_eq_some_iff isCaseless_token, find?_ways_token_iff]
  simp only [goesOn_literal]
  constructor
  · rintro ⟨rfl, hlongest, hleft⟩
    exact ⟨rfl, hlongest, hleft⟩
  · rintro ⟨rfl, hfirst⟩
    exact ⟨rfl, hfirst.toIsLongestToken, hfirst.gap_length_le⟩

theorem map_capture?_token (boundary t : Text) :
    (capture? Shape.token (boundary.map .char) t).map (·.2) =
      firstToken? (beginsWith sameFolded boundary) t := by
  refine Option.ext fun ⟨token, rest⟩ => ?_
  rw [firstToken?_eq_some_iff, Option.map_eq_some_iff]
  constructor
  · rintro ⟨⟨gap, _⟩, hcapture, rfl⟩
    exact ⟨gap, capture?_token_eq_some_iff.mp hcapture⟩
  · rintro ⟨gap, hfirst⟩
    exact ⟨(gap, token, rest), capture?_token_eq_some_iff.mpr hfirst, rfl⟩

theorem ways_anyOf (ps : List Pattern) (t : Text) :
    ways (anyOf ps) t = (ps.map (ways · t)).flatten := by
  fun_induction anyOf ps with
  | case1 => cases t <;> rfl
  | case2 p => simp
  | case3 p ps _ ih => rw [ways, ih, List.map_cons, List.flatten_cons]

theorem capture?_congr {group group' : Pattern} (h : ∀ t, ways group t = ways group' t)
    (behind : List Pattern) (t : Text) : capture? group behind t = capture? group' behind t := by
  have hhere : captureHere? group behind = captureHere? group' behind := funext fun t => by
    rw [captureHere?, captureHere?, groupWays, groupWays, h]
  rw [capture?, capture?, hhere]

theorem ways_anyOf_of_perm {ps : List Pattern} (h : ps.Perm Shape.alternatives) (t : Text) :
    ways (anyOf ps) t = ways Shape.token t := by
  rw [ways_anyOf, ways_token]
  exact ((exclusive_ways t).flatten_eq_of_perm (h.symm.map _)).symm

/-- **The search for a value is leftmost-longest.** What the pattern of tokens captures in front of
a literal begins at the first place where a token stands in front of that literal, and is the
longest of the tokens there that do; the search fails only where there is none. It is the search
that `firstToken?` runs, and no order of the alternatives makes it another one. -/
theorem capture?_token (boundary t : Text) :
    (∀ gap token rest, capture? Shape.token (boundary.map .char) t = some (gap, token, rest) ↔
        t = gap ++ (token ++ rest) ∧ IsFirstToken (beginsWith sameFolded boundary) gap token rest)
      ∧ (capture? Shape.token (boundary.map .char) t = none ↔
          ∀ gap token rest, t = gap ++ (token ++ rest) → Shape.token.Matches token →
            beginsWith sameFolded boundary rest = false)
      ∧ (capture? Shape.token (boundary.map .char) t).map (·.2) =
        firstToken? (beginsWith sameFolded boundary) t
      ∧ ∀ alternatives, alternatives.Perm Shape.alternatives →
          capture? (anyOf alternatives) (boundary.map .char) t =
            capture? Shape.token (boundary.map .char) t := by
  refine ⟨fun _ _ _ => capture?_token_eq_some_iff, ?_, map_capture?_token boundary t,
    fun alternatives hperm => ?_⟩
  · rw [capture?_eq_none_iff isCaseless_token]
    simp only [goesOn_literal]
  · exact capture?_congr (ways_anyOf_of_perm hperm) _ t

/-- With the alternatives the other way round, a map still runs on to the last place where the
literal is next. -/
theorem capture?_reversed_map :
    Shape.alternatives.reverse.Perm Shape.alternatives
      ∧ (capture? (anyOf Shape.alternatives.reverse) (" AND ".toList.map .char)
            "give {a} and {b} and 'c'".toList).map (·.2)
          = some ("{a} and {b}".toList, " and 'c'".toList) := by
  have hperm := Shape.alternatives.reverse_perm
  have hsearch := capture?_token " AND ".toList "give {a} and {b} and 'c'".toList
  refine ⟨hperm, ?_⟩
  rw [hsearch.2.2.2 _ hperm, hsearch.2.2.1]
  decide

end Pattern

end StepPhrase
