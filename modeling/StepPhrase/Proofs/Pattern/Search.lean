import StepPhrase.Pattern
import StepPhrase.Proofs.Text.Occurrence

/-!
# Searching for a pattern

Where a pattern matches a text in several ways, a search has to choose. `ways` lists the ways in
which a pattern can begin a text, in the order in which a search that goes back whenever it cannot
go on tries them: the first alternative before the second, one more repetition before no more.
`capture?` tries one place after another and takes the first way at the first place that has any.
Letters are compared by folding.

Ways are what is left behind a match, and not the match itself. So the ways of two patterns one
behind the other are those of the second behind each way of the first, and what a group has taken is
what the rest does not have. A pattern may have a way more than once; only the order counts.

* **`mem_ways_iff`** — a pattern that says nothing of letters begins a text in the ways in which it
  matches.
* **`firstPlace?_eq_some_iff`** — trying one place after another finds the first one that has
  anything.
* **`capture?_eq_some_iff`**, **`capture?_eq_none_iff`** — so a search finds the leftmost match of
  such a pattern, and the way that comes first there; it fails only where there is no match.
-/

namespace StepPhrase.Pattern

open Text

/-! ## Ways to match -/

/-- What is left of a text behind its first character, if that one is in a class. -/
def behindOne (inClass : Char → Bool) : Text → List Text
  | [] => []
  | c :: t => if inClass c then [t] else []

/-- What is left behind repetitions of a step, more of them first. A repetition that takes no
character is none. -/
def behindMany (step : Text → List Text) (t : Text) : List Text :=
  ((step t).flatMap fun rest => if rest.length < t.length then behindMany step rest else []) ++ [t]
termination_by t.length

/-- Whether a character is one of these, whatever its case. -/
def isAmong (members : List Char) (c : Char) : Bool := members.any (sameFolded · c)

/-- The ways in which a pattern can begin a text, in order of preference: what is left behind each
of them. -/
def ways : Pattern → Text → List Text
  | .char a, t => behindOne (sameFolded a) t
  | .oneOf members, t => behindOne (isAmong members) t
  | .anyBut members, t => behindOne (fun c => !isAmong members c) t
  | .digit, t => behindOne Unicode.isDecimalDigit t
  | .inLine, t => behindOne (· != '\n') t
  | .seq p q, t => (ways p t).flatMap (ways q)
  | .alt p q, t => ways p t ++ ways q t
  | .star p, t => behindMany (ways p) t
  | .plus p, t => (ways p t).flatMap (behindMany (ways p))
  | .opt p, t => ways p t ++ [t]

/-- The same for several patterns one after another. The ways of the first pattern come first, and
behind each of them those of the others. -/
def waysAll : List Pattern → Text → List Text
  | [], t => [t]
  | p :: ps, t => (ways p t).flatMap (waysAll ps)

/-- The ways to match a group and what has to stand behind it: what is left behind the group in each
of them. -/
def groupWays (group : Pattern) (behind : List Pattern) (t : Text) : List Text :=
  (ways group t).flatMap fun rest => (waysAll behind rest).map fun _ => rest

/-- The text of a group at the front of a text, and what is left behind it. It is the first way of
the group with which the patterns behind it can go on. -/
def captureHere? (group : Pattern) (behind : List Pattern) (t : Text) : Option (Text × Text) :=
  (groupWays group behind t).head?.map fun rest => (t.take (t.length - rest.length), rest)

/-- The first place of a text at which something is found: the text in front of it, and what is
found. -/
def firstPlace? {α : Type} (here? : Text → Option α) : Text → Option (Text × α)
  | [] => (here? []).map ([], ·)
  | c :: t =>
    ((here? (c :: t)).map ([], ·)).or
      ((firstPlace? here? t).map fun (gap, found) => (c :: gap, found))

/-- What a search captures: the text in front of the first match, the text of the group, and what is
left behind the group. -/
def capture? (group : Pattern) (behind : List Pattern) (t : Text) : Option (Text × Text × Text) :=
  firstPlace? (captureHere? group behind) t

/-- Some patterns can go on from here, in whatever way. They need not come to the end of the text.
-/
def goesOn (behind : List Pattern) (t : Text) : Bool := !(waysAll behind t).isEmpty

/-! ## Ways and matches

A match of a pattern knows nothing of order and nothing of case. Both are left out here: whether
there is a way with some rest, for a pattern whose characters fold to no others. -/

/-- The characters that a pattern names. -/
def characters : Pattern → List Char
  | .char a => [a]
  | .oneOf members | .anyBut members => members
  | .digit | .inLine => []
  | .seq p q | .alt p q => p.characters ++ q.characters
  | .star p | .plus p | .opt p => p.characters

/-- No character that the pattern names folds to the same as another one. Such a pattern matches the
same texts with and without regard to case. -/
def IsCaseless (p : Pattern) : Prop := ∀ a ∈ p.characters, ∀ c, sameFolded a c = true → a = c

theorem isAmong_iff {members : List Char}
    (h : ∀ a ∈ members, ∀ c, sameFolded a c = true → a = c) {c : Char} :
    isAmong members c = true ↔ c ∈ members := by
  rw [isAmong, List.any_eq_true]
  constructor
  · rintro ⟨a, ha, hsame⟩
    rwa [← h a ha c hsame]
  · exact fun hc => ⟨c, hc, sameFolded_refl c⟩

theorem mem_behindOne_iff {inClass : Char → Bool} {t rest : Text} :
    rest ∈ behindOne inClass t ↔ ∃ c, t = c :: rest ∧ inClass c = true := by
  cases t with
  | nil => simp [behindOne]
  | cons d t =>
    rw [behindOne]
    split
    · next hd =>
      simp only [List.mem_singleton, List.cons.injEq]
      exact ⟨fun h => ⟨d, ⟨rfl, h.symm⟩, hd⟩, fun ⟨_, ⟨_, h⟩, _⟩ => h.symm⟩
    · next hd =>
      refine iff_of_false List.not_mem_nil ?_
      rintro ⟨c, heq, hc⟩
      rw [(List.cons.inj heq).1] at hd
      exact hd hc

theorem mem_behindOne_iff_matches {p : Pattern} {inClass : Char → Bool}
    (hp : ∀ t, p.Matches t ↔ ∃ c, inClass c = true ∧ t = [c]) {t rest : Text} :
    rest ∈ behindOne inClass t ↔ ∃ s, t = s ++ rest ∧ p.Matches s := by
  rw [mem_behindOne_iff]
  constructor
  · rintro ⟨c, rfl, hc⟩
    exact ⟨[c], rfl, (hp [c]).mpr ⟨c, hc, rfl⟩⟩
  · rintro ⟨s, rfl, hs⟩
    obtain ⟨c, hc, rfl⟩ := (hp s).mp hs
    exact ⟨c, rfl, hc⟩

/-- A repetition that describes some characters begins with one that takes characters, for those
that take none can be left out. -/
theorem exists_ne_nil_of_matches_star {p : Pattern} {t : Text} (h : (star p).Matches t)
    (hne : t ≠ []) :
    ∃ s u, t = s ++ u ∧ s ≠ [] ∧ p.Matches s ∧ (star p).Matches u := by
  generalize hstar : star p = q at h
  induction h with
  | @starCons _ s u hs hu _ ih =>
    obtain rfl := Pattern.star.inj hstar
    -- a repetition that takes nothing is passed over
    by_cases hempty : s = []
    · rw [hempty, List.nil_append] at hne ⊢
      exact ih hne rfl
    · exact ⟨s, u, rfl, hempty, hs, hu⟩
  | starNil => exact absurd rfl hne
  | _ => cases hstar

theorem mem_behindMany_iff {p : Pattern} {step : Text → List Text}
    (hstep : ∀ t rest, rest ∈ step t ↔ ∃ s, t = s ++ rest ∧ p.Matches s) {t rest : Text} :
    rest ∈ behindMany step t ↔ ∃ s, t = s ++ rest ∧ (star p).Matches s := by
  -- on the length of the text, since a repetition goes on only where it has taken a character
  induction hn : t.length using Nat.strongRecOn generalizing t with
  | ind n ih =>
    rw [behindMany, List.mem_append, List.mem_flatMap, List.mem_singleton]
    constructor
    · rintro (⟨middle, hmiddle, hrest⟩ | rfl)
      · -- the step has taken something, or else this way is not followed
        split at hrest
        · next hlt =>
          obtain ⟨s, rfl, hs⟩ := (hstep t middle).mp hmiddle
          obtain ⟨u, rfl, hu⟩ := (ih _ (hn ▸ hlt) rfl).mp hrest
          exact ⟨s ++ u, (List.append_assoc ..).symm, .starCons hs hu⟩
        · cases hrest
      · exact ⟨[], rfl, .starNil⟩
    · rintro ⟨s, rfl, hs⟩
      by_cases hempty : s = []
      · rw [hempty]
        exact .inr rfl
      · -- repetitions that take nothing can be left out, so the first one makes the text shorter
        obtain ⟨front, back, rfl, hne, hfront, hback⟩ := exists_ne_nil_of_matches_star hs hempty
        have hlt : (back ++ rest).length < (front ++ back ++ rest).length := by
          have hpos := List.length_pos_iff.mpr hne
          simp only [List.length_append]
          omega
        refine .inl ⟨back ++ rest, (hstep _ _).mpr ⟨front, List.append_assoc .., hfront⟩, ?_⟩
        rw [if_pos hlt]
        exact (ih _ (hn ▸ hlt) rfl).mpr ⟨back, rfl, hback⟩

/-- **The ways are the matches.** By induction over the pattern: a single character is one way or
none, and repetitions take a shorter text each time, so that they come to an end. -/
theorem mem_ways_iff {p : Pattern} (hp : p.IsCaseless) {t rest : Text} :
    rest ∈ ways p t ↔ ∃ s, t = s ++ rest ∧ p.Matches s := by
  induction p generalizing t rest with
  | char a =>
    refine mem_behindOne_iff_matches fun t => ?_
    rw [matches_char_iff]
    constructor
    · rintro rfl
      exact ⟨a, sameFolded_refl a, rfl⟩
    · rintro ⟨c, hc, rfl⟩
      rw [hp a (List.mem_singleton_self a) c hc]
  -- a class in which case counts is the class in which it does not, for its characters have none
  | oneOf members =>
    refine mem_behindOne_iff_matches fun t => ?_
    simp only [matches_oneOf_iff, @isAmong_iff members hp]
  | anyBut members =>
    refine mem_behindOne_iff_matches fun t => ?_
    simp only [matches_anyBut_iff, Bool.not_eq_true', ← Bool.not_eq_true, @isAmong_iff members hp]
  | digit => exact mem_behindOne_iff_matches fun _ => matches_digit_iff
  | inLine => exact mem_behindOne_iff_matches fun t => by simp [matches_inLine_iff]
  -- the rest of the first is where the second begins
  | seq p q ihp ihq =>
    have hboth := List.forall_mem_append.mp hp
    rw [ways, List.mem_flatMap]
    constructor
    · rintro ⟨middle, hmiddle, hrest⟩
      obtain ⟨s, rfl, hs⟩ := (ihp hboth.1).mp hmiddle
      obtain ⟨u, rfl, hu⟩ := (ihq hboth.2).mp hrest
      exact ⟨s ++ u, (List.append_assoc ..).symm, .seq hs hu⟩
    · rintro ⟨_, rfl, hseq⟩
      obtain ⟨s, u, rfl, hs, hu⟩ := matches_seq_iff.mp hseq
      exact ⟨u ++ rest, (ihp hboth.1).mpr ⟨s, List.append_assoc .., hs⟩,
        (ihq hboth.2).mpr ⟨u, rfl, hu⟩⟩
  | alt p q ihp ihq =>
    have hboth := List.forall_mem_append.mp hp
    simp only [ways, List.mem_append, ihp hboth.1, ihq hboth.2, matches_alt_iff,
      and_or_left, exists_or]
  | star p ih => exact mem_behindMany_iff fun t rest => ih hp
  -- one repetition and any number of others behind it
  | plus p ih =>
    rw [ways, List.mem_flatMap]
    constructor
    · rintro ⟨middle, hmiddle, hrest⟩
      obtain ⟨s, rfl, hs⟩ := (ih hp).mp hmiddle
      obtain ⟨u, rfl, hu⟩ := (mem_behindMany_iff fun t rest => ih hp).mp hrest
      exact ⟨s ++ u, (List.append_assoc ..).symm, .plus hs hu⟩
    · rintro ⟨_, rfl, hplus⟩
      cases hplus with
      | @plus _ s u hs hu =>
        exact ⟨u ++ rest, (ih hp).mpr ⟨s, List.append_assoc .., hs⟩,
          (mem_behindMany_iff fun t rest => ih hp).mpr ⟨u, rfl, hu⟩⟩
  | opt p ih =>
    rw [ways, List.mem_append, List.mem_singleton, ih hp]
    constructor
    · rintro (⟨s, rfl, hs⟩ | rfl)
      · exact ⟨s, rfl, .optSome hs⟩
      · exact ⟨[], rfl, .optNil⟩
    · rintro ⟨s, rfl, hs⟩
      rcases matches_opt_iff.mp hs with rfl | hs
      · exact .inr rfl
      · exact .inl ⟨s, rfl, hs⟩

theorem waysAll_append (ps qs : List Pattern) (t : Text) :
    waysAll (ps ++ qs) t = (waysAll ps t).flatMap (waysAll qs) := by
  induction ps generalizing t with
  | nil => exact (List.flatMap_singleton ..).symm
  | cons p ps ih =>
    rw [List.cons_append, waysAll, waysAll, List.flatMap_assoc]
    exact congrArg (List.flatMap · _) (funext ih)

/-- A literal is matched in one way if it stands at the front, and else in none. -/
theorem waysAll_literal (literal t : Text) :
    waysAll (literal.map .char) t = (dropLiteral? sameFolded literal t).toList := by
  induction literal generalizing t with
  | nil => rfl
  | cons l literal ih =>
    rw [List.map_cons, waysAll, ways]
    cases t with
    | nil => rfl
    | cons c t =>
      rw [behindOne, dropLiteral?]
      split
      · rw [List.flatMap_singleton, ih]
      · rfl

theorem goesOn_literal (literal t : Text) :
    goesOn (literal.map .char) t = beginsWith sameFolded literal t := by
  rw [goesOn, waysAll_literal, beginsWith]
  cases dropLiteral? sameFolded literal t <;> rfl

/-! ## One place after another

Going through a text is the same whatever is looked for, so it is described once for any function
that finds something at the front of a text. -/

section FirstPlace

variable {α : Type} {here? : Text → Option α} {t gap : Text} {found : α}

theorem firstPlace?_eq_none_iff :
    firstPlace? here? t = none ↔ ∀ gap u, t = gap ++ u → here? u = none := by
  induction t with
  | nil =>
    rw [firstPlace?, Option.map_eq_none_iff]
    constructor
    · intro h gap u heq
      rwa [(List.append_eq_nil_iff.mp heq.symm).2]
    · exact fun h => h [] [] rfl
  | cons c t ih =>
    rw [firstPlace?, Option.or_eq_none_iff, Option.map_eq_none_iff, Option.map_eq_none_iff, ih]
    constructor
    · rintro ⟨hhere, hbehind⟩ gap u heq
      cases gap with
      | nil => rwa [← List.nil_append u, ← heq]
      | cons d gap => exact hbehind gap u (List.cons.inj heq).2
    · exact fun h => ⟨h [] (c :: t) rfl, fun gap u heq => h (c :: gap) u (congrArg _ heq)⟩

/-- What is found is found at its place, and nothing is found at any place in front of it. -/
theorem exists_of_firstPlace? (h : firstPlace? here? t = some (gap, found)) :
    ∃ u, t = gap ++ u ∧ here? u = some found
      ∧ ∀ before v, t = before ++ v → (here? v).isSome = true → gap.length ≤ before.length := by
  induction t generalizing gap with
  | nil =>
    obtain ⟨_, hhere, heq⟩ := Option.map_eq_some_iff.mp h
    obtain ⟨rfl, rfl⟩ := Prod.mk.inj heq
    exact ⟨[], rfl, hhere, fun _ _ _ _ => Nat.zero_le _⟩
  | cons c t ih =>
    rw [firstPlace?] at h
    rcases Option.or_eq_some_iff.mp h with h | ⟨hnone, h⟩
    · obtain ⟨_, hhere, heq⟩ := Option.map_eq_some_iff.mp h
      obtain ⟨rfl, rfl⟩ := Prod.mk.inj heq
      exact ⟨c :: t, rfl, hhere, fun _ _ _ _ => Nat.zero_le _⟩
    · obtain ⟨⟨gap, _⟩, hbehind, heq⟩ := Option.map_eq_some_iff.mp h
      obtain ⟨rfl, rfl⟩ := Prod.mk.inj heq
      obtain ⟨u, rfl, hhere, hleft⟩ := ih hbehind
      refine ⟨u, rfl, hhere, fun before v heq hv => ?_⟩
      cases before with
      | nil =>
        -- there is nothing at the very front
        rw [← List.nil_append v, ← heq, Option.map_eq_none_iff.mp hnone] at hv
        cases hv
      | cons d before => exact Nat.succ_le_succ (hleft before v (List.cons.inj heq).2 hv)

/-- **The first place that has anything is found.** There is only one such place, so whatever is
found at a place with nothing in front of it is what the search gives. -/
theorem firstPlace?_eq_some_iff :
    firstPlace? here? t = some (gap, found) ↔
      ∃ u, t = gap ++ u ∧ here? u = some found
        ∧ ∀ before v, t = before ++ v → (here? v).isSome = true → gap.length ≤ before.length := by
  refine ⟨exists_of_firstPlace?, ?_⟩
  rintro ⟨u, rfl, hhere, hleft⟩
  cases hfirst : firstPlace? here? (gap ++ u) with
  | none =>
    rw [firstPlace?_eq_none_iff.mp hfirst gap u rfl] at hhere
    cases hhere
  | some place =>
    obtain ⟨u', heq, hhere', hleft'⟩ := exists_of_firstPlace? hfirst
    -- neither place is in front of the other
    have hle := hleft place.1 u' heq (Option.isSome_of_eq_some hhere')
    have hge := hleft' gap u rfl (Option.isSome_of_eq_some hhere)
    obtain ⟨hgap, rfl⟩ := List.append_inj heq (Nat.le_antisymm hle hge)
    rw [hgap, Option.some.inj (hhere.symm.trans hhere')]

end FirstPlace

/-! ## Searching

What has to stand behind a group takes no part in what the group captures. It only decides which of
the ways of the group can go on, and the first of these is taken. -/

section Search

variable {group : Pattern} {behind : List Pattern} {t gap found rest : Text}

theorem head?_groupWays (group : Pattern) (behind : List Pattern) (t : Text) :
    (groupWays group behind t).head? = (ways group t).find? (goesOn behind) := by
  rw [groupWays]
  induction ways group t with
  | nil => rfl
  | cons rest others ih =>
    rw [List.flatMap_cons, List.find?_cons, goesOn]
    cases waysAll behind rest with
    | nil => exact ih
    | cons last lasts => rfl

theorem captureHere?_eq_some_iff (hgroup : group.IsCaseless) :
    captureHere? group behind t = some (found, rest) ↔
      t = found ++ rest ∧ (ways group t).find? (goesOn behind) = some rest := by
  rw [captureHere?, Option.map_eq_some_iff, head?_groupWays]
  constructor
  · rintro ⟨rest', hfind, hpair⟩
    obtain ⟨rfl, rfl⟩ := Prod.mk.inj hpair
    obtain ⟨found, rfl, -⟩ := (mem_ways_iff hgroup).mp (List.mem_of_find?_eq_some hfind)
    refine ⟨?_, hfind⟩
    rw [List.length_append, Nat.add_sub_cancel, List.take_left]
  · rintro ⟨rfl, hfind⟩
    refine ⟨rest, hfind, ?_⟩
    rw [List.length_append, Nat.add_sub_cancel, List.take_left]

theorem isSome_captureHere?_iff (hgroup : group.IsCaseless) :
    (captureHere? group behind t).isSome = true ↔
      ∃ found rest, t = found ++ rest ∧ group.Matches found ∧ goesOn behind rest = true := by
  rw [captureHere?, Option.isSome_map, head?_groupWays, List.find?_isSome]
  constructor
  · rintro ⟨rest, hrest, hgoes⟩
    obtain ⟨found, heq, hfound⟩ := (mem_ways_iff hgroup).mp hrest
    exact ⟨found, rest, heq, hfound, hgoes⟩
  · rintro ⟨found, rest, heq, hfound, hgoes⟩
    exact ⟨rest, (mem_ways_iff hgroup).mpr ⟨found, heq, hfound⟩, hgoes⟩

/-- **A search fails only where there is no match** with something behind it that can go on. No way
is given up that would have led to one. -/
theorem capture?_eq_none_iff (hgroup : group.IsCaseless) :
    capture? group behind t = none ↔
      ∀ gap found rest, t = gap ++ (found ++ rest) → group.Matches found →
        goesOn behind rest = false := by
  rw [capture?, firstPlace?_eq_none_iff]
  simp only [← Option.not_isSome_iff_eq_none, isSome_captureHere?_iff hgroup, ← Bool.not_eq_true]
  constructor
  · exact fun h gap found rest heq hfound hgoes =>
      h gap (found ++ rest) heq ⟨found, rest, rfl, hfound, hgoes⟩
  · rintro h gap u heq ⟨found, rest, rfl, hfound, hgoes⟩
    exact h gap found rest heq hfound hgoes

/-- **A search finds the leftmost match**, and of those at the same place the one that comes first
among the ways. -/
theorem capture?_eq_some_iff (hgroup : group.IsCaseless) :
    capture? group behind t = some (gap, found, rest) ↔
      t = gap ++ (found ++ rest) ∧ (ways group (found ++ rest)).find? (goesOn behind) = some rest
        ∧ ∀ before other after, t = before ++ (other ++ after) → group.Matches other →
          goesOn behind after = true → gap.length ≤ before.length := by
  simp only [capture?, firstPlace?_eq_some_iff, captureHere?_eq_some_iff hgroup,
    isSome_captureHere?_iff hgroup]
  constructor
  · rintro ⟨u, rfl, ⟨rfl, hfind⟩, hleft⟩
    exact ⟨rfl, hfind, fun before other after heq hother hgoes =>
      hleft before (other ++ after) heq ⟨other, after, rfl, hother, hgoes⟩⟩
  · rintro ⟨rfl, hfind, hleft⟩
    refine ⟨found ++ rest, rfl, ⟨rfl, hfind⟩, ?_⟩
    rintro before v heq ⟨other, after, rfl, hother, hgoes⟩
    exact hleft before other after heq hother hgoes

/-- The way that comes first need not be the longest. -/
example : capture? (.alt (.char 'a') (word 'a' ['b'])) [] "ab".toList =
    some ([], ['a'], ['b']) := by decide

end Search

end StepPhrase.Pattern
