import StepPhrase.Argument.Search
import StepPhrase.Proofs.Argument.Tokens

/-!
# The token that a search finds

`firstToken?` takes the leftmost token that what follows allows, and of those that begin there the
longest. Both halves are stated without the machine, in terms of `Shape.token` and the ways to
divide a text:

The search itself is a race of the machine from all places at once. It is taken apart in two steps:
from one place the machine remembers the last point where it could have ended (`Scan.longest`), and
from the next place on it is only asked if that has led to nothing (`firstToken?_cons`).

* **`IsLongestToken`** — a token at the front of a text that no longer one beats;
  `longestToken?_eq_some_iff` says that `longestToken?` finds it.
* **`IsFirstToken`** — such a token at the first place that has one; `firstToken?_eq_some_iff` says
  that `firstToken?` finds it, and `isSome_firstToken?_iff` that it finds one if there is any.
-/

namespace StepPhrase

/-- `token` is the longest token at the front of a text among those behind which the rest is as
`follows` demands, and `rest` is that rest. -/
structure IsLongestToken (follows : Text → Bool) (token rest : Text) : Prop where
  isToken : Shape.token.Matches token
  follows_rest : follows rest = true
  length_le : ∀ other behind, token ++ rest = other ++ behind → Shape.token.Matches other →
    follows behind = true → other.length ≤ token.length

/-- `token` is the longest token behind `gap`, and no token begins before that. Both parts of the
choice go by what may follow a token: a longer one or an earlier one with something else behind it
does not count. -/
structure IsFirstToken (follows : Text → Bool) (gap token rest : Text) : Prop
    extends IsLongestToken follows token rest where
  gap_length_le : ∀ before other behind, gap ++ (token ++ rest) = before ++ (other ++ behind) →
    Shape.token.Matches other → follows behind = true → gap.length ≤ before.length

theorem length_le_iff_of_append_eq {front back front' back' : Text}
    (h : front ++ back = front' ++ back') :
    front'.length ≤ front.length ↔ back.length ≤ back'.length := by
  have hlengths := congrArg List.length h
  rw [List.length_append, List.length_append] at hlengths
  omega

namespace Scan

/-- A token that has come to `state` may be completed by `t`, with `rest` to follow. From the first
state this says that `t` is a token in front of `rest`. -/
def EndsBehind (follows : Text → Bool) (state : Scan) (t rest : Text) : Prop :=
  state.Accepts t ∧ follows rest = true

theorem endsBehind_nil_iff {follows : Text → Bool} {state : Scan} {rest : Text} :
    EndsBehind follows state [] rest ↔ (state.isEnd && follows rest) = true := by
  rw [EndsBehind, accepts_nil_iff, Bool.and_eq_true]

theorem endsBehind_cons_iff {follows : Text → Bool} {state : Scan} {c : Char} {t rest : Text} :
    EndsBehind follows state (c :: t) rest ↔
      ∃ next, state.step c = some next ∧ EndsBehind follows next t rest := by
  simp only [EndsBehind, accepts_cons_iff, ← and_assoc, exists_and_right]

theorem endsBehind_start_iff {follows : Text → Bool} {t rest : Text} :
    EndsBehind follows .start t rest ↔ Shape.token.Matches t ∧ follows rest = true := by
  rw [EndsBehind, Shape.token_matches_iff]

theorem longest_cons (follows : Text → Bool) (state : Scan) (taken : Text) (c : Char) (t : Text) :
    longest follows state taken none (c :: t) =
      ((state.step c).bind fun next => longest follows next (c :: taken) none t).or
        (if state.isEnd && follows (c :: t) then some (taken, c :: t) else none) := by
  rw [longest]
  cases state.step c with
  | none => simp
  | some next =>
    simp only [Option.bind_some]
    rw [longest_eq_or]

/-- What the machine finds may end there, by induction on the text that is still to be read. In
`taken` is what was read before, the last character first. -/
theorem endsBehind_of_longest {follows : Text → Bool} {state : Scan} {taken u rest t : Text}
    (h : longest follows state taken none t = some (u, rest)) :
    ∃ v, u = v.reverse ++ taken ∧ t = v ++ rest ∧ EndsBehind follows state v rest := by
  induction t generalizing state taken with
  | nil =>
    rw [longest] at h
    split at h
    · next hend =>
      cases h
      exact ⟨[], rfl, rfl, endsBehind_nil_iff.mpr hend⟩
    · cases h
  | cons c t ih =>
    rw [longest_cons] at h
    rcases Option.or_eq_some_iff.mp h with h | ⟨-, h⟩
    · obtain ⟨next, hstep, hlongest⟩ := Option.bind_eq_some_iff.mp h
      obtain ⟨v, rfl, rfl, hv⟩ := ih hlongest
      refine ⟨c :: v, ?_, rfl, endsBehind_cons_iff.mpr ⟨next, hstep, hv⟩⟩
      rw [List.reverse_cons, List.append_assoc, List.singleton_append]
    · split at h
      · next hend =>
        cases h
        exact ⟨[], rfl, rfl, endsBehind_nil_iff.mpr hend⟩
      · cases h

/-- Wherever a token may end, the machine finds one that ends there or further on: it forgets an end
only for another one behind it. The induction is on the token that is known. -/
theorem exists_longest_of_endsBehind {follows : Text → Bool} {state : Scan} {v rest : Text}
    (taken : Text) (h : EndsBehind follows state v rest) :
    ∃ u behind, longest follows state taken none (v ++ rest) = some (u, behind)
      ∧ behind.length ≤ rest.length := by
  induction v generalizing state taken with
  | nil =>
    -- the known token ends right here; the machine takes that end unless it comes to a later one
    have hend := endsBehind_nil_iff.mp h
    cases rest with
    | nil => exact ⟨taken, [], by simp [longest, hend], Nat.le_refl _⟩
    | cons c rest =>
      rw [List.nil_append, longest_cons, if_pos hend]
      cases hgoes : (state.step c).bind fun next => longest follows next (c :: taken) none rest with
      | none => exact ⟨taken, c :: rest, rfl, Nat.le_refl _⟩
      | some found =>
        obtain ⟨next, -, hlongest⟩ := Option.bind_eq_some_iff.mp hgoes
        obtain ⟨w, -, hsplit, -⟩ := endsBehind_of_longest hlongest
        have hlength := congrArg List.length hsplit
        rw [List.length_append] at hlength
        exact ⟨found.1, found.2, rfl, by rw [List.length_cons]; omega⟩
  | cons c v ih =>
    obtain ⟨next, hstep, hv⟩ := endsBehind_cons_iff.mp h
    obtain ⟨u, behind, hlongest, hlength⟩ := ih (c :: taken) hv
    refine ⟨u, behind, ?_, hlength⟩
    rw [List.cons_append, longest_cons, hstep, Option.bind_some, hlongest, Option.some_or]

end Scan

/-! ## The longest token

From the front of a text the machine goes on as long as it can and keeps the last end that it
passed. What follows counts: an end does not, if the rest is not as it is demanded. -/

theorem exists_longestToken? {follows : Text → Bool} {token rest : Text}
    (htoken : Shape.token.Matches token) (hrest : follows rest = true) :
    ∃ found behind, longestToken? follows (token ++ rest) = some (found, behind)
      ∧ token.length ≤ found.length := by
  obtain ⟨u, behind, hlongest, hlength⟩ :=
    Scan.exists_longest_of_endsBehind [] (Scan.endsBehind_start_iff.mpr ⟨htoken, hrest⟩)
  obtain ⟨v, rfl, hsplit, -⟩ := Scan.endsBehind_of_longest hlongest
  have hlengths := congrArg List.length hsplit
  rw [List.length_append, List.length_append] at hlengths
  refine ⟨v, behind, by simp [longestToken?, hlongest], by omega⟩

theorem isToken_of_longestToken? {follows : Text → Bool} {t token rest : Text}
    (h : longestToken? follows t = some (token, rest)) :
    t = token ++ rest ∧ Shape.token.Matches token ∧ follows rest = true := by
  obtain ⟨⟨u, behind⟩, hlongest, hpair⟩ := Option.map_eq_some_iff.mp h
  obtain ⟨v, rfl, hsplit, hends⟩ := Scan.endsBehind_of_longest hlongest
  obtain ⟨rfl, rfl⟩ := Prod.mk.inj hpair
  rw [List.append_nil, List.reverse_reverse]
  exact ⟨hsplit, Scan.endsBehind_start_iff.mp hends⟩

theorem longestToken?_eq_some_iff {follows : Text → Bool} {t token rest : Text} :
    longestToken? follows t = some (token, rest) ↔
      t = token ++ rest ∧ IsLongestToken follows token rest := by
  constructor
  · intro h
    obtain ⟨rfl, htoken, hrest⟩ := isToken_of_longestToken? h
    refine ⟨rfl, htoken, hrest, fun other behind heq hother hbehind => ?_⟩
    obtain ⟨found, after, hfound, hle⟩ := exists_longestToken? hother hbehind
    rw [← heq, h] at hfound
    obtain ⟨rfl, rfl⟩ := Prod.mk.inj (Option.some.inj hfound)
    exact hle
  · rintro ⟨rfl, htoken, hrest, hlongest⟩
    obtain ⟨found, after, hfound, hle⟩ := exists_longestToken? htoken hrest
    obtain ⟨hsplit, hfoundToken, hafter⟩ := isToken_of_longestToken? hfound
    have hge := hlongest found after hsplit hfoundToken hafter
    -- neither of the two is shorter than the other, so they are the same front part
    obtain ⟨rfl, rfl⟩ := List.append_inj hsplit (by omega)
    exact hfound

theorem longestToken?_eq_none_iff {follows : Text → Bool} {t : Text} :
    longestToken? follows t = none ↔
      ∀ token rest, t = token ++ rest → Shape.token.Matches token → follows rest = false := by
  constructor
  · rintro h token rest rfl htoken
    cases hrest : follows rest with
    | false => rfl
    | true =>
      obtain ⟨found, after, hfound, -⟩ := exists_longestToken? htoken hrest
      rw [h] at hfound
      cases hfound
  · intro h
    cases hfound : longestToken? follows t with
    | none => rfl
    | some found =>
      obtain ⟨hsplit, htoken, hrest⟩ := isToken_of_longestToken? hfound
      rw [h found.1 found.2 hsplit htoken] at hrest
      cases hrest

/-- A token that the machine can go on from in no way that comes to an end is the longest one. A
longer one would begin with it, and the machine would have to go on from the same state. -/
theorem isLongestToken_of_run {follows : Text → Bool} {state : Scan} {token rest : Text}
    (hrun : Scan.run .start token = some state) (hend : state.isEnd = true)
    (hrest : follows rest = true)
    (hstops : ∀ more behind, rest = more ++ behind → more ≠ [] → ¬state.Accepts more) :
    IsLongestToken follows token rest := by
  refine ⟨Shape.token_matches_iff.mpr ⟨state, hrun, hend⟩, hrest,
    fun other behind heq hother _ => ?_⟩
  rw [← Nat.not_lt]
  intro hlonger
  -- a longer token begins with this one, as both are front parts of one text
  obtain ⟨more, rfl⟩ := List.prefix_of_prefix_length_le (List.prefix_append _ rest)
    (heq ▸ List.prefix_append other behind) (Nat.le_of_lt hlonger)
  obtain ⟨last, hlast, hlastEnd⟩ := Shape.token_matches_iff.mp hother
  rw [Scan.run_append, hrun, Option.bind_some] at hlast
  rw [List.append_assoc] at heq
  refine hstops more behind (List.append_cancel_left heq) ?_ ⟨last, hlast, hlastEnd⟩
  rintro rfl
  simp at hlonger

/-! ## The first token

One character at a time, a token is looked for at the front and then behind the first character.
What is found is the only candidate, since of two tokens as described neither can begin or end
before the other. -/

/-- A token of a text is at its front or belongs to what is behind the first character, which is how
the search goes through a text. -/
theorem exists_token_cons_iff {follows : Text → Bool} {c : Char} {t : Text} :
    (∃ gap token rest, c :: t = gap ++ (token ++ rest) ∧ Shape.token.Matches token
        ∧ follows rest = true) ↔
      (∃ token rest, c :: t = token ++ rest ∧ Shape.token.Matches token ∧ follows rest = true)
        ∨ ∃ gap token rest, t = gap ++ (token ++ rest) ∧ Shape.token.Matches token
            ∧ follows rest = true := by
  constructor
  · rintro ⟨gap, token, rest, heq, h⟩
    cases gap with
    | nil => exact Or.inl ⟨token, rest, heq, h⟩
    | cons d gap => exact Or.inr ⟨gap, token, rest, (List.cons.inj heq).2, h⟩
  · rintro (⟨token, rest, heq, h⟩ | ⟨gap, token, rest, rfl, h⟩)
    · exact ⟨[], token, rest, heq, h⟩
    · exact ⟨c :: gap, token, rest, rfl, h⟩

/-- The search succeeds exactly on the texts that hold a token with the right rest, by induction on
the text: a token is at the front, or it belongs to what is behind the first character. -/
theorem isSome_firstToken?_iff {follows : Text → Bool} {t : Text} :
    (firstToken? follows t).isSome = true ↔
      ∃ gap token rest, t = gap ++ (token ++ rest) ∧ Shape.token.Matches token
        ∧ follows rest = true := by
  induction t with
  | nil =>
    refine iff_of_false (by simp) ?_
    rintro ⟨gap, token, rest, heq, htoken, -⟩
    obtain ⟨-, htail⟩ := List.append_eq_nil_iff.mp heq.symm
    exact Shape.ne_nil_of_token_matches htoken (List.append_eq_nil_iff.mp htail).1
  | cons c t ih =>
    rw [firstToken?_cons, Option.isSome_or, Bool.or_eq_true, ih, exists_token_cons_iff]
    refine or_congr ?_ Iff.rfl
    constructor
    · intro h
      obtain ⟨⟨token, rest⟩, hfound⟩ := Option.isSome_iff_exists.mp h
      exact ⟨token, rest, isToken_of_longestToken? hfound⟩
    · rintro ⟨token, rest, heq, htoken, hrest⟩
      obtain ⟨found, behind, hfound, -⟩ := exists_longestToken? htoken hrest
      rw [heq, hfound]
      rfl

/-- What the search finds is the first token of the text, and it stands behind some gap, which grows
with each character that no token begins at. -/
theorem isFirstToken_of_firstToken? {follows : Text → Bool} {t token rest : Text}
    (h : firstToken? follows t = some (token, rest)) :
    ∃ gap, t = gap ++ (token ++ rest) ∧ IsFirstToken follows gap token rest := by
  induction t with
  | nil => cases h
  | cons c t ih =>
    rw [firstToken?_cons] at h
    rcases Option.or_eq_some_iff.mp h with h | ⟨hnone, h⟩
    · obtain ⟨heq, hlongest⟩ := longestToken?_eq_some_iff.mp h
      refine ⟨[], heq, hlongest, fun _ _ _ _ _ _ => Nat.zero_le _⟩
    · obtain ⟨gap, rfl, hfirst⟩ := ih h
      refine ⟨c :: gap, rfl, hfirst.toIsLongestToken,
        fun before other behind heq hother hbehind => ?_⟩
      cases before with
      | nil =>
        -- a token at the very front is what `hnone` excludes
        have hfollows := longestToken?_eq_none_iff.mp hnone other behind heq hother
        rw [hfollows] at hbehind
        cases hbehind
      | cons d before =>
        have hle := hfirst.gap_length_le before other behind (List.cons.inj heq).2 hother hbehind
        exact Nat.succ_le_succ hle

/-- **The search is leftmost-longest.** It finds a token exactly when that is the first one: there
can be only one, and the search finds one if there is any. -/
theorem firstToken?_eq_some_iff {follows : Text → Bool} {t token rest : Text} :
    firstToken? follows t = some (token, rest) ↔
      ∃ gap, t = gap ++ (token ++ rest) ∧ IsFirstToken follows gap token rest := by
  refine ⟨isFirstToken_of_firstToken?, ?_⟩
  rintro ⟨gap, rfl, hfirst⟩
  have hsome : (firstToken? follows (gap ++ (token ++ rest))).isSome = true :=
    isSome_firstToken?_iff.mpr ⟨gap, token, rest, rfl, hfirst.isToken, hfirst.follows_rest⟩
  obtain ⟨⟨found, behind⟩, hfound⟩ := Option.isSome_iff_exists.mp hsome
  obtain ⟨before, heq, hother⟩ := isFirstToken_of_firstToken? hfound
  -- both begin at the first place, and both are the longest there
  have hle := hfirst.gap_length_le before found behind heq hother.isToken hother.follows_rest
  have hge := hother.gap_length_le gap token rest heq.symm hfirst.isToken hfirst.follows_rest
  obtain ⟨rfl, hsplit⟩ := List.append_inj heq (Nat.le_antisymm hle hge)
  have hle := hfirst.length_le found behind hsplit hother.isToken hother.follows_rest
  have hge := hother.length_le token rest hsplit.symm hfirst.isToken hfirst.follows_rest
  obtain ⟨rfl, rfl⟩ := List.append_inj hsplit (Nat.le_antisymm hge hle)
  exact hfound

theorem firstToken?_of_token_matches {follows : Text → Bool} {t : Text}
    (htoken : Shape.token.Matches t)
    (hnil : follows [] = true) : firstToken? follows t = some (t, []) := by
  refine firstToken?_eq_some_iff.mpr
    ⟨[], by simp, ⟨htoken, hnil, fun other behind heq _ _ => ?_⟩, ?_⟩
  · rw [List.append_nil] at heq
    rw [heq, List.length_append]
    exact Nat.le_add_right _ _
  · exact fun _ _ _ _ _ _ => Nat.zero_le _

end StepPhrase
