import StepPhrase.Text
import StepPhrase.Unicode.DecimalDigit

/-!
# Patterns

Regular expressions over texts. `Pattern.Matches` says which texts a pattern describes as a whole
and `Pattern.source` writes the pattern in the usual notation, for readers who want to know what an
argument may look like or which words count as keywords. Nothing here runs a pattern: the scanners
that decide membership stand with the languages they decide.
-/

namespace StepPhrase

/-- A regular expression. -/
inductive Pattern where
  /-- This character. -/
  | char (c : Char)
  /-- One of these characters. -/
  | oneOf (members : List Char)
  /-- Any character but these. -/
  | anyBut (members : List Char)
  /-- A decimal digit of any script. -/
  | digit
  /-- Any character that does not end the line. -/
  | inLine
  /-- One pattern, then the other. -/
  | seq (first second : Pattern)
  /-- One pattern or the other. -/
  | alt (first second : Pattern)
  /-- Any number of repetitions. -/
  | star (body : Pattern)
  /-- At least one repetition. -/
  | plus (body : Pattern)
  /-- The pattern or nothing. -/
  | opt (body : Pattern)
  deriving DecidableEq, Repr

namespace Pattern

/-- The texts that a pattern describes, from their first character to their last. -/
inductive Matches : Pattern → Text → Prop where
  | char (c : Char) : Matches (.char c) [c]
  | oneOf {members : List Char} {c : Char} (h : c ∈ members) : Matches (.oneOf members) [c]
  | anyBut {members : List Char} {c : Char} (h : c ∉ members) : Matches (.anyBut members) [c]
  | digit {c : Char} (h : Unicode.isDecimalDigit c = true) : Matches .digit [c]
  | inLine {c : Char} (h : c ≠ '\n') : Matches .inLine [c]
  | seq {p q : Pattern} {s t : Text} (hp : Matches p s) (hq : Matches q t) :
      Matches (.seq p q) (s ++ t)
  | altLeft {p q : Pattern} {t : Text} (h : Matches p t) : Matches (.alt p q) t
  | altRight {p q : Pattern} {t : Text} (h : Matches q t) : Matches (.alt p q) t
  | starNil {p : Pattern} : Matches (.star p) []
  | starCons {p : Pattern} {s t : Text} (h : Matches p s) (hs : Matches (.star p) t) :
      Matches (.star p) (s ++ t)
  | plus {p : Pattern} {s t : Text} (h : Matches p s) (hs : Matches (.star p) t) :
      Matches (.plus p) (s ++ t)
  | optNil {p : Pattern} : Matches (.opt p) []
  | optSome {p : Pattern} {t : Text} (h : Matches p t) : Matches (.opt p) t

/-- The pattern of a word: its characters one after another. -/
def word (c : Char) (rest : Text) : Pattern :=
  match rest with
  | [] => .char c
  | d :: more => .seq (.char c) (word d more)

/-! ### Notation -/

/-- The characters that mean something else when they stand unescaped in a pattern. -/
def metacharacters : List Char := "\\.+*?()|[]\x7b\x7d^$#&-~".toList

/-- A text written so that every character stands for itself, with a backslash before each one that
would mean something else. -/
def escape (t : Text) : Text :=
  t.flatMap fun c => if c ∈ metacharacters then ['\\', c] else [c]

/-- Members of a bracketed class; only the backslash is escaped there. -/
def escapeMembers (members : List Char) : Text :=
  members.flatMap fun c => if c = '\\' then ['\\', '\\'] else [c]

/-- Whether a repetition sign may follow the written form directly. -/
def isSingle : Pattern → Bool
  | .char _ | .oneOf _ | .anyBut _ | .digit | .inLine => true
  | _ => false

/-- Whether the written form binds weaker than what may stand beside it in a sequence. -/
def isAlternation : Pattern → Bool
  | .alt _ _ => true
  | _ => false

/-- A written form as a group that captures nothing. -/
def group (t : Text) : Text := "(?:".toList ++ t ++ ")".toList

/-- The written form, grouped if it has to be. -/
def groupIf (needed : Bool) (t : Text) : Text := if needed then group t else t

/-- The pattern in the usual notation, with as few groups as it allows. An alternative is grouped
within a sequence, and whatever is repeated is grouped unless it is a single sign. -/
def source : Pattern → Text
  | .char c => escape [c]
  | .oneOf members => "[".toList ++ escapeMembers members ++ "]".toList
  | .anyBut members => "[^".toList ++ escapeMembers members ++ "]".toList
  | .digit => "\\d".toList
  | .inLine => ".".toList
  | .seq p q => groupIf p.isAlternation p.source ++ groupIf q.isAlternation q.source
  | .alt p q => p.source ++ "|".toList ++ q.source
  | .star p => groupIf (!p.isSingle) p.source ++ "*".toList
  | .plus p => groupIf (!p.isSingle) p.source ++ "+".toList
  | .opt p => groupIf (!p.isSingle) p.source ++ "?".toList

/-- Patterns in a row as they are written. -/
def writeAll (ps : List Pattern) : Text := ps.flatMap fun p => groupIf p.isAlternation p.source

/-- A choice between texts as it is written: their characters stand for themselves. -/
def writeChoice (texts : List Text) : Text := Text.join ['|'] (texts.map escape)

/-! ### Which texts match

Every pattern is taken apart once, so that later proofs speak of texts and not of derivations. Of
the repetitions only those of single characters are needed: `matches_star_iff` and
`matches_plus_iff` say that they describe the texts all of whose characters are in the class. -/

@[simp] theorem matches_char_iff {c : Char} {t : Text} : Matches (.char c) t ↔ t = [c] :=
  ⟨fun h => by cases h; rfl, fun h => h ▸ .char c⟩

theorem matches_oneOf_iff {members : List Char} {t : Text} :
    Matches (.oneOf members) t ↔ ∃ c ∈ members, t = [c] :=
  ⟨fun h => by cases h with | oneOf h => exact ⟨_, h, rfl⟩, fun ⟨_, h, ht⟩ => ht ▸ .oneOf h⟩

theorem matches_anyBut_iff {members : List Char} {t : Text} :
    Matches (.anyBut members) t ↔ ∃ c, c ∉ members ∧ t = [c] :=
  ⟨fun h => by cases h with | anyBut h => exact ⟨_, h, rfl⟩, fun ⟨_, h, ht⟩ => ht ▸ .anyBut h⟩

theorem matches_digit_iff {t : Text} :
    Matches .digit t ↔ ∃ c, Unicode.isDecimalDigit c = true ∧ t = [c] :=
  ⟨fun h => by cases h with | digit h => exact ⟨_, h, rfl⟩, fun ⟨_, h, ht⟩ => ht ▸ .digit h⟩

theorem matches_inLine_iff {t : Text} : Matches .inLine t ↔ ∃ c, c ≠ '\n' ∧ t = [c] :=
  ⟨fun h => by cases h with | inLine h => exact ⟨_, h, rfl⟩, fun ⟨_, h, ht⟩ => ht ▸ .inLine h⟩

theorem matches_seq_iff {p q : Pattern} {t : Text} :
    Matches (.seq p q) t ↔ ∃ s u, t = s ++ u ∧ Matches p s ∧ Matches q u := by
  constructor
  · intro h
    cases h with
    | seq hp hq => exact ⟨_, _, rfl, hp, hq⟩
  · rintro ⟨s, u, rfl, hp, hq⟩
    exact .seq hp hq

@[simp] theorem matches_alt_iff {p q : Pattern} {t : Text} :
    Matches (.alt p q) t ↔ Matches p t ∨ Matches q t := by
  constructor
  · intro h
    cases h with
    | altLeft h => exact Or.inl h
    | altRight h => exact Or.inr h
  · rintro (h | h)
    · exact .altLeft h
    · exact .altRight h

@[simp] theorem matches_opt_iff {p : Pattern} {t : Text} :
    Matches (.opt p) t ↔ t = [] ∨ Matches p t := by
  constructor
  · intro h
    cases h with
    | optNil => exact Or.inl rfl
    | optSome h => exact Or.inr h
  · rintro (rfl | h)
    · exact .optNil
    · exact .optSome h

/-- A character followed by what `p` describes. -/
theorem matches_char_seq_iff {c : Char} {p : Pattern} {t : Text} :
    Matches (.seq (.char c) p) t ↔ ∃ u, t = c :: u ∧ Matches p u := by
  rw [matches_seq_iff]
  constructor
  · rintro ⟨s, u, rfl, hs, hu⟩
    rw [matches_char_iff] at hs
    exact ⟨u, by rw [hs]; rfl, hu⟩
  · rintro ⟨u, rfl, hu⟩
    exact ⟨[c], u, rfl, .char c, hu⟩

/-- What `p` describes followed by a character. -/
theorem matches_seq_char_iff {c : Char} {p : Pattern} {t : Text} :
    Matches (.seq p (.char c)) t ↔ ∃ s, t = s ++ [c] ∧ Matches p s := by
  rw [matches_seq_iff]
  constructor
  · rintro ⟨s, u, rfl, hs, hu⟩
    rw [matches_char_iff] at hu
    exact ⟨s, by rw [hu], hs⟩
  · rintro ⟨s, rfl, hs⟩
    exact ⟨s, [c], rfl, hs, .char c⟩

/-- Repetitions come one at a time. -/
theorem matches_star_iff_nil_or {p : Pattern} {t : Text} :
    Matches (.star p) t ↔ t = [] ∨ ∃ s u, t = s ++ u ∧ Matches p s ∧ Matches (.star p) u := by
  constructor
  · intro h
    cases h with
    | starNil => exact Or.inl rfl
    | starCons h hs => exact Or.inr ⟨_, _, rfl, h, hs⟩
  · rintro (rfl | ⟨s, u, rfl, h, hs⟩)
    · exact .starNil
    · exact .starCons h hs

/-- A repeated class describes the texts that stay in the class. -/
theorem matches_star_iff {p : Pattern} {inClass : Char → Prop}
    (hp : ∀ t, Matches p t ↔ ∃ c, inClass c ∧ t = [c]) {t : Text} :
    Matches (.star p) t ↔ ∀ c ∈ t, inClass c := by
  induction t with
  | nil => simpa using Matches.starNil
  | cons c t ih =>
    rw [matches_star_iff_nil_or, List.forall_mem_cons, ← ih]
    constructor
    · rintro (h | ⟨s, u, heq, hs, hu⟩)
      · exact absurd h (List.cons_ne_nil c t)
      · obtain ⟨d, hd, rfl⟩ := (hp s).mp hs
        obtain ⟨rfl, rfl⟩ := List.cons.inj heq
        exact ⟨hd, hu⟩
    · rintro ⟨hc, ht⟩
      exact Or.inr ⟨[c], t, rfl, (hp [c]).mpr ⟨c, hc, rfl⟩, ht⟩

/-- A class repeated at least once describes the same texts but the empty one. -/
theorem matches_plus_iff {p : Pattern} {inClass : Char → Prop}
    (hp : ∀ t, Matches p t ↔ ∃ c, inClass c ∧ t = [c]) {t : Text} :
    Matches (.plus p) t ↔ t ≠ [] ∧ ∀ c ∈ t, inClass c := by
  constructor
  · intro h
    cases h with
    | plus h hs =>
      obtain ⟨c, hc, rfl⟩ := (hp _).mp h
      refine ⟨List.cons_ne_nil _ _, ?_⟩
      rw [List.cons_append, List.forall_mem_cons]
      exact ⟨hc, (matches_star_iff hp).mp hs⟩
  · rintro ⟨hne, hall⟩
    obtain ⟨c, t, rfl⟩ := List.exists_cons_of_ne_nil hne
    rw [List.forall_mem_cons] at hall
    exact .plus ((hp [c]).mpr ⟨c, hall.1, rfl⟩) ((matches_star_iff hp).mpr hall.2)

end Pattern

end StepPhrase
