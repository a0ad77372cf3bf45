import StepPhrase.Proofs.Argument.Tokens
import StepPhrase.Proofs.Text.Occurrence
import StepPhrase.Proofs.Unicode.Disputed

/-!
# Case variants under folding and under lower-casing

Whether a call fits is decided by folding, where a literal is found by lower-casing.

Two comparisons that differ would be harmless if no keyword or literal ever had a character on
which they do. A few characters stand for a common letter under one of them only, such as the
long s. So the characters are named on which the two do not agree, and everywhere else one may be
used for the other.

* **`eq_of_sameFolded_of_isWhiteSpace`**, **`eq_of_sameLowered_of_first`** — blanks have no case
  under folding, and the characters that tokens begin with have none under lower-casing.
* **`dropLiteral?_sameFolded_iff_sameLowered`** — on texts without disputed characters the two find
  the same literals in the same places, and each disputed character makes a literal on which they
  differ.
-/

namespace StepPhrase.Unicode

open CaseRun

/-! ## Characters that have no case

Ranges of characters are checked against the tables once. A character that lies in such a range is
its own only variant. -/

theorem isCaseless_whiteSpaceRanges :
    (whiteSpaceRanges.all fun range => isCaseless foldRuns range) = true := by
  decide

/-- Ranges without letters that have the characters which a token may begin with. The rows of digits
are many, so those between the same letters are in one range. -/
def tokenRanges : List (Nat × Nat) :=
  [(0x22, 0x22), (0x27, 0x27), (0x2B, 0x2B), (0x2D, 0x2D), (0x30, 0x39), (0x5B, 0x5B), (0x7B, 0x7B),
    (0x660, 0x1099), (0x17E0, 0x1C59), (0xA620, 0xA629), (0xA8D0, 0xAA59), (0xABF0, 0xFF19),
    (0x104A0, 0x104A9), (0x10D30, 0x10D49), (0x11066, 0x11739), (0x118E0, 0x16D79),
    (0x1CCF0, 0x1E5FA), (0x1E950, 0x1FBF9)]

theorem isCaseless_tokenRanges :
    (tokenRanges.all fun range => isCaseless lowerRuns range) = true := by
  decide

theorem exists_tokenRange_of_isDecimalDigit {c : Char} (h : isDecimalDigit c = true) :
    ∃ range ∈ tokenRanges, range.1 ≤ c.toNat ∧ c.toNat ≤ range.2 := by
  unfold isDecimalDigit at h
  split at h
  · have hdigit : 0x30 ≤ c.toNat ∧ c.toNat ≤ 0x39 := by
      simpa [Char.isDigit, UInt32.le_iff_toNat_le] using h
    exact ⟨(0x30, 0x39), by decide, hdigit⟩
  · obtain ⟨base, hbase, hrow⟩ := List.any_eq_true.mp h
    rw [Bool.and_eq_true, decide_eq_true_eq, decide_eq_true_eq] at hrow
    have hrows : (digitZeros.all fun base => tokenRanges.any fun range =>
        Nat.ble range.1 base && Nat.ble (base + 9) range.2) = true := by
      decide
    obtain ⟨range, hrange, hwithin⟩ := List.any_eq_true.mp (List.all_eq_true.mp hrows base hbase)
    rw [Bool.and_eq_true, Nat.ble_eq, Nat.ble_eq] at hwithin
    exact ⟨range, hrange, by omega, by omega⟩

theorem exists_tokenRange_of_first {c : Char} {state : Scan} (h : Scan.first c = some state) :
    ∃ range ∈ tokenRanges, range.1 ≤ c.toNat ∧ c.toNat ≤ range.2 := by
  rcases Scan.first_cases h with ⟨rfl, -⟩ | ⟨rfl, -⟩ | ⟨rfl | rfl, -⟩ | ⟨hdigit, -⟩ | ⟨q, rfl, -⟩
  · exact ⟨(0x7B, 0x7B), by decide, by decide⟩
  · exact ⟨(0x5B, 0x5B), by decide, by decide⟩
  · exact ⟨(0x2D, 0x2D), by decide, by decide⟩
  · exact ⟨(0x2B, 0x2B), by decide, by decide⟩
  · exact exists_tokenRange_of_isDecimalDigit hdigit
  · cases q with
    | single => exact ⟨(0x27, 0x27), by decide, by decide⟩
    | double => exact ⟨(0x22, 0x22), by decide, by decide⟩

end StepPhrase.Unicode

namespace StepPhrase.Text

open Unicode CaseRun

theorem eq_of_sameFolded_of_isWhiteSpace {a b : Char} (ha : isWhiteSpace a = true)
    (h : sameFolded a b = true) : a = b := by
  obtain ⟨range, hrange, hwithin⟩ := List.any_eq_true.mp ha
  rw [Bool.and_eq_true, decide_eq_true_eq, decide_eq_true_eq] at hwithin
  have hcaseless := List.all_eq_true.mp isCaseless_whiteSpaceRanges range hrange
  rw [sameFolded_iff, foldCase_eq_convert, foldCase_eq_convert] at h
  exact (convert_eq_iff_of_caseless hcaseless hwithin).mp h

theorem eq_of_sameLowered_of_first {a b : Char} {state : Scan} (ha : Scan.first a = some state)
    (h : sameLowered a b = true) : a = b := by
  obtain ⟨range, hrange, hwithin⟩ := exists_tokenRange_of_first ha
  have hcaseless := List.all_eq_true.mp isCaseless_tokenRanges range hrange
  rw [sameLowered_iff] at h
  -- the table says nothing of the one character that has two in lower case
  by_cases hdot : a.toNat = 0x130 ∨ b.toNat = 0x130
  · rcases hdot with hdot | hdot
    · exact eq_of_foldCase_or_lowerCase hdot (Or.inr h)
    · exact (eq_of_foldCase_or_lowerCase hdot (Or.inr h.symm)).symm
  · rw [not_or] at hdot
    rw [lowerCase_eq_convert hdot.1, lowerCase_eq_convert hdot.2, List.singleton_inj] at h
    exact (convert_eq_iff_of_caseless hcaseless hwithin).mp h

theorem sameFolded_eq_sameLowered {a b : Char} (ha : isDisputed a = false)
    (hb : isDisputed b = false) :
    sameFolded a b = sameLowered a b := by
  rw [Bool.eq_iff_iff, sameFolded_iff, sameLowered_iff]
  exact foldCase_eq_iff_lowerCase_eq ha hb

/-! ## Literals

What holds for single characters holds for literals, as both comparisons go character by character.
-/

section Agreement

variable {literal : Text}

theorem dropLiteral?_sameFolded (hliteral : ∀ c ∈ literal, isDisputed c = false) {t : Text}
    (ht : ∀ c ∈ t, isDisputed c = false) :
    dropLiteral? sameFolded literal t = dropLiteral? sameLowered literal t := by
  induction literal generalizing t with
  | nil => rfl
  | cons l literal ih =>
    cases t with
    | nil => rfl
    | cons c t =>
      rw [List.forall_mem_cons] at hliteral ht
      rw [dropLiteral?, dropLiteral?, sameFolded_eq_sameLowered hliteral.1 ht.1,
        ih hliteral.2 ht.2]

theorem dropThrough?_sameFolded (hliteral : ∀ c ∈ literal, isDisputed c = false) {t : Text}
    (ht : ∀ c ∈ t, isDisputed c = false) :
    dropThrough? sameFolded literal t = dropThrough? sameLowered literal t := by
  induction t with
  | nil => rfl
  | cons c t ih =>
    rw [dropThrough?, dropThrough?, dropLiteral?_sameFolded hliteral ht,
      ih (List.forall_mem_cons.mp ht).2]

end Agreement

/-- **The two comparisons agree on all characters but the disputed ones.** Where the literal and the
text have no disputed character, the literal stands at the front under both or under neither, with
the same rest, and a search for it stops at the same place. Each disputed character that they have
has an undisputed one such that, as texts of one character, the two are the same under one
comparison and not under the other. -/
theorem dropLiteral?_sameFolded_iff_sameLowered (literal t : Text) :
    ((∀ c ∈ literal ++ t, isDisputed c = false) →
      (dropLiteral? sameFolded literal t = some [] ↔ dropLiteral? sameLowered literal t = some [])
        ∧ dropLiteral? sameFolded literal t = dropLiteral? sameLowered literal t
        ∧ dropThrough? sameFolded literal t = dropThrough? sameLowered literal t)
      ∧ ∀ c ∈ literal ++ t, isDisputed c = true → ∃ d, isDisputed d = false
        ∧ ¬(dropLiteral? sameFolded [c] [d] = some [] ↔
          dropLiteral? sameLowered [c] [d] = some []) := by
  constructor
  · intro h
    rw [List.forall_mem_append] at h
    have hdrop := dropLiteral?_sameFolded h.1 h.2
    exact ⟨by rw [hdrop], hdrop, dropThrough?_sameFolded h.1 h.2⟩
  · intro c _ hc
    obtain ⟨d, hd, hdiffer⟩ := exists_rival hc
    refine ⟨d, hd, ?_⟩
    have hone : ∀ same : Char → Char → Bool,
        dropLiteral? same [c] [d] = some [] ↔ same c d = true := by
      intro same
      rw [dropLiteral?, dropLiteral?]
      split <;> simp [*]
    rwa [hone, hone, sameFolded_iff, sameLowered_iff]

/-- Without disputed characters, what folding finds at the front is at the front for lower-casing.
-/
theorem dropLiteral?_sameLowered_capitals :
    dropLiteral? sameLowered "set ".toList "SET ".toList = some [] := by
  have hset : ∀ c ∈ "set ".toList ++ "SET ".toList, isDisputed c = false := by
    have hall : ("set ".toList ++ "SET ".toList).all (fun c => !isDisputed c) = true := by decide
    intro c hc
    simpa using List.all_eq_true.mp hall c hc
  have hfolded : dropLiteral? sameFolded "set ".toList "SET ".toList = some [] := by decide
  exact ((dropLiteral?_sameFolded_iff_sameLowered "set ".toList "SET ".toList).1 hset).1.mp hfolded

/-- The long s is a variant of the s for folding, and a letter of its own for lower-casing. -/
theorem dropLiteral?_long_s : dropLiteral? sameFolded "set ".toList "\u017fet ".toList = some []
    ∧ dropLiteral? sameLowered "set ".toList "\u017fet ".toList = none := by
  constructor <;> decide

end StepPhrase.Text
