import StepPhrase.Proofs.Call.Matching
import StepPhrase.Proofs.Keyword.Stripping
import StepPhrase.Proofs.Phrasebook.Lookup

/-!
# Exact text against templates with slots

A definition without slots that matches a call spells out all of it, so one would expect it to win
the lookup. The score of a template counts its own keyword, though, which matching takes off, and
the text in front of a call that a template leaves to a keyword counts for nothing.

Ranks compare literal characters first, so two templates that match the same call compare by how
much of it they leave to others: openings and arguments. Each of them is also credited with its own
keyword, which is no part of what it matched.

* **`literalChars_add_of_fills`** — the count behind it: literal characters of the template, the
  keyword in front of the call and the arguments make up the call and the keyword of the template.
* **`isCovered_iff`** — what that count says of two templates that match the same call.
* **`slots_find?_eq_nil_iff`** — when a lookup that exact text answers has an answer without slots.
-/

namespace StepPhrase

open Text

namespace Template

variable {engine : Engine}

/-- The number of literal characters that go with the keyword of a template. They count for its
rank, although a call may do without them. -/
def keywordChars (engine : Engine) (keywords : List Text) (template : Template) : Nat :=
  template.rank.literalChars - (template.withoutKeyword engine keywords).rank.literalChars

theorem literalChars_withoutKeyword_le (keywords : List Text) (template : Template) :
    (template.withoutKeyword engine keywords).rank.literalChars ≤ template.rank.literalChars := by
  rcases withoutKeyword_eq_or_isLed engine keywords template with
    ⟨-, heq⟩ | ⟨keyword, -, first, front, rest, pieces, hpieces, hled, hstripped⟩
  · rw [heq]
  · have hlength := congrArg List.length hled.eq_append
    simp only [List.length_append] at hlength
    simp only [rank, hpieces, hstripped]
    split
    · simp [Piece.literalChars]
    · simp only [total_cons, Piece.literalChars]
      omega

theorem literalChars_withoutKeyword_add (keywords : List Text) (template : Template) :
    (template.withoutKeyword engine keywords).rank.literalChars + template.keywordChars
      engine keywords =
      template.rank.literalChars :=
  Nat.add_sub_of_le (literalChars_withoutKeyword_le keywords template)

/-- With slots in one of them, the literal characters decide between two templates, and a tie goes
to the one without. -/
theorem rank_lt_iff_of_slots {plain template : Template} (hplain : plain.slots = [])
    (hslots : template.slots ≠ []) :
    template.rank < plain.rank ↔ template.rank.literalChars ≤ plain.rank.literalChars := by
  have hfewer : plain.rank.slots < template.rank.slots := by
    simp only [rank, hplain, List.length_nil]
    exact List.length_pos_iff.mpr hslots
  rw [Rank.lt_iff]
  omega

end Template

namespace Call

open Template

variable {setting : Setting} {template plain : Template} {call : Text}

/-- **The count.** A template spells out a call but for the opening and the arguments, and it also
has the characters of its own keyword. A filling keeps lengths, whatever the case of letters. -/
theorem literalChars_add_of_fills {opening body : Text} {tokens : List Text}
    (hcall : call = opening ++ body)
    (hfills : Fills sameFolded (setting.stripped template).pieces tokens body) :
    template.rank.literalChars + (opening.length + total List.length tokens) =
      call.length + template.keywordChars setting.engine setting.properties.keywords := by
  have hlength : body.length = (setting.stripped template).rank.literalChars
      + total List.length tokens := length_of_fills hfills
  have hkeyword : (setting.stripped template).rank.literalChars
      + template.keywordChars setting.engine setting.properties.keywords =
        template.rank.literalChars :=
    literalChars_withoutKeyword_add setting.properties.keywords template
  rw [hcall, List.length_append, hlength]
  omega

theorem exists_fills_of_isMatch (h : isMatch setting template call = true) :
    ∃ opening body tokens, call = opening ++ body
      ∧ IsOpening setting.properties.keywords opening
      ∧ Fills sameFolded (setting.stripped template).pieces tokens body := by
  obtain ⟨arguments, hmatch⟩ := Option.isSome_iff_exists.mp h
  obtain ⟨-, -, -, hfits, -⟩ := match?_eq_some_iff.mp hmatch
  exact fits_iff.mp hfits

/-- The keyword of a template and the opening that exact text leaves to the call come to no more
than the keyword of the exact text and the opening and arguments of the template. -/
def IsCovered (setting : Setting) (call : Text) (plain template : Template) : Prop :=
  ∀ opening body opening' body' tokens, call = opening ++ body →
    IsOpening setting.properties.keywords opening →
    Fills sameFolded (setting.stripped plain).pieces [] body →
    call = opening' ++ body' → IsOpening setting.properties.keywords opening' →
    Fills sameFolded (setting.stripped template).pieces tokens body' →
    template.keywordChars setting.engine setting.properties.keywords + opening.length ≤
      plain.keywordChars setting.engine
        setting.properties.keywords + (opening'.length + total List.length tokens)

/-- **Where exact text and a template match the same call**, the template has more literal
characters unless it is covered. One filling of each is enough to compare: the count is the same for
all of them. -/
theorem isCovered_iff (hplain : isMatch setting plain call = true) (hslots : plain.slots = [])
    (hmatch : isMatch setting template call = true) :
    IsCovered setting call plain template ↔
      template.rank.literalChars ≤ plain.rank.literalChars := by
  constructor
  · intro hcovered
    obtain ⟨opening, body, tokens, hcall, hopening, hfills⟩ := exists_fills_of_isMatch hplain
    obtain ⟨opening', body', tokens', hcall', hopening', hfills'⟩ := exists_fills_of_isMatch hmatch
    -- exact text has no slots, so there are no arguments on its side of the count
    have htokens : tokens = [] := by
      have hcount := hfills.length_eq
      have hnone := setting.slots_stripped plain
      rw [hslots, slots] at hnone
      rwa [hnone, List.length_nil, List.length_eq_zero_iff] at hcount
    subst htokens
    have hle := hcovered opening body opening' body' tokens' hcall hopening hfills hcall' hopening'
      hfills'
    have hcount := literalChars_add_of_fills hcall hfills
    have hcount' := literalChars_add_of_fills hcall' hfills'
    rw [total_nil] at hcount
    omega
  · intro hle opening body opening' body' tokens hcall _ hfills hcall' _ hfills'
    have hcount := literalChars_add_of_fills hcall hfills
    have hcount' := literalChars_add_of_fills hcall' hfills'
    rw [total_nil] at hcount
    omega

end Call

namespace Phrasebook

variable {α : Type} {book : Phrasebook α} {setting : Call.Setting} {call : Text}

/-- **When exact text is found.** A lookup that a definition without slots matches has an answer.
The answer has no slots exactly if some such definition covers every template with slots that
matches as well. -/
theorem slots_find?_eq_nil_iff
    (hplain : ∃ entry ∈ book.entries, entry.1.slots = []
      ∧ Call.isMatch setting entry.1 call = true) :
    ∃ found, book.find? setting call = some found
      ∧ (found.template.slots = [] ↔
        ∃ plain ∈ book.entries, plain.1.slots = [] ∧ Call.isMatch setting plain.1 call = true
          ∧ ∀ entry ∈ book.entries, entry.1.slots ≠ [] →
            Call.isMatch setting entry.1 call = true →
            Call.IsCovered setting call plain.1 entry.1) := by
  obtain ⟨entry, hentry, -, hmatch⟩ := hplain
  have hanswer : IsAnswer setting call book.entries (book.find? setting call) := find?_eq_iff.mp rfl
  cases hfind : book.find? setting call with
  | none =>
    rw [hfind] at hanswer
    rw [isMatch_eq_false_iff.mpr (hanswer entry hentry)] at hmatch
    cases hmatch
  | some found =>
    rw [hfind] at hanswer
    have hbest : IsFirstBest setting call book.entries found := hanswer
    refine ⟨found, rfl, fun hslots => ?_, ?_⟩
    · refine ⟨(found.template, found.payload), hbest.mem, hslots, hbest.isMatch_template, ?_⟩
      intro other hother hotherSlots hotherMatch
      rw [Call.isCovered_iff hbest.isMatch_template hslots hotherMatch,
        ← Template.rank_lt_iff_of_slots hslots hotherSlots]
      -- the answer is of the highest rank, and a template with slots cannot have the same
      refine lt_of_le_of_ne (hbest.rank_le hother hotherMatch) fun heq => hotherSlots ?_
      -- of the same rank it would have as many slots
      have hcount := congrArg Template.Rank.slots heq
      simpa [Template.rank, hslots] using hcount
    · rintro ⟨plain, hmem, hslots, hplainMatch, hcovered⟩
      -- an answer with slots would be covered by the exact text, and of lower rank
      by_contra hfoundSlots
      have hcover := hcovered (found.template, found.payload) hbest.mem hfoundSlots
        hbest.isMatch_template
      rw [Call.isCovered_iff hplainMatch hslots hbest.isMatch_template,
        ← Template.rank_lt_iff_of_slots hslots hfoundSlots] at hcover
      exact absurd (hbest.rank_le hmem hplainMatch) (not_le_of_gt hcover)

/-- Behind the same keyword in the call, text that spells the argument out wins. -/
theorem slots_find?_eq_nil_balance :
    ∃ (any zero : Template) (found : Found Nat),
    Template.ofText? .unlimited "the balance is {n}".toList = .ok any
      ∧ Template.ofText? .unlimited "the balance is 0".toList = .ok zero
      ∧ (∃ entry ∈ [(any, 1), (zero, 2)], entry.1.slots = []
        ∧ Call.isMatch ⟨.unlimited, .empty, .default⟩ entry.1 "Then the balance is 0".toList = true)
      ∧ find? ⟨[(any, 1), (zero, 2)]⟩
        ⟨.unlimited, .empty, .default⟩ "Then the balance is 0".toList = some found
      ∧ found.template.slots = [] := by
  let any : Template := ⟨"the balance is {n}".toList, [.literal "the balance is ".toList,
    .slot ⟨"{n}".toList, 15, none⟩]⟩
  let zero : Template := ⟨"the balance is 0".toList, [.literal "the balance is 0".toList]⟩
  have hany : Call.isMatch
      ⟨.unlimited, .empty, .default⟩ any "Then the balance is 0".toList = true := by
    decide +kernel
  have hzero : Call.isMatch
      ⟨.unlimited, .empty, .default⟩ zero "Then the balance is 0".toList = true := by
    decide +kernel
  let book : Phrasebook Nat := ⟨[(any, 1), (zero, 2)]⟩
  have hplain : ∃ entry ∈ book.entries, entry.1.slots = []
      ∧ Call.isMatch ⟨.unlimited, .empty, .default⟩ entry.1 "Then the balance is 0".toList = true :=
    ⟨(zero, 2), .tail _ (.head _), by decide, hzero⟩
  obtain ⟨found, hfind, hfound⟩ := slots_find?_eq_nil_iff hplain
  refine ⟨any, zero, found, by decide +kernel, by decide +kernel, hplain, hfind, hfound.mpr ?_⟩
  refine ⟨(zero, 2), .tail _ (.head _), by decide, hzero, fun entry hentry hslots _ => ?_⟩
  rcases List.mem_pair.mp hentry with rfl | rfl
  · exact (Call.isCovered_iff hzero (by decide) hany).mpr (by decide)
  · exact absurd (by decide) hslots

/-- A template that is written with a keyword has the characters of the keyword in its favour. -/
theorem exists_find?_slots_ne_nil :
    ∃ (plain any : Template) (found : Found Nat),
    Template.ofText? .unlimited "I have 5".toList = .ok plain
      ∧ Template.ofText? .unlimited "Given I have {n}".toList = .ok any
      ∧ plain.slots = []
      ∧ Call.isMatch ⟨.unlimited, .empty, .default⟩ plain "I have 5".toList = true
      ∧ find? ⟨[(plain, 1), (any, 2)]⟩ ⟨.unlimited, .empty, .default⟩ "I have 5".toList = some found
      ∧ found.template.slots ≠ [] := by
  let plain : Template := ⟨"I have 5".toList, [.literal "I have 5".toList]⟩
  let any : Template := ⟨"Given I have {n}".toList, [.literal "Given I have ".toList,
    .slot ⟨"{n}".toList, 13, none⟩]⟩
  have hfound : ((find? ⟨[(plain, 1), (any, 2)]⟩
    ⟨.unlimited, .empty, .default⟩ "I have 5".toList).map
      Found.template) = some any := by
    decide +kernel
  obtain ⟨found, hfind, htemplate⟩ := Option.map_eq_some_iff.mp hfound
  exact ⟨plain, any, found, by decide +kernel, by decide +kernel, by decide,
    by decide +kernel, hfind,
    by rw [htemplate]; decide⟩

end Phrasebook

end StepPhrase
