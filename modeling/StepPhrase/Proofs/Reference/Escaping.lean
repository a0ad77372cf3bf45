import StepPhrase.Proofs.Reference.Conversion

/-!
# Escaping

Any text can be written so that its expansion is the text itself. There are two things to keep from
being read, one for each pass: a bracket gets a backslash in front, and an opening a second dollar.
The first pass takes the backslashes off and the second the dollars, and neither takes anything else
for an escape: a run of backslashes keeps all but its last in front of a bracket, and so does a run
of dollars in front of a brace.

The openings are escaped first and the brackets second, for the passes take them off in the other
order. To the first pass dollars are text like any other, and for the second there are no brackets
left that mean anything.

* **`dollarForm_escapeAngles`** — the first pass.
* **`chunks_escapeOpenings`** — the second pass, with or without a quote in front.
* **`expand_escape`** — both.
-/

namespace StepPhrase.Reference

/-- A text with a backslash in front of every opening bracket. -/
def escapeAngles (t : Text) : Text := t.flatMap fun c => if c = '<' then ['\\', '<'] else [c]

/-- A text with a second dollar in front of every opening of a reference. -/
def escapeOpenings : Text → Text
  | [] => []
  | '$' :: '{' :: t => '$' :: '$' :: '{' :: escapeOpenings t
  | c :: t => c :: escapeOpenings t

/-- A text with everything escaped that would be read: first the openings of references, then the
brackets, whose backslashes are gone before references are looked for. -/
def escape (t : Text) : Text := escapeAngles (escapeOpenings t)

theorem not_prefix_escapeAngles (t : Text) : ¬ ['<'] <+: escapeAngles t := by
  cases t with
  | nil => simp [escapeAngles]
  | cons c t =>
    rw [escapeAngles, List.flatMap_cons]
    split
    · simp
    · next hc => simpa using fun h => hc h.symm

/-- **Conversion takes the backslashes off again**, and finds no parameter on the way, since every
bracket that could open one is escaped. -/
theorem dollarForm_escapeAngles (t : Text) : dollarForm (escapeAngles t) = t := by
  induction t with
  | nil => exact dollarForm_nil
  | cons c t ih =>
    -- a bracket is escaped, and any other character is not the backslash of a bracket behind it
    by_cases hc : c = '<'
    · subst hc
      have hescaped : escapeAngles ('<' :: t) = '\\' :: '<' :: escapeAngles t := rfl
      rw [hescaped, dollarForm_escaped, ih]
    · have hkept : escapeAngles (c :: t) = c :: escapeAngles t := by
        rw [escapeAngles, List.flatMap_cons, if_neg hc]
        rfl
      rw [hkept, dollarForm_cons hc fun _ => not_prefix_escapeAngles t, ih]

theorem prefix_of_prefix_escapeOpenings {t : Text} (h : ['{'] <+: escapeOpenings t) :
    ['{'] <+: t := by
  cases t using escapeOpenings.fun_cases with
  | case1 => simp [escapeOpenings] at h
  | case2 t => simp [escapeOpenings] at h
  | case3 c t hopening =>
    rw [escapeOpenings.eq_3 c t hopening, List.cons_prefix_cons] at h
    exact ⟨t, by rw [h.1]; rfl⟩

theorem not_prefix_escapeOpenings (t : Text) : ¬ ['$', '{'] <+: escapeOpenings t := by
  cases t using escapeOpenings.fun_cases with
  | case1 => simp [escapeOpenings]
  | case2 t => simp [escapeOpenings]
  | case3 c t hopening =>
    rw [escapeOpenings.eq_3 c t hopening, List.cons_prefix_cons]
    rintro ⟨rfl, hbrace⟩
    obtain ⟨rest, rfl⟩ := prefix_of_prefix_escapeOpenings hbrace
    exact hopening rest rfl rfl

/-- **An escaped text has no references**, whether a quote protects them or not. What is left of it
are its characters, each dollar of an opening once. -/
theorem chunks_escapeOpenings (protects afterQuote : Bool) (t : Text) :
    chunks protects afterQuote (escapeOpenings t) = t.map .char := by
  -- on the escaping: no dollar that was written is followed by the brace of an opening
  induction t using escapeOpenings.induct generalizing afterQuote with
  | case1 => simp [escapeOpenings, chunks]
  | case2 t ih =>
    rw [escapeOpenings, chunks, ih]
    rfl
  | case3 c t hopening ih =>
    rw [escapeOpenings.eq_3 c t hopening, chunks.eq_4 _ _ _ _ ?_ ?_, ih, List.map_cons]
    · -- two dollars in front of a brace would leave an opening behind the first
      rintro rest rfl hrest
      exact not_prefix_escapeOpenings t ⟨rest, hrest.symm⟩
    · rintro rest rfl hrest
      obtain ⟨rest', rfl⟩ := prefix_of_prefix_escapeOpenings ⟨rest, hrest.symm⟩
      exact hopening rest' rfl rfl

/-- **Every text can be escaped**: its escaped form expands to the text itself, whatever names have
values. Nothing is asked of the text; it may be full of escapes already. -/
theorem expand_escape (scope : Scope) (t : Text) : expand scope (escape t) = t := by
  have hchunks : (outermost (escape t)).chunks = t.map .char := by
    rw [Level.chunks, outermost, escape, dollarForm_escapeAngles, chunks_escapeOpenings]
  rw [expand_eq, Level.expansion, hchunks, Level.flatMap_map_char]

end StepPhrase.Reference
