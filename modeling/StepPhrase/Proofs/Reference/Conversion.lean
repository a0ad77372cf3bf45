import StepPhrase.Proofs.Reference.Nesting
import StepPhrase.Proofs.Reference.Openings

/-!
# Conversion of angle parameters

`dollarForm` reads a text once, from the left. What it leaves behind may look like an angle
parameter again: a bracket that has lost its backslash, or one inside the name of a parameter. Such
a text is converted further by a second conversion, and expansion makes one of its own.

Expansion converts the text that it is given and no value, so a text that was converted before is
converted twice. The two conversions are one as long as the first leaves nothing that the second
would read in another way.

* **`dollarForm_eq_self_iff`** — the texts that conversion leaves as they are.
* **`isConverted_dollarForm`** — texts without escapes and without brackets in names are done in one
  go.
* **`expand_dollarForm`** — to convert a text before it is expanded is harmless exactly if nothing
  is left to convert in it.
-/

namespace StepPhrase.Reference

variable {scope : Scope} {t front name rest : Text} {c : Char}

/-! ## Angle names

A parameter is closed on its line and has a name between its brackets. Whether an opening bracket is
closed at all is the part of this that conversion cannot change. -/

/-- Whether a bracket in front of a text is closed on its line. The name may be empty here, which is
the one case in which a closed bracket opens no parameter. -/
def ClosesAngle (t : Text) : Prop :=
  ∃ name rest, t = name ++ '>' :: rest ∧ ∀ c ∈ name, isInAngle c = true

theorem closesAngle_cons_iff :
    ClosesAngle (c :: t) ↔ c = '>' ∨ isInAngle c = true ∧ ClosesAngle t := by
  constructor
  · rintro ⟨name, rest, heq, hname⟩
    cases name with
    | nil => exact .inl (List.cons.inj heq).1
    | cons d name =>
      obtain ⟨rfl, rfl⟩ := List.cons.inj heq
      obtain ⟨hd, hname⟩ := List.forall_mem_cons.mp hname
      exact .inr ⟨hd, name, rest, rfl, hname⟩
  · rintro (rfl | ⟨hc, name, rest, rfl, hname⟩)
    · exact ⟨[], t, rfl, by simp⟩
    · exact ⟨c :: name, rest, rfl, List.forall_mem_cons.mpr ⟨hc, hname⟩⟩

theorem angleName?_eq_some_iff :
    angleName? t = some (name, rest) ↔
      t = name ++ '>' :: rest ∧ name ≠ [] ∧ ∀ c ∈ name, isInAngle c = true := by
  constructor
  · intro h
    have heq := eq_of_angleName? h
    unfold angleName? at h
    split at h
    · split at h
      · cases h
      · next hname =>
        obtain ⟨rfl, -⟩ := Prod.mk.inj (Option.some.inj h)
        refine ⟨heq, fun hnil => hname (by rw [hnil]), fun c hc => ?_⟩
        exact List.all_eq_true.mp List.all_takeWhile c hc
    · cases h
  · rintro ⟨rfl, hne, hname⟩
    have hclose : isInAngle '>' = false := by decide
    simp only [angleName?, List.dropWhile_append_of_pos hname, List.takeWhile_append_of_pos hname,
      List.dropWhile_cons, List.takeWhile_cons, hclose, Bool.false_eq_true, if_false,
      List.append_nil]

/-- A bracket opens no parameter if it is not closed, or closed at once. -/
theorem angleName?_eq_none_iff : angleName? t = none ↔ ¬ ClosesAngle t ∨ ['>'] <+: t := by
  constructor
  · intro h
    refine or_iff_not_imp_left.mpr fun hcloses => ?_
    obtain ⟨name, rest, rfl, hname⟩ := not_not.mp hcloses
    cases name with
    | nil => exact ⟨rest, rfl⟩
    | cons c name =>
      have hsome : angleName? (c :: name ++ '>' :: rest) = some (c :: name, rest) :=
        angleName?_eq_some_iff.mpr ⟨rfl, List.cons_ne_nil c name, hname⟩
      cases h.symm.trans hsome
  · intro h
    refine Option.eq_none_iff_forall_ne_some.mpr fun ⟨name, rest⟩ hsome => ?_
    obtain ⟨rfl, hne, hname⟩ := angleName?_eq_some_iff.mp hsome
    rcases h with hcloses | hclosed
    · exact hcloses ⟨name, rest, rfl, hname⟩
    · obtain ⟨c, name, rfl⟩ := List.exists_cons_of_ne_nil hne
      obtain rfl : '>' = c := by simpa using hclosed
      exact absurd (hname '>' List.mem_cons_self) (by decide)

/-! ## One conversion

Conversion has five cases: the end, an escaped bracket, a parameter, a bracket that opens none, and
any other character. What is shown of it is shown by induction over these. -/

@[simp] theorem dollarForm_nil : dollarForm [] = [] := by rw [dollarForm]

@[simp] theorem dollarForm_escaped (t : Text) :
    dollarForm ('\\' :: '<' :: t) = '<' :: dollarForm t := by
  rw [dollarForm]

theorem dollarForm_parameter (h : angleName? t = some (name, rest)) :
    dollarForm ('<' :: t) = written name ++ dollarForm rest := by
  rw [dollarForm]
  split
  · next h' =>
    obtain ⟨rfl, rfl⟩ := Prod.mk.inj (Option.some.inj (h.symm.trans h'))
    rfl
  · next hnone => cases h.symm.trans hnone

theorem dollarForm_bracket (h : angleName? t = none) :
    dollarForm ('<' :: t) = '<' :: dollarForm t := by
  rw [dollarForm]
  split
  · next hsome => cases h.symm.trans hsome
  · rfl

theorem dollarForm_cons (hc : c ≠ '<') (hback : c = '\\' → ¬ ['<'] <+: t) :
    dollarForm (c :: t) = c :: dollarForm t := by
  refine dollarForm.eq_4 c t ?_ hc
  rintro rest rfl rfl
  exact hback rfl ⟨rest, rfl⟩

theorem dollarForm_append (hbracket : '<' ∉ front) (hback : '\\' ∉ front) :
    dollarForm (front ++ t) = front ++ dollarForm t := by
  induction front with
  | nil => rfl
  | cons c front ih =>
    rw [List.mem_cons, not_or] at hbracket hback
    rw [List.cons_append, dollarForm_cons (Ne.symm hbracket.1) (fun hc => absurd hc.symm hback.1),
      ih hbracket.2 hback.2, List.cons_append]

theorem dollarForm_of_not_mem (hbracket : '<' ∉ t) (hback : '\\' ∉ t) : dollarForm t = t := by
  have happend := dollarForm_append (t := []) hbracket hback
  rwa [List.append_nil, dollarForm_nil, List.append_nil] at happend

/-- A bracket that is closed behind the conversion was closed before. Parameters that are converted
take their closing brackets with them, and no new ones come. -/
theorem closesAngle_of_dollarForm (h : ClosesAngle (dollarForm t)) : ClosesAngle t := by
  induction t using dollarForm.induct with
  | case1 => rwa [dollarForm_nil] at h
  | case2 t ih =>
    rw [dollarForm_escaped, closesAngle_cons_iff] at h
    have hrest := ih (h.resolve_left (by decide)).2
    exact closesAngle_cons_iff.mpr
      (.inr ⟨by decide, closesAngle_cons_iff.mpr (.inr ⟨by decide, hrest⟩)⟩)
  | case3 t name rest hname _ =>
    obtain ⟨rfl, -, hin⟩ := angleName?_eq_some_iff.mp hname
    exact closesAngle_cons_iff.mpr (.inr ⟨by decide, name, rest, rfl, hin⟩)
  | case4 t hnone ih =>
    rw [dollarForm_bracket hnone, closesAngle_cons_iff] at h
    exact closesAngle_cons_iff.mpr (h.imp_right fun hrest => ⟨hrest.1, ih hrest.2⟩)
  | case5 c t hescape hbracket ih =>
    rw [dollarForm.eq_4 c t hescape hbracket, closesAngle_cons_iff] at h
    exact closesAngle_cons_iff.mpr (h.imp_right fun hrest => ⟨hrest.1, ih hrest.2⟩)

theorem angleName?_dollarForm (h : angleName? t = none) : angleName? (dollarForm t) = none := by
  rw [angleName?_eq_none_iff] at h ⊢
  refine h.imp (mt closesAngle_of_dollarForm) ?_
  rintro ⟨rest, rfl⟩
  rw [List.singleton_append, dollarForm_cons (by decide) (fun hc => absurd hc (by decide))]
  exact ⟨dollarForm rest, rfl⟩

/-- A bracket at the beginning was there before, perhaps behind a backslash: conversion makes none
out of other characters. -/
theorem prefix_of_prefix_dollarForm (h : ['<'] <+: dollarForm t) :
    ['<'] <+: t ∨ ['\\', '<'] <+: t := by
  obtain ⟨rest, h⟩ := h
  induction t using dollarForm.induct with
  | case1 => simp at h
  | case2 t _ => exact .inr ⟨t, rfl⟩
  | case3 t _ _ _ _ => exact .inl ⟨t, rfl⟩
  | case4 t _ _ => exact .inl ⟨t, rfl⟩
  | case5 c t hescape hbracket _ =>
    rw [dollarForm.eq_4 c t hescape hbracket, List.singleton_append, List.cons.injEq] at h
    exact .inl ⟨t, by rw [h.1]; rfl⟩

/-! ## Texts without anything to convert

To have nothing to convert is a property of all places in a text. It is taken apart here character
by character, since conversion works its way through a text in the same manner. -/

/-- A text has no bracket behind a backslash and no angle parameter. -/
structure IsConverted (t : Text) : Prop where
  escape : ¬ ['\\', '<'] <:+: t
  parameter : ∀ before after, t = before ++ '<' :: after → angleName? after = none

theorem isConverted_nil : IsConverted [] := ⟨by decide, by simp⟩

theorem isConverted_cons_iff :
    IsConverted (c :: t) ↔
      (c = '<' → angleName? t = none) ∧ (c = '\\' → ¬ ['<'] <+: t) ∧ IsConverted t := by
  constructor
  · rintro ⟨hescape, hparameter⟩
    refine ⟨fun hc => hparameter [] t (by rw [hc]; rfl), ?_, ?_, ?_⟩
    · rintro rfl ⟨rest, rfl⟩
      exact hescape ⟨[], rest, rfl⟩
    · exact fun h => hescape (h.trans (List.suffix_cons c t).isInfix)
    · exact fun before after ht => hparameter (c :: before) after (by rw [ht]; rfl)
  · rintro ⟨hbracket, hback, hescape, hparameter⟩
    refine ⟨fun h => ?_, fun before after heq => ?_⟩
    · rcases List.infix_cons_iff.mp h with hprefix | hinfix
      · obtain ⟨hc, hprefix⟩ := List.cons_prefix_cons.mp hprefix
        exact hback hc.symm hprefix
      · exact hescape hinfix
    · cases before with
      | nil =>
        obtain ⟨hc, rfl⟩ := List.cons.inj heq
        exact hbracket hc
      | cons b before => exact hparameter before after (List.cons.inj heq).2

/-- In front of a text that is converted there may be anything without brackets that does not end in
a backslash. -/
theorem IsConverted.append (h : IsConverted t) (hbracket : '<' ∉ front)
    (hlast : front.getLast? ≠ some '\\') : IsConverted (front ++ t) := by
  induction front with
  | nil => exact h
  | cons c front ih =>
    rw [List.mem_cons, not_or] at hbracket
    rw [List.cons_append, isConverted_cons_iff]
    refine ⟨fun hc => absurd hc.symm hbracket.1, ?_, ih hbracket.2 fun hback => hlast ?_⟩
    · rintro rfl ⟨rest, hrest⟩
      cases front with
      | nil => exact hlast rfl
      | cons d front => exact hbracket.2 (by simp [← (List.cons.inj hrest).1])
    · rw [List.getLast?_cons, hback]
      rfl

/-- A text has no bracket behind a backslash, and none between another bracket and the one that
closes it. -/
structure IsFlat (t : Text) : Prop where
  escape : ¬ ['\\', '<'] <:+: t
  name : ∀ before after name rest, t = before ++ '<' :: after →
    angleName? after = some (name, rest) → '<' ∉ name

theorem IsFlat.of_append {s : Text} (h : IsFlat (s ++ t)) : IsFlat t := by
  refine ⟨fun hescape => h.escape (hescape.trans (List.suffix_append s t).isInfix), ?_⟩
  intro before after name rest ht
  exact h.name (s ++ before) after name rest (by rw [ht, List.append_assoc])

/-- **One conversion is enough** for a text whose brackets are neither escaped nor nested. What was
a parameter is none any more, and no other comes up behind it. -/
theorem isConverted_dollarForm (h : IsFlat t) : IsConverted (dollarForm t) := by
  induction t using dollarForm.induct with
  | case1 =>
    rw [dollarForm_nil]
    exact isConverted_nil
  | case2 t _ => exact absurd ⟨[], t, rfl⟩ h.escape
  | case3 t name rest hname ih =>
    rw [dollarForm_parameter hname]
    have hbracket : '<' ∉ written name := by simpa [written] using h.name [] t name rest rfl hname
    -- a reference ends with a brace, so what follows it cannot be taken for escaped
    have hlast : (written name).getLast? ≠ some '\\' := by
      rw [getLast?_written]
      decide
    obtain ⟨rfl, -⟩ := angleName?_eq_some_iff.mp hname
    refine IsConverted.append (ih ?_) hbracket hlast
    exact IsFlat.of_append (s := '<' :: (name ++ ['>'])) (by simpa using h)
  | case4 t hnone ih =>
    rw [dollarForm_bracket hnone, isConverted_cons_iff]
    exact ⟨fun _ => angleName?_dollarForm hnone, fun hc => absurd hc (by decide),
      ih (h.of_append (s := ['<']))⟩
  | case5 c t hescape hbracket ih =>
    rw [dollarForm.eq_4 c t hescape hbracket, isConverted_cons_iff]
    refine ⟨fun hc => absurd hc hbracket, ?_, ih (h.of_append (s := [c]))⟩
    rintro rfl hprefix
    -- the backslash would have stood in front of the bracket, or of the backslash of the bracket
    rcases prefix_of_prefix_dollarForm hprefix with ⟨rest, rfl⟩ | ⟨rest, rfl⟩
    · exact hescape rest rfl rfl
    · exact h.escape ⟨['\\'], rest, rfl⟩

/-! ## Converting again

A conversion that changes anything takes a backslash or a bracket away, and expansion brings none
unless a value does. -/

/-- The number of brackets that may open a parameter and of backslashes. Every step of the
conversion that changes anything takes one of them away. -/
def marks (t : Text) : Nat := t.countP fun c => c == '<' || c == '\\'

@[simp] theorem marks_nil : marks [] = 0 := rfl

@[simp] theorem marks_append (s t : Text) : marks (s ++ t) = marks s + marks t := List.countP_append

@[simp] theorem marks_cons (c : Char) (t : Text) :
    marks (c :: t) = marks t + if c = '<' ∨ c = '\\' then 1 else 0 := by
  simp [marks, List.countP_cons]

@[simp] theorem marks_written (name : Text) : marks (written name) = marks name := by
  simp [written]

theorem marks_dollarForm (t : Text) :
    marks (dollarForm t) ≤ marks t ∧ (marks (dollarForm t) = marks t → IsConverted t) := by
  induction t using dollarForm.induct with
  | case1 =>
    rw [dollarForm_nil]
    exact ⟨Nat.le_refl _, fun _ => isConverted_nil⟩
  | case2 t ih =>
    simp only [dollarForm_escaped, marks_cons, true_or, or_true, if_true]
    exact ⟨by omega, fun heq => by omega⟩
  | case3 t name rest hname ih =>
    rw [dollarForm_parameter hname, eq_of_angleName? hname]
    simp only [marks_append, marks_written, marks_cons, true_or, if_true]
    exact ⟨by omega, fun heq => by omega⟩
  | case4 t hnone ih =>
    rw [dollarForm_bracket hnone, marks_cons, marks_cons]
    -- the bracket stays, so the others must have stayed as well
    refine ⟨by omega, fun heq => isConverted_cons_iff.mpr ⟨fun _ => hnone, ?_, ih.2 (by omega)⟩⟩
    exact fun hc => absurd hc (by decide)
  | case5 c t hescape hbracket ih =>
    rw [dollarForm.eq_4 c t hescape hbracket, marks_cons, marks_cons]
    refine ⟨by omega, fun heq => ?_⟩
    refine isConverted_cons_iff.mpr ⟨fun hc => absurd hc hbracket, ?_, ih.2 (by omega)⟩
    rintro rfl ⟨rest, rfl⟩
    exact hescape rest rfl rfl

/-- **Conversion leaves exactly the converted texts as they are.** A text that is changed loses a
mark for good, so it cannot come out as it was. -/
theorem dollarForm_eq_self_iff : dollarForm t = t ↔ IsConverted t := by
  constructor
  · intro h
    exact (marks_dollarForm t).2 (by rw [h])
  · intro h
    induction t with
    | nil => exact dollarForm_nil
    | cons c t ih =>
      obtain ⟨hbracket, hback, hrest⟩ := isConverted_cons_iff.mp h
      by_cases hc : c = '<'
      · subst hc
        rw [dollarForm_bracket (hbracket rfl), ih hrest]
      · rw [dollarForm_cons hc hback, ih hrest]

/-- A scope without any names. -/
def Scope.empty : Scope := ⟨.empty, .empty⟩

theorem marks_flatMap_chunks {replace : Chunk → Text} {protects afterQuote : Bool}
    (hchar : ∀ c, replace (.char c) = [c])
    (hreference : ∀ name, replace (.reference name) = written name) :
    marks ((chunks protects afterQuote t).flatMap replace) = marks t := by
  have hliteral : ∀ cs : List Chunk,
      marks ((literalOpening cs).flatMap replace) = marks (cs.flatMap replace) := by
    intro cs
    simp [literalOpening, hchar]
  -- over the reading of the text: every reference is written back as it was read
  induction afterQuote, t using chunks.induct protects with
  | case1 => simp [chunks]
  | case2 _ t ih => simp [chunks, hliteral, ih]
  | case3 _ t hprotected ih => simp [chunks_protected hprotected, hliteral, ih]
  | case4 _ t hopen name rest hcut ih =>
    obtain ⟨rfl, -⟩ := Text.eq_of_cut? hcut
    simp [chunks_reference hopen hcut, hreference, ih]
  | case5 _ t hopen hcut ih => simp [chunks_unclosed hopen hcut, hliteral, ih]
  | case6 _ c t hescape hnotOpening ih =>
    rw [chunks.eq_4 _ _ _ _ hescape hnotOpening, List.flatMap_cons, hchar, List.singleton_append,
      marks_cons, marks_cons, ih]

theorem marks_expand_empty (t : Text) : marks (expand .empty t) = marks (dollarForm t) := by
  rw [expand_eq, Level.expansion]
  exact marks_flatMap_chunks (fun _ => rfl) fun name => Level.replacement_unbound rfl

/-- **To convert a text before it is expanded is harmless exactly if that leaves nothing to
convert**, whatever the names stand for. Otherwise the expansion takes off another escape, or takes
what is left of one for a parameter, even where no name has a value. -/
theorem expand_dollarForm (t : Text) :
    ((∀ scope, expand scope (dollarForm t) = expand scope t) ↔ IsConverted (dollarForm t))
      ∧ (IsFlat t → ∀ scope, expand scope (dollarForm t) = expand scope t) := by
  have hharmless : IsConverted (dollarForm t) →
      ∀ scope, expand scope (dollarForm t) = expand scope t := by
    intro h scope
    rw [expand, expand, dollarForm_eq_self_iff.mpr h]
  refine ⟨⟨fun h => ?_, hharmless⟩, fun h => hharmless (isConverted_dollarForm h)⟩
  have hmarks := congrArg marks (h .empty)
  -- without any names an expansion is a conversion, up to how references are written
  rw [marks_expand_empty, marks_expand_empty] at hmarks
  exact (marks_dollarForm (dollarForm t)).2 hmarks

/-- A parameter with a value, and a backslash in front of no bracket. -/
theorem expand_dollarForm_user :
    ∃ scope, IsFlat "as <user>, 1 \\ 2".toList
      ∧ expand scope "as <user>, 1 \\ 2".toList = "as ann, 1 \\ 2".toList
      ∧ expand scope (dollarForm "as <user>, 1 \\ 2".toList) = "as ann, 1 \\ 2".toList := by
  have hflat : IsFlat "as <user>, 1 \\ 2".toList := by
    refine ⟨by decide, fun before after name rest heq hname hmem => ?_⟩
    -- there is only one bracket
    have hcount := congrArg (List.count '<') heq
    rw [eq_of_angleName? hname, List.count_append, List.count_cons_self,
      List.count_append] at hcount
    have hone : List.count '<' "as <user>, 1 \\ 2".toList = 1 := by decide
    have hpos := List.count_pos_iff.mpr hmem
    omega
  have hout : expand
    ⟨.empty, ⟨[("user".toList, .string "ann".toList)]⟩⟩ "as <user>, 1 \\ 2".toList =
      "as ann, 1 \\ 2".toList := by
    decide +kernel
  exact ⟨_, hflat, hout, ((expand_dollarForm _).2 hflat _).trans hout⟩

/-- A bracket that has lost its backslash, and one in the name of a parameter, are read anew. -/
theorem exists_expand_dollarForm_ne :
    ∃ scope, expand scope (dollarForm "\\<x>".toList) ≠ expand scope "\\<x>".toList
      ∧ expand scope (dollarForm "<a<b> c>".toList) ≠ expand scope "<a<b> c>".toList :=
  ⟨.empty, by decide +kernel, by decide +kernel⟩

end StepPhrase.Reference
