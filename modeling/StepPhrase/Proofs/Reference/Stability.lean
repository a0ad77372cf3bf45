import StepPhrase.Proofs.Reference.Conversion
import StepPhrase.Proofs.Reference.Unbound

/-!
# Stability

Expanding a text twice is the same as expanding it once where the first expansion leaves nothing for
the second to do. A name without a value stays as it is written, and that is all that may be left:
an opening or an angle parameter that a value brings along or that forms where two texts meet, an
escape that has become an opening, and a name that was in use are all read anew the second time.

A text is settled if its only references are to names without a value. Whether it is depends on the
character in front, since a quote there protects the first opening and has the name of that
reference read as text. The values are settled by what `IsClean` says of them, from the innermost
level outwards. They are closed as well, so that a second reading finds in them what the first one
left there. The text itself need not be closed, because nothing comes behind it.

* **`settled_flatMap`** — a text whose references have been replaced by settled and closed texts is
  settled.
* **`isClean_of_plain_values`** — values without dollars and angle brackets leave the text clean.
* **`expand_expand`** — a clean expansion is stable.
-/

namespace StepPhrase.Reference

variable {scope : Scope} {afterQuote : Bool} {s t name value : Text}

/-! ## Texts that stay

Being settled is kept when texts are put together, as long as nothing new arises where they meet. An
opening that stays an opening has to be literal text in the place that it gets. -/

/-- A text has no escapes, and the names that it refers to have no values. `afterQuote` says whether
it stands behind a quote, which protects it. -/
structure Settled (scope : Scope) (afterQuote : Bool) (t : Text) : Prop where
  escape : IsEscapeFree t
  unbound : ∀ name, .reference name ∈ chunks true afterQuote t → scope.lookup? name = none

theorem settled_nil : Settled scope afterQuote [] := ⟨by simp [IsEscapeFree], by simp [chunks]⟩

theorem settled_singleton (c : Char) : Settled scope afterQuote [c] := by
  have hopening : c = '$' → ¬ ['{'] <+: ([] : Text) := fun _ => by decide
  refine ⟨isEscapeFree_singleton c, fun name hmem => ?_⟩
  rw [chunks_cons_of_not_opening (isEscapeFree_singleton c) hopening] at hmem
  simp [chunks] at hmem

namespace Settled

theorem append (hs : Settled scope afterQuote s) (hclosed : IsClosed s)
    (hmeet : s.getLast? = some '$' → ¬ Completes t)
    (ht : Settled scope (endsInQuote afterQuote s) t) :
    Settled scope afterQuote (s ++ t) := by
  refine ⟨hs.escape.append ht.escape hmeet, fun name hmem => ?_⟩
  rw [chunks_append_of_isClosed hclosed hmeet, List.mem_append] at hmem
  exact hmem.elim (hs.unbound name) (ht.unbound name)

theorem cons {c : Char} (hc : c = '$' → ¬ Completes t) (ht : Settled scope (c == '"') t) :
    Settled scope afterQuote (c :: t) := by
  have hclosed : IsClosed [c] := by
    rintro before after heq
    exact absurd (congrArg List.length heq) (by simp; omega)
  exact (settled_singleton c).append hclosed (fun hlast => hc (by simpa using hlast))
    (by simpa using ht)

/-- An opening is literal text behind a quote, or where nothing closes it. -/
theorem opening (ht : Settled scope false t) (h : afterQuote = true ∨ '}' ∉ t) :
    Settled scope afterQuote ('$' :: '{' :: t) := by
  have hchunks : chunks true afterQuote ('$' :: '{' :: t) =
      literalOpening (chunks true false t) := by
    by_cases hprotected : (true && afterQuote) = true
    · exact chunks_protected hprotected
    · have hbrace : '}' ∉ t := h.resolve_left fun hquote => hprotected hquote
      refine chunks_unclosed hprotected
        (Option.eq_none_iff_forall_ne_some.mpr fun ⟨name, rest⟩ hcut => ?_)
      exact hbrace (Text.exists_cut?_iff.mp ⟨name, rest, hcut⟩)
  constructor
  · simp [isEscapeFree_cons_iff, ht.escape]
  · intro name hmem
    rw [hchunks] at hmem
    exact ht.unbound name (by simpa [literalOpening] using hmem)

end Settled

/-- A reference to a name without a value stays. Behind a quote the name is read as text. -/
theorem settled_written (hvalue : scope.lookup? name = none) (hbrace : '}' ∉ name)
    (hescape : IsEscapeFree name)
    (hinside : afterQuote = true →
      ∀ inner, .reference inner ∈ chunks true false (name ++ ['}']) → scope.lookup? inner = none) :
    Settled scope afterQuote (written name) := by
  have hend : IsEscapeFree (name ++ ['}']) :=
    hescape.append (isEscapeFree_singleton '}') fun _ => by simp [completes_cons_iff]
  cases afterQuote with
  | true => exact Settled.opening ⟨hend, hinside rfl⟩ (.inl rfl)
  | false =>
    have hcut : (name ++ ['}']).cut? '}' = some (name, []) :=
      Text.cut?_eq_some_iff.mpr ⟨rfl, hbrace⟩
    refine ⟨by simp [written, isEscapeFree_cons_iff, hend], fun other hmem => ?_⟩
    rw [written, chunks_reference (by decide) hcut] at hmem
    obtain rfl : other = name := by simpa [chunks] using hmem
    exact hvalue

/-! ## Replacing chunks

A text is read once, its references are replaced, and the result is read again. Both readings go
along the same chunks: characters are there both times, and what replaces a reference is read by
itself. -/

/-- The references among some chunks are replaced by texts that stay, whatever follows them.
`behind` says whether what comes out stands behind a quote. -/
structure IsTame (scope : Scope) (replace : Chunk → Text) (behind : Bool)
    (cs : List Chunk) : Prop where
  settled : ∀ before name after, cs = before ++ .reference name :: after →
    Settled scope (endsInQuote behind (before.flatMap replace)) (replace (.reference name))
  closed : ∀ name, .reference name ∈ cs → IsClosed (replace (.reference name))
  joins : ∀ before name after, cs = before ++ .reference name :: after →
    (replace (.reference name)).getLast? = some '$' → ¬ Completes (after.flatMap replace)

section Replacing

variable {replace : Chunk → Text} {protects behind : Bool}

theorem IsTame.tail {chunk : Chunk} {cs : List Chunk}
    (h : IsTame scope replace behind (chunk :: cs)) :
    IsTame scope replace (endsInQuote behind (replace chunk)) cs := by
  refine ⟨?_, fun name hmem => h.closed name (List.mem_cons_of_mem chunk hmem), ?_⟩
  · intro before name after hcs
    have hsettled := h.settled (chunk :: before) name after (by rw [hcs, List.cons_append])
    rwa [List.flatMap_cons, endsInQuote_append] at hsettled
  · intro before name after hcs
    exact h.joins (chunk :: before) name after (by rw [hcs, List.cons_append])

/-- What a dollar in front would make nothing of stays so. -/
theorem not_completes_flatMap (hchar : ∀ c, replace (.char c) = [c]) (hescape : IsEscapeFree t)
    (h : ¬ Completes t) : ¬ Completes ((chunks protects afterQuote t).flatMap replace) := by
  induction t generalizing afterQuote with
  | nil => simpa [chunks] using h
  | cons c t ih =>
    rw [completes_cons_iff] at h
    have hopening : c = '$' → ¬ ['{'] <+: t := fun hc hbrace => h (.inr ⟨hc, hbrace⟩)
    rw [chunks_cons_of_not_opening hescape hopening, List.flatMap_cons, hchar,
      List.singleton_append, completes_cons_iff]
    rintro (rfl | ⟨rfl, hbrace⟩)
    · exact h (.inl rfl)
    · refine ih hescape.of_cons ?_ (.inl hbrace)
      rw [← completes_cons_iff] at h
      exact not_completes_of_cons hescape h

theorem brace_not_mem_flatMap (hchar : ∀ c, replace (.char c) = [c]) (hbrace : '}' ∉ t) :
    '}' ∉ (chunks protects afterQuote t).flatMap replace := by
  intro hmem
  obtain ⟨chunk, hchunk, hmem⟩ := List.mem_flatMap.mp hmem
  have hin := isIn_of_mem_chunks hchunk
  cases chunk with
  | char c =>
    rw [hchar, List.mem_singleton] at hmem
    exact hbrace (hmem ▸ hin)
  | reference name => exact hbrace (hin.2.subset (by simp [written]))

theorem dollar_not_completes_flatMap {c : Char} (hchar : ∀ c, replace (.char c) = [c])
    (hescape : IsEscapeFree (c :: t))
    (hnotEscape : ∀ rest, c = '$' → t = '$' :: '{' :: rest → False)
    (hopening : ∀ rest, c = '$' → t = '{' :: rest → False) (hc : c = '$') :
    ¬ Completes ((chunks protects afterQuote t).flatMap replace) := by
  refine not_completes_flatMap hchar hescape.of_cons ?_
  rintro (⟨rest, rfl⟩ | ⟨rest, rfl⟩)
  · exact hopening rest hc rfl
  · exact hnotEscape rest hc rfl

/-- **A text with its references replaced by texts that stay is one that stays**, by induction on
the reading of it. What comes out may stand behind a quote where the text did not, for a reference
in front may have brought one. -/
theorem settled_flatMap (hchar : ∀ c, replace (.char c) = [c]) (hescape : IsEscapeFree t)
    (htame : IsTame scope replace behind (chunks protects afterQuote t))
    (hquote : (protects && afterQuote) = true → behind = true) :
    Settled scope behind ((chunks protects afterQuote t).flatMap replace) := by
  induction afterQuote, t using chunks.induct protects generalizing behind with
  | case1 =>
    rw [chunks]
    exact settled_nil
  | case2 _ t => exact absurd ⟨[], t, rfl⟩ hescape
  | case3 _ t hprotected ih =>
    rw [chunks_protected hprotected] at htame ⊢
    have htail := htame.tail.tail
    simp only [literalOpening, List.flatMap_cons, hchar, List.singleton_append] at htail ⊢
    refine Settled.opening (ih (hescape.of_append (s := ['$', '{'])) htail fun h => ?_)
      (.inl (hquote hprotected))
    simp at h
  | case4 _ t hopen name rest hcut ih =>
    obtain ⟨rfl, -⟩ := Text.eq_of_cut? hcut
    rw [chunks_reference hopen hcut] at htame ⊢
    have hsplit : '$' :: '{' :: (name ++ '}' :: rest) = written name ++ rest := by simp [written]
    rw [hsplit] at hescape
    rw [List.flatMap_cons]
    -- what replaces the reference is settled, and closed so that what follows does not reach into
    -- it
    refine (htame.settled [] name _ rfl).append (htame.closed name List.mem_cons_self)
      (htame.joins [] name _ rfl) (ih hescape.of_append htame.tail fun h => ?_)
    simp at h
  | case5 _ t hopen hcut ih =>
    -- nothing closes the opening, neither what was read nor what replaces it
    have hbrace : '}' ∉ t := by
      rw [← Text.exists_cut?_iff, hcut]
      simp
    rw [chunks_unclosed hopen hcut] at htame ⊢
    have htail := htame.tail.tail
    simp only [literalOpening, List.flatMap_cons, hchar, List.singleton_append] at htail ⊢
    refine Settled.opening (ih (hescape.of_append (s := ['$', '{'])) htail fun h => ?_)
      (.inr (brace_not_mem_flatMap hchar hbrace))
    simp at h
  | case6 _ c t hnotEscape hopening ih =>
    rw [chunks.eq_4 _ _ _ _ hnotEscape hopening] at htame ⊢
    have htail := htame.tail
    rw [hchar, endsInQuote_cons, endsInQuote_nil] at htail
    rw [List.flatMap_cons, hchar, List.singleton_append]
    refine Settled.cons (dollar_not_completes_flatMap hchar hescape hnotEscape hopening)
      (ih hescape.of_cons htail fun h => ?_)
    exact (Bool.and_eq_true_iff.mp h).2

/-- A value is closed behind its replacements if it is closed itself and they are. What closes an
opening is a brace that was read, or it stands in the same replacement. -/
theorem isClosed_flatMap (hchar : ∀ c, replace (.char c) = [c]) (hescape : IsEscapeFree t)
    (hclosed : IsClosed t) (htame : IsTame scope replace behind (chunks false afterQuote t)) :
    IsClosed ((chunks false afterQuote t).flatMap replace) := by
  induction afterQuote, t using chunks.induct false generalizing behind with
  | case1 => simp [chunks, IsClosed]
  | case2 _ t => exact absurd ⟨[], t, rfl⟩ hescape
  | case3 _ t hprotected => simp at hprotected
  | case4 _ t hopen name rest hcut ih =>
    obtain ⟨rfl, -⟩ := Text.eq_of_cut? hcut
    rw [chunks_reference hopen hcut] at htame ⊢
    have hsplit : '$' :: '{' :: (name ++ '}' :: rest) = written name ++ rest := by simp [written]
    rw [hsplit] at hescape hclosed
    rw [List.flatMap_cons]
    exact (htame.closed name List.mem_cons_self).append
      (ih hescape.of_append hclosed.of_append htame.tail)
      fun hlast hbrace => htame.joins [] name _ rfl hlast (.inl hbrace)
  | case5 _ t hopen hcut ih =>
    have hbrace := Text.exists_cut?_iff.mpr (hclosed [] t rfl)
    simp [hcut] at hbrace
  | case6 _ c t hnotEscape hopening ih =>
    rw [chunks.eq_4 _ _ _ _ hnotEscape hopening] at htame ⊢
    rw [List.flatMap_cons, hchar, List.singleton_append, isClosed_cons_iff]
    refine ⟨fun after hc heq => ?_, ih hescape.of_cons (hclosed.of_append (s := [c])) htame.tail⟩
    exact absurd (.inl ⟨after, heq.symm⟩)
      (dollar_not_completes_flatMap hchar hescape hnotEscape hopening hc)

end Replacing

/-! ## Clean expansions

What is asked is asked of the levels that are reached, that is of the text and the values that take
part, and not of the result. In the induction the result of a value is settled wherever it is put,
while the text itself is known to stand behind no quote. -/

/-- Nothing is met in the expansion of a text that a second one would read in another way. -/
structure IsClean (scope : Scope) (t : Text) : Prop where
  /-- Neither a value nor the text, with its angle parameters written as references, has an escape.
  -/
  escape : ∀ level, Reached scope t level → IsEscapeFree level.text
  /-- A value closes what it opens. -/
  closed : ∀ level, Reached scope t level → level.inUse ≠ [] → IsClosed level.text
  /-- No name refers to itself by way of its value. -/
  cycles : ∀ level name, Reached scope t level → .reference name ∈ level.chunks → name ∉ level.inUse
  /-- A name without a value that comes to stand behind a quote has no reference in it to a name
  with one. Of what stands at the beginning of a value it is not known what is in front. -/
  names : ∀ level before name after, Reached scope t level →
    level.chunks = before ++ .reference name :: after → scope.lookup? name = none →
    endsInQuote (!level.protects) (before.flatMap (level.replacement scope)) = true →
    ∀ inner, .reference inner ∈ chunks true false (name ++ ['}']) → scope.lookup? inner = none
  /-- A dollar at the end of what a reference is replaced by makes no opening of what follows. -/
  joins : ∀ level before name after, Reached scope t level →
    level.chunks = before ++ .reference name :: after →
    (level.replacement scope (.reference name)).getLast? = some '$' →
    ¬ Completes (after.flatMap (level.replacement scope))
  /-- There is no bracket that opens an angle parameter, or else none that closes one and no
  backslash. -/
  angles : (∀ level, Reached scope t level → '<' ∉ level.text)
    ∨ ∀ level, Reached scope t level → '>' ∉ level.text ∧ '\\' ∉ level.text

namespace IsClean

variable {level : Level} {behind : Bool}

/-- What references are replaced by stays if the values inside do. Names without a value are
replaced by references that stay, and no name is met while it is in use. -/
theorem isTame (h : IsClean scope t) (hreached : Reached scope t level)
    (hbehind : behind = true → level.protects = false)
    (hinside : ∀ inner behind, Opens scope level inner →
      Settled scope behind (inner.expansion scope) ∧ IsClosed (inner.expansion scope)) :
    IsTame scope (level.replacement scope) behind level.chunks := by
  refine ⟨fun before name after hchunks => ?_, fun name hmem => ?_, fun before name after =>
    h.joins level before name after hreached⟩
  · have hmem : .reference name ∈ level.chunks := by
      rw [hchunks]
      exact List.mem_append_right before List.mem_cons_self
    cases hvalue : scope.lookup? name with
    | none =>
      obtain ⟨hbrace, hwritten⟩ := isIn_of_mem_chunks hmem
      have hname : name <:+: level.text :=
        (show name <:+: written name from ⟨['$', '{'], ['}'], rfl⟩).trans hwritten
      rw [Level.replacement_unbound hvalue]
      -- a name without a value stays, read as a reference or, behind a quote, as text
      refine settled_written hvalue hbrace
        ((h.escape level hreached).of_isPart hname) fun hquote => ?_
      refine h.names level before name after hreached hchunks hvalue ?_
      cases behind with
      | true => rwa [hbehind rfl]
      | false => exact endsInQuote_of_false hquote
    | some value =>
      have hfree := h.cycles level name hreached hmem
      rw [Level.replacement_inside hvalue hfree]
      exact (hinside _ _ (.inside hmem hvalue hfree)).1
  · cases hvalue : scope.lookup? name with
    | none =>
      rw [Level.replacement_unbound hvalue]
      exact isClosed_of_getLast? (getLast?_written name)
    | some value =>
      have hfree := h.cycles level name hreached hmem
      rw [Level.replacement_inside hvalue hfree]
      exact (hinside _ false (.inside hmem hvalue hfree)).2

/-- The value of a name stays, whatever stands around it: by induction on the names that are left to
replace in it. -/
theorem settled_expansion (h : IsClean scope t) (hreached : Reached scope t level)
    (hinUse : level.inUse ≠ []) (behind : Bool) :
    Settled scope behind (level.expansion scope) ∧ IsClosed (level.expansion scope) := by
  induction hn : (level.available scope).length using Nat.strongRecOn generalizing level behind with
  | ind n ih =>
    -- the level is that of a value, where a quote protects nothing
    obtain ⟨hprotects, -⟩ := hreached.eq_outermost_or.resolve_left fun heq => by
      rw [heq] at hinUse
      exact hinUse rfl
    have htame : IsTame scope (level.replacement scope) behind level.chunks := by
      refine h.isTame hreached (fun _ => hprotects) fun inner behind hopens => ?_
      cases hopens with
      | inside hmem hvalue hfree =>
        exact ih _ (hn ▸ Level.length_available_inside_lt hvalue hfree)
          (hreached.tail (.inside hmem hvalue hfree)) (List.cons_ne_nil _ _) behind rfl
    have hescape := h.escape level hreached
    rw [Level.expansion, Level.chunks, hprotects]
    rw [Level.chunks, hprotects] at htame
    exact ⟨settled_flatMap (fun _ => rfl) hescape htame (fun hquote => by simp at hquote),
      isClosed_flatMap (fun _ => rfl) hescape (h.closed level hreached hinUse) htame⟩

theorem settled_expand (h : IsClean scope t) : Settled scope false (expand scope t) := by
  rw [expand_eq]
  refine settled_flatMap (fun _ => rfl) (h.escape _ .refl)
    (h.isTame .refl (fun hquote => by simp at hquote) ?_) fun hquote =>
      by simp [outermost] at hquote
  intro inner behind hopens
  refine h.settled_expansion (.tail .refl hopens) ?_ behind
  cases hopens
  exact List.cons_ne_nil _ _

end IsClean

/-! ## Angle parameters

A second expansion also converts the text again. It finds nothing to convert if one of the
characters that a parameter needs is nowhere, neither in the text nor in a value. -/

/-- A character that comes out stands in one of the texts that are read, by induction on the names
that are left to replace. -/
theorem exists_mem_of_mem_expansion {level : Level} {c : Char} (h : c ∈ level.expansion scope) :
    ∃ inner, Relation.ReflTransGen (Opens scope) level inner ∧ c ∈ inner.text := by
  induction hn : (level.available scope).length using Nat.strongRecOn generalizing level with
  | ind n ih =>
    obtain ⟨chunk, hchunk, hc⟩ := List.mem_flatMap.mp h
    have hin := isIn_of_mem_chunks hchunk
    cases chunk with
    | char d =>
      -- a character comes from the text of the level
      obtain rfl : c = d := List.mem_singleton.mp hc
      exact ⟨level, .refl, hin⟩
    | reference name =>
      cases hvalue : scope.lookup? name with
      | none =>
        rw [Level.replacement_unbound hvalue] at hc
        exact ⟨level, .refl, hin.2.subset hc⟩
      | some value =>
        by_cases hused : name ∈ level.inUse
        · rw [Level.replacement_inUse hused] at hc
          exact ⟨level, .refl, hin.2.subset hc⟩
        · rw [Level.replacement_inside hvalue hused] at hc
          obtain ⟨inner, hinner, hmem⟩ :=
            ih _ (hn ▸ Level.length_available_inside_lt hvalue hused) hc rfl
          exact ⟨inner, .head (.inside hchunk hvalue hused) hinner, hmem⟩

theorem isConverted_of_not_mem (hclose : '>' ∉ t) (hback : '\\' ∉ t) : IsConverted t := by
  refine ⟨fun hescape => hback (hescape.subset List.mem_cons_self), ?_⟩
  rintro before after rfl
  refine Option.eq_none_iff_forall_ne_some.mpr fun ⟨name, rest⟩ hsome => hclose ?_
  rw [eq_of_angleName? hsome]
  simp

/-- The text that comes out of a clean expansion has no angle parameters. -/
theorem IsClean.dollarForm_expand (h : IsClean scope t) :
    dollarForm (expand scope t) = expand scope t := by
  -- a character that is nowhere among the texts that are read is not in the result
  have hread : ∀ c, (∀ level, Reached scope t level → c ∉ level.text) → c ∉ expand scope t := by
    intro c hc hmem
    rw [expand_eq] at hmem
    obtain ⟨level, hreached, hmem⟩ := exists_mem_of_mem_expansion hmem
    exact hc level hreached hmem
  rw [dollarForm_eq_self_iff]
  rcases h.angles with hopen | hclose
  · have hbracket := hread '<' hopen
    refine ⟨fun hescape => hbracket (hescape.subset (by simp)), fun before after heq => ?_⟩
    exact absurd (by rw [heq]; simp) hbracket
  · exact isConverted_of_not_mem (hread '>' fun level hreached => (hclose level hreached).1)
      (hread '\\' fun level hreached => (hclose level hreached).2)

/-! ## Plain values

Most values are plain. Then the text is all that is read, and the conditions come down to conditions
on the text. -/

/-- **Values without dollars and brackets are put in as they are**, so only the text itself can be
unclean. -/
theorem isClean_of_plain_values
    (hvalues : ∀ name value, scope.lookup? name = some value → '$' ∉ value ∧ '<' ∉ value)
    (hescape : IsEscapeFree (dollarForm t)) (hangle : '<' ∉ dollarForm t)
    (hnames : ∀ before name after, (outermost t).chunks = before ++ .reference name :: after →
      scope.lookup? name = none →
      endsInQuote false (before.flatMap ((outermost t).replacement scope)) = true →
      ∀ inner, .reference inner ∈ chunks true false (name ++ ['}']) → scope.lookup? inner = none) :
    IsClean scope t := by
  have hplain : ∀ level, Reached scope t level →
      level = outermost t ∨ '$' ∉ level.text ∧ '<' ∉ level.text := by
    intro level hreached
    refine hreached.eq_outermost_or.imp_right ?_
    rintro ⟨-, -, name, hvalue⟩
    exact hvalues name _ hvalue
  -- there is nothing to replace in the values, so references are met in the text itself only
  have hreference : ∀ level name, Reached scope t level → .reference name ∈ level.chunks →
      level = outermost t := by
    intro level name hreached hmem
    refine (hplain level hreached).resolve_right fun hdollar => ?_
    rw [Level.chunks, chunks_of_dollar_not_mem hdollar.1] at hmem
    simp at hmem
  have hsplit : ∀ level before name after, Reached scope t level →
      level.chunks = before ++ .reference name :: after → level = outermost t := by
    intro level before name after hreached hchunks
    refine hreference level name hreached ?_
    rw [hchunks]
    exact List.mem_append_right before List.mem_cons_self
  constructor
  · intro level hreached
    rcases hplain level hreached with rfl | ⟨hdollar, -⟩
    · exact hescape
    · exact fun hdouble => hdollar (hdouble.subset List.mem_cons_self)
  · intro level hreached hinUse
    have hdollar := (hplain level hreached).resolve_left fun heq => by
      rw [heq] at hinUse
      exact hinUse rfl
    intro before after heq
    exact absurd (by rw [heq]; simp) hdollar.1
  · intro level name hreached hmem
    rw [hreference level name hreached hmem]
    exact List.not_mem_nil
  · intro level before name after hreached hchunks
    obtain rfl := hsplit level before name after hreached hchunks
    exact hnames before name after hchunks
  · intro level before name after hreached hchunks hlast
    obtain rfl := hsplit level before name after hreached hchunks
    cases hvalue : scope.lookup? name with
    | none =>
      rw [Level.replacement_unbound hvalue, getLast?_written] at hlast
      exact absurd hlast (by decide)
    | some value =>
      have hdollar := (hvalues name value hvalue).1
      rw [Level.replacement_inside hvalue List.not_mem_nil,
        Level.expansion_of_dollar_not_mem hdollar] at hlast
      exact absurd (List.mem_of_getLast? hlast) hdollar
  · refine .inl fun level hreached => ?_
    rcases hplain level hreached with rfl | ⟨-, hbracket⟩
    · exact hangle
    · exact hbracket

/-! ## Expanding again

A settled text has no reference that is replaced and no escape that is taken off, and with nothing
to convert it is left as it is. -/

/-- **Expansion is stable** where the expansion of the text is clean: the result is settled and has
nothing to convert, so a second expansion leaves it as it is. -/
theorem expand_expand (hclean : IsClean scope t) :
    expand scope (expand scope t) = expand scope t := by
  have hsettled := hclean.settled_expand
  have hagain : (outermost (expand scope t)).text = expand scope t := hclean.dollarForm_expand
  rw [← hagain] at hsettled
  rw [expand_eq scope (expand scope t),
    Level.expansion_of_unbound hsettled.escape hsettled.unbound, hagain]

/-- A name with a value, the same behind a quote, and a name without one that has another reference
in it. -/
theorem expand_expand_address :
    ∃ scope, IsClean scope "<url> \"${url}\" $\x7bgone${url}".toList
      ∧ expand scope "<url> \"${url}\" $\x7bgone${url}".toList =
        "h/5 \"${url}\" $\x7bgone${url}".toList
      ∧ expand scope "h/5 \"${url}\" $\x7bgone${url}".toList =
        "h/5 \"${url}\" $\x7bgone${url}".toList := by
  let scope : Scope := ⟨.empty, ⟨[("url".toList, .string "h/5".toList)]⟩⟩
  have hurl : scope.lookup? "url".toList = some "h/5".toList := by decide +kernel
  have hclean : IsClean scope "<url> \"${url}\" $\x7bgone${url}".toList := by
    refine isClean_of_plain_values ?_ ?_ (by decide +kernel) ?_
    · intro name value hvalue
      by_cases hname : name = "url".toList
      · rw [hname, hurl] at hvalue
        obtain rfl := Option.some.inj hvalue
        decide
      · have hne : (name == "url".toList) = false := beq_eq_false_iff_ne.mpr hname
        have hnone : scope.lookup? name = none := by
          simp only [scope, Scope.lookup?, Bindings.get?, Bindings.empty, List.lookup_cons,
            List.lookup_nil, hne]
          rfl
        cases hnone.symm.trans hvalue
    · exact (by decide +kernel :
        ¬ ['$', '$', '{'] <:+: dollarForm "<url> \"${url}\" $\x7bgone${url}".toList)
    · intro before name after hchunks hnone hquote
      let front : List Chunk := .reference "url".toList :: " \"${url}\" ".toList.map .char
      have hsplit : (outermost "<url> \"${url}\" $\x7bgone${url}".toList).chunks =
          front ++ [.reference "gone$\x7burl".toList] := by
        decide +kernel
      rw [hsplit] at hchunks
      -- what is in front of the name without a value ends in a blank
      rcases List.eq_nil_or_concat after with rfl | ⟨after, last, rfl⟩
      · obtain ⟨rfl, -⟩ := List.append_inj' hchunks rfl
        exact absurd hquote (by decide +kernel)
      · rw [List.concat_eq_append, ← List.cons_append, ← List.append_assoc] at hchunks
        have hmem : .reference name ∈ front := by
          rw [(List.append_inj' hchunks rfl).1]
          simp
        obtain rfl : name = "url".toList := by simpa [front] using hmem
        cases hurl.symm.trans hnone
  have hout : expand scope "<url> \"${url}\" $\x7bgone${url}".toList =
      "h/5 \"${url}\" $\x7bgone${url}".toList := by
    decide +kernel
  have hagain := expand_expand hclean
  rw [hout] at hagain
  exact ⟨scope, hclean, hout, hagain⟩

/-- What a value brings along is read the second time: an angle parameter, an escape that has become
an opening, and the name that was being replaced. -/
theorem exists_expand_expand_ne :
    ∃ t, ¬ ['$', '$', '{'] <:+: t ∧ ¬ ['\\', '<'] <:+: t
      ∧ ∀ values ∈ [("<b>", "x"), ("$${b}", "x"), ("x${b}", "y${a}")],
        ∃ scope : Scope, scope.lookup? ['a'] = some values.1.toList
          ∧ scope.lookup? ['b'] = some values.2.toList
          ∧ expand scope (expand scope t) ≠ expand scope t := by
  refine ⟨"${a}".toList, by decide, by decide, fun values hvalues => ?_⟩
  refine ⟨⟨.empty, ⟨[(['a'], .string values.1.toList), (['b'], .string values.2.toList)]⟩⟩, rfl,
    rfl, ?_⟩
  simp only [List.mem_cons, List.not_mem_nil, or_false] at hvalues
  rcases hvalues with rfl | rfl | rfl <;> decide +kernel

end StepPhrase.Reference
