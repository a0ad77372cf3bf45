import Mathlib.Data.List.Infix
import StepPhrase.Reference.Chunk

/-!
# Openings

What a text means as one with references is settled at its openings, the places where it has `${`.
An opening with a second dollar in front is an escape, one behind a quote may be protected, and one
that no brace closes is literal text. A text without escapes and with all of its openings closed can
be read before it is known what follows it, unless a dollar at its end makes an opening of what
follows. All that is handed on from one text to the other is whether the first ends in a quote.

* **`chunks_append_of_isClosed`** — a text whose openings are closed is read by itself.
* **`flatMap_source_chunks`** — the chunks are the whole text, if it has no escapes.
* **`isIn_of_mem_chunks`** — a chunk stands in the text that it comes from.
-/

namespace StepPhrase.Reference

variable {s t : Text}

theorem getLast?_written (name : Text) : (written name).getLast? = some '}' := by
  have hsplit : written name = ('$' :: '{' :: name) ++ ['}'] := rfl
  rw [hsplit, List.getLast?_concat]

/-! ## Escapes and braces

Both properties are about every place in a text, so a part of a text that ends where it ends has
them too. For a text with another one in front, what matters is the dollar at the border. -/

/-- No opening has a second dollar in front, so none of the openings is kept from being one. -/
def IsEscapeFree (t : Text) : Prop := ¬ ['$', '$', '{'] <:+: t

/-- Every opening has a closing brace behind it, not necessarily one of its own: two openings may be
closed by the same brace. -/
def IsClosed (t : Text) : Prop := ∀ before after, t = before ++ '$' :: '{' :: after → '}' ∈ after

/-- A dollar in front of a text makes an opening of it, or an escape. This is where two texts that
are put together may be read in another way than each by itself. -/
def Completes (t : Text) : Prop := ['{'] <+: t ∨ ['$', '{'] <+: t

theorem completes_cons_iff {c : Char} : Completes (c :: t) ↔ c = '{' ∨ c = '$' ∧ ['{'] <+: t := by
  simp [Completes, List.cons_prefix_cons, eq_comm]

theorem isEscapeFree_cons_iff {c : Char} :
    IsEscapeFree (c :: t) ↔ ¬ (c = '$' ∧ ['$', '{'] <+: t) ∧ IsEscapeFree t := by
  rw [IsEscapeFree, List.infix_cons_iff, List.cons_prefix_cons, not_or, eq_comm, IsEscapeFree]

theorem isEscapeFree_singleton (c : Char) : IsEscapeFree [c] :=
  fun hescape => by simpa using hescape.length_le

theorem isClosed_cons_iff {c : Char} :
    IsClosed (c :: t) ↔ (∀ after, c = '$' → t = '{' :: after → '}' ∈ after) ∧ IsClosed t := by
  constructor
  · intro h
    refine ⟨fun after hc ht => h [] after (by rw [hc, ht]; rfl), fun before after ht => ?_⟩
    exact h (c :: before) after (by rw [ht]; rfl)
  · rintro ⟨hfirst, hrest⟩ before after heq
    cases before with
    | nil => exact hfirst after (List.cons.inj heq).1 (List.cons.inj heq).2
    | cons b before => exact hrest before after (List.cons.inj heq).2

namespace IsEscapeFree

theorem of_isPart (h : IsEscapeFree t) (hpart : s <:+: t) : IsEscapeFree s :=
  fun hescape => h (hescape.trans hpart)

theorem of_append (h : IsEscapeFree (s ++ t)) : IsEscapeFree t :=
  h.of_isPart (List.suffix_append s t).isInfix

theorem of_cons {c : Char} (h : IsEscapeFree (c :: t)) : IsEscapeFree t := of_append (s := [c]) h

/-- Two texts meet where the first does not end in the dollar of an opening or an escape. -/
theorem append (hs : IsEscapeFree s) (ht : IsEscapeFree t)
    (hmeet : s.getLast? = some '$' → ¬ Completes t) : IsEscapeFree (s ++ t) := by
  induction s with
  | nil => exact ht
  | cons c s ih =>
    rw [List.cons_append, isEscapeFree_cons_iff]
    rw [isEscapeFree_cons_iff] at hs
    refine ⟨?_, ih hs.2 fun hlast => hmeet (by rw [List.getLast?_cons, hlast]; rfl)⟩
    rintro ⟨rfl, hprefix⟩
    -- the other two characters are both in `t`, one in each text, or both in `s`
    rcases s with _ | ⟨d, _ | ⟨e, s⟩⟩
    · exact hmeet rfl (.inr hprefix)
    · rw [List.singleton_append, List.cons_prefix_cons] at hprefix
      exact hmeet (by rw [← hprefix.1]; rfl) (.inl hprefix.2)
    · simp only [List.cons_append, List.cons_prefix_cons, List.nil_prefix, and_true] at hprefix
      exact hs.1 ⟨rfl, by simp [← hprefix.1, ← hprefix.2]⟩

end IsEscapeFree

namespace IsClosed

theorem of_append (h : IsClosed (s ++ t)) : IsClosed t :=
  fun before after ht => h (s ++ before) after (by rw [ht, List.append_assoc])

theorem append (hs : IsClosed s) (ht : IsClosed t) (hmeet : s.getLast? = some '$' → ¬ ['{'] <+: t) :
    IsClosed (s ++ t) := by
  induction s with
  | nil => exact ht
  | cons c s ih =>
    rw [isClosed_cons_iff] at hs
    rw [List.cons_append, isClosed_cons_iff]
    refine ⟨fun after hc heq => ?_, ih hs.2 fun hlast =>
      hmeet (by rw [List.getLast?_cons, hlast]; rfl)⟩
    cases s with
    | nil => exact absurd ⟨after, heq.symm⟩ (hmeet (by rw [hc]; rfl))
    | cons d s =>
      obtain ⟨rfl, rfl⟩ := List.cons.inj heq
      exact List.mem_append_left t (hs.1 s hc rfl)

end IsClosed

theorem isClosed_of_getLast? (h : t.getLast? = some '}') : IsClosed t := by
  rintro before after rfl
  rw [List.getLast?_append, List.getLast?_cons_cons, List.getLast?_cons, Option.some_or] at h
  cases hafter : after.getLast? with
  | none =>
    rw [hafter] at h
    exact absurd h (by decide)
  | some c =>
    rw [hafter] at h
    exact List.mem_of_getLast? (hafter.trans h)

theorem not_completes_of_cons (h : IsEscapeFree ('$' :: t)) (hopening : ¬ Completes ('$' :: t)) :
    ¬ Completes t := by
  rintro (hbrace | ⟨rest, rfl⟩)
  · exact hopening (completes_cons_iff.mpr (.inr ⟨rfl, hbrace⟩))
  · exact h ⟨[], rest, rfl⟩

/-! ## Chunks of a text

Reading goes from opening to opening and only remembers whether there was a quote just before. So
two texts are read one after the other, unless an opening in the first is closed by the second or
one arises between them. -/

/-- Whether the text behind a text stands behind a quote; `afterQuote` says whether the text itself
does. -/
def endsInQuote (afterQuote : Bool) (t : Text) : Bool := (t.getLast?.map (· == '"')).getD afterQuote

@[simp] theorem endsInQuote_nil (afterQuote : Bool) : endsInQuote afterQuote [] = afterQuote := rfl

@[simp] theorem endsInQuote_cons (afterQuote : Bool) (c : Char) (t : Text) :
    endsInQuote afterQuote (c :: t) = endsInQuote (c == '"') t := by
  rw [endsInQuote, endsInQuote, List.getLast?_cons]
  cases t.getLast? <;> rfl

@[simp] theorem endsInQuote_append (afterQuote : Bool) (s t : Text) :
    endsInQuote afterQuote (s ++ t) = endsInQuote (endsInQuote afterQuote s) t := by
  induction s generalizing afterQuote with
  | nil => rfl
  | cons c s ih => rw [List.cons_append, endsInQuote_cons, endsInQuote_cons, ih]

@[simp] theorem endsInQuote_written (afterQuote : Bool) (name : Text) :
    endsInQuote afterQuote (written name) = false := by
  rw [endsInQuote, getLast?_written]
  rfl

theorem endsInQuote_of_false (h : endsInQuote false t = true) {afterQuote : Bool} :
    endsInQuote afterQuote t = true := by
  cases t with
  | nil => cases h
  | cons c t => rwa [endsInQuote_cons] at h ⊢

section Chunks

variable {protects afterQuote : Bool}

theorem chunks_cons_of_not_opening {c : Char} (h : IsEscapeFree (c :: t))
    (hopening : c = '$' → ¬ ['{'] <+: t) :
    chunks protects afterQuote (c :: t) = .char c :: chunks protects (c == '"') t := by
  refine chunks.eq_4 _ _ _ _ ?_ ?_
  · rintro rest rfl rfl
    exact h ⟨[], rest, rfl⟩
  · rintro rest hc rfl
    exact hopening hc ⟨rest, rfl⟩

theorem chunks_protected (h : (protects && afterQuote) = true) :
    chunks protects afterQuote ('$' :: '{' :: t) = literalOpening (chunks protects false t) := by
  rw [chunks, if_pos h]

theorem chunks_reference {name rest : Text} (h : ¬ (protects && afterQuote) = true)
    (hcut : t.cut? '}' = some (name, rest)) :
    chunks protects afterQuote ('$' :: '{' :: t) =
      .reference name :: chunks protects false rest := by
  rw [chunks, if_neg h]
  split
  · next hcut' =>
    obtain ⟨rfl, rfl⟩ := Prod.mk.inj (Option.some.inj (hcut.symm.trans hcut'))
    rfl
  · next hnone => cases hcut.symm.trans hnone

theorem chunks_unclosed (h : ¬ (protects && afterQuote) = true) (hcut : t.cut? '}' = none) :
    chunks protects afterQuote ('$' :: '{' :: t) = literalOpening (chunks protects false t) := by
  rw [chunks, if_neg h]
  split
  · next hsome => cases hcut.symm.trans hsome
  · rfl

/-- **A text is read by itself** if its openings are closed: what follows it neither closes one of
them nor makes one of a dollar at the end. By induction on the reading of the text in front. -/
theorem chunks_append_of_isClosed (hclosed : IsClosed s)
    (hmeet : s.getLast? = some '$' → ¬ Completes t) :
    chunks protects afterQuote (s ++ t) =
      chunks protects afterQuote s ++ chunks protects (endsInQuote afterQuote s) t := by
  -- the border is at the same place for what is left of the text in front
  have hbehind : ∀ (front : Text) {s : Text}, ((front ++ s).getLast? = some '$' → ¬ Completes t) →
      s.getLast? = some '$' → ¬ Completes t :=
    fun _ _ hmeet hlast => hmeet (by rw [List.getLast?_append, hlast, Option.some_or])
  induction afterQuote, s using chunks.induct protects with
  | case1 => simp [chunks]
  | case2 _ s ih =>
    have hrest := ih (hclosed.of_append (s := ['$', '$', '{'])) (hbehind ['$', '$', '{'] hmeet)
    simp [chunks, hrest, literalOpening]
  | case3 _ s hprotected ih =>
    have hrest := ih (hclosed.of_append (s := ['$', '{'])) (hbehind ['$', '{'] hmeet)
    simp [chunks_protected hprotected, hrest, literalOpening]
  | case4 _ s hopen name rest hcut ih =>
    have hsplit : '$' :: '{' :: s = written name ++ rest := by
      simp [(Text.eq_of_cut? hcut).1, written]
    -- a reference ends with a brace, so there is no quote in front of what is behind it
    have hquote (before : Bool) :
        endsInQuote before ('$' :: '{' :: s) = endsInQuote false rest := by
      rw [hsplit, endsInQuote_append, endsInQuote_written]
    rw [hsplit] at hclosed hmeet
    rw [hquote, List.cons_append, List.cons_append,
      chunks_reference hopen (Text.cut?_append hcut t),
      chunks_reference hopen hcut, ih hclosed.of_append (hbehind _ hmeet), List.cons_append]
  | case5 _ s hopen hcut ih =>
    have hbrace := Text.exists_cut?_iff.mpr (hclosed [] s rfl)
    simp [hcut] at hbrace
  | case6 _ c s hescape hopening ih =>
    have hrest := ih (hclosed.of_append (s := [c])) (hbehind [c] hmeet)
    rw [List.cons_append, chunks.eq_4 _ _ _ _ hescape hopening, endsInQuote_cons,
      List.cons_append, ← hrest]
    -- the character is plain with the other text behind it as well: the border makes no opening
    refine chunks.eq_4 _ _ _ _ ?_ ?_
    · rintro rest rfl heq
      rcases s with _ | ⟨d, _ | ⟨e, s⟩⟩
      · exact hmeet rfl (.inr ⟨rest, heq.symm⟩)
      · obtain ⟨rfl, hbrace⟩ := List.cons.inj heq
        exact hmeet rfl (.inl ⟨rest, hbrace.symm⟩)
      · obtain ⟨rfl, hbrace⟩ := List.cons.inj heq
        obtain ⟨rfl, -⟩ := List.cons.inj hbrace
        exact hescape s rfl rfl
    · rintro rest rfl heq
      rcases s with _ | ⟨d, s⟩
      · exact hmeet rfl (.inl ⟨rest, heq.symm⟩)
      · obtain ⟨rfl, -⟩ := List.cons.inj heq
        exact hopening s rfl rfl

theorem chunks_of_dollar_not_mem (h : '$' ∉ t) : chunks protects afterQuote t = t.map .char := by
  induction t generalizing afterQuote with
  | nil => simp [chunks]
  | cons c t ih =>
    rw [List.mem_cons, not_or] at h
    rw [chunks.eq_4 _ _ _ _ (fun _ hc => absurd hc.symm h.1) fun _ hc => absurd hc.symm h.1, ih h.2,
      List.map_cons]

theorem chunks_append (h : '$' ∉ s) (t : Text) :
    chunks protects afterQuote (s ++ t) =
      s.map .char ++ chunks protects (endsInQuote afterQuote s) t := by
  have hclosed : IsClosed s := fun before after heq => absurd (by rw [heq]; simp) h
  rw [chunks_append_of_isClosed hclosed fun hlast => absurd (List.mem_of_getLast? hlast) h,
    chunks_of_dollar_not_mem h]

end Chunks

/-- A chunk as it is written. -/
def Chunk.source : Chunk → Text
  | .char c => [c]
  | .reference name => written name

theorem flatMap_source_literalOpening (cs : List Chunk) :
    (literalOpening cs).flatMap Chunk.source = '$' :: '{' :: cs.flatMap Chunk.source := rfl

/-- **The chunks of a text are what is written there**: without escapes nothing is lost. An escape
is the only thing of which less comes out than goes in. -/
theorem flatMap_source_chunks {protects afterQuote : Bool} (h : IsEscapeFree t) :
    (chunks protects afterQuote t).flatMap Chunk.source = t := by
  induction afterQuote, t using chunks.induct protects with
  | case1 => simp [chunks]
  | case2 _ t => exact absurd ⟨[], t, rfl⟩ h
  | case3 _ _ hprotected ih =>
    rw [chunks_protected hprotected, flatMap_source_literalOpening,
      ih (h.of_append (s := ['$', '{']))]
  | case4 _ _ hopen name rest hcut ih =>
    -- a reference is read up to the brace that `written` ends it with
    obtain ⟨rfl, -⟩ := Text.eq_of_cut? hcut
    have hsplit : '$' :: '{' :: (name ++ '}' :: rest) = written name ++ rest := by simp [written]
    rw [hsplit] at h
    rw [chunks_reference hopen hcut, List.flatMap_cons, ih h.of_append, hsplit, Chunk.source]
  | case5 _ _ hopen hcut ih =>
    rw [chunks_unclosed hopen hcut, flatMap_source_literalOpening,
      ih (h.of_append (s := ['$', '{']))]
  | case6 _ c _ hescape hopening ih =>
    rw [chunks.eq_4 _ _ _ _ hescape hopening, List.flatMap_cons, ih h.of_cons, Chunk.source,
      List.singleton_append]

/-- Whether a chunk stands in a text: as a character, or as a reference with a name that ends where
a brace closes it first. -/
def Chunk.IsIn (t : Text) : Chunk → Prop
  | .char c => c ∈ t
  | .reference name => '}' ∉ name ∧ written name <:+: t

theorem Chunk.IsIn.append {chunk : Chunk} (h : chunk.IsIn t) (s : Text) : chunk.IsIn (s ++ t) := by
  cases chunk with
  | char c => exact List.mem_append_right s h
  | reference name => exact ⟨h.1, h.2.trans (List.suffix_append s t).isInfix⟩

theorem isIn_of_mem_literalOpening {cs : List Chunk} {chunk : Chunk}
    (hcs : ∀ chunk ∈ cs, chunk.IsIn t) (h : chunk ∈ literalOpening cs) :
    chunk.IsIn ('$' :: '{' :: t) := by
  rcases List.mem_cons.mp h with rfl | h
  · exact List.mem_cons_self
  · rcases List.mem_cons.mp h with rfl | h
    · exact List.mem_cons_of_mem _ List.mem_cons_self
    · exact (hcs chunk h).append ['$', '{']

/-- Every chunk stands in the text that it was read from. -/
theorem isIn_of_mem_chunks {protects afterQuote : Bool} {chunk : Chunk}
    (h : chunk ∈ chunks protects afterQuote t) : chunk.IsIn t := by
  induction afterQuote, t using chunks.induct protects generalizing chunk with
  | case1 => simp [chunks] at h
  | case2 _ _ ih =>
    rw [chunks] at h
    exact (isIn_of_mem_literalOpening (fun _ => ih) h).append ['$']
  | case3 _ _ hprotected ih =>
    rw [chunks_protected hprotected] at h
    exact isIn_of_mem_literalOpening (fun _ => ih) h
  | case4 _ t hopen name rest hcut ih =>
    obtain ⟨rfl, hname⟩ := Text.eq_of_cut? hcut
    rw [chunks_reference hopen hcut] at h
    rcases List.mem_cons.mp h with rfl | h
    · exact ⟨hname, ⟨[], rest, by simp [written]⟩⟩
    · have hwhole := (ih h).append ('$' :: '{' :: (name ++ ['}']))
      simpa using hwhole
  | case5 _ _ hopen hcut ih =>
    rw [chunks_unclosed hopen hcut] at h
    exact isIn_of_mem_literalOpening (fun _ => ih) h
  | case6 _ c _ hescape hopening ih =>
    rw [chunks.eq_4 _ _ _ _ hescape hopening] at h
    rcases List.mem_cons.mp h with rfl | h
    · exact List.mem_cons_self
    · exact (ih h).append [c]

end StepPhrase.Reference
