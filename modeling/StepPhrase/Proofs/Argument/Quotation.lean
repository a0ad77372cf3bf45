import StepPhrase.Argument
import StepPhrase.Proofs.Argument.Classification
import StepPhrase.Proofs.Argument.FirstToken
import StepPhrase.Proofs.Text.Splitting

/-!
# Quotations

Two readers look at a quotation. The machine of the shapes goes through it in units, so that a
backslash takes the next character with it; taking the quotes off goes by single characters, and
drops a backslash wherever the mark is next. Both are said here in terms of what stands between the
marks.

What may stand between two marks is a sequence of units (`Shape.Quotable`), and it is this notion
that the two readers have in common. Each of its units is a character that means nothing or a
backslash with a character behind it, so proofs about quotations go by induction on the units and
not on the characters.

* **`Shape.ofText_eq_string_iff`** — the texts of the shape of a string are the quotations.
* **`unquote_enclosed`** — what is left of a quotation without its quotes.
* **`Shape.isLongestToken_of_quotable`** — a quotation ends with its mark, whatever follows.
* **`Shape.Quotable.unescape_eq_self_iff`** — a quotation keeps its text exactly if the mark is not
  in it.
* **`unquoted_enclosed_iff`** — the texts that arrive as they are when they are put between quotes.
* **`Quote.unescape_escape`**, **`Shape.Quotable.escape_unescape`** — putting backslashes before the
  marks and taking them off undo each other, the latter on what may stand between two marks.
* **`unquote_enclose_inverse`** — both for whole quotations.
-/

namespace StepPhrase

variable {q : Quote} {m t : Text}

namespace Quote

theorem inside?_eq_some_iff : q.inside? t = some m ↔ t = q.mark :: (m ++ [q.mark]) := by
  cases t with
  | nil => simp [inside?]
  | cons c t =>
    rw [inside?, List.cons.injEq]
    constructor
    · intro h
      split at h
      · next hmarks =>
        obtain ⟨hc, hlast⟩ := hmarks
        obtain ⟨u, rfl⟩ := List.getLast?_eq_some_iff.mp hlast
        rw [List.dropLast_concat, Option.some_inj] at h
        exact ⟨hc, by rw [h]⟩
      · cases h
    · rintro ⟨rfl, rfl⟩
      rw [if_pos ⟨rfl, List.getLast?_concat⟩, List.dropLast_concat]

theorem mark_injective {q q' : Quote} (h : q.mark = q'.mark) : q = q' := by
  cases q <;> cases q' <;> first | rfl | exact absurd h (by decide)

theorem length_unescape_le (q : Quote) (t : Text) : (q.unescape t).length ≤ t.length := by
  induction t with
  | nil => exact Nat.le_refl _
  | cons c t ih =>
    rw [unescape]
    split
    · exact Nat.le_succ_of_le ih
    · exact Nat.succ_le_succ ih

/-- A text stays as it is if no backslash in it stands before the mark. -/
theorem unescape_eq_self_iff : q.unescape t = t ↔ ¬ ['\\', q.mark] <:+: t := by
  induction t with
  | nil => simp [unescape]
  | cons c t ih =>
    rw [unescape, List.infix_cons_iff, List.cons_prefix_cons, not_or, ← ih]
    have hhead : [q.mark] <+: t ↔ t.head? = some q.mark := by
      cases t <;> simp [eq_comm]
    rw [hhead, eq_comm (a := '\\')]
    split
    · next hescape =>
      refine iff_of_false (fun h => ?_) fun h => h.1 hescape
      -- one backslash is gone, and what is left gets no longer
      have hle := length_unescape_le q t
      rw [h, List.length_cons] at hle
      omega
    · next hescape => simp [hescape]

theorem escape_cons (q : Quote) (c : Char) (t : Text) :
    q.escape (c :: t) = (if c = q.mark then ['\\', c] else [c]) ++ q.escape t := rfl

theorem head?_escape_ne (q : Quote) (t : Text) : (q.escape t).head? ≠ some q.mark := by
  cases t with
  | nil => simp [escape]
  | cons c t =>
    rw [escape_cons]
    split
    · simpa using (Scan.mark_ne_backslash q).symm
    · next hmark => simpa using hmark

theorem join_splitOn_eq_escape (q : Quote) (t : Text) :
    Text.join ['\\', q.mark] (Text.splitOn q.mark t) = q.escape t := by
  rw [Text.join_splitOn, escape]
  refine List.flatMap_congr fun c _ => ?_
  split
  · next hc => rw [hc]
  · rfl

/-- **Escaping is undone**: where a mark is next to a backslash, that is the one which was put
there. -/
theorem unescape_escape (q : Quote) (t : Text) : q.unescape (q.escape t) = t := by
  induction t with
  | nil => rfl
  | cons c t ih =>
    rw [escape_cons]
    split
    · next hmark =>
      subst hmark
      -- the backslash that was put there is dropped, and the mark itself is none
      rw [List.cons_append, List.singleton_append, unescape, if_pos ⟨rfl, rfl⟩, unescape,
        if_neg fun h => Scan.mark_ne_backslash q h.1, ih]
    · -- any other character stays, also a backslash, for what follows does not begin with a mark
      rw [List.singleton_append, unescape, if_neg fun h => head?_escape_ne q t h.2, ih]

end Quote

/-- **What is in a quotation is handed on without its quotes**, and with each escaped mark as the
mark alone, whichever of the two marks it is. -/
theorem unquote_enclosed (q : Quote) (m : Text) :
    unquote (q.mark :: (m ++ [q.mark])) = q.unescape m := by
  unfold unquote
  cases q with
  | single => simp only [Quote.inside?_eq_some_iff.mpr rfl]
  | double =>
    have hnone : Quote.single.inside? (Quote.double.mark :: (m ++ [Quote.double.mark])) = none := by
      rw [Quote.inside?, if_neg fun h => absurd h.1 (by decide)]
    simp only [hnone, Quote.inside?_eq_some_iff.mpr rfl]

theorem unquote_eq_self (h : ∀ (q : Quote) (m : Text), t ≠ q.mark :: (m ++ [q.mark])) :
    unquote t = t := by
  have hnone : ∀ q : Quote, q.inside? t = none := fun q =>
    Option.eq_none_iff_forall_ne_some.mpr fun m hm => h q m (Quote.inside?_eq_some_iff.mp hm)
  simp only [unquote, hnone]

namespace Shape

/-! ## The shape of a quotation

The machine takes a text for a string if it comes to the closing mark at the very end. A backslash
in front of the last mark would have taken it along, which is why not every text between two marks
is a string. -/

theorem ofText_eq_string_iff :
    ofText t = .string ↔
      ∃ (q : Quote) (m : Text), t = q.mark :: (m ++ [q.mark]) ∧ Quotable q.mark m :=
  ofText_eq_string_iff_matches.trans matches_string_iff

theorem run_start_of_quotable (h : Quotable q.mark m) :
    Scan.run .start (q.mark :: (m ++ [q.mark])) = some .quotesEnd := by
  rw [Scan.run_start_quotesEnd_iff, matches_string_iff]
  exact ⟨q, m, rfl, h⟩

/-- A token that begins with a mark is a string. -/
theorem ofText_eq_string_of_token (h : token.Matches (q.mark :: t)) :
    ofText (q.mark :: t) = .string := by
  obtain ⟨last, hrun, hend⟩ := token_matches_iff.mp h
  have hfirst : Scan.step .start q.mark = some (.inQuotes q) := Scan.first_mark q
  have hinside := hrun
  rw [Scan.run_cons, hfirst, Option.bind_some] at hinside
  -- the first character has put the machine among the quotations
  have hfamily := Scan.family_run hinside (by simp)
  -- the machine stays among the quotations, and only behind the last mark it may end there
  rcases Scan.isEnd_iff.mp hend with rfl | rfl | rfl | rfl | rfl
  case inr.inr.inl => exact (ofText_eq_iff_run rfl (by decide)).mpr hrun
  all_goals cases hfamily

theorem token_matches_of_quotable (h : Quotable q.mark m) :
    token.Matches (q.mark :: (m ++ [q.mark])) :=
  token_matches_iff.mpr ⟨.quotesEnd, run_start_of_quotable h, rfl⟩

/-- **A quotation ends with its mark**: no longer token begins where it does. Inside, every mark
stands behind a backslash, so the first one that does not is the last character. -/
theorem isLongestToken_of_quotable {follows : Text → Bool} {rest : Text} (h : Quotable q.mark m)
    (hrest : follows rest = true) : IsLongestToken follows (q.mark :: (m ++ [q.mark])) rest := by
  refine isLongestToken_of_run
    (run_start_of_quotable h) rfl hrest fun more behind _ hmore haccepts => ?_
  -- the machine cannot go on behind the mark
  obtain ⟨c, more, rfl⟩ := List.exists_cons_of_ne_nil hmore
  obtain ⟨next, hstep, -⟩ := Scan.accepts_cons_iff.mp haccepts
  cases hstep

/-! ## Between the marks

In a quotation a mark stands behind a backslash, and a backslash in front of a mark or of another
backslash. Where the pairs begin depends on everything in front, but in what may stand between two
marks the question does not come up: a mark is never behind a pair. -/

instance (q : Quote) (m : Text) : Decidable (Quotable q.mark m) :=
  decidable_of_iff (Scan.run (.inQuotes q) (m ++ [q.mark]) = some .quotesEnd) <| by
    rw [Scan.run_inQuotes_iff]
    constructor
    · rintro ⟨m', heq, hm⟩
      rwa [List.append_cancel_right heq]
    · exact fun hm => ⟨m, rfl, hm⟩

namespace Quotable

/-- What holds of no characters, and is kept by one unit in front, holds of all that may stand
between two marks. -/
theorem induction {quote : Char} {motive : (t : Text) → Quotable quote t → Prop}
    (nil : motive [] (quotable_nil quote))
    (plain : ∀ c t (hback : c ≠ '\\') (hquote : c ≠ quote) (h : Quotable quote t), motive t h →
      motive (c :: t) (quotable_cons_iff.mpr (.inl ⟨hback, hquote, h⟩)))
    (escaped : ∀ c t (hc : c = '\\' ∨ c = quote) (h : Quotable quote t), motive t h →
      motive ('\\' :: c :: t) (quotable_cons_iff.mpr (.inr ⟨rfl, c, t, rfl, hc, h⟩)))
    {t : Text} (h : Quotable quote t) : motive t h := by
  induction hn : t.length using Nat.strongRecOn generalizing t with
  | ind n ih =>
    cases t with
    | nil => exact nil
    | cons c t =>
      rcases quotable_cons_iff.mp h with ⟨hback, hquote, hrest⟩ | ⟨rfl, d, u, rfl, hd, hrest⟩
      · exact plain c t hback hquote hrest (ih _ (by rw [← hn]; simp) hrest rfl)
      · exact escaped d u hd hrest (ih _ (by rw [← hn]; simp +arith) hrest rfl)

/-- The mark stands behind a backslash wherever it is. -/
theorem escapes (h : Quotable q.mark m) (hmark : q.mark ∈ m) : ['\\', q.mark] <:+: m := by
  induction h using Quotable.induction with
  | nil => cases hmark
  | plain c t _ hc _ ih =>
    -- the mark is behind the first unit
    have hrest := (List.mem_cons.mp hmark).resolve_left hc.symm
    exact (ih hrest).trans (List.suffix_cons c t).isInfix
  | escaped c t hc _ ih =>
    rcases hc with rfl | rfl
    · -- of the two units with a backslash this one has no mark in it
      have hback := Scan.mark_ne_backslash q
      have hrest : q.mark ∈ t := by simpa [hback] using hmark
      exact (ih hrest).trans (List.suffix_append ['\\', '\\'] t).isInfix
    · exact ⟨[], t, rfl⟩

/-- **A quotation keeps its text exactly if the mark is not in it.** -/
theorem unescape_eq_self_iff (h : Quotable q.mark m) : q.unescape m = m ↔ q.mark ∉ m := by
  rw [Quote.unescape_eq_self_iff]
  refine not_congr ⟨fun hescape => hescape.subset (by simp), h.escapes⟩

theorem head?_ne (h : Quotable q.mark m) : m.head? ≠ some q.mark := by
  cases m with
  | nil => simp
  | cons c m =>
    rw [List.head?_cons, Ne, Option.some_inj]
    rintro rfl
    rcases quotable_cons_iff.mp h with ⟨-, hmark, -⟩ | ⟨hback, -⟩
    · exact hmark rfl
    · exact Scan.mark_ne_backslash q hback

/-- **Unescaping is undone** on what may stand between two marks: each mark there has lost the
backslash in front of it, and nothing else is lost, since a pair of backslashes is never in front of
a mark. -/
theorem escape_unescape (h : Quotable q.mark m) : q.escape (q.unescape m) = m := by
  induction h using Quotable.induction with
  | nil => rfl
  | plain c t hback hmark _ ih =>
    rw [Quote.unescape, if_neg fun h => hback h.1, Quote.escape_cons, if_neg hmark, ih,
      List.singleton_append]
  | escaped c t hc ht ih =>
    rcases hc with rfl | rfl
    · -- a pair of backslashes stays a pair, for no mark follows it directly
      have hpair : q.unescape ('\\' :: '\\' :: t) = '\\' :: '\\' :: q.unescape t := by
        rw [Quote.unescape, if_neg fun h => Scan.mark_ne_backslash q (Option.some.inj h.2).symm,
          Quote.unescape, if_neg fun h => ht.head?_ne h.2]
      have hback : ('\\' : Char) ≠ q.mark := (Scan.mark_ne_backslash q).symm
      rw [hpair, Quote.escape_cons, if_neg hback, Quote.escape_cons, if_neg hback, ih]
      rfl
    · -- a mark loses its backslash and gets one again
      have hmark : q.unescape ('\\' :: q.mark :: t) = q.mark :: q.unescape t := by
        rw [Quote.unescape, if_pos ⟨rfl, rfl⟩, Quote.unescape, if_neg fun h =>
          Scan.mark_ne_backslash q h.1]
      rw [hmark, Quote.escape_cons, if_pos rfl, ih]
      rfl

/-- **What unescaping does, in pieces**: the marks part the text into pieces, each mark with a
backslash in front, and that backslash is gone afterwards. So nothing but the marks tells the two
texts apart. -/
theorem exists_pieces (h : Quotable q.mark m) :
    ∃ pieces, (∀ piece ∈ pieces, q.mark ∉ piece) ∧ m = Text.join ['\\', q.mark] pieces
      ∧ q.unescape m = Text.join [q.mark] pieces := by
  refine ⟨Text.splitOn q.mark (q.unescape m), fun piece => Text.not_mem_of_mem_splitOn, ?_, ?_⟩
  · rw [Quote.join_splitOn_eq_escape, h.escape_unescape]
  · rw [Text.join_singleton_splitOn]

end Quotable

theorem quotable_of_not_mem (hback : '\\' ∉ m) (hmark : q.mark ∉ m) : Quotable q.mark m := by
  induction m with
  | nil => exact quotable_nil q.mark
  | cons c m ih =>
    rw [List.mem_cons, not_or] at hback hmark
    exact quotable_cons_iff.mpr (.inl ⟨Ne.symm hback.1, Ne.symm hmark.1, ih hback.2 hmark.2⟩)

theorem ofText_enclosed_iff : ofText (q.mark :: (m ++ [q.mark])) = .string ↔ Quotable q.mark m := by
  rw [ofText_eq_string_iff]
  constructor
  · rintro ⟨q', m', heq, hm⟩
    obtain ⟨hmark, hinside⟩ := List.cons.inj heq
    obtain rfl := Quote.mark_injective hmark
    rwa [List.append_cancel_right hinside]
  · exact fun hm => ⟨q, m, rfl, hm⟩

end Shape

theorem length_unquote_add_two_le (h : Shape.ofText t = .string) :
    (unquote t).length + 2 ≤ t.length := by
  obtain ⟨q, m, rfl, -⟩ := Shape.ofText_eq_string_iff.mp h
  have hle := Quote.length_unescape_le q m
  rw [unquote_enclosed, List.length_cons, List.length_append, List.length_singleton]
  omega

/-- **A text between quotes arrives as it is** exactly if it may stand there and the mark is not in
it: otherwise it is no string at all, or a backslash gets lost. -/
theorem unquoted_enclosed_iff :
    (Argument.ofToken (q.mark :: (m ++ [q.mark]))).unquoted = ⟨m, .string⟩ ↔
      q.mark ∉ m ∧ Shape.Quotable q.mark m := by
  rw [Argument.ofToken, Argument.unquoted, Argument.mk.injEq, unquote_enclosed,
    Shape.ofText_enclosed_iff]
  exact and_congr_left Shape.Quotable.unescape_eq_self_iff

/-! ## There and back

Quoting puts a backslash before each mark and marks at both ends; taking the quotes off drops the
ends and these backslashes. Each is the other's inverse on the texts that it can be applied to. -/

/-- A token of the shape of a string, in quotes of this kind. That it ends with the mark as well
follows from the shape. -/
def IsQuotation (q : Quote) (t : Text) : Prop := Shape.ofText t = .string ∧ t.head? = some q.mark

instance (q : Quote) : DecidablePred (IsQuotation q) := fun _ => inferInstanceAs (Decidable (_ ∧ _))

theorem isQuotation_iff :
    IsQuotation q t ↔ ∃ m, t = q.mark :: (m ++ [q.mark]) ∧ Shape.Quotable q.mark m := by
  constructor
  · rintro ⟨hshape, hhead⟩
    obtain ⟨q', m, rfl, hm⟩ := Shape.ofText_eq_string_iff.mp hshape
    obtain rfl := Quote.mark_injective (Option.some.inj hhead)
    exact ⟨m, rfl, hm⟩
  · rintro ⟨m, rfl, hm⟩
    exact ⟨Shape.ofText_enclosed_iff.mpr hm, rfl⟩

/-- **A quotation is written again as it was**: the escapes that reading takes away are those that
writing puts in. -/
theorem enclose_unquote (h : IsQuotation q t) : q.enclose (unquote t) = t := by
  obtain ⟨m, rfl, hm⟩ := isQuotation_iff.mp h
  rw [unquote_enclosed, Quote.enclose, hm.escape_unescape]

/-- **Quoting and taking the quotes off undo each other.** Every text is the value of its own
quotation, and every quotation is that of its value; so quotations in quotes of one kind have
different values. -/
theorem unquote_enclose_inverse (q : Quote) :
    (∀ t, unquote (q.enclose t) = t)
      ∧ (∀ t, IsQuotation q t → q.enclose (unquote t) = t)
      ∧ ∀ s t, IsQuotation q s → IsQuotation q t → unquote s = unquote t → s = t := by
  refine ⟨fun t => ?_, fun t => enclose_unquote, fun s t hs ht hvalue => ?_⟩
  · rw [Quote.enclose, unquote_enclosed, Quote.unescape_escape]
  · rw [← enclose_unquote hs, ← enclose_unquote ht, hvalue]

/-- A quotation with a pair of backslashes, then a mark, then a pair of backslashes at the end. Only
the backslash in front of the mark is an escape. -/
theorem enclose_unquote_backslashes :
    IsQuotation .single "'a\\\\\\'b\\\\'".toList ∧ unquote "'a\\\\\\'b\\\\'".toList =
      "a\\\\'b\\\\".toList
      ∧ Quote.single.enclose (unquote "'a\\\\\\'b\\\\'".toList) = "'a\\\\\\'b\\\\'".toList := by
  have hquotation : IsQuotation .single "'a\\\\\\'b\\\\'".toList := by decide
  exact ⟨hquotation, by decide, (unquote_enclose_inverse .single).2.1 _ hquotation⟩

end StepPhrase
