import StepPhrase.Text

/-!
# Splitting and joining

A text that is split at a character has one piece more than it has such characters, none of them in
a piece. Joined by that character again the pieces are the text; joined by something else, they are
the text with that in its place. And pieces that are joined by a character that none of them has are
found again by splitting there.

By induction over the text: a character that is the mark begins a new piece, and any other goes to
the piece behind it.
-/

namespace StepPhrase.Text

variable {mark : Char} {piece t : Text}

theorem splitOn_ne_nil (mark : Char) (t : Text) : splitOn mark t ≠ [] := by
  cases t with
  | nil => exact List.cons_ne_nil _ _
  | cons c t =>
    rw [splitOn, List.foldr_cons]
    split
    · split <;> exact List.cons_ne_nil _ _
    · exact List.cons_ne_nil _ _

theorem exists_splitOn_cons (mark c : Char) (t : Text) :
    ∃ piece pieces, splitOn mark t = piece :: pieces
      ∧ splitOn mark (c :: t) = if c = mark then [] :: piece :: pieces
        else (c :: piece) :: pieces := by
  obtain ⟨piece, pieces, hsplit⟩ := List.exists_cons_of_ne_nil (splitOn_ne_nil mark t)
  refine ⟨piece, pieces, hsplit, ?_⟩
  rw [splitOn] at hsplit
  rw [splitOn, List.foldr_cons, hsplit]

theorem not_mem_of_mem_splitOn (h : piece ∈ splitOn mark t) : mark ∉ piece := by
  induction t generalizing piece with
  | nil =>
    rw [List.mem_singleton.mp h]
    exact List.not_mem_nil
  | cons c t ih =>
    obtain ⟨first, pieces, hsplit, hcons⟩ := exists_splitOn_cons mark c t
    rw [hsplit] at ih
    rw [hcons] at h
    split at h
    · rcases List.mem_cons.mp h with rfl | h
      · exact List.not_mem_nil
      · exact ih h
    · next hc =>
      rcases List.mem_cons.mp h with rfl | h
      · rw [List.mem_cons, not_or]
        exact ⟨Ne.symm hc, ih List.mem_cons_self⟩
      · exact ih (List.mem_cons_of_mem first h)

/-- **Joined by something else, the pieces are the text with that in the place of the character.**
-/
theorem join_splitOn (separator : Text) (mark : Char) (t : Text) :
    join separator (splitOn mark t) = t.flatMap fun c => if c = mark then separator else [c] := by
  induction t with
  | nil => rfl
  | cons c t ih =>
    obtain ⟨first, pieces, hsplit, hcons⟩ := exists_splitOn_cons mark c t
    rw [hsplit] at ih
    rw [hcons, List.flatMap_cons, ← ih]
    split
    · rw [join, join, List.flatMap_cons, List.nil_append, List.append_assoc]
    · rfl

/-- **Joined by the character again, the pieces are the text.** -/
theorem join_singleton_splitOn (mark : Char) (t : Text) : join [mark] (splitOn mark t) = t := by
  have hsame : (fun c => if c = mark then [mark] else [c]) = fun c : Char => [c] := by
    funext c
    split
    · next hc => rw [hc]
    · rfl
  rw [join_splitOn, hsame]
  exact List.flatMap_singleton' t

theorem splitOn_of_not_mem (h : mark ∉ piece) : splitOn mark piece = [piece] := by
  induction piece with
  | nil => rfl
  | cons c piece ih =>
    rw [List.mem_cons, not_or] at h
    obtain ⟨first, pieces, hsplit, hcons⟩ := exists_splitOn_cons mark c piece
    obtain ⟨rfl, rfl⟩ := List.cons.inj (hsplit.symm.trans (ih h.2))
    rw [hcons, if_neg (Ne.symm h.1)]

theorem splitOn_append (h : mark ∉ piece) (t : Text) :
    splitOn mark (piece ++ mark :: t) = piece :: splitOn mark t := by
  induction piece with
  | nil =>
    obtain ⟨first, pieces, hsplit, hcons⟩ := exists_splitOn_cons mark mark t
    rw [List.nil_append, hcons, if_pos rfl, hsplit]
  | cons c piece ih =>
    rw [List.mem_cons, not_or] at h
    obtain ⟨first, pieces, hsplit, hcons⟩ := exists_splitOn_cons mark c (piece ++ mark :: t)
    obtain ⟨rfl, rfl⟩ := List.cons.inj (hsplit.symm.trans (ih h.2))
    rw [List.cons_append, hcons, if_neg (Ne.symm h.1)]

/-- **Pieces without the character are found again.** There has to be a piece, for no pieces and one
empty piece are joined to the same text. -/
theorem splitOn_join {pieces : List Text} (hne : pieces ≠ []) (h : ∀ piece ∈ pieces, mark ∉ piece) :
    splitOn mark (join [mark] pieces) = pieces := by
  obtain ⟨first, rest, rfl⟩ := List.exists_cons_of_ne_nil hne
  induction rest generalizing first with
  | nil =>
    rw [join, List.flatMap_nil, List.append_nil]
    exact splitOn_of_not_mem (h first List.mem_cons_self)
  | cons piece rest ih =>
    obtain ⟨hfirst, hrest⟩ := List.forall_mem_cons.mp h
    have hjoin : join [mark] (first :: piece :: rest) =
        first ++ mark :: join [mark] (piece :: rest) := by
      simp [join]
    rw [hjoin, splitOn_append hfirst, ih piece (List.cons_ne_nil _ _) hrest]

end StepPhrase.Text
