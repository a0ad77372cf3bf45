import StepPhrase.Text

/-!
# Slices

A text can be sliced at byte offsets. A slice fails at an offset where no character ends, behind the
end of the text, and where the range runs backwards.

Offsets that come from lengths of texts are always ends of characters, so slices at such offsets do
not fail. This is how the offsets of a call and of a definition are dealt with: the text in front of
an offset is kept, and the offset is its length.

* **`slice?_append`**, **`between?_append`** — a text is the slice at its own place.
* **`byteLength_le_iff_of_append_eq`** — offsets of characters are in the order of the characters.
* **`dropBytes?_of_between?`** — a slice that ends with the text is all that is left.
-/

namespace StepPhrase.Text

/-- What is left of a text behind some bytes, if a character ends there. An offset within a
character or behind the end of the text leaves nothing to speak of. -/
def dropBytes? : Nat → Text → Option Text
  | 0, t => some t
  | _ + 1, [] => none
  | n + 1, c :: t => if c.utf8Size ≤ n + 1 then dropBytes? (n + 1 - c.utf8Size) t else none

/-- The text from one byte offset to another, if both are ends of characters. -/
def slice? (t : Text) (range : Nat × Nat) : Option Text :=
  (dropBytes? range.1 t).bind fun behind =>
    (dropBytes? (range.2 - range.1) behind).map fun rest =>
      behind.take (behind.length - rest.length)

theorem byteLength_pos {t : Text} (h : t ≠ []) : 0 < t.byteLength := by
  obtain ⟨c, t, rfl⟩ := List.exists_cons_of_ne_nil h
  exact Nat.lt_of_lt_of_le c.utf8Size_pos (Nat.le_add_right ..)

/-- Of two front parts of a text, the one with more bytes is the one with more characters. -/
theorem byteLength_le_iff_of_append_eq {front rest front' rest' : Text}
    (h : front ++ rest = front' ++ rest') :
    front.byteLength ≤ front'.byteLength ↔ front.length ≤ front'.length := by
  -- one of the two is the other with more behind it, and more characters are more bytes
  rcases List.append_eq_append_iff.mp h with ⟨more, rfl, -⟩ | ⟨more, rfl, -⟩
  · rw [byteLength_append, List.length_append]
    omega
  · cases more with
    | nil => simp
    | cons c more =>
      have hpos := byteLength_pos (List.cons_ne_nil c more)
      rw [byteLength_append, List.length_append, List.length_cons]
      omega

theorem dropBytes?_append (front rest : Text) :
    dropBytes? front.byteLength (front ++ rest) = some rest := by
  induction front with
  | nil => rw [byteLength_nil, List.nil_append]; cases rest <;> rfl
  | cons c front ih =>
    obtain ⟨n, hn⟩ := Nat.exists_eq_add_one.mpr (byteLength_pos (List.cons_ne_nil c front))
    have hle : c.utf8Size ≤ n + 1 := hn ▸ Nat.le_add_right ..
    have hrest : n + 1 - c.utf8Size = byteLength front := by
      rw [← hn, byteLength_cons, Nat.add_sub_cancel_left]
    rw [List.cons_append, hn, dropBytes?, if_pos hle, hrest, ih]

theorem slice?_append (before t after : Text) :
    slice? (before ++ (t ++ after))
      (before.byteLength, before.byteLength + t.byteLength) = some t := by
  simp only [slice?, dropBytes?_append, Option.bind_some, Nat.add_sub_cancel_left, Option.map_some,
    List.length_append, Nat.add_sub_cancel, List.take_left]

/-- The text from one byte offset to another one that is not in front of it. -/
def between? (t : Text) (range : Nat × Nat) : Option Text :=
  if range.1 ≤ range.2 then t.slice? range else none

theorem between?_append (before t after : Text) :
    between? (before ++ (t ++ after)) (before.byteLength, byteLength (before ++ t)) = some t := by
  rw [between?, if_pos (by rw [byteLength_append]; exact Nat.le_add_right ..), byteLength_append]
  exact slice?_append before t after

theorem dropBytes?_eq_some_iff {n : Nat} {t rest : Text} :
    dropBytes? n t = some rest ↔ ∃ front, t = front ++ rest ∧ n = front.byteLength := by
  constructor
  · intro h
    induction n, t using dropBytes?.induct with
    | case1 t =>
      rw [dropBytes?] at h
      exact ⟨[], Option.some.inj h, rfl⟩
    | case2 n => cases h
    | case3 n c t hle ih =>
      rw [dropBytes?, if_pos hle] at h
      obtain ⟨front, rfl, hn⟩ := ih h
      exact ⟨c :: front, rfl, by rw [byteLength_cons, ← hn, Nat.add_sub_cancel' hle]⟩
    | case4 n c t hlt =>
      rw [dropBytes?, if_neg hlt] at h
      cases h
  · rintro ⟨front, rfl, rfl⟩
    exact dropBytes?_append front rest

/-- A slice that ends with the text is all that is left behind its start. -/
theorem dropBytes?_of_between? {t s : Text} {start : Nat}
    (h : t.between? (start, t.byteLength) = some s) :
    dropBytes? start t = some s := by
  rw [between?] at h
  split at h
  · obtain ⟨behind, hbehind, hslice⟩ := Option.bind_eq_some_iff.mp h
    obtain ⟨front, rfl, rfl⟩ := dropBytes?_eq_some_iff.mp hbehind
    have hall : dropBytes? behind.byteLength behind = some [] := by
      simpa using dropBytes?_append behind []
    rw [byteLength_append, Nat.add_sub_cancel_left, hall] at hslice
    rw [hbehind, ← hslice]
    simp
  · cases h

end StepPhrase.Text
