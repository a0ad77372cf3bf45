import StepPhrase.Total
import StepPhrase.Unicode.WhiteSpace

/-!
# Text

Definitions, calls, names and values are all texts: lists of characters. Offsets and length limits
count the bytes of the UTF-8 form, so `Text.byteLength` is the one measure of size.
-/

namespace StepPhrase

/-- The characters of a text, in order. -/
abbrev Text := List Char

-- Named once, so that every definition that looks for a text among others refers to the same proof.
instance : LawfulBEq Text := inferInstance

namespace Text

/-- The number of bytes of the UTF-8 form. -/
def byteLength (t : Text) : Nat := total Char.utf8Size t

@[simp] theorem byteLength_nil : byteLength [] = 0 := rfl

@[simp] theorem byteLength_cons (c : Char) (t : Text) :
    byteLength (c :: t) = c.utf8Size + byteLength t := rfl

@[simp] theorem byteLength_append (s t : Text) :
    byteLength (s ++ t) = byteLength s + byteLength t :=
  total_append Char.utf8Size s t

/-- The text in front of the first `mark` and the text behind it. Later marks belong to the text
behind. -/
def cut? (mark : Char) (t : Text) : Option (Text × Text) :=
  match t.dropWhile (· != mark) with
  | [] => none
  | _ :: after => some (t.takeWhile (· != mark), after)

/-- A cut takes one mark out, and it is the first one. -/
theorem eq_of_cut? {mark : Char} {t before after : Text}
    (h : t.cut? mark = some (before, after)) : t = before ++ mark :: after ∧ mark ∉ before := by
  have hsplit := List.takeWhile_append_dropWhile (p := (· != mark)) (l := t)
  unfold cut? at h
  split at h
  · exact absurd h (by simp)
  · next c rest heq =>
    obtain ⟨rfl, rfl⟩ := Prod.mk.inj (Option.some.inj h)
    have hmark : c = mark := by
      have := List.head?_dropWhile_not (· != mark) t
      simpa [heq] using this
    refine ⟨?_, fun hmem => ?_⟩
    · rw [heq, hmark] at hsplit
      exact hsplit.symm
    · have hall : ((t.takeWhile (· != mark)).all (· != mark)) = true := List.all_takeWhile
      simpa using List.all_eq_true.mp hall mark hmem

theorem length_lt_of_cut? {mark : Char} {t before after : Text}
    (h : t.cut? mark = some (before, after)) : after.length < t.length := by
  rw [(eq_of_cut? h).1, List.length_append, List.length_cons]
  omega

theorem cut?_eq_some_iff {mark : Char} {t before after : Text} :
    t.cut? mark = some (before, after) ↔ t = before ++ mark :: after ∧ mark ∉ before := by
  refine ⟨eq_of_cut?, ?_⟩
  rintro ⟨rfl, hmark⟩
  have hall : ∀ c ∈ before, (c != mark) = true := by
    intro c hc
    rw [bne_iff_ne]
    rintro rfl
    exact hmark hc
  simp [cut?, List.dropWhile_append_of_pos hall, List.takeWhile_append_of_pos hall]

theorem cut?_append {mark : Char} {t before after : Text} (h : t.cut? mark = some (before, after))
    (s : Text) : (t ++ s).cut? mark = some (before, after ++ s) := by
  rw [cut?_eq_some_iff] at h ⊢
  refine ⟨?_, h.2⟩
  rw [h.1, List.append_assoc, List.cons_append]

theorem exists_cut?_iff {mark : Char} {t : Text} :
    (∃ before after, t.cut? mark = some (before, after)) ↔ mark ∈ t := by
  constructor
  · rintro ⟨before, after, h⟩
    rw [(eq_of_cut? h).1]
    exact List.mem_append_right before List.mem_cons_self
  · intro h
    obtain ⟨before, after, ht, hmark⟩ := List.eq_append_cons_of_mem h
    exact ⟨before, after, cut?_eq_some_iff.mpr ⟨ht, hmark⟩⟩

/-- The pieces of a text between the occurrences of `mark`: one more than there are marks. -/
def splitOn (mark : Char) (t : Text) : List Text :=
  t.foldr
    (fun c pieces =>
      match pieces with
      | piece :: rest => if c = mark then [] :: piece :: rest else (c :: piece) :: rest
      | [] => [[c]])
    [[]]

/-- The text without the blanks at its two ends. Blanks of all scripts count, and those inside stay.
-/
def trim (t : Text) : Text :=
  ((t.dropWhile Unicode.isWhiteSpace).reverse.dropWhile Unicode.isWhiteSpace).reverse

/-- Whether a text has nothing but blanks. -/
def isBlank (t : Text) : Bool := t.all Unicode.isWhiteSpace

/-- The texts one after another with `separator` between them. -/
def join (separator : Text) : List Text → Text
  | [] => []
  | first :: rest => first ++ rest.flatMap (separator ++ ·)

/-- A number in decimal notation. -/
def ofNat (n : Nat) : Text := Nat.toDigits 10 n

end Text

end StepPhrase
