import StepPhrase.Proofs.Call.Extraction
import StepPhrase.Proofs.Text.Slices

/-!
# Where in a call the values stand

The walk over a call takes tokens off what is left of it. Their places in the whole call are byte
ranges, and the call sliced at these ranges gives the tokens again.

A token is not told where it stands, only what is left behind it. The end of its range is what the
whole text has more bytes than that rest, and its beginning is its own length before that.

* **`valueRanges?`** — the ranges of the raw arguments.
* **`rawArguments?_eq_slices`** — the raw arguments are the slices of the call at these ranges; each
  of the ranges is one.
-/

namespace StepPhrase

namespace Call

open Template Text

/-- The byte ranges of the tokens for some slots, in a call that has `offset` bytes in front of this
text. -/
def tokenRanges? : List Frame → Nat → Text → Option (List (Nat × Nat))
  | [], _, _ => some []
  | frame :: frames, offset, t =>
    match takeToken? frame t with
    | none => none
    | some (token, rest) =>
      let stop := offset + t.byteLength - rest.byteLength
      (tokenRanges? frames stop rest).map ((stop - token.byteLength, stop) :: ·)

/-- The byte ranges in which the raw arguments of a call stand, in the order of the slots. A range
begins where its token begins, quotes and brackets included. -/
def valueRanges? (template : Template) (call : Text) : Option (List (Nat × Nat)) :=
  tokenRanges? template.frames 0 call

theorem isSome_tokenRanges? (frames : List Frame) (offset : Nat) (t : Text) :
    (tokenRanges? frames offset t).isSome = (takeTokens? frames t).isSome := by
  induction frames generalizing offset t with
  | nil => rfl
  | cons frame frames ih =>
    rw [tokenRanges?, takeTokens?]
    cases takeToken? frame t with
    | none => rfl
    | some taken => simp only [Option.isSome_map, ih]

theorem byteLength_sub_rest (before front token rest : Text) :
    before.byteLength + byteLength (front ++ (token ++ rest)) - rest.byteLength =
      byteLength (before ++ front ++ token) := by
  simp only [byteLength_append]
  omega

theorem tokenRanges?_cons {frame : Frame} {before front token rest : Text} (frames : List Frame)
    (htake : takeToken? frame (front ++ (token ++ rest)) = some (token, rest)) :
    tokenRanges? (frame :: frames) before.byteLength (front ++ (token ++ rest)) =
      (tokenRanges? frames (byteLength (before ++ front ++ token)) rest).map
        ((byteLength (before ++ front), byteLength (before ++ front ++ token)) :: ·) := by
  rw [tokenRanges?, htake]
  simp only [byteLength_sub_rest]
  rw [byteLength_append _ token, Nat.add_sub_cancel]

/-- **The walk takes the slices at its ranges.** What it has moved over is in front of them, and
grows by what was skipped and the token with each step of the induction over the slots. -/
theorem takeTokens?_eq_slices (frames : List Frame) (before t : Text) :
    takeTokens? frames t =
      (tokenRanges? frames before.byteLength t).bind fun ranges =>
        ranges.mapM (slice? (before ++ t)) := by
  induction frames generalizing before t with
  | nil => rfl
  | cons frame frames ih =>
    rw [takeTokens?]
    cases htake : takeToken? frame t with
    | none =>
      rw [tokenRanges?, htake]
      rfl
    | some taken =>
      obtain ⟨token, rest⟩ := taken
      obtain ⟨front, rfl⟩ := exists_front_of_takeToken? htake
      have hsplit : before ++ (front ++ (token ++ rest)) = before ++ front ++ token ++ rest := by
        simp only [List.append_assoc]
      -- the token stands where the step says it does
      have hslice : slice? (before ++ front ++ token ++ rest)
          (byteLength (before ++ front), byteLength (before ++ front ++ token)) = some token := by
        rw [byteLength_append _ token, List.append_assoc]
        exact slice?_append (before ++ front) token rest
      simp only [tokenRanges?_cons frames htake, ih (before ++ front ++ token) rest, hsplit]
      cases tokenRanges? frames (byteLength (before ++ front ++ token)) rest with
      | none => rfl
      | some ranges =>
        rw [Option.bind_some, Option.map_some, Option.bind_some, List.mapM_cons, hslice]
        exact Option.map_eq_bind

/-- **The raw arguments are the slices of the call at their ranges**, with the shapes that their
texts have. -/
theorem rawArguments?_eq_slices (template : Template) (call : Text) :
    rawArguments? template call =
      ((valueRanges? template call).bind fun ranges => ranges.mapM call.slice?).map
        (·.map Argument.ofToken) := by
  rw [rawArguments?, takeTokens?_eq_slices template.frames [] call]
  rfl

end Call

end StepPhrase
