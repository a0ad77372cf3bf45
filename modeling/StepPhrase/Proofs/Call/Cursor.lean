import StepPhrase.Proofs.Call.ByteSearch
import StepPhrase.Proofs.Template.Alternation

/-!
# A cursor that walks over a call

An extraction can keep the call as it is and move a byte offset over it, the cursor. Each round
slices the call at the cursor, searches the slice, and adds what the search has found to the cursor.
The offsets of a round are relative to its slice, and a literal that is found may take more bytes,
or fewer, than the literal that was searched for.

The extraction of this library cuts the call down instead, and has no offsets at all. The two are
the same as long as the cursor is the number of bytes that have been cut off, which is what one
round keeps; a cursor that moved by the length of the literal in the definition would not be.

* **`walk`** — the walk of the cursor; a slice that fails ends it, and does not pass for a call that
  does not match.
* **`walk_eq`** — what keeps every slice good: the cursor is always as far as the characters that
  have been walked over. So the walk finds the ranges of the raw arguments.
* **`InOrder`** — where these ranges stand: one behind the other, each between its lead and its
  boundary.
-/

namespace StepPhrase.Call

open Template Text

/-- The cursor behind the literal in front of a slot, if that is found. An empty literal leaves the
cursor where it is. -/
def behindLead (lead call : Text) (cursor : Nat) : Except BadSlice (Option Nat) :=
  if lead = [] then return some cursor
  else do return (← search lead (← sliceFrom call cursor)).map fun range => cursor + range.2

/-- Whether the literal behind a slot is found, anywhere in what remains. An empty literal is always
there. -/
def hasBoundary (boundary remaining : Text) : Except BadSlice Bool :=
  if boundary = [] then return true else do return (← search boundary remaining).isSome

/-- The range of the token for a slot, in bytes of the call. The cursor is an offset into the call,
while the search counts from the cursor, so the offsets are added up. -/
def rangeAt (frame : Frame) (call : Text) (cursor : Nat) :
    Except BadSlice (Option (Nat × Nat)) := do
  match ← behindLead frame.lead call cursor with
  | none => return none
  | some cursor =>
    let remaining ← sliceFrom call cursor
    if ← hasBoundary frame.boundary remaining then
      return (firstToken? (beginsWith sameFolded frame.boundary) remaining).map fun (token, rest) =>
        let stop := cursor + (remaining.byteLength - rest.byteLength)
        (stop - token.byteLength, stop)
    else return none

/-- The ranges of the tokens for some slots. The cursor goes on behind each of them, and the walk is
over as soon as one slot has no token. -/
def walk : List Frame → Text → Nat → Except BadSlice (Option (List (Nat × Nat)))
  | [], _, _ => return some []
  | frame :: frames, call, cursor => do
    match ← rangeAt frame call cursor with
    | none => return none
    | some range => return (← walk frames call range.2).map (range :: ·)

/-! ## No slice fails

A slice from an offset fails unless the offset is a border between two characters. The call is
therefore written `before ++ t` throughout, with the cursor at the length of `before`: there the
slice is `t` itself, and every offset that a round adds is the length of a text that was found in
`t`. -/

/-- A search goes as far as skipping does, or fails with it. Its offsets are those of the text that
is searched, which is why the end is a difference of lengths. -/
theorem search_eq (literal t : Text) (hne : literal ≠ []) :
    ∃ range, search literal t = .ok range
      ∧ range.map (·.2) = (skip? literal t).map fun rest => t.byteLength - rest.byteLength := by
  obtain ⟨range, hsearch, hfirst⟩ := exists_search hne t
  refine ⟨range, hsearch, ?_⟩
  cases range with
  | none =>
    rw [hfirst.skip?_eq_none]
    rfl
  | some range =>
    obtain ⟨front, rest, rfl, hstop, hskip⟩ := hfirst.skip?_eq_some
    rw [hskip, Option.map_some, Option.map_some, hstop, byteLength_append, Nat.add_sub_cancel]

theorem behindLead_eq (lead before t : Text) :
    behindLead lead (before ++ t) before.byteLength =
      .ok ((skip? lead t).map fun rest =>
        before.byteLength + (t.byteLength - rest.byteLength)) := by
  unfold behindLead
  by_cases hlead : lead = []
  · rw [if_pos hlead, skip?, if_pos hlead, Option.map_some, Nat.sub_self]
    rfl
  · obtain ⟨range, hsearch, hend⟩ := search_eq lead t hlead
    -- the search says where the literal ends in its slice; the cursor adds what is in front of that
    have hmap := congrArg (Option.map (before.byteLength + ·)) hend
    rw [Option.map_map, Option.map_map] at hmap
    rw [if_neg hlead, sliceFrom_append]
    simp only [bind, Except.bind, hsearch, pure, Except.pure]
    exact congrArg Except.ok hmap

theorem hasBoundary_eq (boundary t : Text) :
    hasBoundary boundary t = .ok (skip? boundary t).isSome := by
  unfold hasBoundary
  by_cases hboundary : boundary = []
  · rw [if_pos hboundary, skip?, if_pos hboundary]
    rfl
  · obtain ⟨range, hsearch, hend⟩ := search_eq boundary t hboundary
    have hsome := congrArg Option.isSome hend
    rw [Option.isSome_map, Option.isSome_map] at hsome
    rw [if_neg hboundary, hsearch, ← hsome]
    rfl

/-- **One round of the walk** takes the token that the extraction takes from what is left of the
call, and gives its place in the whole call. -/
theorem rangeAt_eq (frame : Frame) (before t : Text) :
    rangeAt frame (before ++ t) before.byteLength =
      .ok ((takeToken? frame t).map fun (token, rest) =>
        let stop := before.byteLength + t.byteLength - rest.byteLength
        (stop - token.byteLength, stop)) := by
  rw [rangeAt, behindLead_eq, takeToken?]
  cases hlead : skip? frame.lead t with
  | none => rfl
  | some remaining =>
    obtain ⟨gap, found, rfl, -⟩ := skip?_eq_some_iff.mp hlead
    -- the cursor is now behind `before`, the gap and the literal
    have hcursor : before.byteLength + (byteLength
      (gap ++ (found ++ remaining)) - remaining.byteLength) =
        byteLength (before ++ (gap ++ found)) := by
      simp only [byteLength_append]
      omega
    have hsplit : before ++ (gap ++ (found ++ remaining)) =
        (before ++ (gap ++ found)) ++ remaining := by
      simp only [List.append_assoc]
    simp only [bind, Except.bind, Option.map_some, hcursor, hsplit, sliceFrom_append,
      hasBoundary_eq]
    cases skip? frame.boundary remaining with
    | none => rfl
    | some _ =>
      simp only [Option.isSome_some, if_true, pure, Except.pure]
      cases htoken : firstToken? (beginsWith sameFolded frame.boundary) remaining with
      | none => rfl
      | some taken =>
        obtain ⟨token, rest⟩ := taken
        obtain ⟨skipped, rfl, -⟩ := firstToken?_eq_some_iff.mp htoken
        have hstop : byteLength (before ++ (gap ++ found))
              + (byteLength (skipped ++ (token ++ rest)) - rest.byteLength) =
            before.byteLength + byteLength
              (gap ++ (found ++ (skipped ++ (token ++ rest)))) - rest.byteLength := by
          simp only [byteLength_append]
          omega
        simp only [Option.map_some, hstop]

/-- **The walk of the cursor finds the ranges of the tokens**, and no slice of the call fails on the
way. By induction over the slots: behind each token the cursor is again at the end of what has been
walked over. -/
theorem walk_eq (frames : List Frame) (before t : Text) :
    walk frames (before ++ t) before.byteLength =
      .ok (tokenRanges? frames before.byteLength t) := by
  induction frames generalizing before t with
  | nil => rfl
  | cons frame frames ih =>
    rw [walk, rangeAt_eq]
    cases htake : takeToken? frame t with
    | none =>
      rw [tokenRanges?, htake]
      rfl
    | some taken =>
      obtain ⟨token, rest⟩ := taken
      obtain ⟨front, rfl⟩ := exists_front_of_takeToken? htake
      -- behind the token the cursor is as far as `before`, what was skipped and the token
      have hwalk := ih (before ++ front ++ token) rest
      have hsplit : before ++ front ++ token ++ rest = before ++ (front ++ (token ++ rest)) := by
        simp only [List.append_assoc]
      rw [hsplit] at hwalk
      rw [tokenRanges?_cons frames htake]
      simp only [bind, Except.bind, Option.map_some, byteLength_sub_rest, hwalk]
      rw [byteLength_append _ token, Nat.add_sub_cancel]
      rfl

/-! ## Where the values stand

The ranges are byte ranges of the call as a whole. What is said of each of them is said in slices of
the call, so that it can be read without knowing how the walk got there. -/

/-- A range that begins behind the cursor, between the literals around a slot: the one in front of
it occurs between the cursor and the range, and the one behind it is next. -/
structure StandsBehind (call : Text) (cursor : Nat) (frame : Frame) (range : Nat × Nat) : Prop where
  cursor_le : cursor ≤ range.1
  start_lt : range.1 < range.2
  lead : ∃ start stop found, cursor ≤ start ∧ start ≤ stop ∧ stop ≤ range.1
    ∧ call.slice? (start, stop) = some found ∧ SameBy sameLowered frame.lead found
  boundary : ∃ behind, dropBytes? range.2 call = some behind
    ∧ beginsWith sameFolded frame.boundary behind = true

/-- Ranges one behind the other, each between the literals around its slot. Each range begins no
earlier than the one before ends, since the cursor is at that end. -/
inductive InOrder (call : Text) : Nat → List Frame → List (Nat × Nat) → Prop where
  | nil (cursor : Nat) : InOrder call cursor [] []
  | cons {cursor : Nat} {frame : Frame} {frames : List Frame} {range : Nat × Nat}
      {ranges : List (Nat × Nat)}
      (hrange : StandsBehind call cursor frame range) (hrest : InOrder call range.2 frames ranges) :
      InOrder call cursor (frame :: frames) (range :: ranges)

theorem InOrder.length_eq {call : Text} {cursor : Nat} {frames : List Frame}
    {ranges : List (Nat × Nat)}
    (h : InOrder call cursor frames ranges) : ranges.length = frames.length := by
  induction h with
  | nil cursor => rfl
  | cons _ _ ih => rw [List.length_cons, List.length_cons, ih]

/-- A token between the literals around its slot stands where it should: the call is written out as
what is in front of the cursor, what was skipped, the lead, a gap, the token and the rest. -/
theorem standsBehind_append {frame : Frame} {lead token rest : Text} (before skipped gap : Text)
    (hlead : SameBy sameLowered frame.lead lead) (htoken : token ≠ [])
    (hboundary : beginsWith sameFolded frame.boundary rest = true) :
    StandsBehind (before ++ (skipped ++ (lead ++ (gap ++ (token ++ rest))))) before.byteLength frame
      (byteLength (before ++ (skipped ++ (lead ++ gap))),
        byteLength (before ++ (skipped ++ (lead ++ gap)) ++ token)) := by
  have hpos := byteLength_pos htoken
  constructor
  case cursor_le =>
    rw [byteLength_append]
    exact Nat.le_add_right _ _
  case start_lt =>
    rw [byteLength_append _ token]
    exact Nat.lt_add_of_pos_right hpos
  case lead =>
    -- the slice of the call that is the lead begins behind what was skipped
    refine ⟨byteLength (before ++ skipped),
      byteLength (before ++ skipped) + lead.byteLength, lead, ?_,
      Nat.le_add_right _ _, ?_, ?_, hlead⟩
    · rw [byteLength_append]
      exact Nat.le_add_right _ _
    · simp only [byteLength_append]
      omega
    · rw [← List.append_assoc]
      exact slice?_append _ _ _
  case boundary =>
    have hdrop := dropBytes?_append (before ++ (skipped ++ (lead ++ gap)) ++ token) rest
    refine ⟨rest, ?_, hboundary⟩
    simpa only [List.append_assoc] using hdrop

/-- **The ranges of the tokens are in order.** By induction over the slots, where what has been
walked over grows by the gap, the lead and the token of each. -/
theorem inOrder_of_tokenRanges? {frames : List Frame} {before t : Text} {ranges : List (Nat × Nat)}
    (h : tokenRanges? frames before.byteLength t = some ranges) :
    InOrder (before ++ t) before.byteLength frames ranges := by
  induction frames generalizing before t ranges with
  | nil =>
    obtain rfl := Option.some.inj h
    exact .nil _
  | cons frame frames ih =>
    cases htake : takeToken? frame t with
    | none =>
      rw [tokenRanges?, htake] at h
      cases h
    | some taken =>
      obtain ⟨token, rest⟩ := taken
      obtain ⟨skipped, lead, gap, rfl, hlead, -, htoken⟩ := takeToken?_eq_some_iff.mp htake
      -- the next cursor is behind the token, so all that is in front of it is one text
      have hfront : skipped ++ (lead ++ (gap ++ (token ++ rest))) =
          skipped ++ (lead ++ gap) ++ (token ++ rest) := by
        simp only [List.append_assoc]
      rw [hfront] at htake h
      rw [tokenRanges?_cons frames htake] at h
      obtain ⟨others, hothers, rfl⟩ := Option.map_eq_some_iff.mp h
      refine .cons (standsBehind_append before skipped gap hlead.sameBy
        (Shape.ne_nil_of_token_matches htoken.isToken) htoken.follows_rest) ?_
      simpa only [List.append_assoc] using ih hothers

/-- **The values of a call are pieces of it, one behind the other.** The cursor walks over a call
without a slice that fails, and finds the byte ranges of the values. The values are what stands in
these ranges; each range is not empty, begins no earlier than the one in front of it ends, has its
boundary right behind it and its lead between it and the one in front. -/
theorem walk_inOrder (template : Template) (call : Text) :
    walk template.frames call 0 = .ok (valueRanges? template call)
      ∧ (valueRanges? template call).isSome = (rawArguments? template call).isSome
      ∧ ∀ raw, rawArguments? template call = some raw →
          ∃ ranges, valueRanges? template call = some ranges
            ∧ ranges.length = template.slots.length
            ∧ ranges.mapM call.slice? = some (raw.map Argument.value)
            ∧ InOrder call 0 template.frames ranges := by
  refine ⟨walk_eq template.frames [] call, ?_, fun raw hraw => ?_⟩
  · rw [valueRanges?, isSome_tokenRanges?, rawArguments?, Option.isSome_map]
  · -- the raw arguments are the slices at the ranges, so there are ranges where there are arguments
    rw [rawArguments?_eq_slices] at hraw
    obtain ⟨values, hvalues, rfl⟩ := Option.map_eq_some_iff.mp hraw
    obtain ⟨ranges, hranges, hslices⟩ := Option.bind_eq_some_iff.mp hvalues
    have horder : InOrder call 0 template.frames ranges := @inOrder_of_tokenRanges? _ [] _ _ hranges
    refine ⟨ranges, hranges, ?_, ?_, horder⟩
    · rw [horder.length_eq, length_frames]
    · rw [hslices, List.map_map]
      exact congrArg some (List.map_id _).symm

/-- Literals that take more bytes in the call than in the definition: the Kelvin sign is a `k` in
capital letters. -/
theorem walk_kelvin :
    ∃ template, ofText? .unlimited "k\x7ba\x7dK\x7bb\x7d".toList = .ok template
      ∧ rawArguments? template "\u212a1\u212a'\u00fc'".toList =
          some [⟨"1".toList, .long⟩, ⟨"'\u00fc'".toList, .string⟩]
      ∧ walk template.frames "\u212a1\u212a'\u00fc'".toList 0 = .ok (some [(3, 4), (7, 11)])
      ∧ InOrder "\u212a1\u212a'\u00fc'".toList 0 template.frames [(3, 4), (7, 11)] := by
  let template : Template := ⟨"k\x7ba\x7dK\x7bb\x7d".toList,
    [.literal "k".toList, .slot ⟨"\x7ba\x7d".toList, 1, none⟩, .literal "K".toList,
      .slot ⟨"\x7bb\x7d".toList, 5, none⟩]⟩
  have hraw : rawArguments? template "\u212a1\u212a'\u00fc'".toList =
      some [⟨"1".toList, .long⟩, ⟨"'\u00fc'".toList, .string⟩] := by decide +kernel
  have hvalues : valueRanges? template "\u212a1\u212a'\u00fc'".toList = some [(3, 4), (7, 11)] := by
    decide +kernel
  obtain ⟨hwalk, -, hplaces⟩ := walk_inOrder template "\u212a1\u212a'\u00fc'".toList
  obtain ⟨ranges, hranges, -, -, horder⟩ := hplaces _ hraw
  obtain rfl := Option.some.inj (hranges.symm.trans hvalues)
  exact ⟨template, by decide +kernel, hraw, hwalk.trans (congrArg _ hvalues), horder⟩

end StepPhrase.Call
