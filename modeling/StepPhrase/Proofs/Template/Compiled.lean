import Mathlib.Data.List.Basic
import StepPhrase.Argument.Shape
import StepPhrase.Proofs.Template.Alternation

/-!
# Compiled templates

A template can be made ready for matching once and for all: the patterns of its pieces in a row,
which say whether a call fits, and for each slot a segment, which says where its value is searched
for. All of this depends on the pieces, but taking a keyword off need not make it anew. The first
piece goes or gets shorter, the patterns are put in a row again, and of the segments only the lead
of the first one is replaced.

A segment has the literal in front of its slot for the search and the one behind it within a
pattern. So when the first literal gets shorter, patterns stay valid and only a lead is out of date.
That it is the lead of the first segment is a matter of alternation: a slot follows the first
literal, or there is no slot at all.

* **`segmentsOf_eq`** — the segments are the frames of the pieces, with the patterns to search for.
* **`ofText?_eq`** — a definition is made ready exactly if it is a template.
* **`strip?_ofTemplate`** — what is patched is what would have been made of the pieces that are
  left. This rests on the first literal having no other behind it.
* **`Reachable.isConsistent`** — so segments and patterns have to do with the pieces what they
  should, one place at a time, however often keywords are taken off.
-/

namespace StepPhrase.Template

open Piece (leadingLiteral)
open Pattern (writeAll)

variable {engine : Engine}

/-! ## Definitions

Templates that are ready carry their pieces along, so that a keyword can be taken off them later.
The patch changes what it must and trusts that the rest still belongs to the pieces. -/

/-- What the search for a value goes by: the literals around its slot, and the pattern, which is a
group to capture and what has to stand behind it. -/
structure Segment where
  lead : Text
  boundary : Text
  group : Pattern
  behind : List Pattern
  deriving DecidableEq

namespace Segment

/-- The segment between two literals: the pattern is a token in front of the second one. The first
one is not part of the pattern and is looked for on its own. -/
def between (lead boundary : Text) : Segment := ⟨lead, boundary, Shape.token, boundary.map .char⟩

/-- The pattern as it is written. -/
def written (s : Segment) : Text :=
  "(".toList ++ writeAll [s.group] ++ ")".toList ++ writeAll s.behind

end Segment

/-- The literal that a piece is, empty if it is none. -/
def literalOf : Option Piece → Text
  | some (.literal t) => t
  | _ => []

/-- The literal in front of an index. It is empty at the front, and where the piece before is a
slot. -/
def literalBefore (pieces : List Piece) : Nat → Text
  | 0 => []
  | i + 1 => literalOf pieces[i]?

/-- The segments of the slots among some pieces. The literals around a slot are looked up by its
index. -/
def segmentsOf (pieces : List Piece) : List Segment :=
  pieces.zipIdx.filterMap fun (piece, i) =>
    piece.slot?.map fun _ => .between (literalBefore pieces i) (literalOf pieces[i + 1]?)

/-- A piece as it is written in a pattern. -/
def Piece.written : Piece → Text
  | .literal t => Pattern.escape t
  | .slot _ => Pattern.group Shape.token.source

/-- A template that is ready for matching: all that is made of its pieces is kept beside them, so
the parts may come to differ if only some of them are changed. -/
structure Compiled where
  source : Text
  tokens : List Piece
  body : List Pattern
  segments : List Segment
  deriving DecidableEq

namespace Compiled

/-- A template made ready, where all parts are made of the same pieces. -/
def ofTemplate (template : Template) : Compiled :=
  ⟨template.source, template.pieces, bodyOf template.pieces, segmentsOf template.pieces⟩

/-- The template that is ready. -/
def template (c : Compiled) : Template := ⟨c.source, c.tokens⟩

/-- The slots in order. -/
def slots (c : Compiled) : List Slot := slotsOf c.tokens

/-- The template that a definition describes, made ready, if the engine compiles the patterns in a
row and those of the segments. -/
def ofText? (engine : Engine) (definition : Text) : Except Error Compiled :=
  match pieces? definition with
  | .error e => .error e
  | .ok pieces =>
    let c := ofTemplate ⟨definition, pieces⟩
    if engine.compiles (.whole c.body)
        && c.segments.all fun s => engine.builds (some Expression.ceiling) s.written then .ok c
    else .error .tooBulky

/-- A template with the rest of a literal in place of its first literal, which goes if nothing is
left of it. The rest is the lead of the first segment then, and everything else of the segments
stays. -/
def patch (behind : List Piece) (c : Compiled) (rest : Text) : Compiled :=
  let tokens := if rest = [] then behind else .literal rest :: behind
  ⟨c.source, tokens, bodyOf tokens, c.segments.modifyHead fun s => { s with lead := rest }⟩

/-- A template without the keyword that it begins with, if it does. The parts are changed one by one
where they stand, and not made anew. -/
def strip? (engine : Engine) (keywords : List Text) (c : Compiled) : Option Compiled :=
  match c.tokens with
  | .literal first :: behind => (Keyword.strip? engine keywords first).map (c.patch behind)
  | _ => none

/-- What comes out of definitions, and of that by taking keywords off, whatever engine is asked on
the way. The keywords may differ from one time to the next. -/
inductive Reachable : Compiled → Prop where
  | ofText {engine : Engine} {definition : Text} {c : Compiled}
      (h : ofText? engine definition = .ok c) : Reachable c
  | strip {engine : Engine} {keywords : List Text} {c stripped : Compiled} (hc : Reachable c)
      (h : c.strip? engine keywords = some stripped) : Reachable stripped

/-- There is one segment for each slot, in order, with the literals directly in front of the slot
and behind it and the pattern for the latter, and the patterns in a row are those of the pieces. -/
structure IsConsistent (c : Compiled) : Prop where
  length_segments : c.segments.length = c.slots.length
  segment : ∀ front s behind, c.tokens = front ++ .slot s :: behind →
    c.segments[(slotsOf front).length]? =
      some (.between (literalOf front.getLast?) (literalOf behind.head?))
  body : c.body = bodyOf c.tokens

end Compiled

/-! ## Segments and frames

Segments look the literals up by index, frames hand them on from piece to piece. Both come to the
same piece by piece. -/

@[simp] theorem literalOf_head? (pieces : List Piece) :
    literalOf pieces.head? = leadingLiteral pieces := by
  cases pieces with
  | nil => rfl
  | cons piece pieces => cases piece <;> rfl

theorem literalBefore_append (front behind : List Piece) :
    literalBefore (front ++ behind) front.length = literalOf front.getLast? := by
  rcases List.eq_nil_or_concat' front with rfl | ⟨front, piece, rfl⟩
  · rfl
  · simp [literalBefore]

theorem literalOf_getElem?_append (front : List Piece) (piece : Piece) (behind : List Piece) :
    literalOf (front ++ piece :: behind)[front.length + 1]? = leadingLiteral behind := by
  rw [List.getElem?_append_right (Nat.le_add_right _ 1), Nat.add_sub_cancel_left,
    List.getElem?_cons_succ, ← List.head?_eq_getElem?, literalOf_head?]

/-- The segments of the pieces behind `front`, where `front` and they are all pieces. -/
theorem filterMap_zipIdx_eq (front pieces : List Piece) :
    ((pieces.zipIdx front.length).filterMap fun (piece, i) => piece.slot?.map fun _ =>
        Segment.between (literalBefore (front ++ pieces) i) (literalOf (front ++ pieces)[i + 1]?)) =
      (Frame.ofPieces (literalOf front.getLast?) pieces).map fun frame =>
        .between frame.lead frame.boundary := by
  induction pieces generalizing front with
  | nil => rfl
  | cons piece pieces ih =>
    -- the piece goes over to the front, whose length is the index to go on with
    have hrest := ih (front ++ [piece])
    rw [List.append_assoc, List.singleton_append, List.length_append, List.length_singleton,
      List.getLast?_concat] at hrest
    rw [List.zipIdx_cons, List.filterMap_cons]
    cases piece with
    | literal t => exact hrest
    | slot s =>
      refine congrArg₂ List.cons ?_ hrest
      rw [literalBefore_append, literalOf_getElem?_append]

/-- **The segments are the frames**, each with its pattern. Looking a literal up beside a slot finds
what was handed on to it. -/
theorem segmentsOf_eq (pieces : List Piece) :
    segmentsOf pieces = (Frame.ofPieces [] pieces).map fun frame =>
      .between frame.lead frame.boundary :=
  filterMap_zipIdx_eq [] pieces

/-! ## Patterns as they are written

What the engine is given is text. The text of a segment is that of the expression for the same slot,
so the engine compiles the one exactly if it compiles the other. -/

theorem writeAll_literal (t : Text) : writeAll (t.map .char) = Pattern.escape t := by
  rw [writeAll, List.flatMap_map, Pattern.escape]
  exact congrArg (t.flatMap ·) (funext fun c => List.append_nil _)

theorem writeAll_token : writeAll [Shape.token] = Pattern.group Shape.token.source :=
  List.append_nil _

theorem writeAll_bodyOf (pieces : List Piece) :
    writeAll (bodyOf pieces) = pieces.flatMap Piece.written := by
  induction pieces with
  | nil => rfl
  | cons piece pieces ih =>
    rw [bodyOf, List.flatMap_cons, writeAll, List.flatMap_append, List.flatMap_cons]
    refine congrArg₂ (· ++ ·) ?_ ih
    cases piece with
    | literal t => exact writeAll_literal t
    | slot s => exact writeAll_token

theorem written_between (lead boundary : Text) :
    (Segment.between lead boundary).written = (Expression.value boundary).source := by
  rw [Segment.written, Segment.between, Expression.source, writeAll_literal]

theorem written_of_mem_segmentsOf {pieces : List Piece} {s : Segment} (h : s ∈ segmentsOf pieces) :
    s.written = "(".toList ++ Pattern.group Shape.token.source ++ ")".toList ++ Pattern.escape
      s.boundary := by
  rw [segmentsOf_eq] at h
  obtain ⟨frame, -, rfl⟩ := List.mem_map.mp h
  rw [written_between, Expression.source, writeAll_token, Segment.between]

namespace Compiled

/-- **A definition is made ready exactly if it is a template**: what the engine has to compile is
the same. -/
theorem ofText?_eq (definition : Text) :
    ofText? engine definition = (Template.ofText? engine definition).map ofTemplate := by
  rw [ofText?, Template.ofText?]
  cases pieces? definition with
  | error e => rfl
  | ok pieces =>
    have hcompiles : (expressionsOf pieces).all engine.compiles =
      (engine.compiles (.whole (bodyOf pieces))
        && (segmentsOf pieces).all fun s => engine.builds (some Expression.ceiling) s.written) := by
      rw [expressionsOf, List.all_cons, segmentsOf_eq, List.all_map, List.all_map]
      refine congrArg (engine.compiles (.whole (bodyOf pieces)) && ·)
        (congrArg (List.all _) (funext fun frame => ?_))
      exact congrArg (engine.builds (some Expression.ceiling))
        (written_between frame.lead frame.boundary).symm
    simp only [hcompiles, apply_ite (Except.map ofTemplate)]
    rfl

/-! ## Taking the keyword away

The induction is over what has been done to a template so far: what is there is always what would be
made of the pieces, and the pieces always alternate. -/

variable {c : Compiled}

/-- With another literal in front, the first of the frames has another lead. -/
theorem modifyHead_ofPieces (lead rest : Text) {behind : List Piece}
    (h : leadingLiteral behind = []) (hbehind : Alternating behind) :
    ((Frame.ofPieces lead behind).map fun frame =>
      Segment.between frame.lead frame.boundary).modifyHead
        (fun s => { s with lead := rest }) =
      (Frame.ofPieces rest behind).map fun frame => .between frame.lead frame.boundary := by
  cases behind with
  | nil => rfl
  | cons piece behind =>
    cases piece with
    | literal t => exact absurd h hbehind.1
    | slot s => rfl

theorem patch_ofTemplate {first : Text} {behind : List Piece} (source rest : Text)
    (halternating : Alternating (.literal first :: behind)) :
    (ofTemplate ⟨source, .literal first :: behind⟩).patch behind rest =
      ofTemplate ⟨source, if rest = [] then behind else .literal rest :: behind⟩ := by
  have hsegments : (segmentsOf (.literal first :: behind)).modifyHead
      (fun s => { s with lead := rest }) =
        segmentsOf (if rest = [] then behind else .literal rest :: behind) := by
    -- no literal follows the first one, so the segment to change is that of a slot directly behind
    -- it, if any
    rw [segmentsOf_eq, segmentsOf_eq, Frame.ofPieces,
      modifyHead_ofPieces first rest halternating.2.1 halternating.2.2]
    split
    · next hrest => rw [hrest]
    · rfl
  rw [ofTemplate, patch, hsegments, ofTemplate]

/-- **What is patched is what would have been made anew.** Either no keyword is taken off on either
side, or one is taken off on both, with the same result. -/
theorem strip?_ofTemplate (template : Template) (halternating : Alternating template.pieces)
    (keywords : List Text) :
    ((ofTemplate template).strip? engine keywords = none
        ∧ template.withoutKeyword engine keywords = template)
      ∨ (ofTemplate template).strip? engine keywords =
        some (ofTemplate (template.withoutKeyword engine keywords)) := by
  obtain ⟨source, pieces⟩ := template
  cases pieces with
  | nil => exact .inl ⟨rfl, rfl⟩
  | cons piece behind =>
    cases piece with
    | slot s => exact .inl ⟨rfl, rfl⟩
    | literal first =>
      have hmap : (ofTemplate ⟨source, .literal first :: behind⟩).strip? engine keywords =
          (Keyword.strip? engine keywords first).map
            ((ofTemplate ⟨source, .literal first :: behind⟩).patch behind) := rfl
      rw [hmap]
      cases hstrip : Keyword.strip? engine keywords first with
      | none => exact .inl ⟨rfl, by simp [withoutKeyword, hstrip]⟩
      | some rest =>
        refine .inr (congrArg some ?_)
        rw [patch_ofTemplate source rest halternating]
        -- the literal goes on both sides if nothing is left of it
        cases rest <;> simp [withoutKeyword, hstrip]

/-- Whatever has been taken off, what there is is what would be made of the pieces that are left. -/
theorem Reachable.eq_ofTemplate (h : Reachable c) :
    c = ofTemplate c.template ∧ Alternating c.tokens := by
  induction h with
  | @ofText engine definition c h =>
    rw [ofText?_eq] at h
    cases htemplate : Template.ofText? engine definition with
    | error e => rw [htemplate] at h; cases h
    | ok template =>
      rw [htemplate] at h
      obtain rfl := Except.ok.inj h
      exact ⟨rfl, alternating_of_ofText? htemplate⟩
  | @strip engine keywords c stripped _ h ih =>
    -- what was there before was made of its pieces, and so is what the patch makes of it
    obtain ⟨hc, halternating⟩ := ih
    rw [hc] at h
    rcases strip?_ofTemplate c.template halternating keywords with ⟨hnone, -⟩ | hsome
    · rw [hnone] at h
      cases h
    · rw [hsome] at h
      obtain rfl := Option.some.inj h
      have hleft : Alternating (c.template.withoutKeyword engine keywords).pieces :=
        halternating.withoutKeyword keywords
      exact ⟨rfl, hleft⟩

end Compiled

/-! ## Consistency

What is made of the pieces has the right literals in each segment. As nothing else can be reached,
this holds whatever has been taken off. -/

/-- The frame of a slot, among those of all pieces. -/
theorem getElem?_ofPieces (lead : Text) (front : List Piece) (s : Slot) (behind : List Piece) :
    (Frame.ofPieces lead (front ++ .slot s :: behind))[(slotsOf front).length]? =
      some ⟨(front.getLast?.map fun piece => literalOf (some piece)).getD lead, s,
        leadingLiteral behind⟩ := by
  induction front generalizing lead with
  | nil => rfl
  | cons piece front ih =>
    rw [List.getLast?_cons]
    cases piece with
    | literal t =>
      refine (ih t).trans ?_
      cases front.getLast? <;> rfl
    | slot other =>
      refine (ih []).trans ?_
      cases front.getLast? <;> rfl

theorem getElem?_segmentsOf (front : List Piece) (s : Slot) (behind : List Piece) :
    (segmentsOf (front ++ .slot s :: behind))[(slotsOf front).length]? =
      some (.between (literalOf front.getLast?) (literalOf behind.head?)) := by
  rw [segmentsOf_eq, List.getElem?_map, getElem?_ofPieces, literalOf_head?]
  cases front.getLast? <;> rfl

theorem length_segmentsOf (pieces : List Piece) :
    (segmentsOf pieces).length = (slotsOf pieces).length := by
  rw [segmentsOf_eq, List.length_map, ← map_slot_ofPieces [], List.length_map]

namespace Compiled

theorem isConsistent_ofTemplate (template : Template) : (ofTemplate template).IsConsistent where
  length_segments := length_segmentsOf template.pieces
  segment := by
    rintro front s behind hpieces
    exact (congrArg (fun pieces => (segmentsOf pieces)[_]?) hpieces).trans
      (getElem?_segmentsOf front s behind)
  body := rfl

/-- **Segments and patterns stay in step with the pieces**, for whatever comes out of a definition
and however often a keyword is taken off it. -/
theorem Reachable.isConsistent {c : Compiled} (h : Reachable c) : c.IsConsistent := by
  rw [h.eq_ofTemplate.1]
  exact isConsistent_ofTemplate c.template

end Compiled

end StepPhrase.Template
