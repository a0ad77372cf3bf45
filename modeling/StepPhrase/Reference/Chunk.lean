import StepPhrase.Reference.Angle

/-!
# Chunks

A text with references is a sequence of chunks: characters that stand for themselves and references
to names. A reference is `${name}`; the name ends at the first closing brace. Two dollars before the
brace make it literal text with one, and so does a quote before the dollar where quoting protects.
-/

namespace StepPhrase.Reference

/-- A character or a reference. Whatever a text writes to keep a reference from being one has gone
already, so the characters stand for themselves. -/
inductive Chunk where
  | char (c : Char)
  | reference (name : Text)
  deriving DecidableEq, Repr

/-- The characters that open a reference, as literal text. What is behind them is read on as text,
so a reference may still begin further on, before the brace is closed. -/
def literalOpening (rest : List Chunk) : List Chunk := .char '$' :: .char '{' :: rest

/-- The chunks of a text. Where quoting protects, a reference directly behind a double quote is
literal; `afterQuote` says whether the text is behind one. -/
def chunks (protects afterQuote : Bool) : Text → List Chunk
  | [] => []
  | '$' :: '$' :: '{' :: t => literalOpening (chunks protects false t)
  | '$' :: '{' :: t =>
    if protects && afterQuote then literalOpening (chunks protects false t)
    else
      match _h : Text.cut? '}' t with
      | some (name, rest) => .reference name :: chunks protects false rest
      | none => literalOpening (chunks protects false t)
  | c :: t => .char c :: chunks protects (c == '"') t
termination_by t => t.length
decreasing_by
  all_goals simp only [List.length_cons]
  · omega
  · omega
  · have := Text.length_lt_of_cut? _h
    omega
  · omega
  · omega

end StepPhrase.Reference
