import StepPhrase.Text

/-!
# Quotation

A string argument stands in single or double quotes. Its value is the text inside, where the quote
itself is written with a backslash in front. Backslashes before anything else belong to the value.
-/

namespace StepPhrase

/-- The two ways to quote. -/
inductive Quote where
  | single
  | double
  deriving DecidableEq, Repr

namespace Quote

/-- The character that opens and closes a quotation. -/
def mark : Quote → Char
  | .single => '\''
  | .double => '"'

/-- The quote that a character stands for. -/
def ofChar? (c : Char) : Option Quote :=
  if c = '\'' then some .single else if c = '"' then some .double else none

/-- The text between two marks that enclose the whole. A single mark encloses nothing, and neither
do a mark at the front and another one at the end that are not the same. -/
def inside? (q : Quote) : Text → Option Text
  | [] => none
  | c :: t => if c = q.mark ∧ t.getLast? = some q.mark then some t.dropLast else none

/-- A text without the backslashes that stand directly before the mark. A backslash before anything
else stays, another backslash included. -/
def unescape (q : Quote) : Text → Text
  | [] => []
  | c :: t => if c = '\\' ∧ t.head? = some q.mark then unescape q t else c :: unescape q t

/-- A text with a backslash before every mark, as it has to stand between two marks. Backslashes of
the text are left alone, as `unescape` leaves them. -/
def escape (q : Quote) (t : Text) : Text :=
  t.flatMap fun c => if c = q.mark then ['\\', c] else [c]

/-- A text in quotes. -/
def enclose (q : Quote) (t : Text) : Text := q.mark :: (q.escape t ++ [q.mark])

end Quote

/-- The value of an argument as written: what is inside its quotes, or else the text itself. Single
quotes are tried first, and at most one pair is taken off. -/
def unquote (t : Text) : Text :=
  match Quote.single.inside? t with
  | some inner => Quote.single.unescape inner
  | none =>
    match Quote.double.inside? t with
    | some inner => Quote.double.unescape inner
    | none => t

end StepPhrase
