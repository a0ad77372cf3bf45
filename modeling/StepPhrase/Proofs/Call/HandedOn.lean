import StepPhrase.Proofs.Argument.Quotation
import StepPhrase.Proofs.Call.Positions

/-!
# What arguments are made of

An argument has its shape and its value from one token of the call, wherever it ends up among the
arguments. The shape is that of the token as it is written, quotes included. The value is the token,
but for a string: that has lost its quotes, and inside them one backslash in front of each mark.

The shape is found before the quotes are taken off, so a string stays a string whatever is inside
it. Arguments that change places do so as wholes, with shape and value, and none is made anew.

* **`Argument.isMadeOf_unquoted`** — this is so for every token.
* **`arguments?_isMadeOf`** — so it is for the arguments of every call.
-/

namespace StepPhrase

/-- The shape and the value that an argument has from its token. A string is taken apart at the
marks of its own kind: in the token each of them stands behind a backslash, in the value the
backslashes are gone. -/
structure Argument.IsMadeOf (a : Argument) (token : Text) : Prop where
  shape_eq : a.shape = Shape.ofText token
  shape_mem : a.shape ∈ Shape.order
  value_eq : a.shape ≠ .string → a.value = token
  string_eq : a.shape = .string →
    ∃ (q : Quote) (pieces : List Text), (∀ piece ∈ pieces, q.mark ∉ piece)
      ∧ token = q.mark :: (Text.join ['\\', q.mark] pieces ++ [q.mark])
      ∧ a.value = Text.join [q.mark] pieces

/-- **A token is handed on as its shape demands.** Only a string ends in the mark it begins with, so
taking off the quotes leaves a token of any other shape as it is. -/
theorem Argument.isMadeOf_unquoted {token : Text} (h : Shape.token.Matches token) :
    (Argument.ofToken token).unquoted.IsMadeOf token := by
  have hany : Shape.ofText token ≠ .any := fun hany => Shape.ofText_eq_any_iff.mp hany h
  constructor
  case shape_eq => rfl
  case shape_mem => exact Shape.mem_order_of_ofText_ne_any hany
  case value_eq =>
    -- a token with the same mark at its two ends is a string, so no quotes are taken off another
    -- one
    intro hshape
    have hunquoted : ∀ (q : Quote) (m : Text), token ≠ q.mark :: (m ++ [q.mark]) := by
      rintro q m rfl
      exact hshape (Shape.ofText_eq_string_of_token h)
    exact unquote_eq_self hunquoted
  case string_eq =>
    intro hshape
    obtain ⟨q, m, rfl, hm⟩ := Shape.ofText_eq_string_iff.mp hshape
    -- the inside, cut at its marks: written with a backslash each, handed on without
    obtain ⟨pieces, hpieces, hinside, hvalue⟩ := hm.exists_pieces
    refine ⟨q, pieces, hpieces, by rw [← hinside], ?_⟩
    rw [← hvalue]
    exact unquote_enclosed q m

namespace Call

open Template

variable {template : Template} {call : Text} {raw arguments : List Argument}

theorem exists_token_of_rawArguments? (hraw : rawArguments? template call = some raw)
    {source : Argument}
    (hsource : source ∈ raw) : ∃ token, Shape.token.Matches token ∧ source = .ofToken token := by
  obtain ⟨tokens, rfl, hextracts⟩ := rawArguments?_eq_some_iff.mp hraw
  obtain ⟨token, htoken, rfl⟩ := List.mem_map.mp hsource
  exact ⟨token, hextracts.isToken token htoken, rfl⟩

/-- **Every argument is made of the raw argument that is its source**: it has the same shape, which
is one of those that are tried, and the text of the raw argument for its value, without the quotes
and with the marks inside unescaped if it is a string, and as it is if not. -/
theorem arguments?_isMadeOf (h : arguments? template call = some arguments) :
    ∃ raw, rawArguments? template call = some raw ∧ arguments.length = raw.length
      ∧ ∀ (j : Nat) argument, arguments[j]? = some argument →
          ∃ (i : Nat) (source : Argument), IsSource (template.slots.map Slot.index) i j
            ∧ raw[i]? = some source
            ∧ argument.shape = source.shape ∧ argument.IsMadeOf source.value := by
  obtain ⟨raw, hraw, harrange⟩ := Option.bind_eq_some_iff.mp h
  have hlength := length_of_rawArguments? hraw
  refine ⟨raw, hraw, by rw [length_of_arguments? h, hlength], fun j argument hargument => ?_⟩
  have hj : j < (raw.map Argument.unquoted).length := by
    rw [List.length_map, hlength, ← length_of_arguments? h]
    exact (List.getElem?_eq_some_iff.mp hargument).1
  -- whichever value the position has in the end, it is the one from its source
  obtain ⟨i, hsource⟩ := exists_isSource (template.slots.map Slot.index) j
  rw [getElem?_of_arrange? (length_indices hraw) harrange hj hsource,
    List.getElem?_map] at hargument
  obtain ⟨source, hi, rfl⟩ := Option.map_eq_some_iff.mp hargument
  obtain ⟨token, htoken, rfl⟩ := exists_token_of_rawArguments? hraw (List.mem_of_getElem? hi)
  exact ⟨i, _, hsource, hi, rfl, Argument.isMadeOf_unquoted htoken⟩

/-- The values change places, and a number and a map keep their texts. The string loses its quotes
and the backslash before the mark, while the pair of backslashes stays. -/
theorem arguments?_isMadeOf_reordered :
    ∃ (template : Template) (call : Text) (arguments : List Argument),
      ofText? .unlimited "put \x7b1\x7d and \x7b2\x7d under \x7b0\x7d".toList = .ok template
      ∧ call = "put -1.5 and \x7b'a'\x7d under \"b\\\\ \\\"c\"".toList
      ∧ arguments? template call = some arguments
      ∧ arguments = [⟨"b\\\\ \"c".toList, .string⟩, ⟨"-1.5".toList, .double⟩,
      ⟨"\x7b'a'\x7d".toList, .map⟩]
      ∧ ∃ raw, rawArguments? template call = some raw ∧ arguments.length = raw.length
        ∧ ∀ (j : Nat) argument, arguments[j]? = some argument →
            ∃ (i : Nat) (source : Argument), IsSource (template.slots.map Slot.index) i j
            ∧ raw[i]? = some source
              ∧ argument.shape = source.shape ∧ argument.IsMadeOf source.value := by
  let template : Template :=
    ⟨"put \x7b1\x7d and \x7b2\x7d under \x7b0\x7d".toList, [.literal "put ".toList,
    .slot ⟨"\x7b1\x7d".toList, 4, some 1⟩, .literal " and ".toList,
    .slot ⟨"\x7b2\x7d".toList, 12, some 2⟩,
    .literal " under ".toList, .slot ⟨"\x7b0\x7d".toList, 22, some 0⟩]⟩
  have harguments : arguments? template "put -1.5 and \x7b'a'\x7d under \"b\\\\ \\\"c\"".toList =
      some [⟨"b\\\\ \"c".toList, .string⟩, ⟨"-1.5".toList, .double⟩,
      ⟨"\x7b'a'\x7d".toList, .map⟩] := by
    decide +kernel
  exact ⟨template, _, _, by decide +kernel, rfl, harguments, rfl, arguments?_isMadeOf harguments⟩

end Call

end StepPhrase
