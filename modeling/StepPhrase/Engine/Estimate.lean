import StepPhrase.Engine

/-!
# An engine by estimate

A program that runs needs some engine to ask. This one compiles nothing: it looks at an expression
as it is written and estimates how much room the compiled expression would take. A token takes about
as much as two hundred letters, because its digits may come from any script, and a letter takes more
than a sign, because it has other cases to be matched. Only the program itself uses the estimate;
whatever is said about templates and calls is said for every engine.
-/

namespace StepPhrase.Engine

/-- The room for a token. -/
def tokenSize : Nat := 15566

/-- The room for a character. Two letters have a third case outside of ASCII. -/
def characterSize (c : Char) : Nat :=
  if c ∈ "kKsS".toList then 168 else if c.isAlpha then 80 else 32 * c.utf8Size

/-- The room for an expression on top of `size`, when so many characters have been counted already.
A token is recognised by its pattern and counted once, as a whole. -/
def sizeFrom (token : Text) (counted size : Nat) : Text → Nat
  | [] => size
  | c :: t =>
    if 0 < counted then sizeFrom token (counted - 1) size t
    else if token.isPrefixOf (c :: t) then sizeFrom token (token.length - 1) (size + tokenSize) t
    else sizeFrom token 0 (size + characterSize c) t

/-- The limit that the engine goes by where none is given. -/
def ownLimit : Nat := 10 * 1024 * 1024

/-- The engine that goes by the estimate. An expression is compiled when its estimated size stays
within the limit that comes with it, or within the engine's own. -/
def estimate : Engine :=
  let token := Pattern.group Shape.token.source
  ⟨fun limit source => sizeFrom token 0 0 source ≤ limit.getD ownLimit⟩

end StepPhrase.Engine
