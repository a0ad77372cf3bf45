import StepPhrase.Argument.Shape

/-!
# The engine and its expressions

Calls and keywords are recognised by regular expressions, and the expressions are compiled by an
engine. What a compiled expression looks like, and how much room it takes, is the engine's own
business. All that a program learns of it is whether an expression has been compiled within a limit,
so that is all that an `Engine` says, and everything that reads a definition or matches a call takes
the engine that it goes by.

An `Expression` is one of those that are compiled, with what is put into it; `Expression.source`
writes it out as the engine gets it, and `Expression.sizeLimit` is the limit that goes with it.
-/

namespace StepPhrase

/-- A compiler of regular expressions, all of which it reads without regard to case. `builds limit
source` says whether the expression `source` is compiled in no more than `limit` bytes; without a
limit the engine goes by one of its own. -/
structure Engine where
  builds : Option Nat → Text → Bool

/-- A regular expression that is compiled for definitions or for keywords. -/
inductive Expression where
  /-- A call as a whole, which consists of these patterns. -/
  | whole (body : List Pattern)
  /-- The value of a slot, which is a token with this literal behind it. -/
  | value (boundary : Text)
  /-- A call as a whole with or without a keyword and a blank in front of these patterns. -/
  | call (keywords : List Text) (body : List Pattern)
  /-- A keyword at the beginning. -/
  | leading (keywords : List Text)
  /-- A keyword at the beginning with the blanks behind it. -/
  | stripping (keywords : List Text)

namespace Expression

open Pattern (group writeAll writeChoice)

/-- An expression as it is written, in the notation that the engine reads. Literals and keywords are
escaped, so neither can bring in operators of its own. -/
def source : Expression → Text
  | .whole body => "^".toList ++ group (writeAll body) ++ "$".toList
  | .value boundary =>
    "(".toList ++ writeAll [Shape.token] ++ ")".toList ++ Pattern.escape boundary
  | .call keywords body =>
    "^".toList ++ group (group (writeChoice keywords) ++ "\\s".toList) ++ "?".toList
      ++ group (writeAll body) ++ "$".toList
  | .leading keywords => "^(".toList ++ writeChoice keywords ++ ")".toList
  | .stripping keywords => "^".toList ++ group (writeChoice keywords) ++ "\\s+".toList

/-- The most that an expression for a definition may take up when compiled, in bytes. -/
def ceiling : Nat := 32 * 1024 * 1024

/-- The limit under which an expression is compiled. Expressions for definitions and calls all have
the same one; those for keywords alone come without one. -/
def sizeLimit : Expression → Option Nat
  | .whole _ | .value _ | .call _ _ => some ceiling
  | .leading _ | .stripping _ => none

end Expression

namespace Engine

/-- Whether an expression is compiled under its limit. This is the one question that is put to an
engine, and the answer depends on nothing but the expression. -/
def compiles (engine : Engine) (e : Expression) : Bool := engine.builds e.sizeLimit e.source

/-- An engine that compiles every expression, as any engine does with short ones. -/
def unlimited : Engine := ⟨fun _ _ => true⟩

@[simp] theorem compiles_unlimited (e : Expression) : unlimited.compiles e = true := rfl

end Engine

end StepPhrase
