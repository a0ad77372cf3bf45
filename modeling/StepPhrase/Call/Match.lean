import StepPhrase.Call.Fit
import StepPhrase.Call.Values
import StepPhrase.SizeLimit

/-!
# Matching calls

A call matches a template when it fits the template without its keyword and its arguments can be
found. Whatever goes wrong on the way, the call simply does not match.
-/

namespace StepPhrase.Call

/-- What matching depends on besides the template and the call: the engine that compiles
expressions, the properties that list synonyms of keywords, and the limit on the length of texts. -/
structure Setting where
  engine : Engine
  properties : Bindings
  limit : SizeLimit

/-- The arguments of a call that matches a template. The limit and the engine are asked first; then
the call has to fit as a whole, and only then are its arguments looked for, so a call that fits may
still fail for want of arguments. -/
def match? (setting : Setting) (template : Template) (t : Text) : Option (List Argument) :=
  let keywords := setting.properties.keywords
  let stripped := template.withoutKeyword setting.engine keywords
  if setting.limit.permits t && setting.limit.permits template.source
      && setting.engine.compiles (.call keywords (Template.bodyOf stripped.pieces))
      && fits keywords stripped.pieces t then
    match arguments? stripped t with
    | some arguments => if arguments.length = stripped.slots.length then some arguments else none
    | none => none
  else none

/-- Whether a call matches a template, that is, whether matching gives any arguments at all. -/
def isMatch (setting : Setting) (template : Template) (t : Text) : Bool :=
  (match? setting template t).isSome

end StepPhrase.Call
