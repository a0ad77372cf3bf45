import StepPhrase.Call.Match
import StepPhrase.Template.Rank

/-!
# Phrasebooks

A phrasebook holds templates, each with a payload such as the action to run. A call is looked up by
trying them all: of the templates that match, the highest rank is found, and of several with that
rank the one that was registered first.
-/

namespace StepPhrase

/-- Templates with their payloads, in the order of registration. The same definition may be
registered more than once; its entries are kept apart. -/
structure Phrasebook (α : Type) where
  entries : List (Template × α)

namespace Phrasebook

variable {α : Type}

/-- A phrasebook without templates. -/
def empty : Phrasebook α := ⟨[]⟩

/-- The phrasebook with one more definition, if that is a template. The entry comes last, and a
definition that is refused leaves nothing behind. -/
def register (book : Phrasebook α) (engine : Engine) (definition : Text) (payload : α) :
    Except Template.Error (Phrasebook α) :=
  (Template.ofText? engine definition).map fun template => ⟨book.entries ++ [(template, payload)]⟩

/-- The registered definitions, in order. -/
def definitions (book : Phrasebook α) : List Text := book.entries.map fun entry => entry.1.source

/-- The number of registered definitions. -/
def size (book : Phrasebook α) : Nat := book.entries.length

/-- A template that matches a call, with the payload it was registered with and the arguments that
the call has for it. -/
structure Found (α : Type) where
  template : Template
  payload : α
  arguments : List Argument

/-- The better of what is found already and an entry, which has to be of higher rank. One of no
higher rank is not matched against the call at all, so of entries with equal rank the first one that
matches stays. -/
def better (setting : Call.Setting) (call : Text) (best : Option (Found α))
    (entry : Template × α) : Option (Found α) :=
  let (template, payload) := entry
  if best.any fun found => (found.template.rank.compare template.rank).isGE then best
  else
    match Call.match? setting template call with
    | some arguments => some ⟨template, payload, arguments⟩
    | none => best

/-- The entry for a call: one pass over the entries in the order of registration, with the best
match so far in hand. -/
def find? (book : Phrasebook α) (setting : Call.Setting) (call : Text) : Option (Found α) :=
  book.entries.foldl (better setting call) none

end Phrasebook

end StepPhrase
