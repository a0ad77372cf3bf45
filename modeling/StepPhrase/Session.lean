import StepPhrase.Phrasebook

/-!
# Sessions

A session is a phrasebook with the properties and the size limit that calls are looked up under.
Each of them may change between calls, and a lookup sees the session as it is then.
-/

namespace StepPhrase

/-- A phrasebook in use, with the setting that calls are matched under. The two change independently
of each other. -/
structure Session (α : Type) where
  setting : Call.Setting
  book : Phrasebook α

/-- A change to a session. Looking up a call is none, since a lookup leaves the session as it was.
-/
inductive Change (α : Type) where
  | register (definition : Text) (payload : α)
  | setProperty (name : Text) (value : Json)
  | removeProperty (name : Text)
  | setLimit (limit : SizeLimit)

namespace Session

variable {α : Type}

/-- A session with this engine and these properties, the usual limit and no definitions. -/
def start (engine : Engine) (properties : Bindings) : Session α :=
  ⟨⟨engine, properties, .default⟩, .empty⟩

/-- The properties in force. -/
def properties (s : Session α) : Bindings := s.setting.properties

/-- The session after a change. A definition that is no template changes nothing; a property or a
limit can always be set, and holds for templates that were registered before. -/
def apply (s : Session α) : Change α → Except Template.Error (Session α)
  | .register definition payload =>
    (s.book.register s.setting.engine definition payload).map fun book => { s with book }
  | .setProperty name value =>
    .ok { s with setting.properties := s.properties.set name value }
  | .removeProperty name =>
    .ok { s with setting.properties := s.properties.erase name }
  | .setLimit limit => .ok { s with setting.limit := limit }

/-- The entry for a call, under the properties and the limit that are in force now. -/
def find? (s : Session α) (call : Text) : Option (Phrasebook.Found α) :=
  s.book.find? s.setting call

end Session

end StepPhrase
