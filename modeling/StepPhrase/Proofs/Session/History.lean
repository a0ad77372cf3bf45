import Mathlib.Data.List.Forall2
import StepPhrase.Proofs.Phrasebook.Lookup
import StepPhrase.Proofs.Template.Alternation
import StepPhrase.Session

/-!
# Histories of a session

Between its changes a session is asked for calls. A history lists all steps of both kinds with what
they came back with; this module reads off a history what the session holds and what it answers.

Each step changes at most one of three things: the definitions, a property, the limit. So a run is
taken apart by what is looked at. Definitions add up in their order; of properties and of the limit
the last change is the one that shows.

* **`effect_perform`** — everything that one step can do.
* **`entries_after`**, **`get?_after`**, **`limit_after`** — what a run leaves behind: the
  definitions that were accepted, the last value given to a property, the last limit. The engine
  stays what it is.
* **`perform_of_refused`** — a step that is refused changes nothing.
* **`history_spec`** — all of this for a session that starts without definitions, with the answer of
  each lookup on the way.
-/

namespace StepPhrase

open Template (ofText?)

variable {α : Type}

namespace Session

/-- A step of a session: a change, which may be refused, or the lookup of a call. -/
inductive Step (α : Type) where
  | change (change : Change α)
  | lookup (call : Text)

/-- What a step comes back with. -/
inductive Outcome (α : Type) where
  | accepted
  | refused (e : Template.Error)
  | answer (result : Option (Phrasebook.Found α))

/-- The session behind a step, and what the step comes back with. A change that is refused leaves
the session as it was, and so does a lookup. -/
def perform (s : Session α) : Step α → Session α × Outcome α
  | .change change =>
    match s.apply change with
    | .ok next => (next, .accepted)
    | .error e => (s, .refused e)
  | .lookup call => (s, .answer (s.find? call))

/-- The session behind some steps. Steps that were refused have been taken too, and have left no
trace. -/
def after (s : Session α) (steps : List (Step α)) : Session α :=
  steps.foldl (fun s step => (s.perform step).1) s

/-- Some steps with what they come back with, each from the session that the steps before it have
led to. -/
def history (s : Session α) : List (Step α) → List (Step α × Outcome α)
  | [] => []
  | step :: steps => (step, (s.perform step).2) :: (s.perform step).1.history steps

/-- The definitions that a history accepts, with their payloads, in the order in which they were
registered. -/
def accepted (log : List (Step α × Outcome α)) : List (Text × α) :=
  log.filterMap fun
    | (.change (.register definition payload), .accepted) => some (definition, payload)
    | _ => none

/-- The value that a step gives to a property, `none` if it takes it away. A step that does neither
to this property assigns nothing. -/
def Step.assigned? (name : Text) : Step α → Option (Option Json)
  | .change (.setProperty other value) => if name = other then some (some value) else none
  | .change (.removeProperty other) => if name = other then some none else none
  | _ => none

/-- The limit that a step sets. -/
def Step.limit? : Step α → Option SizeLimit
  | .change (.setLimit limit) => some limit
  | _ => none

/-! ## One step

All cases of a step are listed once, with everything that it leaves behind. What follows in this
section is read off the list, one lemma for each thing that a session holds. -/

/-- **Everything that a step can do.** There is one rule for each kind of step and what it comes
back with, and each says what the whole session is afterwards. -/
inductive Effect (s : Session α) : Step α → Session α × Outcome α → Prop where
  | registered {definition : Text} {payload : α} {template : Template}
      (hparsed : ofText? s.setting.engine definition = .ok template) :
      Effect s (.change (.register definition payload))
        ({ s with book := ⟨s.book.entries ++ [(template, payload)]⟩ }, .accepted)
  | refused {definition : Text} {payload : α} {e : Template.Error}
      (hparsed : ofText? s.setting.engine definition = .error e) :
      Effect s (.change (.register definition payload)) (s, .refused e)
  | propertySet (name : Text) (value : Json) :
      Effect s (.change (.setProperty name value))
        ({ s with setting.properties := s.properties.set name value }, .accepted)
  | propertyRemoved (name : Text) :
      Effect s (.change (.removeProperty name))
        ({ s with setting.properties := s.properties.erase name }, .accepted)
  | limitSet (limit : SizeLimit) :
      Effect s (.change (.setLimit limit)) ({ s with setting.limit := limit }, .accepted)
  | lookedUp (call : Text) : Effect s (.lookup call) (s, .answer (s.find? call))

theorem effect_perform (s : Session α) (step : Step α) : Effect s step (s.perform step) := by
  cases step with
  | change change =>
    cases change with
    | register definition payload =>
      cases hparsed : ofText? s.setting.engine definition with
      | ok template =>
        have hperform : s.perform (.change (.register definition payload)) =
            ({ s with book := ⟨s.book.entries ++ [(template, payload)]⟩ }, .accepted) := by
          simp [perform, apply, Phrasebook.register, hparsed, Except.map]
        rw [hperform]
        exact .registered hparsed
      | error e =>
        have hperform : s.perform (.change (.register definition payload)) = (s, .refused e) := by
          simp [perform, apply, Phrasebook.register, hparsed, Except.map]
        rw [hperform]
        exact .refused hparsed
    | setProperty name value => exact .propertySet name value
    | removeProperty name => exact .propertyRemoved name
    | setLimit limit => exact .limitSet limit
  | lookup call => exact .lookedUp call

/-- **A step that is refused changes nothing.** Only a definition can be refused, and what refuses
it is that it has no template under the engine. -/
theorem perform_of_refused {s : Session α} {step : Step α} {e : Template.Error}
    (h : (s.perform step).2 = .refused e) : (s.perform step).1 = s := by
  have heffect := effect_perform s step
  generalize s.perform step = result at h heffect ⊢
  cases heffect with
  | refused _ => rfl
  | lookedUp _ => rfl
  | _ => cases h

/-- An entry of a phrasebook and the definition that it was accepted for, with its payload. The
entry is what reading the definition gives, so matching it is matching the definition. -/
def IsEntryFor (engine : Engine) (definition : Text × α) (entry : Template × α) : Prop :=
  ofText? engine definition.1 = .ok entry.1 ∧ entry.2 = definition.2

/-- A definition that is accepted is added at the end. No other step touches the entries. -/
theorem entries_perform (s : Session α) (step : Step α) :
    ∃ added, (s.perform step).1.book.entries = s.book.entries ++ added
      ∧ List.Forall₂ (IsEntryFor s.setting.engine)
        (accepted [(step, (s.perform step).2)]) added := by
  have heffect := effect_perform s step
  generalize s.perform step = result at heffect ⊢
  cases heffect with
  | @registered _ payload template hparsed =>
    exact ⟨[(template, payload)], rfl, .cons ⟨hparsed, rfl⟩ .nil⟩
  | _ => exact ⟨[], (List.append_nil _).symm, .nil⟩

theorem engine_perform (s : Session α) (step : Step α) :
    (s.perform step).1.setting.engine = s.setting.engine := by
  have heffect := effect_perform s step
  generalize s.perform step = result at heffect ⊢
  cases heffect <;> rfl

theorem get?_perform (s : Session α) (step : Step α) (name : Text) :
    (s.perform step).1.properties.get? name =
      (step.assigned? name).getD (s.properties.get? name) := by
  have heffect := effect_perform s step
  generalize s.perform step = result at heffect ⊢
  cases heffect with
  | propertySet other value =>
    have hget := Bindings.get?_set s.properties other name value
    simp only [properties, Step.assigned?] at hget ⊢
    rw [hget]
    split <;> rfl
  | propertyRemoved other =>
    have hget := Bindings.get?_erase s.properties other name
    simp only [properties, Step.assigned?] at hget ⊢
    rw [hget]
    split <;> rfl
  | _ => rfl

theorem limit_perform (s : Session α) (step : Step α) :
    (s.perform step).1.setting.limit = step.limit?.getD s.setting.limit := by
  have heffect := effect_perform s step
  generalize s.perform step = result at heffect ⊢
  cases heffect <;> rfl

/-! ## A run of steps

By induction over the steps, for any session to begin with: the first step leaves a session, and the
others run from there. -/

theorem after_append (s : Session α) (steps later : List (Step α)) :
    s.after (steps ++ later) = (s.after steps).after later :=
  List.foldl_append

theorem history_append (s : Session α) (steps later : List (Step α)) :
    s.history (steps ++ later) = s.history steps ++ (s.after steps).history later := by
  induction steps generalizing s with
  | nil => rfl
  | cons step steps ih => rw [List.cons_append, history, history, ih, List.cons_append]; rfl

theorem length_history (s : Session α) (steps : List (Step α)) :
    (s.history steps).length = steps.length := by
  induction steps generalizing s with
  | nil => rfl
  | cons step steps ih => rw [history, List.length_cons, List.length_cons, ih]

/-- **The entries are those of the accepted definitions**, in order and behind what was there. They
are the templates under the engine of the session, which no step changes. -/
theorem entries_after (s : Session α) (steps : List (Step α)) :
    ∃ added, (s.after steps).book.entries = s.book.entries ++ added
      ∧ List.Forall₂ (IsEntryFor s.setting.engine) (accepted (s.history steps)) added := by
  induction steps generalizing s with
  | nil => exact ⟨[], (List.append_nil _).symm, .nil⟩
  | cons step steps ih =>
    -- the entry of the first step, if any, stands in front of those of the later ones
    obtain ⟨first, hfirst, hfirstFor⟩ := entries_perform s step
    obtain ⟨rest, hrest, hrestFor⟩ := ih (s.perform step).1
    rw [engine_perform] at hrestFor
    refine ⟨first ++ rest, ?_, ?_⟩
    · rw [← List.append_assoc, ← hfirst]
      exact hrest
    · have hsplit : accepted (s.history (step :: steps)) =
          accepted [(step, (s.perform step).2)] ++ accepted ((s.perform step).1.history steps) := by
        rw [accepted, accepted, accepted, ← List.filterMap_append]
        rfl
      rw [hsplit]
      exact List.rel_append hfirstFor hrestFor

/-- What each step replaces or leaves alone was last replaced, or is as it was at the start. `view`
is any part of a session, and `replaced?` what a step puts in its place. -/
theorem after_eq_of_perform {β : Type} (view : Session α → β) (replaced? : Step α → Option β)
    (h : ∀ s step, view (s.perform step).1 = (replaced? step).getD (view s)) (s : Session α)
    (steps : List (Step α)) :
    view (s.after steps) = (steps.reverse.findSome? replaced?).getD (view s) := by
  induction steps generalizing s with
  | nil => rfl
  | cons step steps ih =>
    have hrest := ih (s.perform step).1
    rw [h s step] at hrest
    rw [List.reverse_cons, List.findSome?_append, List.findSome?_singleton]
    show view ((s.perform step).1.after steps) = _
    rw [hrest]
    -- what the first step did only shows if no later one replaced it
    cases steps.reverse.findSome? replaced? <;> rfl

/-- **The last step about a property decides what it is bound to**, be it set or taken away. With no
such step it is bound to what it was at the start. -/
theorem get?_after (s : Session α) (steps : List (Step α)) (name : Text) :
    (s.after steps).properties.get? name =
      (steps.reverse.findSome? (Step.assigned? name)).getD (s.properties.get? name) :=
  after_eq_of_perform (fun s => s.properties.get? name) (Step.assigned? name)
    (fun s step => get?_perform s step name) s steps

/-- **The last limit that was set is in force**, from the next step on, and for definitions that
were accepted before it as well: they are held against it when a call is matched. -/
theorem limit_after (s : Session α) (steps : List (Step α)) :
    (s.after steps).setting.limit = (steps.reverse.findSome? Step.limit?).getD s.setting.limit :=
  after_eq_of_perform (fun s => s.setting.limit) Step.limit? limit_perform s steps

theorem engine_after (s : Session α) (steps : List (Step α)) :
    (s.after steps).setting.engine = s.setting.engine := by
  induction steps generalizing s with
  | nil => rfl
  | cons step steps ih => exact (ih (s.perform step).1).trans (engine_perform s step)

/-! ## From the beginning

A session starts with some bindings and the default limit. A step in the middle of a history was
performed in the session that the steps in front of it had left. -/

theorem getElem?_history (s : Session α) (earlier later : List (Step α)) (step : Step α) :
    (s.history (earlier ++ step :: later))[earlier.length]? =
      some (step, ((s.after earlier).perform step).2) := by
  rw [history_append, ← length_history s earlier, List.getElem?_append_right (Nat.le_refl _),
    Nat.sub_self]
  rfl

theorem map_source_of_isEntryFor {engine : Engine} {definitions : List (Text × α)}
    {entries : List (Template × α)} (h : List.Forall₂ (IsEntryFor engine) definitions entries) :
    (entries.map fun entry => entry.1.source) = definitions.map Prod.fst := by
  induction h with
  | nil => rfl
  | cons hentry _ ih =>
    obtain ⟨hparsed, -⟩ := hentry
    obtain ⟨hsource, -, -⟩ := Template.ofText?_eq_ok hparsed
    rw [List.map_cons, List.map_cons, hsource, ih]

/-- **A session that starts without definitions** holds the definitions that it accepted, in order,
and under its engine, and the properties and the limit that were set last. A refused step leaves the
session as it was, and a lookup on the way comes back with the first of the best entries that
matched then. -/
theorem history_spec (engine : Engine) (bindings : Bindings) (steps : List (Step α)) :
    List.Forall₂ (IsEntryFor engine) (accepted ((start engine bindings).history steps))
        ((start engine bindings).after steps).book.entries
      ∧ ((start engine bindings).after steps).book.definitions
          = (accepted ((start engine bindings).history steps)).map Prod.fst
      ∧ ((start engine bindings).after steps).book.size =
        (accepted ((start engine bindings).history steps)).length
      ∧ ((start engine bindings).after steps).setting.engine = engine
      ∧ (∀ name, ((start engine bindings).after steps).properties.get? name =
          (steps.reverse.findSome? (Step.assigned? name)).getD (bindings.get? name))
      ∧ ((start engine bindings).after steps).setting.limit =
          (steps.reverse.findSome? Step.limit?).getD .default
      ∧ (∀ earlier step later e, steps = earlier ++ step :: later →
          ((start engine bindings).history steps)[earlier.length]? = some (step, .refused e) →
          (start engine bindings).after (earlier ++ [step]) = (start engine bindings).after earlier)
      ∧ ∀ earlier call later, steps = earlier ++ .lookup call :: later →
          ∃ result, ((start engine bindings).history steps)[earlier.length]?
              = some (.lookup call, .answer result)
            ∧ Phrasebook.IsAnswer ((start engine bindings).after earlier).setting call
                ((start engine bindings).after earlier).book.entries result := by
  obtain ⟨added, hadded, hentries⟩ := entries_after (start engine bindings) steps
  have hnone : (start engine bindings : Session α).book.entries = [] := rfl
  rw [hnone, List.nil_append] at hadded
  rw [← hadded] at hentries
  -- at the start there are no entries, so all that are there have been added
  refine ⟨hentries, ?_, hentries.length_eq.symm, engine_after _ steps, get?_after _ steps,
    limit_after _ steps, ?_, ?_⟩
  · exact map_source_of_isEntryFor hentries
  · rintro earlier step later e rfl hrefused
    rw [getElem?_history, Option.some_inj] at hrefused
    rw [after_append]
    exact perform_of_refused (congrArg Prod.snd hrefused)
  · rintro earlier call later rfl
    exact ⟨_, getElem?_history _ earlier later _, Phrasebook.find?_eq_iff.mp rfl⟩

end Session

end StepPhrase
