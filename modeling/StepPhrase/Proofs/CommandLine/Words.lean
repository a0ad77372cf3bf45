import StepPhrase.CommandLine.Invocation

/-!
# Words of a command line

Behind its name an option has its value in the same argument or in the next one, so what a command
line consists of are words of one or two arguments. While words are read, the value of an option may
not have been looked at yet. What is known at any time is what there would be if it were looked at:
`Progress.Has` is about that, and each word adds to it what stands in the word and nothing else.

Options stand in front of the name of a command as well as behind it, and are gathered apart. Where
both sides give an option, those behind the name count and those in front do not, however many there
are. Plain arguments belong to the command and stand behind its name.

* **`Progress.Has.foldlM_takeArgument`** — what is known behind some words of a command.
* **`Invocation.ofArguments?_spell`** — what a command line asks for, by what its words add.
* **`foldlM_take`**, **`Invocation.ofArguments?_values`** — the values of the options add up in
  their order.
-/

namespace StepPhrase.CommandLine

/-- The name of an option as written. -/
def OptionName.text : OptionName → Text
  | .logLevel => "log-level".toList
  | .property => "property".toList
  | .var => "var".toList

/-- The name of a command as written. -/
def CommandName.text : CommandName → Text
  | .matchCall => "match".toList
  | .format => "format".toList
  | .interpolate => "interpolate".toList
  | .keywords => "keywords".toList

/-- A part of a command line: an option with its value, or a plain argument. A command line is a
list of these on either side of its command. -/
inductive Word where
  /-- An option with its value, which an equals sign may join to the name. -/
  | option (name : OptionName) (value : Text) (joined : Bool)
  /-- A plain argument. -/
  | plain (t : Text)
  deriving DecidableEq, Repr

namespace Word

/-- A word as it stands in the arguments. An option takes up two arguments, or one if its value is
joined to it. -/
def spell : Word → List Text
  | .option name value true => ['-' :: '-' :: (name.text ++ '=' :: value)]
  | .option name value false => ['-' :: '-' :: name.text, value]
  | .plain t => [t]

/-- The plain argument that a word is. -/
def plain? : Word → Option Text
  | .option _ _ _ => none
  | .plain t => some t

/-- The value that a word gives to an option, none if it is another option or no option. -/
def valueOf? (name : OptionName) : Word → Option Text
  | .option other value _ => if other = name then some value else none
  | .plain _ => none

/-- A word that is taken for what it is, in a command or in front of it: its option is known there,
and there is nothing like an option where something else should stand. -/
def IsReadable (command : Option CommandName) : Word → Prop
  | .option name value joined =>
    optionNamed? command name.text = some name ∧ (joined = true ∨ Form.ofText value = .plain)
  | .plain t => command ≠ none ∧ Form.ofText t = .plain

instance (command : Option CommandName) : DecidablePred (IsReadable command)
  | .option _ _ _ => inferInstanceAs (Decidable (_ ∧ _))
  | .plain _ => inferInstanceAs (Decidable (_ ∧ _))

end Word

/-- The plain arguments among some words. -/
def plains (words : List Word) : List Text := words.filterMap Word.plain?

/-- The values that some words give to an option. -/
def valuesOf (name : OptionName) (words : List Word) : List Text :=
  words.filterMap (Word.valueOf? name)

/-- The arguments that a command line consists of: words in front of the name of the command and
behind it. -/
def lineOf (front : List Word) (command : CommandName) (inner : List Word) : List Text :=
  front.flatMap Word.spell ++ command.text :: inner.flatMap Word.spell

/-- The options with what a word adds to them, or an error where the option cannot have the value. A
plain argument adds nothing. -/
def Options.take (o : Options) : Word → Except UsageError Options
  | .option name value _ => o.set name value
  | .plain _ => .ok o

/-- The command that plain arguments and assignments make, behind its name. Assignments only matter
to the one command that expands a text. -/
inductive Asks : CommandName → List Text → List Pair → Command → Prop
  | matchCall (definition call : Text) (assignments : List Pair) :
    Asks .matchCall [definition, call] assignments (.matchCall definition call)
  | format (definition : Text) (values : List Text) (assignments : List Pair) :
    Asks .format (definition :: values) assignments (.format definition values)
  | interpolate (text : Text) (assignments : List Pair) :
    Asks .interpolate [text] assignments (.interpolate text assignments)
  | keywords (assignments : List Pair) : Asks .keywords [] assignments .keywords

/-- What is known when all values have been looked at: the options and the plain arguments, last
first. No option is left without a value then, and nothing has made all further arguments plain. -/
def Progress.Has (p : Progress) (options : Options) (plain : List Text) : Prop :=
  p.settle = .ok ⟨options, none, plain, false⟩

variable {command : CommandName} {level : Option CommandName} {name : OptionName}
    {value : Text} {word : Word} {words front inner : List Word} {p : Progress}
    {options after top own : Options} {plain rest : List Text}

theorem exists_take_of_cons (h : (word :: words).foldlM Options.take options = .ok after) :
    ∃ middle, options.take word = .ok middle ∧ words.foldlM Options.take middle = .ok after := by
  rw [List.foldlM_cons] at h
  cases hmiddle : options.take word with
  | error e =>
    rw [hmiddle] at h
    cases h
  | ok middle =>
    rw [hmiddle] at h
    exact ⟨middle, rfl, h⟩

/-! ## Forms

Whether an argument is an option can be seen from its first two characters, and the value that is
joined to it begins behind the first equals sign. -/

theorem ofText_long {t : Text} (hne : t ≠ []) :
    Form.ofText ('-' :: '-' :: t) =
      match Text.cut? '=' t with
      | some (name, value) => .long name (some value)
      | none => .long t none := by
  obtain ⟨c, t, rfl⟩ := List.exists_cons_of_ne_nil hne
  rfl

theorem ofText_joined (name : OptionName) (value : Text) :
    Form.ofText ('-' :: '-' :: (name.text ++ '=' :: value)) = .long name.text (some value) := by
  have hcut : Text.cut? '=' (name.text ++ '=' :: value) = some (name.text, value) := by
    rw [Text.cut?_eq_some_iff]
    exact ⟨rfl, by cases name <;> decide⟩
  rw [ofText_long (by simp), hcut]

theorem ofText_apart (name : OptionName) :
    Form.ofText ('-' :: '-' :: name.text) = .long name.text none := by
  cases name <;> decide

/-! ## Arguments of a command

A plain argument is the value of the option in front of it if that has none yet, and else one of the
plain arguments of the command. -/

section TakeArgument

variable {argument n : Text} {v : Option Text}

theorem takeArgument_long (hnot : p.onlyPlain = false) (hform : Form.ofText argument = .long n v) :
    takeArgument command p argument = takeOption (some command) p (.long n v) := by
  rw [takeArgument, hnot, hform]
  rfl

theorem takeArgument_of_awaited (hnot : p.onlyPlain = false) (hform : Form.ofText argument = .plain)
    (hawaits : p.awaitsValue = true) :
    takeArgument command p argument = .ok (p.giveValue argument) := by
  rw [takeArgument, hnot, hform]
  exact if_pos hawaits

theorem takeArgument_of_unawaited (hnot : p.onlyPlain = false)
    (hform : Form.ofText argument = .plain) (hawaits : p.awaitsValue = false) :
    takeArgument command p argument = takePlain command p argument := by
  rw [takeArgument, hnot, hform]
  exact if_neg (Bool.eq_false_iff.mp hawaits)

end TakeArgument

/-! ## What is known

A value that was not looked at yet may turn out to be no value at all, which is an error then. The
progress with the value looked at has no such choice, so that is what is kept. -/

namespace Progress

theorem has_start : Progress.start.Has .empty [] := rfl

theorem has_pending (h : options.set name value = .ok after) :
    (⟨options, some (name, some value), plain, false⟩ : Progress).Has after plain := by
  change (options.set name value).map _ = _
  rw [h]
  rfl

namespace Has

variable (h : p.Has options plain)
include h

/-- Nothing but a value can be missing, and none is awaited: at most one option has its value and
has not been settled yet. -/
theorem eq_or : p = ⟨options, none, plain, false⟩
    ∨ ∃ options' name value, p = ⟨options', some (name, some value), plain, false⟩ := by
  obtain ⟨options', pending, plain', onlyPlain⟩ := p
  rw [Has, settle] at h
  -- with nothing pending the progress is settled; a missing value is an error
  match pending with
  | none => exact .inl (Except.ok.inj h)
  | some (_, none) => cases h
  | some (name, some value) =>
    cases hset : options'.set name value with
    | error e =>
      simp only [hset] at h
      cases h
    | ok options'' =>
      simp only [hset] at h
      obtain ⟨-, -, rfl, rfl⟩ := Progress.mk.inj (Except.ok.inj h)
      exact .inr ⟨options', name, value, rfl⟩

theorem onlyPlain_eq : p.onlyPlain = false := by
  rcases h.eq_or with rfl | ⟨_, _, _, rfl⟩ <;> rfl

theorem awaitsValue_eq : p.awaitsValue = false := by
  rcases h.eq_or with rfl | ⟨_, _, _, rfl⟩ <;> rfl

theorem plain_eq : p.plain = plain := by
  rcases h.eq_or with rfl | ⟨_, _, _, rfl⟩ <;> rfl

theorem takeOption_joined (hknown : optionNamed? level name.text = some name)
    (hset : options.set name value = .ok after) :
    takeOption level p (.long name.text (some value)) = .ok ⟨after, none, plain, false⟩ := by
  simp only [takeOption, hknown, beginOption]
  rw [h]
  simp only [bind, Except.bind, hset]

theorem takeOption_apart (hknown : optionNamed? level name.text = some name) :
    takeOption level p (.long name.text none) = .ok ⟨options, some (name, none), plain, false⟩ := by
  simp only [takeOption, hknown, beginOption]
  rw [h]
  rfl

/-! ### In a command

Each word of a command takes one step or two of the reading. Both are followed here from one
progress with all known to the next, so the words can be taken one after another. -/

/-- **A word adds what stands in it**, and leaves a progress of which the same can be said, so that
another word may follow. -/
theorem foldlM_takeArgument_spell (hreadable : word.IsReadable (some command))
    (htakes : word.plain? ≠ none → command.takes (plain.length + 1) = true)
    (htake : options.take word = .ok after) :
    ∃ p' : Progress, word.spell.foldlM (takeArgument command) p = .ok p'
      ∧ p'.Has after (word.plain?.toList ++ plain) := by
  cases word with
  | option name value joined =>
    obtain ⟨hknown, hvalue⟩ := hreadable
    cases joined with
    | true =>
      refine ⟨⟨after, none, plain, false⟩, ?_, rfl⟩
      have hjoined : takeArgument command p _ = _ :=
        takeArgument_long h.onlyPlain_eq (ofText_joined name value)
      rw [h.takeOption_joined hknown htake] at hjoined
      simp only [Word.spell, List.foldlM_cons, hjoined, bind, Except.bind]
      rfl
    | false =>
      -- the value is not looked at before the next word comes
      refine ⟨⟨options, some (name, some value), plain, false⟩, ?_, has_pending htake⟩
      have hname : takeArgument command p _ = _ :=
        takeArgument_long h.onlyPlain_eq (ofText_apart name)
      rw [h.takeOption_apart hknown] at hname
      have hvalue := @takeArgument_of_awaited command
        ⟨options, some (name, none), plain, false⟩ value rfl
        (hvalue.resolve_left Bool.false_ne_true) rfl
      simp only [Word.spell, List.foldlM_cons, hname, hvalue, bind, Except.bind]
      rfl
  | plain t =>
    obtain ⟨-, hplain⟩ := hreadable
    cases htake
    refine ⟨⟨options, none, t :: plain, false⟩, ?_, rfl⟩
    have htaken : takeArgument command p t = _ :=
      takeArgument_of_unawaited h.onlyPlain_eq hplain h.awaitsValue_eq
    rw [takePlain, h.plain_eq, if_pos (htakes (Option.some_ne_none t)), h] at htaken
    simp only [Word.spell, List.foldlM_cons, htaken, bind, Except.bind]
    rfl

/-- **Words add what stands in them**, one after another. A command takes so many plain arguments
and no more, which is asked of all numbers up to theirs. -/
theorem foldlM_takeArgument (hreadable : ∀ word ∈ words, word.IsReadable (some command))
    (htakes : ∀ n ≤ plain.length + (plains words).length, command.takes n = true)
    (htake : words.foldlM Options.take options = .ok after) :
    ∃ p' : Progress, (words.flatMap Word.spell).foldlM (takeArgument command) p = .ok p'
      ∧ p'.Has after ((plains words).reverse ++ plain) := by
  induction words generalizing p options plain with
  | nil =>
    cases htake
    exact ⟨p, rfl, h⟩
  | cons word words ih =>
    obtain ⟨hword, hwords⟩ := List.forall_mem_cons.mp hreadable
    have hplains : plains (word :: words) = word.plain?.toList ++ plains words := by
      rw [plains, List.filterMap_cons]
      cases word.plain? <;> rfl
    rw [hplains, List.length_append] at htakes
    obtain ⟨middle, hmiddle, htake⟩ := exists_take_of_cons htake
    have hroom : word.plain? ≠ none → command.takes (plain.length + 1) = true := by
      intro hne
      obtain ⟨t, ht⟩ := Option.ne_none_iff_exists'.mp hne
      rw [ht] at htakes
      exact htakes _ (by simp)
    -- the first word leaves a progress of which the same is known, and the others go on from it
    obtain ⟨p', hp', hhas⟩ := h.foldlM_takeArgument_spell hword hroom hmiddle
    have hrest : ∀ n ≤ (word.plain?.toList ++ plain).length + (plains words).length,
        command.takes n = true := by
      intro n hn
      rw [List.length_append] at hn
      exact htakes n (by omega)
    obtain ⟨p'', hp'', hhas'⟩ := ih hhas hwords hrest htake
    refine ⟨p'', ?_, ?_⟩
    · rw [List.flatMap_cons, List.foldlM_append, hp']
      exact hp''
    · rw [hplains, List.reverse_append, List.append_assoc]
      cases word <;> exact hhas'

end Has

end Progress

theorem Asks.takes {name : CommandName} {assignments : List Pair} {ask : Command} {n : Nat}
    (h : Asks name plain assignments ask) (hn : n ≤ plain.length) : name.takes n = true := by
  cases h with
  | matchCall => exact decide_eq_true hn
  | format => rfl
  | interpolate => exact decide_eq_true hn
  | keywords => exact decide_eq_true hn

/-- **What a command asks for**, with the options among its arguments. Where the options stand
between the plain arguments makes no difference. -/
theorem ofCommand_spell {ask : Command} (hreadable : ∀ word ∈ words, word.IsReadable (some command))
    (htake : words.foldlM Options.take .empty = .ok after)
    (hask : Asks command (plains words) after.assignments ask) :
    ofCommand command (words.flatMap Word.spell) = .ok (after, ask) := by
  obtain ⟨p, hp, hhas⟩ := Progress.has_start.foldlM_takeArgument hreadable
    (fun n hn => hask.takes (by simpa using hn)) htake
  rw [Progress.Has, List.append_nil] at hhas
  simp only [ofCommand, hp, hhas, bind, Except.bind, List.reverse_reverse]
  generalize plains words = arguments at hask
  cases hask <;> rfl

/-! ## In front of a command

The reading in front of a command stops at the first plain argument that no option waits for, which
has to be the name of a command. -/

theorem readFrom_long {argument n : Text} {v : Option Text} (hnot : p.onlyPlain = false)
    (hform : Form.ofText argument = .long n v) :
    Invocation.readFrom p (argument :: rest) =
      match takeOption none p (.long n v) with
      | .ok p => Invocation.readFrom p rest
      | .error e => .error e := by
  rw [Invocation.readFrom, hnot, hform]
  rfl

theorem readFrom_of_awaited {argument : Text} (hnot : p.onlyPlain = false)
    (hform : Form.ofText argument = .plain) (hawaits : p.awaitsValue = true) :
    Invocation.readFrom p (argument :: rest) = Invocation.readFrom (p.giveValue argument) rest := by
  rw [Invocation.readFrom, hnot, hform]
  exact if_pos hawaits

/-- **An option adds its value**, in front of the command as well as behind it. There are no plain
arguments here, for the first one would be the command. -/
theorem Progress.Has.readFrom_spell (h : p.Has options []) (hreadable : word.IsReadable none)
    (htake : options.take word = .ok after) :
    ∃ p' : Progress, Invocation.readFrom p (word.spell ++ rest) = Invocation.readFrom p' rest
      ∧ p'.Has after [] := by
  cases word with
  | option name value joined =>
    obtain ⟨hknown, hvalue⟩ := hreadable
    cases joined with
    | true =>
      refine ⟨⟨after, none, [], false⟩, ?_, rfl⟩
      rw [Word.spell, List.singleton_append,
        readFrom_long h.onlyPlain_eq (ofText_joined name value), h.takeOption_joined hknown htake]
    | false =>
      refine ⟨⟨options, some (name, some value), [], false⟩, ?_, has_pending htake⟩
      rw [Word.spell, List.cons_append, readFrom_long h.onlyPlain_eq (ofText_apart name),
        h.takeOption_apart hknown]
      exact readFrom_of_awaited rfl (hvalue.resolve_left Bool.false_ne_true) rfl
  | plain t => exact absurd rfl hreadable.1

/-- **Options add their values**, and what comes behind them is read with these known. -/
theorem Progress.Has.readFrom_flatMap (h : p.Has options [])
    (hreadable : ∀ word ∈ words, word.IsReadable none)
    (htake : words.foldlM Options.take options = .ok after) :
    ∃ p' : Progress, Invocation.readFrom p (words.flatMap Word.spell ++ rest) =
      Invocation.readFrom p' rest
      ∧ p'.Has after [] := by
  induction words generalizing p options with
  | nil =>
    cases htake
    exact ⟨p, rfl, h⟩
  | cons word words ih =>
    obtain ⟨hword, hwords⟩ := List.forall_mem_cons.mp hreadable
    obtain ⟨middle, hmiddle, htake⟩ := exists_take_of_cons htake
    rw [List.flatMap_cons, List.append_assoc]
    obtain ⟨p', hp', hhas⟩ := h.readFrom_spell hword hmiddle
    obtain ⟨p'', hp'', hhas'⟩ := ih hhas hwords htake
    exact ⟨p'', hp'.trans hp'', hhas'⟩

theorem commandNamed?_text (command : CommandName) : commandNamed? command.text = some command := by
  cases command <;> decide

theorem ofText_text (command : CommandName) : Form.ofText command.text = .plain := by
  cases command <;> decide

theorem text_ne_helpWord (command : CommandName) : command.text ≠ helpWord := by
  cases command <;> decide

/-- **What a command line asks for**: options in front of the name of a command, and the words of
the command. -/
theorem Invocation.ofArguments?_spell {ask : Command}
    (hfront : ∀ word ∈ front, word.IsReadable none)
    (hinner : ∀ word ∈ inner, word.IsReadable (some command))
    (htop : front.foldlM Options.take .empty = .ok top)
    (hown : inner.foldlM Options.take .empty = .ok own)
    (hask : Asks command (plains inner) own.assignments ask) :
    Invocation.ofArguments? (lineOf front command inner) =
      .ok ⟨(top.overlay own).logLevel, (top.overlay own).properties, ask⟩ := by
  -- the options in front are known when the name of the command comes, and none waits for it
  obtain ⟨p, hp, hhas⟩ := Progress.has_start.readFrom_flatMap hfront htop
  rw [Invocation.ofArguments?, lineOf, hp, Invocation.readFrom, hhas.onlyPlain_eq, ofText_text]
  simp only [Bool.false_eq_true, if_false, hhas.awaitsValue_eq, text_ne_helpWord,
    commandNamed?_text, ofCommand_spell hinner hown hask]
  rw [hhas]
  rfl

/-! ## Options

What the words add is gathered by name. The values of an option are those of the words with that
name in their order, wherever other words stand between them. -/

theorem valuesOf_cons (name : OptionName) (word : Word) (words : List Word) :
    valuesOf name (word :: words) = (word.valueOf? name).toList ++ valuesOf name words := by
  rw [valuesOf, List.filterMap_cons]
  cases word.valueOf? name <;> rfl

/-- **The values of options add up in their order**, if they can be read and the level of the log is
given once at most. -/
theorem foldlM_take (hproperties : ∀ raw ∈ valuesOf .property words, (pair? raw).isSome = true)
    (hassignments : ∀ raw ∈ valuesOf .var words, (pair? raw).isSome = true)
    (hlevels : ∀ t ∈ valuesOf .logLevel words, (LogLevel.ofText? t).isSome = true)
    (honce : (valuesOf .logLevel words).length + options.logLevel.toList.length ≤ 1) :
    words.foldlM Options.take options =
      .ok ⟨options.logLevel.or ((valuesOf .logLevel words).head?.bind LogLevel.ofText?),
        options.properties ++ (valuesOf .property words).filterMap pair?,
        options.assignments ++ (valuesOf .var words).filterMap pair?⟩ := by
  induction words generalizing options with
  | nil => simp [valuesOf, pure, Except.pure]
  | cons word words ih =>
    rw [valuesOf_cons, List.forall_mem_append] at hproperties hassignments hlevels
    rw [valuesOf_cons, List.length_append] at honce
    rw [List.foldlM_cons]
    simp only [valuesOf_cons]
    match word with
    | .plain t =>
      exact ih hproperties.2 hassignments.2 hlevels.2
        (by simpa [Word.valueOf?] using honce)
    | .option .property value _ =>
      obtain ⟨pair, hpair⟩ :=
        Option.isSome_iff_exists.mp (hproperties.1 value (by simp [Word.valueOf?]))
      have htaken := @ih ⟨options.logLevel, options.properties ++ [pair], options.assignments⟩
        hproperties.2 hassignments.2 hlevels.2 (by simpa [Word.valueOf?] using honce)
      simp only [Options.take, Options.set, hpair, bind, Except.bind, htaken]
      simp [Word.valueOf?, hpair]
    | .option .var value _ =>
      obtain ⟨pair, hpair⟩ :=
        Option.isSome_iff_exists.mp (hassignments.1 value (by simp [Word.valueOf?]))
      have htaken := @ih ⟨options.logLevel, options.properties, options.assignments ++ [pair]⟩
        hproperties.2 hassignments.2 hlevels.2 (by simpa [Word.valueOf?] using honce)
      simp only [Options.take, Options.set, hpair, bind, Except.bind, htaken]
      simp [Word.valueOf?, hpair]
    | .option .logLevel value _ =>
      obtain ⟨level, hlevel⟩ :=
        Option.isSome_iff_exists.mp (hlevels.1 value (by simp [Word.valueOf?]))
      -- the level stands here, so it stands nowhere else
      have hlengths : 1 + (valuesOf .logLevel words).length + options.logLevel.toList.length ≤ 1 :=
        honce
      have hrest : valuesOf .logLevel words = [] := List.length_eq_zero_iff.mp (by omega)
      have hnone : options.logLevel = none :=
        Option.toList_eq_nil_iff.mp (List.length_eq_zero_iff.mp (by omega))
      have htaken := @ih ⟨some level, options.properties, options.assignments⟩
        hproperties.2 hassignments.2 hlevels.2 (by simp [hrest])
      simp only [Options.take, Options.set, hnone, hlevel, bind, Except.bind]
      simp [Word.valueOf?, hlevel, hrest, htaken]

theorem valuesOf_append (name : OptionName) (front inner : List Word) :
    valuesOf name (front ++ inner) = valuesOf name front ++ valuesOf name inner :=
  List.filterMap_append

theorem valuesOf_var_of_readable (h : ∀ word ∈ front, word.IsReadable none) :
    valuesOf .var front = [] := by
  refine List.filterMap_eq_nil_iff.mpr fun word hword => ?_
  match word, h word hword with
  | .plain _, _ => rfl
  | .option .property _ _, _ => rfl
  | .option .logLevel _ _, _ => rfl
  | .option .var _ _, hreadable => exact absurd hreadable.1 (by decide)

/-- The values that an option has for a command: those behind the command's name, or else those in
front. -/
def valuesInForce (name : OptionName) (front inner : List Word) : List Text :=
  if valuesOf name inner = [] then valuesOf name front else valuesOf name inner

theorem valuesInForce_of_nil {name : OptionName} (h : valuesOf name inner = []) :
    valuesInForce name front inner = valuesOf name front := if_pos h

theorem valuesInForce_of_ne_nil {name : OptionName} (h : valuesOf name inner ≠ []) :
    valuesInForce name front inner = valuesOf name inner := if_neg h

theorem mem_of_mem_valuesInForce {name : OptionName} {t : Text}
    (h : t ∈ valuesInForce name front inner) :
    t ∈ valuesOf name front ∨ t ∈ valuesOf name inner := by
  by_cases hnil : valuesOf name inner = []
  · exact .inl (valuesInForce_of_nil hnil ▸ h)
  · exact .inr (valuesInForce_of_ne_nil hnil ▸ h)

/-- **What a command line asks for**, in terms of the values that its options have in their order.
How the words are spelled, and where on its side of the command an option stands among others, does
not matter. -/
theorem Invocation.ofArguments?_values {ask : Command}
    (hfront : ∀ word ∈ front, word.IsReadable none)
    (hinner : ∀ word ∈ inner, word.IsReadable (some command))
    (hproperties : ∀ raw ∈ valuesOf .property (front ++ inner), (pair? raw).isSome = true)
    (hassignments : ∀ raw ∈ valuesOf .var inner, (pair? raw).isSome = true)
    (hlevels : ∀ t ∈ valuesOf .logLevel (front ++ inner), (LogLevel.ofText? t).isSome = true)
    (honce : (valuesOf .logLevel front).length ≤ 1 ∧ (valuesOf .logLevel inner).length ≤ 1)
    (hask : Asks command (plains inner) ((valuesOf .var inner).filterMap pair?) ask) :
    Invocation.ofArguments? (lineOf front command inner) =
      .ok ⟨(valuesInForce .logLevel front inner).head?.bind LogLevel.ofText?,
        (valuesInForce .property front inner).filterMap pair?, ask⟩ := by
  simp only [valuesOf_append, List.forall_mem_append] at hproperties hlevels
  -- each side by itself adds up the values of its options
  have htop := @foldlM_take front .empty hproperties.1
    (by simp [valuesOf_var_of_readable hfront]) hlevels.1
    (by simpa [Options.empty] using honce.1)
  have hown := @foldlM_take inner .empty hproperties.2 hassignments hlevels.2
    (by simpa [Options.empty] using honce.2)
  rw [Invocation.ofArguments?_spell hfront hinner htop hown (by simpa [Options.empty] using hask)]
  -- an option of the command can be read, so the command has none only if there is no word for it
  have hlevel : ((valuesOf .logLevel inner).head?.bind LogLevel.ofText?).or
      ((valuesOf .logLevel front).head?.bind LogLevel.ofText?) =
        (valuesInForce .logLevel front inner).head?.bind LogLevel.ofText? := by
    cases hinnerLevels : valuesOf .logLevel inner with
    | nil => rw [valuesInForce_of_nil hinnerLevels]; rfl
    | cons t levels =>
      rw [hinnerLevels] at hlevels
      obtain ⟨level, hread⟩ := Option.isSome_iff_exists.mp (hlevels.2 t List.mem_cons_self)
      rw [valuesInForce_of_ne_nil (by simp [hinnerLevels]), hinnerLevels]
      simp [hread]
  have hproperty : (if ((valuesOf .property inner).filterMap pair?).isEmpty then
      (valuesOf .property front).filterMap pair? else (valuesOf .property inner).filterMap pair?) =
        (valuesInForce .property front inner).filterMap pair? := by
    cases hinnerProperties : valuesOf .property inner with
    | nil => rw [valuesInForce_of_nil hinnerProperties]; rfl
    | cons raw raws =>
      rw [hinnerProperties] at hproperties
      obtain ⟨pair, hpair⟩ := Option.isSome_iff_exists.mp (hproperties.2 raw List.mem_cons_self)
      rw [valuesInForce_of_ne_nil (by simp [hinnerProperties]), hinnerProperties]
      simp [hpair]
  simp only [Options.overlay, Options.empty, Option.none_or, List.nil_append, hlevel]
  rw [← hproperty]
  rfl

end StepPhrase.CommandLine
