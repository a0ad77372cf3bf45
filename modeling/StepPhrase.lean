import StepPhrase.Text.Caseless
import StepPhrase.Unicode.DecimalDigit
import StepPhrase.Unicode.WordCharacter
import StepPhrase.Argument.Shape
import StepPhrase.Argument
import StepPhrase.Template.Rank
import StepPhrase.Template.Filled
import StepPhrase.Json.Number
import StepPhrase.Json.Reader
import StepPhrase.Bindings
import StepPhrase.Call.Match
import StepPhrase.Reference.Expansion
import StepPhrase.Reference.Quoted
import StepPhrase.Session
import StepPhrase.CommandLine.Run
import StepPhrase.Main
import StepPhrase.Proofs.Keyword.Leading
import StepPhrase.Proofs.Call.Matching
import StepPhrase.Proofs.Session.History
import StepPhrase.Proofs.Call.KeywordInDefinition
import StepPhrase.Proofs.Phrasebook.ExactText
import StepPhrase.Proofs.Argument.LetterCase
import StepPhrase.Proofs.Template.Gist
import StepPhrase.Proofs.Template.LetterCase
import StepPhrase.Proofs.Call.LetterCase
import StepPhrase.Proofs.Reference.Nesting
import StepPhrase.Proofs.Reference.Openings
import StepPhrase.Proofs.Reference.Stability
import StepPhrase.Proofs.Reference.Unbound
import StepPhrase.Proofs.Reference.Conversion
import StepPhrase.Proofs.Reference.Escaping
import StepPhrase.Proofs.Reference.Acyclic
import StepPhrase.Proofs.Argument.Classification
import StepPhrase.Proofs.Argument.Quotation
import StepPhrase.Proofs.Reference.Quoted
import StepPhrase.Proofs.Reference.QuotedWords
import StepPhrase.Proofs.Call.Outline
import StepPhrase.Proofs.Reference.Dependence
import StepPhrase.Proofs.Template.Layout
import StepPhrase.Proofs.Template.Filled
import StepPhrase.Proofs.Call.EscapedText
import StepPhrase.Proofs.Call.SlotNames
import StepPhrase.Proofs.Call.Positions
import StepPhrase.Proofs.Call.HandedOn
import StepPhrase.Proofs.Call.FilledDefinition
import StepPhrase.Proofs.CommandLine.Words
import StepPhrase.Proofs.CommandLine.Layers
import StepPhrase.Proofs.Argument.Preference
import StepPhrase.Proofs.Call.Unambiguous
import StepPhrase.Proofs.Call.Cursor
import StepPhrase.Proofs.Call.CompiledMatch
