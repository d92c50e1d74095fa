import Phraseology.Airline
import Phraseology.Alphabet
import Phraseology.Annotator
import Phraseology.Callsign.Basic
import Phraseology.Callsign.Completion
import Phraseology.Callsign.Context
import Phraseology.Command.Basic
import Phraseology.Command.Limit
import Phraseology.Command.Rule
import Phraseology.CommandLine.Arguments
import Phraseology.CommandLine.Flag
import Phraseology.CommandLine.Help
import Phraseology.CommandLine.Run
import Phraseology.Confidence
import Phraseology.Decimal.Double
import Phraseology.Decimal.Layout
import Phraseology.Decimal.Reader
import Phraseology.Decimal.Shortest
import Phraseology.Error
import Phraseology.Frame.Basic
import Phraseology.Frame.Cut
import Phraseology.Frame.Reader
import Phraseology.Frame.Repair
import Phraseology.Grammar.Basic
import Phraseology.Grammar.Reader
import Phraseology.Main
import Phraseology.Search.Parse
import Phraseology.Search.Policy
import Phraseology.Search.Queue
import Phraseology.Search.Run
import Phraseology.Search.State
import Phraseology.Search.Watch
import Phraseology.Settings.Basic
import Phraseology.Settings.Name
import Phraseology.Settings.Notation
import Phraseology.Settings.Number
import Phraseology.Settings.Quotation
import Phraseology.Settings.Reader
import Phraseology.Settings.Spacing
import Phraseology.Spoken.Designator
import Phraseology.Spoken.Number
import Phraseology.Tag
import Phraseology.Text.Blank
import Phraseology.Text.Case
import Phraseology.Text.CaseTable
import Phraseology.Text.Identifier
import Phraseology.Text.IdentifierTable
import Phraseology.Text.Lines
import Phraseology.Text.PrintTable
import Phraseology.Text.Quoted
import Phraseology.Text.Ranges
import Phraseology.Token
import Phraseology.Transducer.Basic
import Phraseology.Transducer.Prefilter
import Phraseology.Transducer.Reinsertion
import Phraseology.Utterance.Basic
import Phraseology.Utterance.Record
import Phraseology.Vocabulary
import Phraseology.Proofs.Decimal.Numeral
import Phraseology.Proofs.Tag.Shape
import Phraseology.Proofs.Search.Moves
import Phraseology.Proofs.Search.Snapshots
import Phraseology.Proofs.Search.Split
import Phraseology.Proofs.Search.Nesting
import Phraseology.Proofs.Search.KeyBound
import Phraseology.Proofs.Tag.Plain
import Phraseology.Proofs.Search.Alike
import Phraseology.Proofs.Search.Keys
import Phraseology.Proofs.Search.Exploration
import Phraseology.Proofs.Search.Cheapest
import Phraseology.Proofs.Transducer.Reinsertion
import Phraseology.Proofs.Transducer.Conversion
import Phraseology.Proofs.Search.Evaluation
import Phraseology.Proofs.Callsign.Context
import Phraseology.Proofs.Callsign.Completion
import Phraseology.Proofs.Callsign.Rehearing
import Phraseology.Proofs.Tag.Opening
import Phraseology.Proofs.Frame.Nesting
import Phraseology.Proofs.Frame.Repair
import Phraseology.Proofs.Text.LowerWords
import Phraseology.Proofs.Frame.Spacing
import Phraseology.Proofs.Frame.Reading
import Phraseology.Proofs.Frame.Agreement
import Phraseology.Proofs.Search.PlainOutput
import Phraseology.Proofs.Search.Phases
import Phraseology.Proofs.Transducer.Phases
import Phraseology.Proofs.Frame.Roundtrip
import Phraseology.Proofs.Transducer.Agreement
import Phraseology.Proofs.Annotator.History
import Phraseology.Proofs.Frame.CommandOrder
import Phraseology.Proofs.Frame.Cuts
import Phraseology.Proofs.Frame.Noise
import Phraseology.Proofs.Utterance.Extraction
import Phraseology.Proofs.Utterance.Noise
import Phraseology.Proofs.Frame.Closing
import Phraseology.Proofs.Utterance.Strict
import Phraseology.Proofs.Vocabulary.Inside
import Phraseology.Proofs.Search.Paths
import Phraseology.Proofs.Transducer.Pruning
import Phraseology.Proofs.Search.Interruption
import Phraseology.Proofs.Search.Callsign
import Phraseology.Proofs.Transducer.Skipping
import Phraseology.Proofs.Frame.Idempotence
import Phraseology.Proofs.Spoken.Composition
import Phraseology.Proofs.Spoken.Cardinal
import Phraseology.Proofs.Decimal.LetterCase
import Phraseology.Proofs.Frame.Ratings
import Phraseology.Proofs.Spoken.Groups
import Phraseology.Proofs.Spoken.Rewriting
import Phraseology.Proofs.Search.Levels
import Phraseology.Proofs.Text.Lowered
import Phraseology.Proofs.Search.Dropping
import Phraseology.Proofs.Transducer.Fluff
import Phraseology.Proofs.Vocabulary.Collecting
import Phraseology.Proofs.Frame.Spans
import Phraseology.Proofs.Command.Interpretation
import Phraseology.Proofs.Utterance.Scoring
import Phraseology.Proofs.Utterance.Fields
import Phraseology.Proofs.Search.BestFirst
import Phraseology.Proofs.Callsign.Ambiguity
import Phraseology.Proofs.Grammar.Nodes
import Phraseology.Proofs.Frame.Layout
import Phraseology.Proofs.Spoken.Frequency
import Phraseology.Proofs.Command.Negation
import Phraseology.Proofs.Utterance.RecordShape
import Phraseology.Proofs.Utterance.ObjectForm
import Phraseology.Proofs.CommandLine.Annotation
import Phraseology.Proofs.Token.Recognizer
import Phraseology.Proofs.Tag.Tagging
import Phraseology.Proofs.Airline.Insertions
import Phraseology.Proofs.Frame.CutNesting
