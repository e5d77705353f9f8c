import LoxLang.Main
import LoxLang.Proofs.Binding.Declared
import LoxLang.Proofs.Binding.Region
import LoxLang.Proofs.Binding.Renaming
import LoxLang.Proofs.Evaluation.Keeps
import LoxLang.Proofs.Evaluation.Lexical
import LoxLang.Proofs.Evaluation.LexicalRun
import LoxLang.Proofs.Evaluation.RenamedRun
import LoxLang.Proofs.Evaluation.RenamedStep
import LoxLang.Proofs.Evaluation.Resemblance
import LoxLang.Proofs.Evaluation.Watch
import LoxLang.Proofs.Grammar.Complete
import LoxLang.Proofs.Grammar.Derivable
import LoxLang.Proofs.Grammar.Fresh
import LoxLang.Proofs.Grammar.Gives
import LoxLang.Proofs.Grammar.Language
import LoxLang.Proofs.Grammar.Passage
import LoxLang.Proofs.Grammar.Phrase
import LoxLang.Proofs.Grammar.Reread
import LoxLang.Proofs.Grammar.Restored
import LoxLang.Proofs.Grammar.RoundTrip
import LoxLang.Proofs.Grammar.Rules
import LoxLang.Proofs.Grammar.Sound
import LoxLang.Proofs.Grammar.Written
import LoxLang.Proofs.Number.Nearest
import LoxLang.Proofs.Session.Renaming
import LoxLang.Proofs.Session.Visits
import LoxLang.Proofs.Store.Growth
import LoxLang.Proofs.Token.Lexeme
import LoxLang.Proofs.Token.Lexing
import LoxLang.Proofs.Token.Munch
import LoxLang.Proofs.Evaluation.Revised
import LoxLang.Proofs.Binding.Numbering
import LoxLang.Proofs.Session.Ledger
import LoxLang.Proofs.Session.Refusal
import LoxLang.Proofs.Binding.Joined
import LoxLang.Proofs.Evaluation.Allowance
import LoxLang.Proofs.Evaluation.Joined
import LoxLang.Proofs.Session.Joined
import LoxLang.Proofs.ForLoop.Bound
import LoxLang.Proofs.ForLoop.Parse
import LoxLang.Proofs.ForLoop.Run
import LoxLang.Proofs.ForLoop.Step
import LoxLang.Proofs.ForLoop.Alongside
import LoxLang.Proofs.ForLoop.Answers
import LoxLang.Proofs.Evaluation.CurrentScope
import LoxLang.Proofs.Evaluation.Nested
import LoxLang.Proofs.Session.CurrentScope
import LoxLang.Proofs.Session.Returns
import LoxLang.Proofs.Token.BytePartition
import LoxLang.Proofs.Grammar.Indexed
import LoxLang.Proofs.Grammar.InRange
import LoxLang.Proofs.Session.Diagnostics
import LoxLang.Proofs.Session.Expression
import LoxLang.Proofs.Grammar.WellFormed
import LoxLang.Proofs.Session.KnownOperators
import LoxLang.Proofs.Session.FullSink
import LoxLang.Proofs.Number.Pattern
import LoxLang.Proofs.Number.ReadBack
import LoxLang.Proofs.Session.Numbers
import LoxLang.Proofs.Evaluation.Renumbered
import LoxLang.Proofs.Session.LateBinding
import LoxLang.Proofs.Grammar.Steady
import LoxLang.Proofs.Grammar.Journal
import LoxLang.Proofs.Grammar.Skipping
import LoxLang.Proofs.Grammar.Recovery
import LoxLang.Proofs.Grammar.Counted
import LoxLang.Proofs.Grammar.Numbered
import LoxLang.Proofs.Session.Confined
import LoxLang.Proofs.Session.Pages
import LoxLang.Proofs.Grammar.ParseTree
import LoxLang.Proofs.Grammar.Slips
import LoxLang.Proofs.Grammar.Relaxed
import LoxLang.Proofs.Grammar.Allowance
import LoxLang.Proofs.Grammar.Boundary
import LoxLang.Proofs.Binding.Walk
import LoxLang.Proofs.Binding.Resolver
import LoxLang.Proofs.Binding.Depths
import LoxLang.Proofs.Binding.Offences
import LoxLang.Proofs.Binding.SourceOrder
import LoxLang.Proofs.Store.WriteLog
import LoxLang.Proofs.Token.Spaced
import LoxLang.Proofs.Session.Delivery
import LoxLang.Proofs.Number.Renderers
import LoxLang.Proofs.Number.Comparison
import LoxLang.Proofs.Grammar.Contents
import LoxLang.Proofs.Grammar.Literals
import LoxLang.Proofs.Program.Numbers
import LoxLang.Proofs.Program.Outline
import LoxLang.Proofs.Program.Legible
import LoxLang.Proofs.Program.Shown
import LoxLang.Proofs.Program.Matches
import LoxLang.Proofs.Evaluation.Notes
import LoxLang.Proofs.Evaluation.Provenance
import LoxLang.Proofs.Session.Identity
