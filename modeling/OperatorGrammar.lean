import OperatorGrammar.Main
import OperatorGrammar.Hook.Recipe
import OperatorGrammar.Proofs.Layout
import OperatorGrammar.Proofs.Lexeme
import OperatorGrammar.Proofs.Number
import OperatorGrammar.Proofs.Plain
import OperatorGrammar.Proofs.Blanks
import OperatorGrammar.Proofs.Reads
import OperatorGrammar.Proofs.ListRun
import OperatorGrammar.Proofs.ReadsSound
import OperatorGrammar.Proofs.Takes
import OperatorGrammar.Proofs.ReadsComplete
import OperatorGrammar.Proofs.Spelling
import OperatorGrammar.Proofs.Reachable
import OperatorGrammar.Proofs.WellFormed
import OperatorGrammar.Proofs.Standard
import OperatorGrammar.Proofs.Parenthesised
import OperatorGrammar.Proofs.TableHistory
import OperatorGrammar.Proofs.ConfigurationHistory
import OperatorGrammar.Proofs.LongestMatch
import OperatorGrammar.Proofs.Approximation
import OperatorGrammar.Proofs.Agreement
import OperatorGrammar.Proofs.Independence
import OperatorGrammar.Proofs.Termination
import OperatorGrammar.Proofs.Scans
import OperatorGrammar.Proofs.InStep
import OperatorGrammar.Proofs.Onward
import OperatorGrammar.Proofs.CursorBounds
import OperatorGrammar.Proofs.OpenLevels
import OperatorGrammar.Proofs.BundledCallbacks
import OperatorGrammar.Proofs.NestingLimit
import OperatorGrammar.Proofs.Initialisers
import OperatorGrammar.Proofs.Follows
import OperatorGrammar.Proofs.Lockstep
import OperatorGrammar.Proofs.Stretch
import OperatorGrammar.Proofs.Shifted
import OperatorGrammar.Proofs.TopLevel
import OperatorGrammar.Proofs.Separators
import OperatorGrammar.Proofs.Conservative
import OperatorGrammar.Proofs.InFront
import OperatorGrammar.Proofs.Grouping
import OperatorGrammar.Proofs.Blanking
import OperatorGrammar.Proofs.Commented
import OperatorGrammar.Proofs.Observers
import OperatorGrammar.Proofs.FailurePlace
import OperatorGrammar.Proofs.SharedFront
import OperatorGrammar.Proofs.Lookahead
import OperatorGrammar.Proofs.Spacing
import OperatorGrammar.Proofs.ListSeparation
import OperatorGrammar.Proofs.WholeExpression
import OperatorGrammar.Proofs.Conditionals
import OperatorGrammar.Proofs.LinkChains
import OperatorGrammar.Proofs.Removal
import OperatorGrammar.Proofs.Registration
import OperatorGrammar.Proofs.Quotation
import OperatorGrammar.Proofs.CallOrder
import OperatorGrammar.Proofs.Blind
import OperatorGrammar.Proofs.SettledBlanks
import OperatorGrammar.Proofs.Costs
import OperatorGrammar.Proofs.NestingLevels
import OperatorGrammar.Proofs.Built
import OperatorGrammar.Proofs.OutlineRows
import OperatorGrammar.Proofs.Legible
import OperatorGrammar.Proofs.OperatorSpecs
import OperatorGrammar.Proofs.FlagOrder
import OperatorGrammar.Proofs.OperatorCharacters
import OperatorGrammar.Proofs.Distances
