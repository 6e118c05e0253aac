import Scriptlet.Main
import Scriptlet.Tree.Traversal
import Scriptlet.Proofs.Grammar.Layer
import Scriptlet.Proofs.Grammar.ExpressionComplete
import Scriptlet.Proofs.Grammar.ExpressionSound
import Scriptlet.Proofs.Grammar.Sentence
import Scriptlet.Proofs.Grammar.SentenceComplete
import Scriptlet.Proofs.Grammar.SentenceSound
import Scriptlet.Proofs.Evaluation.CurrentScope
import Scriptlet.Proofs.Evaluation.DirectReturn
import Scriptlet.Proofs.Evaluation.RenumberedRun
import Scriptlet.Proofs.Grammar.SentenceLines
import Scriptlet.Proofs.Token.LineEnd
import Scriptlet.Proofs.Session.Piecewise
import Scriptlet.Proofs.Grammar.LastSemicolon
import Scriptlet.Proofs.Evaluation.OperatorFault
import Scriptlet.Proofs.Tree.WellFormed
import Scriptlet.Proofs.Grammar.TreeProperty
import Scriptlet.Proofs.Grammar.WellFormedProgram
import Scriptlet.Proofs.Evaluation.Filled
import Scriptlet.Proofs.Session.Gate
import Scriptlet.Proofs.Session.Soundness
import Scriptlet.Proofs.Session.Isolation
import Scriptlet.Proofs.Evaluation.Echo
import Scriptlet.Proofs.Session.Interactive
import Scriptlet.Proofs.Tree.DeclarationPlacement
import Scriptlet.Proofs.Evaluation.RelatedValues
import Scriptlet.Proofs.Evaluation.Coupling
import Scriptlet.Proofs.Evaluation.Invariant
import Scriptlet.Proofs.Session.CurrentScope
import Scriptlet.Proofs.Scope.Lookup
import Scriptlet.Proofs.Scope.Reachability
import Scriptlet.Proofs.Scope.Ledger
import Scriptlet.Proofs.Evaluation.Frame
import Scriptlet.Proofs.Session.Visited
import Scriptlet.Proofs.Scope.Names
import Scriptlet.Proofs.Session.Frame
import Scriptlet.Proofs.Session.Declarations
import Scriptlet.Proofs.Scope.Matching
import Scriptlet.Proofs.Evaluation.Callers
import Scriptlet.Proofs.Grammar.Correspondence
import Scriptlet.Proofs.Grammar.RenumberedProgram
import Scriptlet.Proofs.Token.LongestMatch
import Scriptlet.Proofs.Session.Layout
import Scriptlet.Proofs.Grammar.Provenance
import Scriptlet.Proofs.Session.Provenance
import Scriptlet.Proofs.Grammar.Tape
import Scriptlet.Proofs.Grammar.Reading
import Scriptlet.Proofs.Grammar.TapeExpression
import Scriptlet.Proofs.Grammar.TapeProgram
import Scriptlet.Proofs.Grammar.TapeCalls
import Scriptlet.Proofs.Grammar.CompletePrefix
import Scriptlet.Proofs.Grammar.Resumption
import Scriptlet.Proofs.Grammar.Accounting
import Scriptlet.Proofs.Grammar.MissingSemicolon
import Scriptlet.Proofs.Grammar.Reporting
import Scriptlet.Proofs.Scope.Padding
import Scriptlet.Proofs.Evaluation.ForLoop
import Scriptlet.Proofs.Session.ForLoop
import Scriptlet.Proofs.Scope.LinkedScopes
import Scriptlet.Proofs.Evaluation.Instrument
import Scriptlet.Proofs.Evaluation.Traced
import Scriptlet.Proofs.Session.LimitedOutput
import Scriptlet.Proofs.Evaluation.Watched
import Scriptlet.Proofs.Session.ClosureVariable
import Scriptlet.Proofs.Evaluation.WordTree
import Scriptlet.Proofs.Tree.ReturnCheck
import Scriptlet.Proofs.Token.Rendering
import Scriptlet.Proofs.Evaluation.CallFree
import Scriptlet.Proofs.Tree.Recorder
import Scriptlet.Proofs.Number.PrintedText
