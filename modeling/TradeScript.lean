import TradeScript.Main
import TradeScript.Session
import TradeScript.Proofs.Tree.Soundness
import TradeScript.Proofs.Tree.Decision
import TradeScript.Proofs.Grammar.Front
import TradeScript.Proofs.Grammar.Follow
import TradeScript.Proofs.Tree.Uniqueness
import TradeScript.Proofs.Script.Lookahead
import TradeScript.Proofs.Script.NearestElse
import TradeScript.Proofs.Tree.Parsing
import TradeScript.Proofs.Script.Parsing
import TradeScript.Proofs.Token.Lexing
import TradeScript.Proofs.Code.Layout
import TradeScript.Proofs.Script.Code
import TradeScript.Proofs.Source.Directive
import TradeScript.Proofs.Source.Requirement
import TradeScript.Proofs.Subset
import TradeScript.Proofs.Grammar.Survey
import TradeScript.Proofs.Tree.Nesting
import TradeScript.Proofs.Tree.Choice
import TradeScript.Proofs.Tree.Cover
import TradeScript.Proofs.Path.Characters
import TradeScript.Proofs.Text.Lines
import TradeScript.Proofs.Token.Line
import TradeScript.Proofs.Source.Expansion
import TradeScript.Proofs.Source.Provenance
import TradeScript.Proofs.Requirement.Resolution
import TradeScript.Proofs.Plugin.Names
import TradeScript.Proofs.Source.Splicing
import TradeScript.Proofs.Source.Origin
import TradeScript.Proofs.Command.Place
import TradeScript.Proofs.Source.Column
import TradeScript.Proofs.Plugin.Build
import TradeScript.Proofs.Plugin.Diagnostic
import TradeScript.Proofs.Plugin.Reads
import TradeScript.Proofs.Source.Elision
import TradeScript.Proofs.Grammar.WellFormed
import TradeScript.Proofs.Tree.CutShort
import TradeScript.Proofs.Script.Bracket
import TradeScript.Proofs.Token.OnePass
import TradeScript.Proofs.Token.Place
import TradeScript.Proofs.Token.ByLine
import TradeScript.Proofs.Token.Spacing
import TradeScript.Proofs.Source.Stretch
import TradeScript.Proofs.Script.Layout
import TradeScript.Proofs.Script.Normal
import TradeScript.Proofs.Script.CodeLine
import TradeScript.Proofs.Path.Reduction
import TradeScript.Proofs.Template.Segment
import TradeScript.Proofs.Source.Cycle
import TradeScript.Proofs.Plugin.ClassName
import TradeScript.Proofs.Template.Influence
import TradeScript.Proofs.Tree.FirstSet
import TradeScript.Proofs.Tree.Preorder
import TradeScript.Proofs.Diagnostic
import TradeScript.Proofs.Plugin.Label
