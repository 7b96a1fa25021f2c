import MatrixScript.BufferedLexer
import MatrixScript.Diagnostic
import MatrixScript.Diagnostic.Snippet
import MatrixScript.Double
import MatrixScript.Element
import MatrixScript.Fragment
import MatrixScript.Grammar.Class
import MatrixScript.Grammar.Expression
import MatrixScript.Grammar.Function
import MatrixScript.Grammar.Precedence
import MatrixScript.Grammar.State
import MatrixScript.Grammar.Statement
import MatrixScript.Kind
import MatrixScript.KindSet
import MatrixScript.Lexeme
import MatrixScript.Lexer
import MatrixScript.Numeral
import MatrixScript.Text.Bytes
import MatrixScript.Text.Characters
import MatrixScript.Text.Range
import MatrixScript.Text.Window
import MatrixScript.Token
import MatrixScript.Tree
import MatrixScript.Tree.Located
import MatrixScript.Tree.Red
import MatrixScript.Tree.View
import MatrixScript.Tree.Visitor
import MatrixScript.Tree.Walk
import MatrixScript.Workspace
import MatrixScript.Proofs.Tree.Everywhere
import MatrixScript.Proofs.Tree.Layout
import MatrixScript.Proofs.Tree.Ownership
import MatrixScript.Proofs.Tree.Identity
import MatrixScript.Proofs.Tree.Positions
import MatrixScript.Proofs.Tree.Preorder
import MatrixScript.Proofs.Lexer.Line
import MatrixScript.Proofs.Lexer.Restart
import MatrixScript.Proofs.Lexer.LineEnds
import MatrixScript.Proofs.Lexer.Respacing
import MatrixScript.Proofs.Grammar.Outcome
import MatrixScript.Proofs.Grammar.Motion
import MatrixScript.Proofs.Grammar.Progress
import MatrixScript.Proofs.Grammar.Tandem
import MatrixScript.Proofs.Grammar.Conservation
import MatrixScript.Proofs.Grammar.Embedding
import MatrixScript.Proofs.Grammar.Locality
import MatrixScript.Proofs.Grammar.BlockLocality
import MatrixScript.Proofs.Grammar.Composition
import MatrixScript.Proofs.Grammar.Reports
import MatrixScript.Proofs.Grammar.LineEnds
import MatrixScript.Proofs.Grammar.Building
import MatrixScript.Proofs.Grammar.BlockBuilding
import MatrixScript.Proofs.Grammar.Agreement
import MatrixScript.Proofs.Grammar.Binding
import MatrixScript.Proofs.Grammar.Closing
import MatrixScript.Proofs.Grammar.Failing
import MatrixScript.Proofs.Lexer.Spelling
import MatrixScript.Proofs.Lexer.Writing
import MatrixScript.Proofs.Lexer.Listing
import MatrixScript.Proofs.Lexer.History
import MatrixScript.Proofs.Lexer.Balance
import MatrixScript.Proofs.Lexer.Trivia
import MatrixScript.Proofs.Lexer.Comments
import MatrixScript.Proofs.Lexer.Command
import MatrixScript.Proofs.Lexer.Significant
import MatrixScript.Proofs.Lexer.Quotes
import MatrixScript.Proofs.Lexer.Strings
import MatrixScript.Proofs.Lexer.Numbers
import MatrixScript.Proofs.Grammar.Ahead
import MatrixScript.Proofs.Grammar.Formula
import MatrixScript.Proofs.Grammar.Printing
import MatrixScript.Proofs.Grammar.Program
import MatrixScript.Proofs.Grammar.Members
import MatrixScript.Proofs.Grammar.Recovery
import MatrixScript.Proofs.Grammar.Matrix
import MatrixScript.Proofs.Grammar.MatrixItems
import MatrixScript.Proofs.Grammar.MatrixReading
import MatrixScript.Proofs.Tree.Pruning
import MatrixScript.Proofs.Tree.Stretches
import MatrixScript.Proofs.Tree.Visiting
import MatrixScript.Proofs.Grammar.Chains
import MatrixScript.Proofs.Lexer.Places
import MatrixScript.Proofs.Lexer.Ranges
import MatrixScript.Proofs.Grammar.Coinciding
import MatrixScript.Proofs.Grammar.Recursion
import MatrixScript.Proofs.Grammar.Telling
import MatrixScript.Proofs.Grammar.Advancing
