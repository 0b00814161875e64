import CodeFrames.Assembly
import CodeFrames.Assembly.Declaration
import CodeFrames.Assembly.Extraction
import CodeFrames.Assembly.Handler
import CodeFrames.Assembly.Situation
import CodeFrames.Command.Arguments
import CodeFrames.Command.Run
import CodeFrames.Comment
import CodeFrames.Conversion
import CodeFrames.ConversionError
import CodeFrames.Disk
import CodeFrames.Disk.Tree
import CodeFrames.Element
import CodeFrames.Event
import CodeFrames.ExpressionText
import CodeFrames.Fault
import CodeFrames.Json
import CodeFrames.Library
import CodeFrames.Main
import CodeFrames.Outline
import CodeFrames.Path
import CodeFrames.Proofs.Alignment.Basic
import CodeFrames.Proofs.Alignment.Expression
import CodeFrames.Proofs.Alignment.Statement
import CodeFrames.Proofs.Assignments
import CodeFrames.Proofs.Batch
import CodeFrames.Proofs.Bodies
import CodeFrames.Proofs.Bracing
import CodeFrames.Proofs.Brackets
import CodeFrames.Proofs.Brackets.Balance
import CodeFrames.Proofs.Brackets.Basic
import CodeFrames.Proofs.Brackets.Expression
import CodeFrames.Proofs.Branches
import CodeFrames.Proofs.CommentLines
import CodeFrames.Proofs.CommentWidth
import CodeFrames.Proofs.CommentWords
import CodeFrames.Proofs.Comments
import CodeFrames.Proofs.Completing
import CodeFrames.Proofs.Concatenation
import CodeFrames.Proofs.Decoding
import CodeFrames.Proofs.Decoding.Expression
import CodeFrames.Proofs.Decoding.Inversion
import CodeFrames.Proofs.Decoding.Statement
import CodeFrames.Proofs.Delegates
import CodeFrames.Proofs.Delegates.Arguments
import CodeFrames.Proofs.Delegates.Constructor
import CodeFrames.Proofs.Delegates.Texts
import CodeFrames.Proofs.Delivery
import CodeFrames.Proofs.Documentation
import CodeFrames.Proofs.ExpressionTexts
import CodeFrames.Proofs.Extraction
import CodeFrames.Proofs.Following
import CodeFrames.Proofs.Framing
import CodeFrames.Proofs.Handlers
import CodeFrames.Proofs.Language
import CodeFrames.Proofs.LatestComment
import CodeFrames.Proofs.Layers
import CodeFrames.Proofs.Layout
import CodeFrames.Proofs.LayoutIndependence
import CodeFrames.Proofs.Ledger
import CodeFrames.Proofs.Levels
import CodeFrames.Proofs.Lexemes
import CodeFrames.Proofs.Lexing
import CodeFrames.Proofs.Lines
import CodeFrames.Proofs.Lookahead
import CodeFrames.Proofs.Nesting
import CodeFrames.Proofs.Omissions
import CodeFrames.Proofs.Outcome
import CodeFrames.Proofs.OutlineShape
import CodeFrames.Proofs.Paths
import CodeFrames.Proofs.Phrases
import CodeFrames.Proofs.Phrases.Basic
import CodeFrames.Proofs.Phrases.Limited
import CodeFrames.Proofs.Phrases.Lookahead
import CodeFrames.Proofs.Phrases.Operand
import CodeFrames.Proofs.Phrases.Reading
import CodeFrames.Proofs.Pieces
import CodeFrames.Proofs.PostOrder
import CodeFrames.Proofs.Printing
import CodeFrames.Proofs.Productions
import CodeFrames.Proofs.Progress
import CodeFrames.Proofs.Reporting
import CodeFrames.Proofs.Reporting.Basic
import CodeFrames.Proofs.Reporting.Expression
import CodeFrames.Proofs.Reporting.Statement
import CodeFrames.Proofs.Rereading
import CodeFrames.Proofs.Rereading.Blocks
import CodeFrames.Proofs.Rereading.Calls
import CodeFrames.Proofs.Rereading.Headers
import CodeFrames.Proofs.Rereading.Members
import CodeFrames.Proofs.Rereading.Reference
import CodeFrames.Proofs.Rereading.Simple
import CodeFrames.Proofs.Resemblance
import CodeFrames.Proofs.Resemblance.Assembly
import CodeFrames.Proofs.Resemblance.Conversion
import CodeFrames.Proofs.Searches
import CodeFrames.Proofs.Searches.Basic
import CodeFrames.Proofs.Searches.Skipping
import CodeFrames.Proofs.Searches.Statement
import CodeFrames.Proofs.Seam.Assembly
import CodeFrames.Proofs.Seam.Basic
import CodeFrames.Proofs.Seam.Expression
import CodeFrames.Proofs.Seam.Member
import CodeFrames.Proofs.Seam.Run
import CodeFrames.Proofs.Seam.Source
import CodeFrames.Proofs.Sentence
import CodeFrames.Proofs.Settling
import CodeFrames.Proofs.Shapes
import CodeFrames.Proofs.Sides
import CodeFrames.Proofs.Skipping.Lambda
import CodeFrames.Proofs.Skipping.Statement
import CodeFrames.Proofs.Slices
import CodeFrames.Proofs.Spelling
import CodeFrames.Proofs.Standing
import CodeFrames.Proofs.Stretches
import CodeFrames.Proofs.Strides
import CodeFrames.Proofs.SubtypeOperator
import CodeFrames.Proofs.Termination
import CodeFrames.Proofs.Tiling
import CodeFrames.Proofs.TypeNames
import CodeFrames.Proofs.TypeSpacing
import CodeFrames.Proofs.TypeTests
import CodeFrames.Proofs.Walk
import CodeFrames.Reading.Basic
import CodeFrames.Reading.Cursor
import CodeFrames.Reading.Expression
import CodeFrames.Reading.Member
import CodeFrames.Reading.Skip
import CodeFrames.Reading.Statement
import CodeFrames.Report
import CodeFrames.Settings
import CodeFrames.Settings.Config
import CodeFrames.Settings.ConfigText
import CodeFrames.Text.Alphabetic
import CodeFrames.Text.Basic
import CodeFrames.Text.Blank
import CodeFrames.Text.Natural
import CodeFrames.Text.Quoted
import CodeFrames.Text.Range
import CodeFrames.Token
import CodeFrames.Token.Expression
import CodeFrames.Token.Group
import CodeFrames.Token.Lexer
import CodeFrames.Token.Modifier
import CodeFrames.Token.TypeName
import CodeFrames.Token.Word
import CodeFrames.Warning
import CodeFrames.Proofs.Searches.Statement
