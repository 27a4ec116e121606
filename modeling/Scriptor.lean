import Scriptor.Builtin
import Scriptor.Check.Expression
import Scriptor.Check.Rules
import Scriptor.Check.Statement
import Scriptor.Command
import Scriptor.Compile
import Scriptor.Diagnostic
import Scriptor.Entity
import Scriptor.Error
import Scriptor.Listing.Basic
import Scriptor.Listing.Tree
import Scriptor.Listing.Typed
import Scriptor.Main
import Scriptor.Number.Binary64
import Scriptor.Number.Layout
import Scriptor.Number.Reading
import Scriptor.Number.Shortest
import Scriptor.Operator
import Scriptor.Position
import Scriptor.Proofs.Environment
import Scriptor.Proofs.Generation.Expression
import Scriptor.Proofs.Generation.Statement
import Scriptor.Proofs.Rules
import Scriptor.Proofs.Trees
import Scriptor.Reader.Ascription
import Scriptor.Reader.Expression
import Scriptor.Reader.Grammar
import Scriptor.Reader.Statement
import Scriptor.Reader.Stream
import Scriptor.Scope
import Scriptor.Script.Expression
import Scriptor.Script.Literal
import Scriptor.Script.Statement
import Scriptor.Script.Writer
import Scriptor.Text.Blank
import Scriptor.Text.Hidden
import Scriptor.Text.Lines
import Scriptor.Text.Shown
import Scriptor.Token.Basic
import Scriptor.Token.Cursor
import Scriptor.Token.Escape
import Scriptor.Token.Pattern
import Scriptor.Tree.Basic
import Scriptor.Ty
import Scriptor.Typed.Basic
import Scriptor.Typed.Simplify.Expression
import Scriptor.Typed.Simplify.Literal
import Scriptor.Typed.Simplify.Statement
import Scriptor.Proofs.Growth
import Scriptor.Proofs.Typing
import Scriptor.Proofs.Simplification
import Scriptor.Proofs.WellFormed
import Scriptor.Proofs.Writing
import Scriptor.Proofs.Lexemes
import Scriptor.Proofs.Safety
import Scriptor.Proofs.Resolution
import Scriptor.Proofs.Scoping
import Scriptor.Proofs.Idempotence
import Scriptor.Proofs.Calls
import Scriptor.Proofs.Evaluation
import Scriptor.Proofs.Execution
import Scriptor.Proofs.Spans
import Scriptor.Proofs.Reading.Runs
import Scriptor.Proofs.Reading.Derivation
import Scriptor.Proofs.Reading.Soundness
import Scriptor.Proofs.Reading.Completeness
import Scriptor.Proofs.Reading.Rendering
import Scriptor.Proofs.Reading.Roundtrip
import Scriptor.Proofs.Reading.Statements
import Scriptor.Proofs.Moving
import Scriptor.Proofs.Reading.Tandem
import Scriptor.Proofs.Reading.Lockstep
import Scriptor.Proofs.Numerals
import Scriptor.Proofs.Tiling
import Scriptor.Proofs.Reading.Spelling
import Scriptor.Proofs.Stages
import Scriptor.Proofs.Form.Basic
import Scriptor.Proofs.Naming
import Scriptor.Proofs.Form.Atoms
import Scriptor.Proofs.Form.Roundtrip
import Scriptor.Proofs.Form.Grouping
import Scriptor.Proofs.Form.Texts
import Scriptor.Proofs.Form.Programs
import Scriptor.Proofs.Lines
import Scriptor.Proofs.Reading.Joining
import Scriptor.Proofs.Equivariance
import Scriptor.Proofs.Placement
import Scriptor.Proofs.Nesting
import Scriptor.Proofs.Reading.Content
import Scriptor.Proofs.NormalForm
import Scriptor.Proofs.Values
import Scriptor.Proofs.Arithmetic
import Scriptor.Proofs.Compound
import Scriptor.Proofs.Joins
import Scriptor.Proofs.Quoting
import Scriptor.Proofs.LongestMatch
import Scriptor.Proofs.Unquoting
import Scriptor.Proofs.Coercion
import Scriptor.Proofs.ScriptValues
import Scriptor.Proofs.NeutralOperands
import Scriptor.Proofs.Identities
import Scriptor.Proofs.Clauses
import Scriptor.Proofs.Updates
import Scriptor.Proofs.Reading.Coverage
import Scriptor.Proofs.Reading.Extents
import Scriptor.Proofs.Reading.Types
import Scriptor.Proofs.Form.Inline
import Scriptor.Proofs.Outline
import Scriptor.Proofs.Blame
import Scriptor.Proofs.LineBreaks
import Scriptor.Proofs.Pointing
import Scriptor.Proofs.Bounds
import Scriptor.Proofs.Reading.Progress
