import Marksmith.Analysis.Cancellation
import Marksmith.Analysis.Facts
import Marksmith.Analysis.Index
import Marksmith.Analysis.Layout
import Marksmith.Binding.Binder
import Marksmith.Binding.Conversion
import Marksmith.Binding.Site
import Marksmith.Cache.Closure
import Marksmith.Cache.Fingerprint
import Marksmith.Cache.Gate
import Marksmith.CommandLine.Arguments
import Marksmith.CommandLine.Disk
import Marksmith.CommandLine.Listing
import Marksmith.CommandLine.Run
import Marksmith.Constants.Source
import Marksmith.Diagnostic.Diagnostic
import Marksmith.Host.Host
import Marksmith.Host.Load
import Marksmith.Host.Resolve
import Marksmith.Host.Symbol
import Marksmith.Identifier
import Marksmith.Inference.Resolver
import Marksmith.Injection.Source
import Marksmith.Json.Decode
import Marksmith.Json.Draft
import Marksmith.Json.Number
import Marksmith.Json.Value
import Marksmith.Main
import Marksmith.Marking.Options
import Marksmith.Model.Declaration
import Marksmith.Model.Prelude
import Marksmith.Model.Reader
import Marksmith.Model.Writer
import Marksmith.Pass.Job
import Marksmith.Pass.Session
import Marksmith.Source.File
import Marksmith.Source.FreshNames
import Marksmith.Source.Page
import Marksmith.Source.Project
import Marksmith.Syntax.Expr
import Marksmith.Syntax.Expr.Cast
import Marksmith.Syntax.Expr.Names
import Marksmith.Syntax.Lexer
import Marksmith.Syntax.Parser
import Marksmith.Syntax.Parser.Exprs
import Marksmith.Syntax.Parser.Step
import Marksmith.Syntax.Parser.Types
import Marksmith.Syntax.Printer
import Marksmith.Syntax.Span
import Marksmith.Syntax.Token
import Marksmith.Syntax.TypeRef
import Marksmith.Text.Alphabetic
import Marksmith.Text.Case
import Marksmith.Text.Lines
import Marksmith.Text.NameSet
import Marksmith.Text.Quoted
import Marksmith.Text.Ranges
import Marksmith.Tracking.Plan
import Marksmith.Tracking.Source
import Marksmith.Union.Case
import Marksmith.Union.HeaderSource
import Marksmith.Union.Ids
import Marksmith.Union.Signature
import Marksmith.Union.VariantSource
import Marksmith.Unmanaged.Source
import Marksmith.Vocabulary.Engine
import Marksmith.Vocabulary.Marker
import Marksmith.Vocabulary.Runtime
import Marksmith.Proofs.Analysis.Silence
import Marksmith.Proofs.Binding.Balance
import Marksmith.Proofs.Binding.Calls
import Marksmith.Proofs.Binding.Expressions
import Marksmith.Proofs.Binding.LambdaParameters
import Marksmith.Proofs.Binding.Lockstep
import Marksmith.Proofs.Binding.Ranks
import Marksmith.Proofs.Binding.Respelling
import Marksmith.Proofs.Binding.Signatures
import Marksmith.Proofs.Binding.TypeParameters
import Marksmith.Proofs.Cache.Closure
import Marksmith.Proofs.Cache.Fingerprint
import Marksmith.Proofs.Cache.Gate
import Marksmith.Proofs.Cache.Turnover
import Marksmith.Proofs.Constants.Assets
import Marksmith.Proofs.Host.Ascent
import Marksmith.Proofs.Host.Canonical
import Marksmith.Proofs.Host.Containment
import Marksmith.Proofs.Host.Declarations
import Marksmith.Proofs.Host.Expansion
import Marksmith.Proofs.Host.Layout
import Marksmith.Proofs.Host.Makeup
import Marksmith.Proofs.Host.Reloading
import Marksmith.Proofs.Host.Silence
import Marksmith.Proofs.Host.Storage
import Marksmith.Proofs.Host.Substitution
import Marksmith.Proofs.Host.Supertypes
import Marksmith.Proofs.Host.Tables
import Marksmith.Proofs.Host.TypeTexts
import Marksmith.Proofs.Host.Unbraced
import Marksmith.Proofs.Inference.Certificate
import Marksmith.Proofs.Inference.Guarding
import Marksmith.Proofs.Inference.Makeup
import Marksmith.Proofs.Inference.Sites
import Marksmith.Proofs.Injection.Collected
import Marksmith.Proofs.Injection.Completeness
import Marksmith.Proofs.Injection.Members
import Marksmith.Proofs.Json.Decoding
import Marksmith.Proofs.Json.Depth
import Marksmith.Proofs.Json.Reading
import Marksmith.Proofs.Json.Restoring
import Marksmith.Proofs.Json.Tokens
import Marksmith.Proofs.Json.Writing
import Marksmith.Proofs.Marking.Arguments
import Marksmith.Proofs.Model.Fitting
import Marksmith.Proofs.Model.Layout
import Marksmith.Proofs.Model.Restoring
import Marksmith.Proofs.Pass.Accounting
import Marksmith.Proofs.Pass.Documentation
import Marksmith.Proofs.Pass.FileNames
import Marksmith.Proofs.Pass.Incremental
import Marksmith.Proofs.Pass.Layout
import Marksmith.Proofs.Pass.Nesting
import Marksmith.Proofs.Pass.Reordering
import Marksmith.Proofs.Pass.Turnover
import Marksmith.Proofs.Pass.Unbraced
import Marksmith.Proofs.Source.Bracing
import Marksmith.Proofs.Source.Calls
import Marksmith.Proofs.Source.Enumerations
import Marksmith.Proofs.Source.Nesting
import Marksmith.Proofs.Syntax.Adequacy
import Marksmith.Proofs.Syntax.Boundaries
import Marksmith.Proofs.Syntax.Casting
import Marksmith.Proofs.Syntax.Elision
import Marksmith.Proofs.Syntax.Grammar
import Marksmith.Proofs.Syntax.Layout
import Marksmith.Proofs.Syntax.Placement
import Marksmith.Proofs.Syntax.Precedence
import Marksmith.Proofs.Syntax.Reparsing
import Marksmith.Proofs.Syntax.Reprint
import Marksmith.Proofs.Syntax.RoundTrip
import Marksmith.Proofs.Syntax.Spans
import Marksmith.Proofs.Syntax.Spelling
import Marksmith.Proofs.Syntax.Stability
import Marksmith.Proofs.Syntax.Surroundings
import Marksmith.Proofs.Syntax.Tiling
import Marksmith.Proofs.Syntax.Writing
import Marksmith.Proofs.Text.Braces
import Marksmith.Proofs.Tracking.Accessors
import Marksmith.Proofs.Tracking.Lifecycle
import Marksmith.Proofs.Tracking.Registration
import Marksmith.Proofs.Tracking.Undoing
import Marksmith.Proofs.Union.Agreement
import Marksmith.Proofs.Union.Assignment
import Marksmith.Proofs.Union.Families
import Marksmith.Proofs.Union.Layout
import Marksmith.Proofs.Union.Membership
import Marksmith.Proofs.Union.Relisting
import Marksmith.Proofs.Union.Shapes
import Marksmith.Proofs.Union.Signatures
import Marksmith.Proofs.Union.Stability
import Marksmith.Proofs.Text.Identifiers
