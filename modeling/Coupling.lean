import Coupling.Data.Access
import Coupling.Data.Fault
import Coupling.Data.Number
import Coupling.Data.Shown
import Coupling.Decimal.Shortest
import Coupling.Graph.Chart
import Coupling.Graph.Dependencies
import Coupling.Graph.Digraph
import Coupling.Graph.Format
import Coupling.Graph.Gexf
import Coupling.Graph.Gml
import Coupling.Graph.GraphMl
import Coupling.Graph.Page
import Coupling.Java.Grammar.Element
import Coupling.Java.Grammar.Network
import Coupling.Java.Grammar.Parts
import Coupling.Java.Grammar.Rules
import Coupling.Java.Kind
import Coupling.Java.Lexicon
import Coupling.Java.ParseTree
import Coupling.Java.ParseTree.Walk
import Coupling.Java.Parsing.Complaint
import Coupling.Java.Parsing.Parse
import Coupling.Java.Parsing.Recovery
import Coupling.Java.Parsing.State
import Coupling.Java.Prediction.Adaptive
import Coupling.Java.Prediction.Configs
import Coupling.Java.Prediction.Stacks
import Coupling.Java.RuleName
import Coupling.Java.Token
import Coupling.Json.Reader
import Coupling.Json.Value
import Coupling.Json.Writer
import Coupling.Lexing.Pattern
import Coupling.Lexing.Scan
import Coupling.Project.Analyzer
import Coupling.Project.ClassText
import Coupling.Project.Collector
import Coupling.Project.Fault
import Coupling.Project.Files
import Coupling.Project.Flat
import Coupling.Project.Inheritance
import Coupling.Project.JavaLang
import Coupling.Project.Matrix
import Coupling.Project.Profiler
import Coupling.Project.Role
import Coupling.Project.Scene
import Coupling.Project.Structure
import Coupling.Project.Symbol
import Coupling.Project.TypeName
import Coupling.Regex.Basic
import Coupling.Regex.Reader
import Coupling.Release.Manifest
import Coupling.Sql.Tables
import Coupling.Sql.Token
import Coupling.Table
import Coupling.Text.Alnum
import Coupling.Text.Blank
import Coupling.Text.Digit
import Coupling.Text.Lowercase
import Coupling.Text.Printable
import Coupling.Text.Quoted
import Coupling.Text.Ranges
import Coupling.Time.Moment
import Coupling.Trace.Api
import Coupling.Trace.Backend
import Coupling.Trace.CallGraph
import Coupling.Trace.Query
import Coupling.Trace.Session
import Coupling.Trace.Span
import Coupling.Words.Camel
import Coupling.Words.Stem
import Coupling.Words.Terms
import Coupling.Xml.Element
import Coupling.Proofs.Numbers
import Coupling.Proofs.Reading
import Coupling.Proofs.Cells
import Coupling.Proofs.Coding
import Coupling.Proofs.Parsing
import Coupling.Proofs.Nesting
import Coupling.Proofs.References
import Coupling.Proofs.Declarations
import Coupling.Proofs.Collection
import Coupling.Proofs.Profiling
import Coupling.Proofs.Interactions
import Coupling.Proofs.DependencyCounts
import Coupling.Proofs.Closure
import Coupling.Proofs.Identity
import Coupling.Proofs.Projects
import Coupling.Proofs.Ownership
import Coupling.Proofs.Views
import Coupling.Proofs.Requests
import Coupling.Proofs.Granting
import Coupling.Proofs.Placing
import Coupling.Proofs.SingleFiles
import Coupling.Proofs.BadFiles
import Coupling.Proofs.Scripts
import Coupling.Proofs.Profiles
import Coupling.Proofs.Arrangement
import Coupling.Proofs.Heads
import Coupling.Proofs.FileOrder
import Coupling.Proofs.Growth
import Coupling.Proofs.Notes
import Coupling.Proofs.Spelling
import Coupling.Proofs.Rereading
import Coupling.Proofs.TwoReadings
import Coupling.Proofs.MethodSymbols
import Coupling.Proofs.Renumbering
import Coupling.Proofs.Repeating
import Coupling.Proofs.Pairing
import Coupling.Proofs.Mirroring
import Coupling.Proofs.SideBySide
import Coupling.Proofs.Inheriting
import Coupling.Proofs.NamedGraphs
import Coupling.Proofs.SpanNames
import Coupling.Proofs.Visits
import Coupling.Proofs.CallGraphs
import Coupling.Proofs.SoundSpans
import Coupling.Proofs.SpanOrder
import Coupling.Proofs.DescribedNodes
import Coupling.Proofs.LongestMatch
import Coupling.Proofs.Pieces
import Coupling.Proofs.Lexemes
import Coupling.Proofs.Segments
import Coupling.Proofs.TypeTexts
import Coupling.Proofs.MatchingRows
import Coupling.Proofs.FailedReadings
import Coupling.Proofs.Supertypes
import Coupling.Proofs.Heights
import Coupling.Proofs.Alternatives
import Coupling.Proofs.CleanRuns
import Coupling.Proofs.Leaves
import Coupling.Proofs.LexicalNames
import Coupling.Proofs.FlatReferences
import Coupling.Proofs.CaseBoundaries
import Coupling.Proofs.NotedSupers
import Coupling.Proofs.MemberTexts
import Coupling.Proofs.DeclarationOrder
import Coupling.Proofs.Closers
import Coupling.Proofs.RecordedCode
import Coupling.Proofs.Expressions
import Coupling.Proofs.Templates
import Coupling.Proofs.NameRuns
