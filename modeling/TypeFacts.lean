import TypeFacts.Analysis.Build
import TypeFacts.Analysis.Session
import TypeFacts.Checked.Basic
import TypeFacts.Checked.Field
import TypeFacts.Declaration.Basic
import TypeFacts.Declaration.Json
import TypeFacts.Doc.Block
import TypeFacts.Doc.Reader
import TypeFacts.Doc.TagReader
import TypeFacts.Doc.TypeToken
import TypeFacts.Failure
import TypeFacts.Files.Encoding
import TypeFacts.Files.FileTree
import TypeFacts.Files.Path
import TypeFacts.Files.Wildcard
import TypeFacts.Infer.Basic
import TypeFacts.Infer.Builtin
import TypeFacts.Infer.Plan
import TypeFacts.Json.Basic
import TypeFacts.Json.Literal
import TypeFacts.Json.Reader
import TypeFacts.Json.Text
import TypeFacts.Memo
import TypeFacts.Number.Binary64
import TypeFacts.Number.Decimal
import TypeFacts.Outline.Basic
import TypeFacts.Outline.Read
import TypeFacts.Scope
import TypeFacts.Settings.Basic
import TypeFacts.Settings.Store
import TypeFacts.Settings.VariableFile
import TypeFacts.Snapshot.Basic
import TypeFacts.Snapshot.Convert
import TypeFacts.Snapshot.File
import TypeFacts.Snapshot.Host
import TypeFacts.Table
import TypeFacts.Text.Basic
import TypeFacts.Text.Case
import TypeFacts.Text.CaseTable
import TypeFacts.Text.Class
import TypeFacts.Text.DigitTable
import TypeFacts.Text.Literal
import TypeFacts.Text.PrintableTable
import TypeFacts.Text.Utf8
import TypeFacts.Text.WordTable
import TypeFacts.Tree.Cursor
import TypeFacts.Tree.Fault
import TypeFacts.Tree.Name
import TypeFacts.Tree.Node
import TypeFacts.Tree.SourceReader
import TypeFacts.Ty.Basic
import TypeFacts.Ty.Json
import TypeFacts.Ty.Merge
import TypeFacts.Ty.Render
import TypeFacts.TypeText.Parse
import TypeFacts.TypeText.Qualify
import TypeFacts.TypeText.Split
import TypeFacts.TypeText.Word
import TypeFacts.Proofs.Text.Trim
import TypeFacts.Proofs.TypeText.Nesting
import TypeFacts.Proofs.Ty.Merging
import TypeFacts.Proofs.Ty.Alternatives
import TypeFacts.Proofs.Ty.Acceptance
import TypeFacts.Proofs.Analysis.Session
import TypeFacts.Proofs.Analysis.Transparency
import TypeFacts.Proofs.Declaration.RoundTrip
import TypeFacts.Proofs.TypeText.Grammar
import TypeFacts.Proofs.TypeText.RoundTrip
import TypeFacts.Proofs.Ty.Names
import TypeFacts.Proofs.TypeText.Qualification
import TypeFacts.Proofs.TypeText.Resolution
import TypeFacts.Proofs.TypeText.Slashes
import TypeFacts.Proofs.TypeText.GlobalScope
import TypeFacts.Proofs.Analysis.Histories
import TypeFacts.Proofs.Analysis.Routes
import TypeFacts.Proofs.Analysis.Precedence
import TypeFacts.Proofs.TypeText.Closure
import TypeFacts.Proofs.WellFormed
import TypeFacts.Proofs.Snapshot.Spelling
import TypeFacts.Proofs.Infer.Literals
import TypeFacts.Proofs.Infer.Runs
import TypeFacts.Proofs.Analysis.Conservation
import TypeFacts.Proofs.Analysis.SameFile
import TypeFacts.Proofs.Analysis.Batches
import TypeFacts.Proofs.Analysis.ChosenSource
import TypeFacts.Proofs.Declaration.Coherence
import TypeFacts.Proofs.Outline.Shape
import TypeFacts.Proofs.Analysis.Provenance
import TypeFacts.Proofs.Analysis.Coherence
import TypeFacts.Proofs.Analysis.PropertyTypes
import TypeFacts.Proofs.Text.Case
import TypeFacts.Proofs.TypeText.Parts
import TypeFacts.Proofs.TypeText.Names
import TypeFacts.Proofs.TypeText.Misreadings
import TypeFacts.Proofs.TypeText.Nullability
import TypeFacts.Proofs.Infer.Failure
import TypeFacts.Proofs.TypeText.Absolute
import TypeFacts.Proofs.Doc.Written
import TypeFacts.Proofs.Doc.TypeToken
import TypeFacts.Proofs.Doc.DocumentedTypes
import TypeFacts.Proofs.TypeText.WholeNames
import TypeFacts.Proofs.Analysis.ThrownTypes
import TypeFacts.Proofs.Doc.Freshness
import TypeFacts.Proofs.Infer.Coalescing
import TypeFacts.Proofs.Tree.Faults
import TypeFacts.Proofs.Tree.Place
import TypeFacts.Proofs.Tree.Scope
import TypeFacts.Proofs.Tree.Edit
import TypeFacts.Proofs.Outline.Declared
import TypeFacts.Proofs.Outline.Locality
import TypeFacts.Proofs.TypeText.Splitting
import TypeFacts.Proofs.Doc.TypeEnd
import TypeFacts.Proofs.Tree.Traversal
import TypeFacts.Proofs.Outline.Order
