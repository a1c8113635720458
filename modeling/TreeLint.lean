import TreeLint.Analysis.LocalisableString
import TreeLint.Analysis.Scan
import TreeLint.Annotation.Pipeline
import TreeLint.Annotation.Refactoring
import TreeLint.Annotation.Stages
import TreeLint.Annotation.Target
import TreeLint.Cancellation
import TreeLint.Command.Arguments
import TreeLint.Command.Log
import TreeLint.Command.Run
import TreeLint.Config.Load
import TreeLint.Config.Options
import TreeLint.Diagnostic
import TreeLint.Files.FileSystem
import TreeLint.Files.Path
import TreeLint.Json.Decorated
import TreeLint.Json.Merge
import TreeLint.Json.Number
import TreeLint.Json.Reader
import TreeLint.Json.Value
import TreeLint.Json.Writer
import TreeLint.Layout
import TreeLint.Main
import TreeLint.Report
import TreeLint.Simplify
import TreeLint.Snapshot.Basic
import TreeLint.Snapshot.Stored
import TreeLint.Symbols.Compilation
import TreeLint.Symbols.Hierarchy
import TreeLint.Symbols.Table
import TreeLint.Text.Blank
import TreeLint.Text.LineMap
import TreeLint.Text.Span
import TreeLint.Text.Split
import TreeLint.Text.Units
import TreeLint.Tree.Basic
import TreeLint.Tree.Build
import TreeLint.Tree.Cursor
import TreeLint.Tree.Debug
import TreeLint.Tree.Dotted
import TreeLint.Tree.Kind
import TreeLint.Tree.Locate
import TreeLint.Tree.Stored
import TreeLint.Tree.View
import TreeLint.Workspace
import TreeLint.Proofs.TableInvariant
import TreeLint.Proofs.Place
import TreeLint.Proofs.TableReachable
import TreeLint.Proofs.DottedNames
import TreeLint.Proofs.ShortenOnce
import TreeLint.Proofs.SameScope
import TreeLint.Proofs.Likeness
import TreeLint.Proofs.ShortenedNames
import TreeLint.Proofs.LayoutTrivia
import TreeLint.Proofs.AnnotatedClass
import TreeLint.Proofs.SameBinding
import TreeLint.Proofs.KeptDeclarations
import TreeLint.Proofs.AnnotationBinding
import TreeLint.Proofs.Derivation
import TreeLint.Proofs.LayoutTokens
import TreeLint.Proofs.TableGrowth
import TreeLint.Proofs.DeclaredTypes
import TreeLint.Proofs.BoundTypes
import TreeLint.Proofs.HierarchyByName
import TreeLint.Proofs.Rearranged
import TreeLint.Proofs.OrderFreeBinding
import TreeLint.Proofs.LayoutNormalForm
import TreeLint.Proofs.TokensInPlace
import TreeLint.Proofs.Counterparts
import TreeLint.Proofs.LaidOutAnalyses
import TreeLint.Proofs.TextInPlace
import TreeLint.Proofs.TokenTiling
import TreeLint.Proofs.Replacement
import TreeLint.Proofs.WrittenScalars
import TreeLint.Proofs.SpelledValues
import TreeLint.Proofs.StoredTrees
import TreeLint.Proofs.StoredForms
import TreeLint.Proofs.CaretInName
import TreeLint.Proofs.FirstClass
import TreeLint.Proofs.GrownLists
import TreeLint.Proofs.AddedList
import TreeLint.Proofs.RepeatedRuns
import TreeLint.Proofs.WorkspaceRuns
import TreeLint.Proofs.DocumentOrder
import TreeLint.Proofs.FoundAssignments
import TreeLint.Proofs.OneMoreList
import TreeLint.Proofs.SharedDocument
import TreeLint.Proofs.ScanRuns
import TreeLint.Proofs.MergedValues
import TreeLint.Proofs.ExtendedFiles
import TreeLint.Proofs.NearestSettings
import TreeLint.Proofs.GrammarReading
import TreeLint.Proofs.StrippedTexts
import TreeLint.Proofs.AcceptedTexts
import TreeLint.Proofs.ShownOptions
import TreeLint.Proofs.JsonGrammar
import TreeLint.Proofs.AnsweredPolls
import TreeLint.Proofs.LinkedTypes
import TreeLint.Proofs.LinkableTypes
import TreeLint.Proofs.ShortestNames
import TreeLint.Proofs.LayoutFreeNames
import TreeLint.Proofs.PlaceRoundTrip
import TreeLint.Proofs.ClampedPlaces
import TreeLint.Proofs.SelectedToken
import TreeLint.Proofs.WalkedRoots
import TreeLint.Proofs.ReceiverTypes
import TreeLint.Proofs.LayoutGaps
import TreeLint.Proofs.BraceDepth
import TreeLint.Proofs.RedeclaredTypes
import TreeLint.Proofs.InterfaceBases
import TreeLint.Proofs.InterfaceOrder
import TreeLint.Proofs.ShownRows
import TreeLint.Proofs.RebuiltNames
import TreeLint.Proofs.UnderlinedSpans
import TreeLint.Proofs.ResolutionOrder
import TreeLint.Proofs.NextTokens
import TreeLint.Proofs.LiteralTexts
