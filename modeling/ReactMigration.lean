import ReactMigration.CommandLine
import ReactMigration.Config
import ReactMigration.Conversion.Attributes
import ReactMigration.Conversion.Component
import ReactMigration.Conversion.Directive
import ReactMigration.Conversion.Draft
import ReactMigration.Conversion.Handler
import ReactMigration.Conversion.Imports
import ReactMigration.Conversion.Members
import ReactMigration.Conversion.Module
import ReactMigration.Conversion.Pipe
import ReactMigration.Conversion.Recast
import ReactMigration.Conversion.Regions
import ReactMigration.Conversion.Scope
import ReactMigration.Conversion.Service
import ReactMigration.Conversion.Unit
import ReactMigration.Decimal.Shortest
import ReactMigration.Declaration.Basic
import ReactMigration.Declaration.Classify
import ReactMigration.Declaration.Members
import ReactMigration.Declaration.Metadata
import ReactMigration.Declaration.Reader
import ReactMigration.Fault
import ReactMigration.FileTree
import ReactMigration.Framework
import ReactMigration.Interchange.Artifact
import ReactMigration.Interchange.Basic
import ReactMigration.Interchange.Declaration
import ReactMigration.Interchange.Model
import ReactMigration.Interchange.Template
import ReactMigration.Json.Basic
import ReactMigration.Json.Literal
import ReactMigration.Json.Parser
import ReactMigration.Json.Printer
import ReactMigration.Layout
import ReactMigration.Main
import ReactMigration.Model.Basic
import ReactMigration.Model.Build
import ReactMigration.Model.Effects
import ReactMigration.Model.Fields
import ReactMigration.Model.TemplateScope
import ReactMigration.Naming
import ReactMigration.Printing.Declarations
import ReactMigration.Printing.Markup
import ReactMigration.Printing.Modules
import ReactMigration.Proofs.BalancedBodies
import ReactMigration.Proofs.BoundPaths
import ReactMigration.Proofs.Bracketing
import ReactMigration.Proofs.CanonicalMarkup
import ReactMigration.Proofs.CarriedImports
import ReactMigration.Proofs.ChangeParameters
import ReactMigration.Proofs.ChildLayout
import ReactMigration.Proofs.ChildReading
import ReactMigration.Proofs.Classes
import ReactMigration.Proofs.ClosingBrackets
import ReactMigration.Proofs.CodePasses
import ReactMigration.Proofs.ConditionClauses
import ReactMigration.Proofs.ConditionReading
import ReactMigration.Proofs.ConstructorStatements
import ReactMigration.Proofs.Containment
import ReactMigration.Proofs.Cutting
import ReactMigration.Proofs.DeclaredProperties
import ReactMigration.Proofs.DependencyNames
import ReactMigration.Proofs.Determinism
import ReactMigration.Proofs.DocumentOrder
import ReactMigration.Proofs.Enumeration
import ReactMigration.Proofs.Expansion
import ReactMigration.Proofs.FieldKinds
import ReactMigration.Proofs.FieldWrites
import ReactMigration.Proofs.FrameworkPasses
import ReactMigration.Proofs.Gathering
import ReactMigration.Proofs.HandlerNames
import ReactMigration.Proofs.IdlePasses
import ReactMigration.Proofs.ImportBindings
import ReactMigration.Proofs.ImportNames
import ReactMigration.Proofs.ImportPaths
import ReactMigration.Proofs.ImportTargets
import ReactMigration.Proofs.Index
import ReactMigration.Proofs.Instances
import ReactMigration.Proofs.InterpolationEnds
import ReactMigration.Proofs.Isolation
import ReactMigration.Proofs.Items
import ReactMigration.Proofs.LevelWrites
import ReactMigration.Proofs.Linking
import ReactMigration.Proofs.LiteralFrame
import ReactMigration.Proofs.LiteralPasses
import ReactMigration.Proofs.Literals
import ReactMigration.Proofs.LoopClauses
import ReactMigration.Proofs.LoopKeys
import ReactMigration.Proofs.MarkupBalance
import ReactMigration.Proofs.MarkupGrammar
import ReactMigration.Proofs.MarkupPositions
import ReactMigration.Proofs.MarkupReading
import ReactMigration.Proofs.MarkupRefusal
import ReactMigration.Proofs.MarkupRoundTrip
import ReactMigration.Proofs.Matching
import ReactMigration.Proofs.MemberRules
import ReactMigration.Proofs.MemberWrites
import ReactMigration.Proofs.Members
import ReactMigration.Proofs.Merging
import ReactMigration.Proofs.Models
import ReactMigration.Proofs.NameCases
import ReactMigration.Proofs.NameWords
import ReactMigration.Proofs.NoteLines
import ReactMigration.Proofs.Outcome
import ReactMigration.Proofs.PathTokens
import ReactMigration.Proofs.PipeChains
import ReactMigration.Proofs.Places
import ReactMigration.Proofs.Precedence
import ReactMigration.Proofs.PropNames
import ReactMigration.Proofs.Quoting
import ReactMigration.Proofs.Reading
import ReactMigration.Proofs.RecastPasses
import ReactMigration.Proofs.Recasting
import ReactMigration.Proofs.RecordUpdates
import ReactMigration.Proofs.RefPasses
import ReactMigration.Proofs.References
import ReactMigration.Proofs.Registration
import ReactMigration.Proofs.Renaming
import ReactMigration.Proofs.RenderOrder
import ReactMigration.Proofs.ReportOrder
import ReactMigration.Proofs.Resolution
import ReactMigration.Proofs.RouteNotes
import ReactMigration.Proofs.Scanning
import ReactMigration.Proofs.ScopeNames
import ReactMigration.Proofs.ServiceHooks
import ReactMigration.Proofs.SharedModules
import ReactMigration.Proofs.ShownText
import ReactMigration.Proofs.SourceOrder
import ReactMigration.Proofs.StateWrites
import ReactMigration.Proofs.Steps
import ReactMigration.Proofs.SubjectPasses
import ReactMigration.Proofs.Subscriptions
import ReactMigration.Proofs.Substitution
import ReactMigration.Proofs.Sweeping
import ReactMigration.Proofs.SwitchOrder
import ReactMigration.Proofs.TemplateImports
import ReactMigration.Proofs.TemplateLiterals
import ReactMigration.Proofs.TemplateNames
import ReactMigration.Proofs.TemplateWrites
import ReactMigration.Proofs.Templates
import ReactMigration.Proofs.TextPositions
import ReactMigration.Proofs.TokenSpans
import ReactMigration.Proofs.TopLevelParts
import ReactMigration.Proofs.TwoWayBindings
import ReactMigration.Proofs.TypeErasure
import ReactMigration.Proofs.Unescaping
import ReactMigration.Proofs.UnitImports
import ReactMigration.Proofs.Units
import ReactMigration.Proofs.Workers
import ReactMigration.Report.Diagnostic
import ReactMigration.Report.Finding
import ReactMigration.Run.Migrate
import ReactMigration.Run.Output
import ReactMigration.Run.Work
import ReactMigration.Script.Balance
import ReactMigration.Script.Names
import ReactMigration.Script.Token
import ReactMigration.Script.Token.Lexer
import ReactMigration.Script.Token.RegexBody
import ReactMigration.SymbolIndex
import ReactMigration.Table
import ReactMigration.Target.Artifact
import ReactMigration.Target.Markup
import ReactMigration.Target.Ref
import ReactMigration.Target.Support
import ReactMigration.Template.Node
import ReactMigration.Template.Parser
import ReactMigration.Template.Value
import ReactMigration.Text.Basic
import ReactMigration.Text.CaseTable
import ReactMigration.Text.Category
import ReactMigration.Text.Character
import ReactMigration.Text.Path
import ReactMigration.Text.Pattern
import ReactMigration.Text.Quoted
import ReactMigration.Text.Replacement
import ReactMigration.TypeScript.Binding
import ReactMigration.TypeScript.Erasure
import ReactMigration.TypeScript.Expressions
import ReactMigration.TypeScript.Literal
import ReactMigration.TypeScript.Markup
import ReactMigration.TypeScript.Node
import ReactMigration.TypeScript.Outline
import ReactMigration.TypeScript.Parse
import ReactMigration.TypeScript.Reader
import ReactMigration.TypeScript.Statements
import ReactMigration.TypeScript.Types
