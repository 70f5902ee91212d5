import ModelAtlas.Addon.Manifest
import ModelAtlas.Addon.Registry
import ModelAtlas.Config
import ModelAtlas.Config.Settings
import ModelAtlas.Files.Discovery
import ModelAtlas.Files.Glob
import ModelAtlas.Files.Ignore
import ModelAtlas.Files.Normalize
import ModelAtlas.Files.Path
import ModelAtlas.Files.Tree
import ModelAtlas.Index.Cache
import ModelAtlas.Index.ModelIndex
import ModelAtlas.Index.Pool
import ModelAtlas.Index.Session
import ModelAtlas.Inheritance.Graph
import ModelAtlas.Inheritance.Members
import ModelAtlas.Inheritance.Traversal
import ModelAtlas.Json.Reader
import ModelAtlas.Json.Value
import ModelAtlas.Model.Field
import ModelAtlas.Model.Inspection
import ModelAtlas.Model.Members
import ModelAtlas.Model.Method
import ModelAtlas.Model.Record
import ModelAtlas.Source.Cursor
import ModelAtlas.Source.Declaration
import ModelAtlas.Source.Expr
import ModelAtlas.Source.File
import ModelAtlas.Source.Grammar.Automaton
import ModelAtlas.Source.Grammar.Expressions
import ModelAtlas.Source.Grammar.Production
import ModelAtlas.Source.Grammar.Rule
import ModelAtlas.Source.Grammar.Statements
import ModelAtlas.Source.Location
import ModelAtlas.Source.Node
import ModelAtlas.Source.Parse.Layout
import ModelAtlas.Source.Parse.Lexeme
import ModelAtlas.Source.Parse.Lookahead
import ModelAtlas.Source.Parse.Recovery
import ModelAtlas.Source.Parse.Run
import ModelAtlas.Source.Parse.Session
import ModelAtlas.Source.Parse.Stack
import ModelAtlas.Source.Parse.Tree
import ModelAtlas.Source.Parse.Version
import ModelAtlas.Text.Blank
import ModelAtlas.Text.Compact
import ModelAtlas.Text.Decimal
import ModelAtlas.Text.Letters
import ModelAtlas.Text.Lossy
import ModelAtlas.Text.NameChars
import ModelAtlas.Text.Occurs
import ModelAtlas.Text.Quoted
import ModelAtlas.Workspace
import ModelAtlas.Workspace.Summary
import ModelAtlas.Proofs.Files.Discovery
import ModelAtlas.Proofs.Files.Edits
import ModelAtlas.Proofs.Files.Globs
import ModelAtlas.Proofs.Files.Spelling
import ModelAtlas.Proofs.Files.Walking
import ModelAtlas.Proofs.Inheritance.Keyed
import ModelAtlas.Proofs.Inheritance.Consistency
import ModelAtlas.Proofs.Inheritance.Ownership
import ModelAtlas.Proofs.Inheritance.History
import ModelAtlas.Proofs.Inheritance.Reachability
import ModelAtlas.Proofs.Index.Commit
import ModelAtlas.Proofs.Index.LastWriter
import ModelAtlas.Proofs.Index.Updates
import ModelAtlas.Proofs.Index.Sources
import ModelAtlas.Proofs.Index.Batches
import ModelAtlas.Proofs.Index.Incremental
import ModelAtlas.Proofs.Index.Scans
import ModelAtlas.Proofs.Index.Interleaving
import ModelAtlas.Proofs.Index.NoLostUpdates
import ModelAtlas.Proofs.Index.MemberCaches
import ModelAtlas.Proofs.Index.FieldJobs
import ModelAtlas.Proofs.Index.Promptness
import ModelAtlas.Proofs.Workspace.Freshness
import ModelAtlas.Proofs.Inheritance.Worklist
import ModelAtlas.Proofs.Inheritance.Preorder
import ModelAtlas.Proofs.Inheritance.Descent
import ModelAtlas.Proofs.Files.Places
import ModelAtlas.Proofs.Index.CommitOrder
import ModelAtlas.Proofs.Index.Keys
import ModelAtlas.Proofs.Files.NormalForms
import ModelAtlas.Proofs.Files.Deletion
import ModelAtlas.Proofs.Index.ResolvedMembers
import ModelAtlas.Proofs.Source.Classes
import ModelAtlas.Proofs.Model.CanonicalSources
import ModelAtlas.Proofs.Model.Redefinitions
import ModelAtlas.Proofs.Model.Inspection
import ModelAtlas.Proofs.Index.RelatedPaths
import ModelAtlas.Proofs.Model.Arguments
import ModelAtlas.Proofs.Model.DeclaringClass
import ModelAtlas.Proofs.Model.BodyMembers
import ModelAtlas.Proofs.Addon.InnermostModule
import ModelAtlas.Proofs.Workspace.Workers
import ModelAtlas.Proofs.Files.Listing
import ModelAtlas.Proofs.Files.NamePatterns
import ModelAtlas.Proofs.Files.Confinement
import ModelAtlas.Proofs.Files.Exclusion
import ModelAtlas.Proofs.Addon.FirstCome
import ModelAtlas.Proofs.Index.Stalling
import ModelAtlas.Proofs.Workspace.Summaries
import ModelAtlas.Proofs.Addon.LastEntries
import ModelAtlas.Proofs.Inheritance.RemovalOrder
import ModelAtlas.Proofs.Text.TwoForms
