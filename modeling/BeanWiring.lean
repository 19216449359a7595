import BeanWiring.Bean.Basic
import BeanWiring.Bean.Id
import BeanWiring.Component
import BeanWiring.Config.ClassIndex
import BeanWiring.Config.Contents
import BeanWiring.Config.Merged
import BeanWiring.Config.Path
import BeanWiring.Config.Tree
import BeanWiring.Definition.Basic
import BeanWiring.Definition.Content
import BeanWiring.Definition.Fault
import BeanWiring.Definition.Override
import BeanWiring.Definition.Value
import BeanWiring.Diagnostic
import BeanWiring.Document.Beans
import BeanWiring.Document.Directory
import BeanWiring.Document.Event
import BeanWiring.Document.FileTree
import BeanWiring.Document.Source
import BeanWiring.Document.Store
import BeanWiring.Keyed
import BeanWiring.Location
import BeanWiring.Lookup.Ancestry
import BeanWiring.Lookup.Context
import BeanWiring.Markup.Attribute
import BeanWiring.Markup.Element
import BeanWiring.Markup.Escape
import BeanWiring.Markup.Fault
import BeanWiring.Markup.Token
import BeanWiring.Placeholder
import BeanWiring.Project.Error
import BeanWiring.Project.Settings
import BeanWiring.PropertyPath
import BeanWiring.Reference.Edge
import BeanWiring.Reference.Named
import BeanWiring.Reference.Walk
import BeanWiring.Registry
import BeanWiring.Text.Blank
import BeanWiring.Text.Upper
import BeanWiring.Types.Index
import BeanWiring.Validation.Basic
import BeanWiring.Validation.Declarations
import BeanWiring.Validation.Finding
import BeanWiring.Validation.References
import BeanWiring.Validation.Run
import BeanWiring.Workspace.Attempt
import BeanWiring.Workspace.Basic
import BeanWiring.Workspace.Model
import BeanWiring.Workspace.Projects
import BeanWiring.Workspace.Query
import BeanWiring.Workspace.Read
import BeanWiring.Workspace.Sets
import BeanWiring.Workspace.Validation
import BeanWiring.Workspace.Session
import BeanWiring.Proofs.Config.Classes
import BeanWiring.Proofs.Config.Dropped
import BeanWiring.Proofs.Config.Listing
import BeanWiring.Proofs.Config.TopLevel
import BeanWiring.Proofs.Definition.Content
import BeanWiring.Proofs.Definition.Laws
import BeanWiring.Proofs.Definition.Layers
import BeanWiring.Proofs.Lookup.Accepted
import BeanWiring.Proofs.Lookup.Arguments
import BeanWiring.Proofs.Lookup.Classes
import BeanWiring.Proofs.Lookup.Consistency
import BeanWiring.Proofs.Lookup.Inheritance
import BeanWiring.Proofs.Lookup.Names
import BeanWiring.Proofs.Lookup.Stepwise
import BeanWiring.Proofs.Reference.Credited
import BeanWiring.Proofs.Reference.Order
import BeanWiring.Proofs.Reference.Runs
import BeanWiring.Proofs.Reference.Values
import BeanWiring.Proofs.Validation.Acceptance
import BeanWiring.Proofs.Validation.Agreement
import BeanWiring.Proofs.Validation.Aliases
import BeanWiring.Proofs.Validation.Declarations
import BeanWiring.Proofs.Validation.Independence
import BeanWiring.Proofs.Validation.Emissions
import BeanWiring.Proofs.Validation.Making
import BeanWiring.Proofs.Validation.MissingClasses
import BeanWiring.Proofs.Validation.MissingFactories
import BeanWiring.Proofs.Validation.Overrides
import BeanWiring.Proofs.Validation.Passes
import BeanWiring.Proofs.Validation.Placeholders
import BeanWiring.Proofs.Validation.References
import BeanWiring.Proofs.Validation.Transparency
import BeanWiring.Proofs.Validation.UndefinedReferences
import BeanWiring.Proofs.Workspace.Asking
import BeanWiring.Proofs.Workspace.Coherence
import BeanWiring.Proofs.Workspace.Scenes
import BeanWiring.Proofs.Workspace.Stability
import BeanWiring.Proofs.Workspace.Verdicts
import BeanWiring.Proofs.Workspace.WithinSets
import BeanWiring.Proofs.Workspace.Answers
import BeanWiring.Proofs.Workspace.Policies
import BeanWiring.Proofs.Workspace.Changes
import BeanWiring.Proofs.Workspace.Consistency
import BeanWiring.Proofs.Workspace.ImportPaths
import BeanWiring.Proofs.Workspace.Termination
import BeanWiring.Proofs.Config.Rereading
import BeanWiring.Proofs.Document.Versions
import BeanWiring.Proofs.Workspace.Records
import BeanWiring.Proofs.Workspace.Staleness
import BeanWiring.Proofs.Workspace.Refreshing
import BeanWiring.Proofs.Validation.Skipping
import BeanWiring.Proofs.Validation.Ignorable
import BeanWiring.Proofs.Workspace.Ignorable
import BeanWiring.Proofs.Validation.Cancellation
import BeanWiring.Proofs.Workspace.Holdings
import BeanWiring.Proofs.Workspace.Detection
import BeanWiring.Proofs.Workspace.LocatedSets
import BeanWiring.Proofs.Workspace.MemberNames
import BeanWiring.Proofs.Workspace.Memberships
import BeanWiring.Proofs.Workspace.Refusals
import BeanWiring.Proofs.Workspace.Resets
import BeanWiring.Proofs.Workspace.Happenings
import BeanWiring.Proofs.Workspace.Rosters
import BeanWiring.Proofs.Workspace.Managed
import BeanWiring.Proofs.Workspace.ExternalNames
import BeanWiring.Proofs.Workspace.Announcements
import BeanWiring.Proofs.Workspace.Classes
import BeanWiring.Proofs.Workspace.Contexts
import BeanWiring.Proofs.Workspace.Replay
import BeanWiring.Proofs.Workspace.Reloads
import BeanWiring.Proofs.Types.Interfaces
import BeanWiring.Proofs.Types.Methods
import BeanWiring.Proofs.Markup.Comments
import BeanWiring.Proofs.Markup.Spans
import BeanWiring.Proofs.Markup.Roots
import BeanWiring.Proofs.Markup.Serialization
import BeanWiring.Proofs.PropertyPath.Keys
import BeanWiring.Proofs.PropertyPath.Separators
import BeanWiring.Proofs.Document.FileTrees
import BeanWiring.Proofs.Document.Stamps
import BeanWiring.Proofs.Project.Locating
