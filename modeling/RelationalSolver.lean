import RelationalSolver.Config.Basic
import RelationalSolver.Config.Decode
import RelationalSolver.Config.Document
import RelationalSolver.Config.Pass
import RelationalSolver.Config.Toml.Parse
import RelationalSolver.Config.Toml.Scalar
import RelationalSolver.Config.Toml.Settings
import RelationalSolver.Config.Toml.Tree
import RelationalSolver.Config.Yaml.Assembly
import RelationalSolver.Config.Yaml.Block
import RelationalSolver.Config.Yaml.Cursor
import RelationalSolver.Config.Yaml.Folding
import RelationalSolver.Config.Yaml.Lexer
import RelationalSolver.Config.Yaml.Node
import RelationalSolver.Config.Yaml.Plain
import RelationalSolver.Config.Yaml.Property
import RelationalSolver.Config.Yaml.Quoted
import RelationalSolver.Config.Yaml.Scalar
import RelationalSolver.Config.Yaml.Settings
import RelationalSolver.Config.Yaml.Token
import RelationalSolver.Constraint.Evaluation
import RelationalSolver.Constraint.Store
import RelationalSolver.Constraint.Text
import RelationalSolver.Context.Facet
import RelationalSolver.Context.Propagation
import RelationalSolver.Context.Text
import RelationalSolver.Context.Unification
import RelationalSolver.Fault
import RelationalSolver.FirstOccurrence
import RelationalSolver.Goal.Basic
import RelationalSolver.Goal.Instance
import RelationalSolver.Hook.Event
import RelationalSolver.Hook.Registry
import RelationalSolver.Planning.Cardinality
import RelationalSolver.Planning.Chain
import RelationalSolver.Planning.Pipeline
import RelationalSolver.Planning.Plan
import RelationalSolver.Planning.Randomize
import RelationalSolver.Planning.Relevance
import RelationalSolver.Query.Basic
import RelationalSolver.Query.Iteration
import RelationalSolver.Query.Run
import RelationalSolver.Query.Termination
import RelationalSolver.Query.TerminationText
import RelationalSolver.Random.Generator
import RelationalSolver.Random.Shuffle
import RelationalSolver.Relation.Application
import RelationalSolver.Relation.Source
import RelationalSolver.Relation.Table
import RelationalSolver.Rounding
import RelationalSolver.Session.Basic
import RelationalSolver.Session.Console
import RelationalSolver.Session.Notice
import RelationalSolver.Session.Solution
import RelationalSolver.Session.Statistics
import RelationalSolver.SizeBound
import RelationalSolver.Stream.Basic
import RelationalSolver.Stream.Contexts
import RelationalSolver.Stream.Run
import RelationalSolver.Substitution.Basic
import RelationalSolver.Substitution.Resolve
import RelationalSolver.Substitution.Text
import RelationalSolver.Term.Basic
import RelationalSolver.Term.Order
import RelationalSolver.Term.Text
import RelationalSolver.TermSet
import RelationalSolver.Text.Digits
import RelationalSolver.Text.Fraction
import RelationalSolver.Text.Quoted
import RelationalSolver.Text.Scanner
import RelationalSolver.Text.Unprinted
import RelationalSolver.Unification
import RelationalSolver.Proofs.Substitution.Acyclic
import RelationalSolver.Proofs.Substitution.Solutions
import RelationalSolver.Proofs.Substitution.Descent
import RelationalSolver.Proofs.Unification.Lawful
import RelationalSolver.Proofs.Unification.MostGeneral
import RelationalSolver.Proofs.Constraint.Equality
import RelationalSolver.Proofs.Constraint.Meaning
import RelationalSolver.Proofs.Constraint.Verdicts
import RelationalSolver.Proofs.Constraint.Storage
import RelationalSolver.Proofs.Context.Quiet
import RelationalSolver.Proofs.Context.Propagation
import RelationalSolver.Proofs.Context.Unification
import RelationalSolver.Proofs.Context.Operations
import RelationalSolver.Proofs.Context.Detached
import RelationalSolver.Proofs.Stream.Tasks
import RelationalSolver.Proofs.Stream.Simulation
import RelationalSolver.Proofs.Stream.Execution
import RelationalSolver.Proofs.Stream.Derivations
import RelationalSolver.Proofs.Stream.Exactness
import RelationalSolver.Proofs.Goal.Proper
import RelationalSolver.Proofs.Relation.Shuffling
import RelationalSolver.Proofs.Relation.Table
import RelationalSolver.Proofs.Unification.Unchecked
import RelationalSolver.Proofs.Goal.Bounds
import RelationalSolver.Proofs.Goal.Leaves
import RelationalSolver.Proofs.Planning.Plan
import RelationalSolver.Proofs.Planning.Chain
import RelationalSolver.Proofs.Planning.Cardinality
import RelationalSolver.Proofs.Planning.Provenance
import RelationalSolver.Proofs.Context.Confinement
import RelationalSolver.Proofs.Goal.Reported
import RelationalSolver.Proofs.Stream.Confinement
import RelationalSolver.Proofs.Planning.Pipeline
import RelationalSolver.Proofs.Context.Survival
import RelationalSolver.Proofs.Stream.Answers
import RelationalSolver.Proofs.Stream.Preservation
import RelationalSolver.Proofs.Planning.Answers
import RelationalSolver.Proofs.Constraint.Quiescence
import RelationalSolver.Proofs.Context.Quiescence
import RelationalSolver.Proofs.Stream.Turns
import RelationalSolver.Proofs.Stream.Upkeep
import RelationalSolver.Proofs.Stream.Numbered
import RelationalSolver.Proofs.Stream.Fairness
import RelationalSolver.Proofs.Stream.Endings
import RelationalSolver.Proofs.Stream.Completeness
import RelationalSolver.Proofs.Context.Unobstructed
import RelationalSolver.Proofs.Stream.Strictness
import RelationalSolver.Proofs.Query.Collisions
import RelationalSolver.Proofs.Substitution.Chains
import RelationalSolver.Proofs.Context.Ground
import RelationalSolver.Proofs.Relation.Scan
import RelationalSolver.Proofs.Relation.Events
import RelationalSolver.Proofs.Unification.Coupling
import RelationalSolver.Proofs.Substitution.Condensing
import RelationalSolver.Proofs.Unification.Lockstep
import RelationalSolver.Proofs.Unification.Covering
import RelationalSolver.Proofs.Term.Equations
import RelationalSolver.Proofs.Term.Erasure
import RelationalSolver.Proofs.Substitution.Erasure
import RelationalSolver.Proofs.Unification.Anonymous
import RelationalSolver.Proofs.Context.Coupling
import RelationalSolver.Proofs.Context.Condensing
import RelationalSolver.Proofs.Unification.Adequacy
import RelationalSolver.Proofs.Unification.Termination
import RelationalSolver.Proofs.Unification.Tangles
import RelationalSolver.Proofs.Planning.Twins
import RelationalSolver.Proofs.Session.Coupling
import RelationalSolver.Proofs.Stream.Coupling
import RelationalSolver.Proofs.Query.Condensing
import RelationalSolver.Proofs.Session.Lifecycle
import RelationalSolver.Proofs.Context.Practice
import RelationalSolver.Proofs.Stream.Discretion
import RelationalSolver.Proofs.Query.Turns
import RelationalSolver.Proofs.Query.Lifecycle
import RelationalSolver.Proofs.Query.Limits
import RelationalSolver.Proofs.Config.Reading
import RelationalSolver.Proofs.Context.Restriction
import RelationalSolver.Proofs.Goal.Counting
import RelationalSolver.Proofs.Stream.Quota
import RelationalSolver.Proofs.Term.Renumbering
import RelationalSolver.Proofs.Substitution.Renumbering
import RelationalSolver.Proofs.Unification.Renumbering
import RelationalSolver.Proofs.Goal.Renumbering
import RelationalSolver.Proofs.Goal.Below
import RelationalSolver.Proofs.Constraint.Renumbering
import RelationalSolver.Proofs.Session.Renumbering
import RelationalSolver.Proofs.Planning.Renumbering
import RelationalSolver.Proofs.Planning.Staging
import RelationalSolver.Proofs.Context.Renumbering
import RelationalSolver.Proofs.Stream.Renumbering
import RelationalSolver.Proofs.Query.Renumbering
import RelationalSolver.Proofs.Query.Restarting
import RelationalSolver.Proofs.Planning.Termination
import RelationalSolver.Proofs.Stream.Agenda
import RelationalSolver.Proofs.Stream.Regrouping
import RelationalSolver.Proofs.Context.Filling
import RelationalSolver.Proofs.Goal.Independence
import RelationalSolver.Proofs.Stream.Dues
import RelationalSolver.Proofs.Unification.Agreement
import RelationalSolver.Proofs.Context.Mirroring
import RelationalSolver.Proofs.Constraint.Stability
import RelationalSolver.Proofs.Context.Narrowing
import RelationalSolver.Proofs.Constraint.Indexing
import RelationalSolver.Proofs.Constraint.Addition
import RelationalSolver.Proofs.Context.Addition
import RelationalSolver.Proofs.Context.Disequalities
import RelationalSolver.Proofs.Relation.Lookup
import RelationalSolver.Proofs.Substitution.Resolution
import RelationalSolver.Proofs.Stream.Concatenation
import RelationalSolver.Proofs.Stream.Merging
import RelationalSolver.Proofs.Stream.Sharing
import RelationalSolver.Proofs.Hook.Delivery
import RelationalSolver.Proofs.Context.Accounting
import RelationalSolver.Proofs.Context.Handover
import RelationalSolver.Proofs.Stream.Suspensions
import RelationalSolver.Proofs.Context.Naming
import RelationalSolver.Proofs.Constraint.Integrity
import RelationalSolver.Proofs.Goal.Saturation
