import EntityQuery.CommandLine
import EntityQuery.Main
import EntityQuery.Sample.Library
import EntityQuery.Sample.Zoo
import EntityQuery.Proofs.Evaluation.Basic
import EntityQuery.Proofs.Evaluation.Truth
import EntityQuery.Proofs.Evaluation.Fit
import EntityQuery.Proofs.Collection.Forest
import EntityQuery.Proofs.Collection.Ordered
import EntityQuery.Proofs.Collection.JoinTree
import EntityQuery.Proofs.Collection.Subtree
import EntityQuery.Proofs.Existence.Build
import EntityQuery.Proofs.Existence.Plan
import EntityQuery.Proofs.Existence.Division
import EntityQuery.Proofs.Existence.Conservation
import EntityQuery.Proofs.Lateral.Scope
import EntityQuery.Proofs.Lateral.Decompose
import EntityQuery.Proofs.Lateral.Column
import EntityQuery.Proofs.Lateral.Reference
import EntityQuery.Proofs.Lateral.Plan
import EntityQuery.Proofs.Lateral.Combinations
import EntityQuery.Proofs.Strategy.Rows
import EntityQuery.Proofs.Scoping.Basic
import EntityQuery.Proofs.Scoping.Leaves
import EntityQuery.Proofs.Scoping.Existence
import EntityQuery.Proofs.Draft.Names
import EntityQuery.Proofs.Draft.Tree
import EntityQuery.Proofs.Scoping.Lateral
import EntityQuery.Proofs.Draft.Match
import EntityQuery.Proofs.Scoping.Order
import EntityQuery.Proofs.Scoping.Find
import EntityQuery.Proofs.Agreement.Binding
import EntityQuery.Proofs.Agreement.Need
import EntityQuery.Proofs.Draft.Step
import EntityQuery.Proofs.Draft.Filter
import EntityQuery.Proofs.Draft.Regular
import EntityQuery.Proofs.Effect.Field
import EntityQuery.Proofs.Effect.Find
import EntityQuery.Proofs.Precedence.Grammar
import EntityQuery.Proofs.Precedence.Where
import EntityQuery.Proofs.Find.Run
import EntityQuery.Proofs.Pruning.Reference
import EntityQuery.Proofs.Pruning.Apart
import EntityQuery.Proofs.Pruning.Top
import EntityQuery.Proofs.Multiplicity.Rows
import EntityQuery.Proofs.Multiplicity.Order
import EntityQuery.Proofs.Multiplicity.Reduced
import EntityQuery.Proofs.Multiplicity.Existence
import EntityQuery.Proofs.Multiplicity.Lateral
import EntityQuery.Proofs.Multiplicity.Find
import EntityQuery.Proofs.Deletion.Part
import EntityQuery.Proofs.Deletion.Filtered
import EntityQuery.Proofs.Deletion.Existence
import EntityQuery.Proofs.Deletion.Lateral
import EntityQuery.Proofs.Deletion.Introduced
import EntityQuery.Proofs.Deletion.Order
import EntityQuery.Proofs.Deletion.Find
import EntityQuery.Proofs.Missing.Link
import EntityQuery.Proofs.Missing.Passes
import EntityQuery.Proofs.Naming.Find
import EntityQuery.Proofs.Blank.Draft
import EntityQuery.Proofs.Blank.Passes
import EntityQuery.Proofs.Blank.Find
import EntityQuery.Proofs.Precedence.Passes
import EntityQuery.Proofs.Precedence.Draft
import EntityQuery.Proofs.Precedence.Find
import EntityQuery.Proofs.Draft.Lookup
import EntityQuery.Proofs.Missing.Strategy
import EntityQuery.Proofs.Missing.Entity
import EntityQuery.Proofs.Missing.Draft
import EntityQuery.Proofs.Missing.Find
import EntityQuery.Proofs.Document.Plan
import EntityQuery.Proofs.Rendering.Find
import EntityQuery.Proofs.Polymorphic.Find
import EntityQuery.Proofs.Lateral.Rounds
import EntityQuery.Proofs.Lateral.Undo
import EntityQuery.Proofs.Pruning.Retained
import EntityQuery.Proofs.Pruning.Find
import EntityQuery.Proofs.Pruning.Needed
import EntityQuery.Proofs.Pruning.Round
import EntityQuery.Proofs.Pruning.Visit
import EntityQuery.Proofs.Failure.Basic
import EntityQuery.Proofs.Failure.Draft
import EntityQuery.Proofs.Failure.Find
import EntityQuery.Proofs.Pruning.Unread
import EntityQuery.Proofs.Pruning.Result
import EntityQuery.Proofs.Evaluation.Reading
import EntityQuery.Proofs.Ambiguity.Checked
import EntityQuery.Proofs.Sorting.Request
import EntityQuery.Proofs.Sorting.Rows
import EntityQuery.Proofs.Merging.Literal
import EntityQuery.Proofs.Merging.Undefined
import EntityQuery.Proofs.Merging.Conjunction
import EntityQuery.Proofs.Precedence.Chunk
import EntityQuery.Proofs.Precedence.Segment
import EntityQuery.Proofs.Rendering.Erasure
import EntityQuery.Proofs.Precedence.Text
import EntityQuery.Proofs.Spelling.NestedId
import EntityQuery.Proofs.Naming.Reopened
import EntityQuery.Proofs.Visiting.Outcome
import EntityQuery.Proofs.Rendering.Placeholder
import EntityQuery.Proofs.Collection.Ownership
import EntityQuery.Proofs.Inheritance.Lookup
import EntityQuery.Proofs.Anchoring.Find
import EntityQuery.Proofs.Spelling.Exchange
import EntityQuery.Proofs.Draft.Parted
import EntityQuery.Proofs.Pruning.Implied
import EntityQuery.Proofs.Pruning.Loosened
import EntityQuery.Proofs.Scoping.Orderly
import EntityQuery.Proofs.Strategy.Leaves
import EntityQuery.Proofs.Existence.Leaves
import EntityQuery.Proofs.Lateral.Leaves
import EntityQuery.Proofs.Lateral.Usage
import EntityQuery.Proofs.Strategy.Mirror
import EntityQuery.Proofs.Strategy.Existence
import EntityQuery.Proofs.Strategy.Lateral
import EntityQuery.Proofs.Strategy.Loosened
import EntityQuery.Proofs.Strategy.Checked
import EntityQuery.Proofs.Strategy.Resolved
import EntityQuery.Proofs.Strategy.Unread
import EntityQuery.Proofs.Strategy.Find
