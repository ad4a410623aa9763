import Workbench.Digest.Hex
import Workbench.Disk.Outside
import Workbench.Tracker.Basic
import Workbench.DependencyGraph
import Workbench.Diagnostic
import Workbench.Syntax.Index
import Workbench.Snapshot
import Workbench.Redaction
import Workbench.Toy.Compiler
import Workbench.Classpath.Cache
import Workbench.Config.Read
import Workbench.Log.Subscriber
import Workbench.Toy.Resolver
import Workbench.Workspace.Watch
import Workbench.Proofs.Syntax.Index
import Workbench.Proofs.Syntax.Surface
import Workbench.Proofs.DependencyGraph
import Workbench.Proofs.Scope.Unit
import Workbench.Proofs.Toy.Compiler
import Workbench.Proofs.Scope.Pass
import Workbench.Proofs.Scope.Diagnostics
import Workbench.Proofs.Scope.Consistency
import Workbench.Proofs.Scope.Commit
import Workbench.Proofs.Scope.Session
import Workbench.Proofs.Scope.Currency
import Workbench.Proofs.Scope.Atomicity
import Workbench.Proofs.Scope.Linkage
import Workbench.Proofs.Diagnostic
import Workbench.Proofs.Scope.Replay
import Workbench.Proofs.Scope.Settling
import Workbench.Proofs.Tracker.Answers
import Workbench.Proofs.Workspace.Agreement
import Workbench.Proofs.Tracker.Splices
import Workbench.Proofs.Snapshot.Holding
import Workbench.Proofs.Workspace.Order
import Workbench.Proofs.Scope.Containment
import Workbench.Proofs.Workspace.Ownership
import Workbench.Proofs.Classpath.History
import Workbench.Proofs.Workspace.Stored
import Workbench.Proofs.DependencyGraph.Search
import Workbench.Proofs.Tracker.Provenance
import Workbench.Proofs.Scope.Placeholder
import Workbench.Proofs.Document
import Workbench.Proofs.Syntax.Declarations
import Workbench.Proofs.Syntax.Symbols
import Workbench.Proofs.Scope.Patching
import Workbench.Proofs.Scope.Admission
import Workbench.Proofs.Classpath.Validity
import Workbench.Proofs.Disk.Deletion
import Workbench.Proofs.Disk.Limits
import Workbench.Proofs.Classpath.Contents
import Workbench.Proofs.Snapshot.Keys
import Workbench.Proofs.Redaction
import Workbench.Proofs.Disk.Replacement
import Workbench.Proofs.Toy.Warnings
import Workbench.Proofs.Toy.Acceptance
import Workbench.Proofs.Toy.Places
import Workbench.Proofs.Syntax.Drift
import Workbench.Proofs.Text.Layout
import Workbench.Proofs.Registry.Numbering
