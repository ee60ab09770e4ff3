import TypeAtlas.Assist.Completion
import TypeAtlas.Assist.Inspection
import TypeAtlas.Assist.RuntimeField
import TypeAtlas.GenerationCache
import TypeAtlas.Host.Rebuild
import TypeAtlas.Load
import TypeAtlas.Model.Describe
import TypeAtlas.SourceTables
import TypeAtlas.Proofs.Dict
import TypeAtlas.Proofs.Merge
import TypeAtlas.Proofs.Agreement
import TypeAtlas.Proofs.Ancestry
import TypeAtlas.Proofs.Findings
import TypeAtlas.Proofs.Members
import TypeAtlas.Proofs.Counterparts
import TypeAtlas.Proofs.Independence
import TypeAtlas.Proofs.Runs
import TypeAtlas.Proofs.Sources
import TypeAtlas.Proofs.Freshness
import TypeAtlas.Proofs.Contributions
import TypeAtlas.Proofs.Representation
import TypeAtlas.Proofs.Scope
import TypeAtlas.Proofs.Chronicle
import TypeAtlas.Proofs.Retention
import TypeAtlas.Proofs.Histories
import TypeAtlas.Proofs.Identity
import TypeAtlas.Proofs.Descent
import TypeAtlas.Proofs.Reports
import TypeAtlas.Proofs.Ends
import TypeAtlas.Proofs.FollowUps
import TypeAtlas.Proofs.Outcomes
import TypeAtlas.Proofs.Accounting
import TypeAtlas.Proofs.Redeclarations
import TypeAtlas.Proofs.MergeOrder
import TypeAtlas.Proofs.Batches
import TypeAtlas.Proofs.Safety
import TypeAtlas.Proofs.Affected
import TypeAtlas.Proofs.Filling
import TypeAtlas.Proofs.Profiles
import TypeAtlas.Proofs.Adaptation
import TypeAtlas.Proofs.Places
import TypeAtlas.Proofs.Qualifiers
import TypeAtlas.Proofs.Completions
import TypeAtlas.Proofs.ByteOrder
import TypeAtlas.Proofs.Spellings
import TypeAtlas.Proofs.RuntimeFields
import TypeAtlas.Proofs.Directories
import TypeAtlas.Proofs.Loading
