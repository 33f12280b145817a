import InteractiveMarkov.Main
import InteractiveMarkov.Proofs.Reduction
import InteractiveMarkov.Proofs.Reference
import InteractiveMarkov.Proofs.Labels
import InteractiveMarkov.Proofs.Quotient
import InteractiveMarkov.Proofs.MaximalProgress
import InteractiveMarkov.Proofs.RoundTrip
import InteractiveMarkov.Proofs.Confluence
import InteractiveMarkov.Proofs.Transparency
import InteractiveMarkov.Proofs.Noninterference
import InteractiveMarkov.Proofs.Idempotence
import InteractiveMarkov.Proofs.Trim
import InteractiveMarkov.Proofs.Outputs
import InteractiveMarkov.Proofs.Conservation
import InteractiveMarkov.Proofs.Agreement
import InteractiveMarkov.Proofs.Acceptance
import InteractiveMarkov.Proofs.Documents
import InteractiveMarkov.Proofs.Silence
import InteractiveMarkov.Proofs.Collapse
import InteractiveMarkov.Proofs.Numerals
import InteractiveMarkov.Proofs.Tables
import InteractiveMarkov.Proofs.Spreading
import InteractiveMarkov.Proofs.Partition
import InteractiveMarkov.Proofs.Grammar
import InteractiveMarkov.Proofs.Refusals
import InteractiveMarkov.Proofs.Identifiers
import InteractiveMarkov.Proofs.Formats
import InteractiveMarkov.Proofs.Warnings
import InteractiveMarkov.Proofs.Notices
import InteractiveMarkov.Proofs.Emission
import InteractiveMarkov.Proofs.Headers
import InteractiveMarkov.Proofs.Inputs
import InteractiveMarkov.Proofs.Worklist
import InteractiveMarkov.Proofs.Propagation
import InteractiveMarkov.Proofs.Requeueing
import InteractiveMarkov.Proofs.Bookkeeping
import InteractiveMarkov.Proofs.Growth
