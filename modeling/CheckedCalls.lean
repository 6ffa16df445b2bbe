import CheckedCalls.Proofs.Assembling
import CheckedCalls.Proofs.Chaining
import CheckedCalls.Proofs.Collecting
import CheckedCalls.Proofs.Congruence
import CheckedCalls.Proofs.Expansion
import CheckedCalls.Proofs.Extending
import CheckedCalls.Proofs.Extremes
import CheckedCalls.Proofs.Folding
import CheckedCalls.Proofs.Foresight
import CheckedCalls.Proofs.Gathering
import CheckedCalls.Proofs.Joining
import CheckedCalls.Proofs.Layout
import CheckedCalls.Proofs.Legible
import CheckedCalls.Proofs.Mapping
import CheckedCalls.Proofs.Naming
import CheckedCalls.Proofs.Operations
import CheckedCalls.Proofs.Ranking
import CheckedCalls.Proofs.Refusal
import CheckedCalls.Proofs.Report
import CheckedCalls.Proofs.Reproducing
import CheckedCalls.Proofs.Sequencing
import CheckedCalls.Proofs.Totality
import CheckedCalls.Proofs.Tower
import CheckedCalls.Proofs.Unanswered
import CheckedCalls.Proofs.Wording
import CheckedCalls.Script
