import BankTrace.Analysis
import BankTrace.CommandLine.Run
import BankTrace.CommandLine.World
import BankTrace.Assembly.Written
import BankTrace.Main
import BankTrace.Proofs.Decoding
import BankTrace.Proofs.Move
import BankTrace.Proofs.Progress
import BankTrace.Proofs.Marks
import BankTrace.Proofs.Boundaries
import BankTrace.Proofs.Consistency
import BankTrace.Proofs.Permanence
import BankTrace.Proofs.Anchoring
import BankTrace.Proofs.Potential
import BankTrace.Proofs.Termination
import BankTrace.Proofs.Determinacy
import BankTrace.Proofs.Descent
import BankTrace.Proofs.WellFormed
import BankTrace.Proofs.Seeding
import BankTrace.Proofs.Classification
import BankTrace.Proofs.Exactness
import BankTrace.Proofs.Throughout
import BankTrace.Proofs.Spans
import BankTrace.Proofs.Settlement
import BankTrace.Proofs.JumpTables
import BankTrace.Proofs.Recovery
import BankTrace.Proofs.Provenance
import BankTrace.Proofs.Digits
import BankTrace.Proofs.Reader
import BankTrace.Proofs.Legibility
import BankTrace.Proofs.Encoding
import BankTrace.Proofs.Items
import BankTrace.Proofs.Reassembly
import BankTrace.Proofs.RoundTrip
import BankTrace.Proofs.Names
import BankTrace.Proofs.Layout
import BankTrace.Proofs.Definitions
import BankTrace.Proofs.Alignment
import BankTrace.Proofs.Rollback
import BankTrace.Proofs.Occurrence
import BankTrace.Proofs.Styles
import BankTrace.Proofs.Operands
import BankTrace.Proofs.Survival
import BankTrace.Proofs.Targets
import BankTrace.Proofs.Locations
import BankTrace.Proofs.Fidelity
import BankTrace.Proofs.Changes
import BankTrace.Proofs.Overflow
import BankTrace.Proofs.Safety
import BankTrace.Proofs.Admission
import BankTrace.Proofs.Blanks
import BankTrace.Proofs.Numerals
import BankTrace.Proofs.PointerFiles
import BankTrace.Proofs.Transcription
import BankTrace.Proofs.Files
import BankTrace.Proofs.Spellings
import BankTrace.Proofs.Arguments
import BankTrace.Proofs.Supplies
import BankTrace.Proofs.Runs
import BankTrace.Proofs.Exits
