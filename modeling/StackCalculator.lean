import StackCalculator.Main
import StackCalculator.Proofs.Pending
import StackCalculator.Proofs.Tape
import StackCalculator.Proofs.Acceptance
import StackCalculator.Proofs.Shapes
import StackCalculator.Proofs.Tiling
import StackCalculator.Proofs.Viability
import StackCalculator.Proofs.Accesses
import StackCalculator.Proofs.Items
import StackCalculator.Proofs.Expression
import StackCalculator.Proofs.History
import StackCalculator.Proofs.Lines
import StackCalculator.Proofs.Answers
import StackCalculator.Proofs.Conversation
import StackCalculator.Proofs.Events
import StackCalculator.Proofs.Alignment
import StackCalculator.Proofs.Culprits
import StackCalculator.Proofs.Delivery
import StackCalculator.Proofs.Terminators
import StackCalculator.Proofs.Overflow
import StackCalculator.Proofs.Encoding
import StackCalculator.Proofs.Malformed
import StackCalculator.Proofs.Decoding
import StackCalculator.Proofs.BitPatterns
import StackCalculator.Proofs.Readback
import StackCalculator.Proofs.Placement
import StackCalculator.Proofs.Footprint
import StackCalculator.Proofs.Renaming
import StackCalculator.Proofs.RenamedSessions
import StackCalculator.Proofs.Separators
import StackCalculator.Proofs.Numerals
import StackCalculator.Proofs.Blanks
import StackCalculator.Proofs.Keys
import StackCalculator.Proofs.Offsets
import StackCalculator.Proofs.Work
