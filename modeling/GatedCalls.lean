import GatedCalls.CommandLine.Execution
import GatedCalls.CommandLine.Reach
import GatedCalls.Descriptor.Reading
import GatedCalls.Json.Outcome
import GatedCalls.Main
import GatedCalls.Permission.Usage
import GatedCalls.Proofs.Resolution.Balance
import GatedCalls.Proofs.Resolution.LibraryOrder
import GatedCalls.Proofs.Resolution.Pairing
import GatedCalls.Proofs.Resolution.Release
import GatedCalls.Proofs.Smali.Exact.Class
import GatedCalls.Proofs.Smali.InstructionLine
import GatedCalls.Removal
import GatedCalls.Proofs.Descriptor.Reading
import GatedCalls.Proofs.Resolution.Repetition
import GatedCalls.Proofs.Disk.Following
import GatedCalls.Proofs.Disk.Operations
import GatedCalls.Proofs.ClassDirectory.Walk
import GatedCalls.Proofs.Run
import GatedCalls.Proofs.ClassDirectory.Layout
import GatedCalls.Proofs.ClassDirectory.Writing
import GatedCalls.Proofs.ClassDirectory.RoundTrip
import GatedCalls.Proofs.Redirection.Refusal
import GatedCalls.Proofs.Removal
import GatedCalls.Proofs.Permission.Table
import GatedCalls.Proofs.Smali.UnreadTail
import GatedCalls.Proofs.Smali.Ownership
import GatedCalls.Proofs.References
import GatedCalls.Proofs.Resolution.Counters
import GatedCalls.Proofs.Resolution.Sharing
import GatedCalls.Proofs.ClassDirectory.Rollback
import GatedCalls.Proofs.Permission.Inventory
import GatedCalls.Proofs.Smali.Spelling
import GatedCalls.Proofs.Descriptor.JavaName
import GatedCalls.Proofs.ClassDirectory.Listing
import GatedCalls.Proofs.Smali.FailureLine
import GatedCalls.Proofs.Smali.Termination
