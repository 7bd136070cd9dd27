import TeachingKernel.FileSystem.InMemory
import TeachingKernel.Host.Scripted
import TeachingKernel.Kernel.Memory
import TeachingKernel.Kernel.Trap
import TeachingKernel.Proofs.Ledger.Books
import TeachingKernel.Proofs.Ring.Operations
import TeachingKernel.Proofs.Ledger.Keeps
import TeachingKernel.Proofs.Ledger.Runs
import TeachingKernel.Proofs.Kernel.Within
import TeachingKernel.Proofs.Ledger.Lends
import TeachingKernel.Proofs.Kernel.Layout
import TeachingKernel.Proofs.Memory.Contents
import TeachingKernel.Proofs.Memory.Reading
import TeachingKernel.Proofs.Memory.Storing
import TeachingKernel.Proofs.Kernel.Coherence
import TeachingKernel.Proofs.Kernel.Operations
import TeachingKernel.Proofs.Kernel.Runs
import TeachingKernel.Proofs.Kernel.Memories
import TeachingKernel.Proofs.Kernel.Copies
import TeachingKernel.Proofs.Kernel.Isolation
import TeachingKernel.Proofs.Kernel.Devices
import TeachingKernel.Proofs.Memory.Agreement
import TeachingKernel.Proofs.Kernel.Decoding
import TeachingKernel.Proofs.Kernel.Validation
import TeachingKernel.Proofs.Kernel.Serving
import TeachingKernel.Proofs.Kernel.Requests
import TeachingKernel.Proofs.Kernel.Parallel
import TeachingKernel.Proofs.Kernel.Separation
import TeachingKernel.Proofs.Kernel.Exits
import TeachingKernel.Proofs.Ledger.Circle
import TeachingKernel.Proofs.Ledger.Repetition
import TeachingKernel.Proofs.Kernel.Defects
import TeachingKernel.Proofs.Kernel.OpenFiles
import TeachingKernel.Proofs.Kernel.FileUse
import TeachingKernel.Proofs.Kernel.Handles
import TeachingKernel.Proofs.Ledger.Idle
import TeachingKernel.Proofs.Ledger.Fifo
import TeachingKernel.Proofs.Kernel.UseMarks
import TeachingKernel.Proofs.Kernel.Unmapping
import TeachingKernel.Proofs.Memory.Faults
import TeachingKernel.Proofs.Ledger.Pending
import TeachingKernel.Proofs.Memory.Texts
import TeachingKernel.Proofs.Memory.Stores
import TeachingKernel.Proofs.Kernel.Writing
import TeachingKernel.Proofs.Kernel.Filling
import TeachingKernel.Proofs.Kernel.TextArguments
import TeachingKernel.Proofs.Pool.History
import TeachingKernel.Proofs.Ledger.Refusals
import TeachingKernel.Proofs.Ledger.Teardown
import TeachingKernel.Proofs.Kernel.Mapping
import TeachingKernel.Proofs.Since
import TeachingKernel.Proofs.PageTable.History
import TeachingKernel.Proofs.Descriptors.History
import TeachingKernel.Proofs.Kernel.Openings
import TeachingKernel.Proofs.Kernel.StackImages
import TeachingKernel.Proofs.Memory.Views
