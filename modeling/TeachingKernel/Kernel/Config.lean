import TeachingKernel.FrameLedger

/-!
# Configuration

What the kernel is told at boot.
-/

namespace TeachingKernel

structure Config where
  /-- How many frames there are for user programs: by default a mebibyte of them. -/
  frames : Nat := 256
  policy : Policy := .clock
  deriving DecidableEq, Inhabited

end TeachingKernel
