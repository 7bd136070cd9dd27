import TeachingKernel.Address

/-!
# Defects

A defect is a broken promise inside the kernel, as opposed to a refusal, which is an ordinary
answer to a caller. Wherever an operation relies on a promise that its types do not carry, it
answers in `Checked`, so that "no defect ever arises" is a statement about its answers.
-/

namespace TeachingKernel

inductive Defect where
  /-- A pool was to begin in the middle of a page. -/
  | unalignedPool (base : PhysAddr)
  /-- An address in the middle of a frame was given back to the pool. -/
  | unalignedRelease (frame : PhysAddr)
  /-- A frame was given back to a pool that does not contain it. -/
  | foreignRelease (frame : PhysAddr)
  /-- A frame was given back that was not handed out. -/
  | doubleRelease (frame : PhysAddr)
  /-- A slot of a ring was followed that holds nothing. -/
  | vacantSlot (slot : Nat)
  /-- A piece of a byte sequence reached past the sequence's end. -/
  | sliceOutOfRange (stop length : Nat)
  /-- A count of things was to go below zero. -/
  | countBelowZero
  /-- There is no process identifier left. -/
  | pidsExhausted
  deriving DecidableEq

/-- The answer of an operation that may meet a defect. -/
abbrev Checked := Except Defect

namespace Defect

def message : Defect → String
  | unalignedPool base => "Unaligned user pool base: " ++ base.diagnostic
  | unalignedRelease frame => "Release of unaligned page " ++ frame.diagnostic
  | foreignRelease frame => "Release of page outside the pool: " ++ frame.diagnostic
  | doubleRelease frame => "Double free detected for frame: " ++ frame.diagnostic
  | vacantSlot slot => s!"frame table slot {slot} is vacant"
  | sliceOutOfRange stop length =>
    s!"range end index {stop} out of range for slice of length {length}"
  | countBelowZero => "attempt to subtract with overflow"
  | pidsExhausted => "attempt to add with overflow"

end Defect

end TeachingKernel
