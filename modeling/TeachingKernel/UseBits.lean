import TeachingKernel.Address
import TeachingKernel.Pid

/-!
# Use bits

A frame is lent to holders: a process that maps it at an address. Whoever owns the page tables
knows of each holder whether it used the frame since the mark was last cleared, and whether it
wrote to it. The ledger of frames asks through this interface and can clear the first mark.

The plainest owner is a pair of sets of holders.
-/

namespace TeachingKernel

/-- A process and the address at which it maps a frame. -/
@[ext] structure Holder where
  pid : Pid
  vaddr : VirtAddr
  deriving DecidableEq, Inhabited

class UseBits (σ : Type) where
  isAccessed : σ → Holder → Bool
  clearAccessed : σ → Holder → σ
  isDirty : σ → Holder → Bool

structure UseSets where
  accessed : List Holder := []
  dirty : List Holder := []
  deriving DecidableEq, Inhabited

namespace UseSets

variable (s : UseSets)

def access (h : Holder) : UseSets := { s with accessed := s.accessed.insert h }

def soil (h : Holder) : UseSets := { s with dirty := s.dirty.insert h }

def clean (h : Holder) : UseSets := { s with dirty := s.dirty.filter (· ≠ h) }

def coolDown (h : Holder) : UseSets := { s with accessed := s.accessed.filter (· ≠ h) }

instance : UseBits UseSets where
  isAccessed s h := s.accessed.contains h
  clearAccessed := coolDown
  isDirty s h := s.dirty.contains h

@[simp] theorem isAccessed_iff (h : Holder) : UseBits.isAccessed s h = true ↔ h ∈ s.accessed := by
  simp [UseBits.isAccessed]

@[simp] theorem isDirty_iff (h : Holder) : UseBits.isDirty s h = true ↔ h ∈ s.dirty := by
  simp [UseBits.isDirty]

/-- Clearing one holder's mark leaves the marks of the others. -/
@[simp] theorem mem_accessed_clearAccessed (h k : Holder) :
    k ∈ (UseBits.clearAccessed s h).accessed ↔ k ∈ s.accessed ∧ k ≠ h := by
  simp [UseBits.clearAccessed, coolDown]

end UseSets

end TeachingKernel
