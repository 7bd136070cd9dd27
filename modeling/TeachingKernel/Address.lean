/-!
# Addresses

The kernel speaks of two address spaces of 64 bits: the virtual one that a user program sees
and the physical one that frames are cut from. One type serves both, indexed by the space, so
that a user address is never taken for a frame. Both spaces are divided into pages of 4096
bytes. User programs own the virtual addresses below `userTop`.

Main statements: an address is the start of its page plus its offset in the page, and the start
of a page is aligned.
-/

namespace TeachingKernel

/-- Bytes in a page, and in a frame. -/
def pageSize : Nat := 4096

/-- The first virtual address that belongs to the kernel. -/
def userTop : Nat := 0xC0000000

/-- The physical address where the frames for user programs begin. -/
def poolBase : Nat := 0x00100000

/-- Addresses are below this bound. -/
def addressBound : Nat := 0x10000000000000000

theorem pageSize_pos : 0 < pageSize := by decide

inductive Space where
  | virtual
  | physical
  deriving DecidableEq, Repr

@[ext] structure Address (space : Space) where
  toNat : Nat
  toNat_lt : toNat < addressBound
  deriving DecidableEq

abbrev VirtAddr := Address .virtual

/-- An address of a byte in a frame. -/
abbrev PhysAddr := Address .physical

namespace Address

variable {s : Space}

/-- The address with this number, higher bits dropped. -/
def ofNat (n : Nat) : Address s := ⟨n % addressBound, Nat.mod_lt _ (by decide)⟩

instance : Inhabited (Address s) := ⟨ofNat 0⟩

def pageOffset (a : Address s) : Nat := a.toNat % pageSize

def pageNumber (a : Address s) : Nat := a.toNat / pageSize

def isAligned (a : Address s) : Bool := a.pageOffset == 0

theorem sub_pageOffset_lt (a : Address s) : a.toNat - a.pageOffset < addressBound := by
  have := a.toNat_lt
  omega

def pageStart (a : Address s) : Address s := ⟨a.toNat - a.pageOffset, a.sub_pageOffset_lt⟩

def ofPageNumber (page : Nat) : Address s := ofNat (page * pageSize)

/-- Bytes from the address to the end of its page, at least one. -/
def bytesToPageEnd (a : Address s) : Nat := pageSize - a.pageOffset

/-- The address `n` bytes further on, if the space reaches that far. -/
def add? (a : Address s) (n : Nat) : Option (Address s) :=
  if h : a.toNat + n < addressBound then some ⟨a.toNat + n, h⟩ else none

/-- The address `n` bytes further on, in the circular order of the space. Frames lie far below
the end of the space, so no use of it on a frame goes around. -/
def offset (a : Address s) (n : Nat) : Address s := ofNat (a.toNat + n)

/-- User programs own the addresses below `userTop`. -/
def isUser (a : VirtAddr) : Bool := a.toNat < userTop

def isKernel (a : VirtAddr) : Bool := !a.isUser

theorem pageOffset_lt (a : Address s) : a.pageOffset < pageSize := Nat.mod_lt _ pageSize_pos

theorem pageOffset_le (a : Address s) : a.pageOffset ≤ a.toNat := Nat.mod_le _ _

theorem bytesToPageEnd_pos (a : Address s) : 0 < a.bytesToPageEnd :=
  Nat.sub_pos_of_lt a.pageOffset_lt

@[simp] theorem toNat_pageStart (a : Address s) :
    a.pageStart.toNat = pageSize * a.pageNumber := by
  have := Nat.div_add_mod a.toNat pageSize
  simp only [pageStart, pageOffset, pageNumber]
  omega

/-- An address is the start of its page plus its offset in the page. -/
theorem toNat_pageStart_add_pageOffset (a : Address s) :
    a.pageStart.toNat + a.pageOffset = a.toNat :=
  Nat.sub_add_cancel a.pageOffset_le

@[simp] theorem pageOffset_pageStart (a : Address s) : a.pageStart.pageOffset = 0 := by
  rw [pageOffset, toNat_pageStart]
  exact Nat.mul_mod_right _ _

@[simp] theorem pageNumber_pageStart (a : Address s) : a.pageStart.pageNumber = a.pageNumber := by
  rw [pageNumber, toNat_pageStart, Nat.mul_div_cancel_left _ pageSize_pos]

@[simp] theorem isAligned_pageStart (a : Address s) : a.pageStart.isAligned = true := by
  simp [isAligned]

theorem toNat_of_add? {a b : Address s} {n : Nat} (h : a.add? n = some b) :
    b.toNat = a.toNat + n := by
  unfold add? at h
  split at h
  · cases h
    rfl
  · contradiction

/-! ## Text -/

/-- The number in hexadecimal behind `0x`, with zeros in front up to eight digits. -/
def text (a : Address s) : String :=
  let digits := Nat.toDigits 16 a.toNat
  "0x" ++ String.ofList (List.replicate (8 - digits.length) '0' ++ digits)

end Address

def Space.addressName : Space → String
  | .virtual => "VirtAddr"
  | .physical => "PhysAddr"

def Address.diagnostic {s : Space} (a : Address s) : String :=
  s.addressName ++ "(" ++ a.text ++ ")"

end TeachingKernel
