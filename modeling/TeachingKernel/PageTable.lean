import TeachingKernel.Address
import TeachingKernel.PageTable.Flags
import Std.Data.ExtTreeMap.Lemmas

/-!
# Page tables

A page table says for one process which frame backs each of its pages. It is a finite map from
page numbers to entries, so every question about an address is a question about its page. Only
user pages can be mapped, and only to whole frames.

An entry carries the two marks that a processor would set: accessed and dirty. They are set by
`touch` alone.

Main statements: one equation for each change through `entryAt?`.
-/

namespace TeachingKernel

structure PageEntry where
  frame : PhysAddr
  flags : PageFlags
  deriving DecidableEq, Inhabited

def PageEntry.diagnostic (e : PageEntry) : String :=
  "PTE(addr=" ++ e.frame.text ++ ", flags=" ++ e.flags.text ++ ")"

def PageEntry.touched (e : PageEntry) (write : Bool) : PageEntry :=
  { e with flags := { e.flags with accessed := true, dirty := e.flags.dirty || write } }

def PageEntry.cooled (e : PageEntry) : PageEntry :=
  { e with flags := { e.flags with accessed := false } }

inductive MappingError where
  | alreadyMapped
  | notMapped
  | misalignedAddress
  | kernelAddress
  deriving DecidableEq

namespace MappingError

def message : MappingError → String
  | alreadyMapped => "virtual address already mapped"
  | notMapped => "virtual address not mapped"
  | misalignedAddress => "address not properly aligned"
  | kernelAddress => "address lies in kernel space"

def diagnostic : MappingError → String
  | alreadyMapped => "AlreadyMapped"
  | notMapped => "NotMapped"
  | misalignedAddress => "MisalignedAddress"
  | kernelAddress => "KernelAddress"

end MappingError

@[ext] structure PageTable where
  entries : Std.ExtTreeMap Nat PageEntry := ∅

namespace PageTable

instance : Inhabited PageTable := ⟨{}⟩

def empty : PageTable := {}

variable (t : PageTable)

def entryAt? (va : VirtAddr) : Option PageEntry := t.entries[va.pageNumber]?

def isMapped (va : VirtAddr) : Bool := (t.entryAt? va).isSome

/-- Maps the page at `va` to a frame. Of several reasons to refuse, a kernel address goes before
an address in the middle of a page, and that before a page that is mapped already. -/
def map (va : VirtAddr) (frame : PhysAddr) (writable : Bool) : Except MappingError PageTable :=
  if va.isKernel then .error .kernelAddress
  else if !va.isAligned || !frame.isAligned then .error .misalignedAddress
  else if t.isMapped va then .error .alreadyMapped
  else .ok ⟨t.entries.insert va.pageNumber ⟨frame, .fresh writable⟩⟩

/-- Removes the entry of the page that contains the address, and answers with its frame. -/
def unmap (va : VirtAddr) : Except MappingError (PhysAddr × PageTable) :=
  match t.entryAt? va with
  | none => .error .notMapped
  | some e => .ok (e.frame, ⟨t.entries.erase va.pageNumber⟩)

/-- The physical address that a virtual address stands for: the frame of its page and the same
offset. -/
def translate? (va : VirtAddr) : Option PhysAddr :=
  (t.entryAt? va).map fun e => e.frame.offset va.pageOffset

def modify (va : VirtAddr) (f : PageEntry → PageEntry) : PageTable :=
  ⟨t.entries.modify va.pageNumber f⟩

/-- Marks the page as accessed, and as dirty if the access writes. -/
def touch (va : VirtAddr) (write : Bool) : PageTable := t.modify va (·.touched write)

def clearAccessed (va : VirtAddr) : PageTable := t.modify va (·.cooled)

def isAccessed (va : VirtAddr) : Bool := (t.entryAt? va).any (·.flags.accessed)

def isDirty (va : VirtAddr) : Bool := (t.entryAt? va).any (·.flags.dirty)

def isWritable (va : VirtAddr) : Bool := (t.entryAt? va).any (·.flags.writable)

/-- The mapped pages, in ascending order, with their entries. -/
def toList : List (VirtAddr × PageEntry) :=
  t.entries.toList.map fun (page, e) => (.ofPageNumber page, e)

/-- Removes every entry, and answers with the mapped pages, in ascending order, and their frames. -/
def clear : List (VirtAddr × PhysAddr) × PageTable :=
  (t.toList.map fun (va, e) => (va, e.frame), .empty)

def size : Nat := t.entries.size

def isEmpty : Bool := t.entries.isEmpty

/-! ## Each change through `entryAt?` -/

@[simp] theorem entryAt?_empty (va : VirtAddr) : empty.entryAt? va = none := by
  simp [empty, entryAt?]

theorem entryAt?_of_map {t u : PageTable} {va : VirtAddr} {frame : PhysAddr} {writable : Bool}
    (h : t.map va frame writable = .ok u) (x : VirtAddr) :
    u.entryAt? x =
      if x.pageNumber = va.pageNumber then some ⟨frame, .fresh writable⟩ else t.entryAt? x := by
  unfold map at h
  split at h <;> try contradiction
  split at h <;> try contradiction
  split at h <;> try contradiction
  cases h
  simp only [entryAt?, Std.ExtTreeMap.getElem?_insert, Std.LawfulEqCmp.compare_eq_iff_eq]
  grind

theorem entryAt?_of_unmap {t u : PageTable} {va : VirtAddr} {frame : PhysAddr}
    (h : t.unmap va = .ok (frame, u)) (x : VirtAddr) :
    u.entryAt? x = if x.pageNumber = va.pageNumber then none else t.entryAt? x := by
  unfold unmap at h
  split at h
  · contradiction
  · cases h
    simp only [entryAt?, Std.ExtTreeMap.getElem?_erase, Std.LawfulEqCmp.compare_eq_iff_eq]
    grind

@[simp] theorem entryAt?_modify (va : VirtAddr) (f : PageEntry → PageEntry) (x : VirtAddr) :
    (t.modify va f).entryAt? x =
      if x.pageNumber = va.pageNumber then (t.entryAt? x).map f else t.entryAt? x := by
  simp only [modify, entryAt?, Std.ExtTreeMap.getElem?_modify, Std.LawfulEqCmp.compare_eq_iff_eq]
  grind

end PageTable

end TeachingKernel
