import TeachingKernel.PagePool
import TeachingKernel.PageTable

/-!
# User memory

The memory of a process is what its page table makes of the pool. An address that a user program
hands over is worth nothing until it was looked up here: it must be a user address, on a page that
has an entry, backed by a frame of the pool, and to be stored to, on a page that is writable.

A range of user memory is read as a sequence of spans, each inside one page. A span is looked up
only when the one before it was consumed, and the first fault ends the sequence.
-/

namespace TeachingKernel

inductive Fault where
  | kernelAddress (va : VirtAddr)
  | unmapped (va : VirtAddr)
  | readOnly (va : VirtAddr)
  /-- The range leaves the address space. -/
  | overflow
  deriving DecidableEq

namespace Fault

def message : Fault → String
  | kernelAddress va => "user address " ++ va.text ++ " lies in kernel space"
  | unmapped va => "user address " ++ va.text ++ " is not mapped"
  | readOnly va => "user address " ++ va.text ++ " is not writable"
  | overflow => "user range overflows the address space"

def diagnostic : Fault → String
  | kernelAddress va => "KernelAddress(" ++ va.diagnostic ++ ")"
  | unmapped va => "Unmapped(" ++ va.diagnostic ++ ")"
  | readOnly va => "ReadOnly(" ++ va.diagnostic ++ ")"
  | overflow => "Overflow"

end Fault

structure UserMemory where
  table : PageTable
  pool : PagePool

namespace UserMemory

variable (m : UserMemory)

abbrev Place := PagePool.Place m.pool.total

/-- Where the byte at a user address is kept, by way of its physical address. -/
def locate (va : VirtAddr) : Except Fault m.Place :=
  if va.isKernel then .error (.kernelAddress va)
  else match m.table.translate? va with
    | none => .error (.unmapped va)
    | some pa => match m.pool.frame? pa.pageStart with
      | none => .error (.unmapped va)
      | some frame => .ok ⟨frame, pa.pageOffset, pa.pageOffset_lt⟩

/-- Where to store a byte at a user address, by way of the entry of its page, which must be
writable. -/
def locateWritable (va : VirtAddr) : Except Fault m.Place :=
  if va.isKernel then .error (.kernelAddress va)
  else match m.table.entryAt? va with
    | none => .error (.unmapped va)
    | some e =>
      if !e.flags.writable then .error (.readOnly va)
      else match m.pool.frame? e.frame with
        | none => .error (.unmapped va)
        | some frame => .ok ⟨frame, va.pageOffset, va.pageOffset_lt⟩

/-- The bytes from a user address to the end of its page. -/
def translate (va : VirtAddr) : Except Fault Bytes := do
  return m.pool.bytesFrom (← m.locate va)

/-- The bytes that a store from a user address to the end of its page would replace. -/
def translateWritable (va : VirtAddr) : Except Fault Bytes := do
  return m.pool.bytesFrom (← m.locateWritable va)

end UserMemory

/-! ## Spans -/

/-- What is left of a range of user memory: where it goes on, unless that is beyond the address
space, and how many bytes are left. -/
structure Spans where
  memory : UserMemory
  cursor : Option VirtAddr
  remaining : Nat

namespace Spans

def ofRange (memory : UserMemory) (va : VirtAddr) (length : Nat) : Spans :=
  ⟨memory, some va, length⟩

variable (s : Spans)

/-- The next span or fault and what is left after it. -/
def next? : Option (Except Fault Bytes × Spans) :=
  if s.remaining = 0 then none
  else match s.cursor with
    | none => some (.error .overflow, { s with remaining := 0 })
    | some va => match s.memory.translate va with
      | .error fault => some (.error fault, { s with remaining := 0 })
      | .ok bytes =>
        let count := min bytes.length s.remaining
        some (.ok (bytes.front count (Nat.min_le_left ..)),
          { s with cursor := va.add? count, remaining := s.remaining - count })

theorem length_of_translate {m : UserMemory} {va : VirtAddr} {bytes : Bytes}
    (h : m.translate va = .ok bytes) : 0 < bytes.length := by
  unfold UserMemory.translate at h
  cases hl : m.locate va with
  | error => simp [hl, bind, Except.bind] at h
  | ok place =>
    simp only [hl, bind, Except.bind, pure, Except.pure, Except.ok.injEq] at h
    have := place.position_lt
    rw [← h, PagePool.length_bytesFrom]
    omega

/-- A step leaves less of the range. -/
theorem remaining_of_next? {item : Except Fault Bytes} {rest : Spans}
    (h : s.next? = some (item, rest)) : rest.remaining < s.remaining := by
  unfold next? at h
  split at h
  · contradiction
  · split at h
    · cases h
      simp only
      omega
    · split at h
      · cases h
        simp only
        omega
      · rename_i hb
        cases h
        have := length_of_translate hb
        simp only
        omega

/-- All spans of the range, the last one perhaps a fault. -/
def toList (s : Spans) : List (Except Fault Bytes) :=
  match _h : s.next? with
  | none => []
  | some (item, rest) => item :: rest.toList
termination_by s.remaining
decreasing_by exact remaining_of_next? s _h

/-- The spans of a range are the next one and the spans of what is left. -/
theorem toList_of_next?_some {s rest : Spans} {item : Except Fault Bytes}
    (h : s.next? = some (item, rest)) : s.toList = item :: rest.toList := by
  rw [toList]
  split
  · simp_all
  · rename_i hn
    rw [h] at hn
    cases hn
    rfl

theorem toList_of_next?_none {s : Spans} (h : s.next? = none) : s.toList = [] := by
  rw [toList]
  split
  · rfl
  · simp_all

def drained (s : Spans) : Spans :=
  match _h : s.next? with
  | none => s
  | some (_, rest) => rest.drained
termination_by s.remaining
decreasing_by exact remaining_of_next? s _h

end Spans

end TeachingKernel
