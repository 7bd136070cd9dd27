import TeachingKernel.Defect
import TeachingKernel.Descriptors
import TeachingKernel.PageTable
import TeachingKernel.Pid
import TeachingKernel.UseBits

/-!
# Processes

What the kernel keeps of a user process: its page table, its open files and whether it has exited.
The table of processes hands out identifiers from 1 upwards. It owns the page tables, so it is the
owner of the use bits.
-/

namespace TeachingKernel

inductive ProcessState where
  | running
  | exited (status : Int32)
  deriving DecidableEq

structure UserProcess (φ : Type) where
  pid : Pid
  name : String
  pageTable : PageTable := {}
  files : Descriptors φ := {}
  state : ProcessState := .running

namespace UserProcess

variable {φ : Type} (p : UserProcess φ)

instance : Inhabited (UserProcess φ) := ⟨{ pid := default, name := "" }⟩

def isRunning : Bool := p.state = .running

def exitStatus? : Option Int32 :=
  match p.state with
  | .running => none
  | .exited status => some status

/-- The process after its exit: no page and no open file is left. -/
def exit (status : Int32) : UserProcess φ :=
  { p with state := .exited status, pageTable := .empty, files := p.files.drained }

end UserProcess

structure Processes (φ : Type) where
  table : Std.ExtTreeMap Nat (UserProcess φ) := ∅
  /-- The number of the next process. -/
  next : UInt32 := 1

namespace Processes

variable {φ : Type}

def empty : Processes φ := {}

instance : Inhabited (Processes φ) := ⟨empty⟩

variable (ps : Processes φ)

def get? (pid : Pid) : Option (UserProcess φ) := ps.table[pid.key]?

def running? (pid : Pid) : Option (UserProcess φ) := (ps.get? pid).filter (·.isRunning)

/-- Enters a process with no page and no file; answers with its identifier. -/
def spawn (name : String) : Checked (Pid × Processes φ) :=
  let pid : Pid := ⟨ps.next⟩
  if ps.next + 1 = 0 then .error .pidsExhausted
  else .ok (pid, { table := ps.table.insert pid.key { pid, name }, next := ps.next + 1 })

def modify (pid : Pid) (f : UserProcess φ → UserProcess φ) : Processes φ :=
  { ps with table := ps.table.modify pid.key f }

def forget (pid : Pid) : Processes φ := { ps with table := ps.table.erase pid.key }

def size : Nat := ps.table.size

def isEmpty : Bool := ps.table.isEmpty

instance : UseBits (Processes φ) where
  isAccessed ps h := (ps.get? h.pid).any (·.pageTable.isAccessed h.vaddr)
  clearAccessed ps h :=
    ps.modify h.pid fun p => { p with pageTable := p.pageTable.clearAccessed h.vaddr }
  isDirty ps h := (ps.get? h.pid).any (·.pageTable.isDirty h.vaddr)

@[simp] theorem get?_empty (pid : Pid) : (empty : Processes φ).get? pid = none := by
  simp [empty, get?]

@[simp] theorem get?_modify (pid : Pid) (f : UserProcess φ → UserProcess φ) (x : Pid) :
    (ps.modify pid f).get? x = if x = pid then (ps.get? x).map f else ps.get? x := by
  simp only [modify, get?, Std.ExtTreeMap.getElem?_modify, Std.LawfulEqCmp.compare_eq_iff_eq]
  by_cases h : x = pid
  · simp [h]
  · have : pid.key ≠ x.key := fun e => h (Pid.key_injective e).symm
    simp [h, this]

@[simp] theorem get?_forget (pid x : Pid) :
    (ps.forget pid).get? x = if x = pid then none else ps.get? x := by
  simp only [forget, get?, Std.ExtTreeMap.getElem?_erase, Std.LawfulEqCmp.compare_eq_iff_eq]
  by_cases h : x = pid
  · simp [h]
  · have : pid.key ≠ x.key := fun e => h (Pid.key_injective e).symm
    simp [h, this]

end Processes

end TeachingKernel
