import TeachingKernel.Kernel.Transfer

/-!
# Processes and their memory

What the loader, the fault handler and the timer ask of the kernel: new processes, pages backed by
frames, copies to and from user memory. All of it goes through both the page table of the process
and the ledger of frames, and keeps the two in step.
-/

namespace TeachingKernel

inductive KernelError where
  | frame (error : FrameError)
  | mapping (error : MappingError)
  | fault (fault : Fault)
  | noSuchProcess (pid : Pid)
  deriving DecidableEq

namespace KernelError

def message : KernelError → String
  | frame error => error.message
  | mapping error => error.message
  | fault f => f.message
  | noSuchProcess pid => pid.text ++ " is not a live process"

def diagnostic : KernelError → String
  | frame error => "Frame(" ++ error.diagnostic ++ ")"
  | mapping error => "Mapping(" ++ error.diagnostic ++ ")"
  | fault f => "Fault(" ++ f.diagnostic ++ ")"
  | noSuchProcess pid => "NoSuchProcess(" ++ pid.diagnostic ++ ")"

end KernelError

namespace Kernel

open KernelM

variable {φ η χ ω : Type}

/-- Enters a process without any memory. -/
def spawn (name : String) : KernelM φ η χ ω Pid := do
  let (pid, processes) ← ofChecked ((← get).processes.spawn name)
  setProcesses processes
  notice (.processCreated pid name)
  return pid

def lendFrame (h : Holder) : KernelM φ η χ ω (Except FrameError PhysAddr) := do
  let k ← get
  let (answer, frames, processes) ← ofChecked (k.frames.lend h k.processes)
  setFrames frames
  setProcesses processes
  notices (Notice.ofLend frames.policy h answer)
  return answer

def releaseMapping (h : Holder) (frame : PhysAddr) : KernelM φ η χ ω Release := do
  let (answer, frames) ← ofChecked ((← get).frames.releaseMapping h frame)
  setFrames frames
  notices (Notice.ofRelease frame answer)
  return answer

/-- Backs a user page of a running process by a fresh frame. A frame that cannot be mapped goes
back to the pool. -/
def mapPage (pid : Pid) (va : VirtAddr) (writable : Bool) :
    KernelM φ η χ ω (Except KernelError PhysAddr) := do
  if ((← get).processes.running? pid).isNone then return .error (.noSuchProcess pid)
  match ← lendFrame ⟨pid, va⟩ with
  | .error error => return .error (.frame error)
  | .ok frame =>
    let k ← get
    match k.processes.get? pid with
    | none => return .error (.noSuchProcess pid)
    | some p => match p.pageTable.map va frame writable with
      | .ok pageTable =>
        setProcesses (k.processes.modify pid ({ · with pageTable }))
        return .ok frame
      | .error error =>
        let _ ← releaseMapping ⟨pid, va⟩ frame
        return .error (.mapping error)

/-- Unmaps a user page and lets go of its frame. -/
def unmapPage (pid : Pid) (va : VirtAddr) : KernelM φ η χ ω (Except KernelError Release) := do
  let k ← get
  match k.processes.get? pid with
  | none => return .error (.noSuchProcess pid)
  | some p => match p.pageTable.unmap va with
    | .error error => return .error (.mapping error)
    | .ok (frame, pageTable) =>
      setProcesses (k.processes.modify pid ({ · with pageTable }))
      return .ok (← releaseMapping ⟨pid, va⟩ frame)

def copyTo (pid : Pid) (va : VirtAddr) (bytes : Bytes) :
    KernelM φ η χ ω (Except KernelError Unit) := do
  let k ← get
  match k.processes.get? pid with
  | none => return .error (.noSuchProcess pid)
  | some p =>
    let (answer, pool) ← ofChecked ((k.memoryOf p).copyOut va bytes)
    setPool pool
    return answer.mapError .fault

/-- Fills a destination with bytes from the memory of a process; answers with the destination and
with how the copy ended. -/
def copyFrom (pid : Pid) (va : VirtAddr) (dst : Bytes) :
    KernelM φ η χ ω (Bytes × Except KernelError Unit) := do
  let k ← get
  match k.processes.get? pid with
  | none => return (dst, .error (.noSuchProcess pid))
  | some p =>
    let filled ← ofChecked ((k.memoryOf p).copyIn va dst)
    return (filled.bytes, filled.result.mapError .fault)

def touch (pid : Pid) (va : VirtAddr) (write : Bool) : KernelM φ η χ ω Unit :=
  modify fun k =>
    { k with
      processes := k.processes.modify pid fun p =>
        { p with pageTable := p.pageTable.touch va write } }

def tick (ticks : Nat) : KernelM φ η χ ω Unit :=
  modify fun k => { k with frames := k.frames.advance ticks }

def exitStatus? (k : Kernel φ η χ ω) (pid : Pid) : Option Int32 :=
  (k.processes.get? pid).bind (·.exitStatus?)

/-! ## Sharing

A frame is shared in two steps: the ledger gets another holder of it, and the page table of that
holder an entry for it. -/

def shareFrame (frame : PhysAddr) (h : Holder) :
    KernelM φ η χ ω (Except KernelError Unit) := do
  let answer ← ofChecked ((← get).frames.share frame h)
  notices (Notice.ofShare frame h answer)
  match answer with
  | .error error => return .error (.frame error)
  | .ok frames =>
    setFrames frames
    return .ok ()

def releaseFrame (pid : Pid) (frame : PhysAddr) : KernelM φ η χ ω Release := do
  let (answer, frames) ← ofChecked ((← get).frames.release pid frame)
  setFrames frames
  notices (Notice.ofRelease frame answer)
  return answer

def pickVictim : KernelM φ η χ ω (Option PhysAddr) := do
  let k ← get
  let (victim, frames, processes) ← ofChecked (k.frames.pickVictim k.processes)
  setFrames frames
  setProcesses processes
  notices (Notice.ofVictim frames.policy victim)
  return victim

/-- Enters a frame in the page table of a process, and nowhere else. -/
def mapFrame (pid : Pid) (va : VirtAddr) (frame : PhysAddr) (writable : Bool) :
    KernelM φ η χ ω (Except KernelError Unit) := do
  let k ← get
  match k.processes.get? pid with
  | none => return .error (.noSuchProcess pid)
  | some p => match p.pageTable.map va frame writable with
    | .error error => return .error (.mapping error)
    | .ok pageTable =>
      setProcesses (k.processes.modify pid ({ · with pageTable }))
      return .ok ()

/-- Takes an entry out of the page table of a process, and does nothing else. -/
def unmapFrame (pid : Pid) (va : VirtAddr) : KernelM φ η χ ω (Except KernelError PhysAddr) := do
  let k ← get
  match k.processes.get? pid with
  | none => return .error (.noSuchProcess pid)
  | some p => match p.pageTable.unmap va with
    | .error error => return .error (.mapping error)
    | .ok (frame, pageTable) =>
      setProcesses (k.processes.modify pid ({ · with pageTable }))
      return .ok frame

end Kernel

end TeachingKernel
