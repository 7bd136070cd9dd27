import TeachingKernel.Kernel.Devices

/-!
# Exit

The end of a process. Its frames are let go of, its pages unmapped and its files closed before the
host is told. Whoever has exited stays so: to end a process again changes nothing.
-/

namespace TeachingKernel

inductive Verdict where
  /-- It goes on. -/
  | resume
  | exit (status : Int32)
  /-- The machine was powered off. -/
  | halt
  deriving DecidableEq

namespace Kernel

open KernelM

variable {φ η χ ω : Type} [FileSystem φ η] [Host ω]

def closeAll (handles : List η) : KernelM φ η χ ω Unit := handles.forM Files.close

def terminate (pid : Pid) (status : Int32) : KernelM φ η χ ω Verdict := do
  let k ← get
  match k.processes.running? pid with
  | none =>
    notice (.terminateDead pid)
    return .exit status
  | some p =>
    setProcesses (k.processes.modify pid (·.exit status))
    let (freed, frames) ← ofChecked (k.frames.releaseAll pid)
    setFrames frames
    notices (Notice.ofReleaseAll pid freed)
    notice (.spaceTornDown pid p.pageTable.size freed.length)
    closeAll (p.files.files.map (·.2))
    notice (.exited p.name status)
    Scheduler.exited pid status
    return .exit status

/-- Forgets a process; answers with what was known of it. The files that it still has are closed. -/
def reap (pid : Pid) : KernelM φ η χ ω (Option (UserProcess η)) := do
  let k ← get
  match k.processes.get? pid with
  | none => return none
  | some p =>
    setProcesses (k.processes.forget pid)
    closeAll (p.files.files.map (·.2))
    return some p

end Kernel

end TeachingKernel
