import TeachingKernel.Kernel.Dispatch
import TeachingKernel.Kernel.Exit

/-!
# Traps

A process that wants something of the kernel traps. The call is read and made a request before
anything is done; then the request is carried out. What cannot be made a request, and a fault on the
way, ends the process with status -1.
-/

namespace TeachingKernel

/-- What the kernel sees of the registers of a process: the stack pointer, and the register where
the result of a call goes. -/
structure Registers where
  stackPointer : VirtAddr
  result : UInt32
  deriving DecidableEq

def killedStatus : Int32 := -1

namespace Kernel

open KernelM

variable {φ η χ ω : Type}

/-- Reads a call from the stack of a running process and checks its arguments. -/
def decode (pid : Pid) (sp : VirtAddr) : TrapM φ η χ ω Request := do
  let m ← runningMemory pid
  let call ← ofTrapChecked (m.readCall sp)
  lift (notice (.callRead pid call))
  ofTrapChecked (Request.ofCall m call)

variable [FileSystem φ η] [Console χ] [Host ω]

def kill (pid : Pid) (error : TrapError) : KernelM φ η χ ω Verdict := do
  notice (.killing pid error)
  terminate pid killedStatus

/-- Carries out a request and settles what becomes of the process. -/
def serve (pid : Pid) (registers : Registers) (request : Request) :
    KernelM φ η χ ω (Verdict × Registers) := do
  match ← (dispatch pid request).run with
  | .error error => return (← kill pid error, registers)
  | .ok (.value n) => return (.resume, { registers with result := n.toUInt32 })
  | .ok .nothing => return (.resume, registers)
  | .ok (.exit status) => return (← terminate pid status, registers)
  | .ok .halt =>
    notice (.haltRequested pid)
    Scheduler.powerOff
    return (.halt, registers)

/-- Handles a trap of a process; answers with what becomes of the process and with its registers. -/
def trap (pid : Pid) (registers : Registers) : KernelM φ η χ ω (Verdict × Registers) := do
  match ← (decode pid registers.stackPointer).run with
  | .error error => return (← kill pid error, registers)
  | .ok request =>
    notice (.requested pid request)
    serve pid registers request

end Kernel

end TeachingKernel
