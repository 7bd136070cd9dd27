import TeachingKernel.Kernel.Transfer

/-!
# Requests carried out

What the kernel does for each request. A text that is not UTF-8 names nothing, so a call that takes
one fails without the device being asked. Calls for mapped files and directories are known, but not
carried out.
-/

namespace TeachingKernel

inductive Reply where
  /-- A value for the result register. -/
  | value (n : Int32)
  /-- Nothing to tell. -/
  | nothing
  | exit (status : Int32)
  | halt
  deriving DecidableEq

def Reply.flag (yes : Bool) : Reply := .value (if yes then 1 else 0)

namespace Kernel

open KernelM

variable {φ η χ ω : Type} [FileSystem φ η] [Console χ] [Host ω]

def execute (pid : Pid) (command : Scratch) : KernelM φ η χ ω Int32 := do
  let child ← match command.text? with
    | none => pure none
    | some text => Scheduler.execute pid text
  match child with
  | none => return failed
  | some child =>
    if ← Scheduler.waitLoaded child then return child.toInt32
    else
      notice (.loadFailed child)
      return failed

/-- Opens a file and puts it under the next descriptor of the process. -/
def openFile (pid : Pid) (name : Scratch) : TrapM φ η χ ω Int32 := do
  let handle ← match name.text? with
    | none => pure none
    | some text => lift (Files.openNamed text)
  match handle with
  | none => return failed
  | some handle =>
    match (← lift get).processes.get? pid with
    | none =>
      lift (Files.close handle)
      throw (.noSuchProcess pid)
    | some p =>
      match p.files.install? handle with
      | some (fd, files) =>
        lift (setProcesses ((← lift get).processes.modify pid ({ · with files })))
        return fd
      | none =>
        lift (notice (.descriptorsExhausted pid))
        lift (Files.close handle)
        return failed

/-- Asks the file under a descriptor for a number; fails if there is none. -/
def askFile (pid : Pid) (fd : Int32) (ask : η → KernelM φ η χ ω UInt32) :
    TrapM φ η χ ω Int32 := do
  match ← fileOf? pid fd with
  | none => return failed
  | some handle => return byteCount (← lift (ask handle)).toNat

def seekFile (pid : Pid) (fd : Int32) (position : UInt32) : TrapM φ η χ ω Unit := do
  match ← fileOf? pid fd with
  | none => return ()
  | some handle => lift (Files.seek handle position)

def closeFile (pid : Pid) (fd : Int32) : KernelM φ η χ ω Unit := do
  let k ← get
  match (k.processes.get? pid).bind (·.files.remove? fd) with
  | none => notice (.closeUnknown pid fd)
  | some (handle, files) =>
    setProcesses (k.processes.modify pid ({ · with files }))
    Files.close handle

def unsupported (request : Request) (reply : Reply) : KernelM φ η χ ω Reply := do
  notice (.unsupported request.call)
  notice (.unsupportedRequest request)
  return reply

def dispatch (pid : Pid) (request : Request) : TrapM φ η χ ω Reply := do
  match request with
  | .halt => return .halt
  | .exit status => return .exit status
  | .exec command => return .value (← lift (execute pid command))
  | .wait child => return .value (← lift (Scheduler.wait pid child))
  | .create name size =>
    match name.text? with
    | none => return .flag false
    | some text => return .flag (← lift (Files.create text size))
  | .remove name =>
    match name.text? with
    | none => return .flag false
    | some text => return .flag (← lift (Files.remove text))
  | .open name => return .value (← openFile pid name)
  | .filesize fd => return .value (← askFile pid fd Files.length)
  | .read fd buffer length => return .value (← read pid fd buffer length)
  | .write fd buffer length => return .value (← write pid fd buffer length)
  | .seek fd position =>
    seekFile pid fd position
    return .nothing
  | .tell fd => return .value (← askFile pid fd Files.tell)
  | .close fd =>
    lift (closeFile pid fd)
    return .nothing
  | .mmap .. => lift (unsupported request (.value 0))
  | .munmap .. => lift (unsupported request .nothing)
  | .chdir .. | .mkdir .. =>
    lift (notice (.unsupported request.call))
    return .flag false
  | .readdir .. | .isdir .. => lift (unsupported request (.flag false))
  | .inumber .. => lift (unsupported request (.value 0))

end Kernel

end TeachingKernel
