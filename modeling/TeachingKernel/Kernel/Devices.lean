import TeachingKernel.Kernel.Step

/-!
# Uses of the devices

Each use of a device is a step that changes the device alone and is recorded as one event together
with the device's answer.
-/

namespace TeachingKernel

variable {φ η χ ω : Type}


namespace Files

open KernelM

variable [FileSystem φ η]

def create (name : String) (size : UInt32) : KernelM φ η χ ω Bool := do
  let (done, files) := FileSystem.createFile (← get).files name size
  modify ({ · with files })
  device (.create name size done)
  return done

def openNamed (name : String) : KernelM φ η χ ω (Option η) := do
  let (handle, files) := FileSystem.openFile (← get).files name
  modify ({ · with files })
  device (.open name handle)
  return handle

def remove (name : String) : KernelM φ η χ ω Bool := do
  let (done, files) := FileSystem.removeFile (← get).files name
  modify ({ · with files })
  device (.remove name done)
  return done

def length (handle : η) : KernelM φ η χ ω UInt32 := do
  let length := FileSystem.length (← get).files handle
  device (.length handle length)
  return length

/-- Lends a buffer to a file; the buffer as it comes back, and how many bytes were read into it. -/
def read (handle : η) (buffer : Bytes) : KernelM φ η χ ω (Bytes × Nat) := do
  let ((filled, got), files) := FileSystem.read (← get).files handle buffer
  modify ({ · with files })
  device (.read handle buffer.length (filled.take got))
  return (filled, got)

def write (handle : η) (bytes : Bytes) : KernelM φ η χ ω Nat := do
  let (accepted, files) := FileSystem.write (← get).files handle bytes
  modify ({ · with files })
  device (.write handle bytes accepted)
  return accepted

def seek (handle : η) (position : UInt32) : KernelM φ η χ ω Unit := do
  modify fun k => { k with files := FileSystem.seek k.files handle position }
  device (.seek handle position)

def tell (handle : η) : KernelM φ η χ ω UInt32 := do
  let position := FileSystem.tell (← get).files handle
  device (.tell handle position)
  return position

def close (handle : η) : KernelM φ η χ ω Unit := do
  modify fun k => { k with files := FileSystem.close k.files handle }
  device (.close handle)

end Files

namespace Terminal

open KernelM

variable [Console χ]

def put (bytes : Bytes) : KernelM φ η χ ω Unit := do
  modify fun k => { k with console := Console.putBytes k.console bytes }
  device (.putBytes bytes)

def getByte : KernelM φ η χ ω (Option UInt8) := do
  let (byte, console) := Console.getByte (← get).console
  modify ({ · with console })
  device (.getByte byte)
  return byte

/-- Stores the next bytes of input in a chunk, from place `got` on, until there are `count` of them
or none is left; the chunk, and how many it holds then. -/
def fill (count : Nat) (chunk : Bytes) (got : Nat) : KernelM φ η χ ω (Bytes × Nat) := do
  if got < count then
    match ← getByte with
    | none => return (chunk, got)
    | some byte => fill count (← ofChecked (chunk.overwrite got [byte])) (got + 1)
  else return (chunk, got)
termination_by count - got

end Terminal

namespace Scheduler

open KernelM

variable [Host ω]

def execute (parent : Pid) (command : String) : KernelM φ η χ ω (Option Pid) := do
  let (child, host) := Host.execute (← get).host parent command
  modify ({ · with host })
  device (.execute parent command child)
  return child

def waitLoaded (child : Pid) : KernelM φ η χ ω Bool := do
  let (loaded, host) := Host.waitLoaded (← get).host child
  modify ({ · with host })
  device (.waitLoaded child loaded)
  return loaded

def wait (parent child : Pid) : KernelM φ η χ ω Int32 := do
  let (status, host) := Host.wait (← get).host parent child
  modify ({ · with host })
  device (.wait parent child status)
  return status

def exited (pid : Pid) (status : Int32) : KernelM φ η χ ω Unit := do
  modify fun k => { k with host := Host.exited k.host pid status }
  device (.exited pid status)

def powerOff : KernelM φ η χ ω Unit := do
  modify fun k => { k with host := Host.powerOff k.host }
  device .powerOff

end Scheduler

end TeachingKernel
