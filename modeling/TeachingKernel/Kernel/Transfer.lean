import TeachingKernel.Kernel.Devices

/-!
# Data between user memory and the devices

A buffer of a user program is written to a file or to the console, and filled from one, in chunks
of at most one page. The first chunk that is not taken whole, or that comes in short, is the last.
Every chunk is looked up again when its turn comes; a fault on the way kills the process.

All chunks of a call go through one scratch page, which is not cleared in between: behind a chunk
that is shorter than the one before it, the page still holds bytes of that one.
-/

namespace TeachingKernel

def failed : Int32 := -1

/-- A count of bytes as the value of a call, cut at the greatest value. -/
def byteCount (n : Nat) : Int32 :=
  if n ≤ 2147483647 then Int32.ofNat n else 2147483647

/-- The most bytes that are copied at a time. -/
def chunkSize : Nat := pageSize

theorem chunkSize_pos : 0 < chunkSize := by decide

namespace Kernel

open KernelM

variable {φ η χ ω : Type}

def memoryOf (k : Kernel φ η χ ω) (p : UserProcess η) : UserMemory := ⟨p.pageTable, k.frames.pool⟩

/-- A step that cannot kill the process. -/
def lift {α : Type} (x : KernelM φ η χ ω α) : TrapM φ η χ ω α := ExceptT.lift x

/-- An answer that may meet a defect or kill the process. -/
def ofTrapChecked {α : Type} (x : TrapChecked α) : TrapM φ η χ ω α :=
  ExceptT.mk (ofChecked x.run)

def knownProcess (pid : Pid) : TrapM φ η χ ω (UserProcess η) := do
  match (← lift get).processes.get? pid with
  | none => throw (.noSuchProcess pid)
  | some p => return p

def runningMemory (pid : Pid) : TrapM φ η χ ω UserMemory := do
  let k ← lift get
  match k.processes.running? pid with
  | none => throw (.noSuchProcess pid)
  | some p => return k.memoryOf p

def copyOut (pid : Pid) (va : VirtAddr) (bytes : Bytes) : TrapM φ η χ ω Unit := do
  if bytes.isEmpty then return ()
  let p ← knownProcess pid
  let k ← lift get
  let (answer, pool) ← lift (ofChecked ((k.memoryOf p).copyOut va bytes))
  lift (setPool pool)
  ofTrapChecked (.ofFault answer)

/-- The address so many bytes on in a buffer. -/
def bufferAt (buffer : VirtAddr) (done : Nat) : TrapM φ η χ ω VirtAddr :=
  match buffer.add? done with
  | none => throw (.badAddress .overflow)
  | some va => return va

def fileOf? (pid : Pid) (fd : Int32) : TrapM φ η χ ω (Option η) := do
  return (← knownProcess pid).files.get? fd

/-- Whether there is something under a descriptor: the console, if it is the console's number, or an
open file. -/
def isOpen (pid : Pid) (console fd : Int32) : TrapM φ η χ ω Bool := do
  if fd = console then return true
  else return (← fileOf? pid fd).isSome

section Chunks

variable [FileSystem φ η] [Console χ]

/-- Hands a chunk to the console or to the file under a descriptor; how many bytes it took. -/
def putChunk (pid : Pid) (fd : Int32) (chunk : Bytes) : TrapM φ η χ ω Nat := do
  if fd = consoleOutput then
    lift (Terminal.put chunk)
    return chunk.length
  else match ← fileOf? pid fd with
    | none => return 0
    | some handle => lift (Files.write handle chunk)

/-- Copies what is left of a buffer out of user memory and hands it on, chunk by chunk, until a
chunk is not taken whole. The chunks go through one scratch page. -/
def writeChunks (pid : Pid) (fd : Int32) (buffer : VirtAddr) (length done : Nat)
    (scratch : Bytes) : TrapM φ η χ ω Nat := do
  if done < length then
    let count := min chunkSize (length - done)
    let va ← bufferAt buffer done
    let m ← runningMemory pid
    let room ← lift (ofChecked (scratch.slice 0 count))
    let filled ← lift (ofChecked (m.copyIn va room))
    ofTrapChecked (.ofFault filled.result)
    let taken ← putChunk pid fd filled.bytes
    if taken < count then return done + taken
    else
      let scratch ← lift (ofChecked (scratch.overwrite 0 filled.bytes))
      writeChunks pid fd buffer length (done + taken) scratch
  else return done
termination_by length - done
decreasing_by
  have := chunkSize_pos
  omega

def write (pid : Pid) (fd : Int32) (buffer : VirtAddr) (length : Nat) :
    TrapM φ η χ ω Int32 := do
  if fd = consoleInput then return failed
  if ← isOpen pid consoleOutput fd then
    return byteCount (← writeChunks pid fd buffer length 0 Scratch.blank.bytes)
  else return failed

/-- Fills a chunk of `count` bytes from the console or from the file under a descriptor; the chunk,
and how many bytes came in. -/
def takeChunk (pid : Pid) (fd : Int32) (count : Nat) (chunk : Bytes) :
    TrapM φ η χ ω (Bytes × Nat) := do
  if fd = consoleInput then lift (Terminal.fill count chunk 0)
  else match ← fileOf? pid fd with
    | none => return (chunk, 0)
    | some handle => lift (Files.read handle chunk)

/-- Fills what is left of a buffer in user memory, chunk by chunk, until a chunk comes in short. The
chunks go through one scratch page. -/
def readChunks (pid : Pid) (fd : Int32) (buffer : VirtAddr) (length done : Nat)
    (scratch : Bytes) : TrapM φ η χ ω Nat := do
  if done < length then
    let count := min chunkSize (length - done)
    let room ← lift (ofChecked (scratch.slice 0 count))
    let (chunk, got) ← takeChunk pid fd count room
    let scratch ← lift (ofChecked (scratch.overwrite 0 chunk))
    let va ← bufferAt buffer done
    let piece ← lift (ofChecked (scratch.slice 0 got))
    copyOut pid va piece
    if got < count then return done + got
    else readChunks pid fd buffer length (done + got) scratch
  else return done
termination_by length - done
decreasing_by
  have := chunkSize_pos
  omega

def read (pid : Pid) (fd : Int32) (buffer : VirtAddr) (length : Nat) :
    TrapM φ η χ ω Int32 := do
  if fd = consoleOutput then return failed
  if ← isOpen pid consoleInput fd then
    return byteCount (← readChunks pid fd buffer length 0 Scratch.blank.bytes)
  else return failed

end Chunks

end Kernel

end TeachingKernel
