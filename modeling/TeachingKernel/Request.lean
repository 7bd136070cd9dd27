import TeachingKernel.Call
import TeachingKernel.Descriptors
import TeachingKernel.Pid
import TeachingKernel.Scratch
import TeachingKernel.UserMemory.Copy

/-!
# Requests

A request is a system call whose arguments were read from the user's stack and found valid: texts
were copied into scratch pages, and buffers were checked to the last page. What cannot be made a
request kills the process that asked, before anything was done on its behalf.

Requests come about in two steps. `readCall` reads the call and its argument words, `Request.ofCall`
checks what the words point to.
-/

namespace TeachingKernel

inductive TrapError where
  /-- A user address could not be used. -/
  | badAddress (fault : Fault)
  /-- There is no call of that number. -/
  | unknownCall (number : UInt32)
  /-- The process does not exist or has exited. -/
  | noSuchProcess (pid : Pid)
  deriving DecidableEq

namespace TrapError

def message : TrapError → String
  | badAddress fault => "bad user address: " ++ fault.message
  | unknownCall number => "unknown system call " ++ toString number
  | noSuchProcess pid => pid.text ++ " is not a live process"

def diagnostic : TrapError → String
  | badAddress fault => "BadAddress(" ++ fault.diagnostic ++ ")"
  | unknownCall number => "UnknownCall(" ++ toString number ++ ")"
  | noSuchProcess pid => "NoSuchProcess(" ++ pid.diagnostic ++ ")"

end TrapError

/-- The longest file name that a directory is read with, without the zero byte behind it. -/
def longestEntryName : Nat := 14

inductive Request where
  | halt
  | exit (status : Int32)
  | exec (command : Scratch)
  | wait (child : Pid)
  | create (name : Scratch) (size : UInt32)
  | remove (name : Scratch)
  | open (name : Scratch)
  | filesize (fd : Int32)
  | read (fd : Int32) (buffer : VirtAddr) (length : Nat)
  | write (fd : Int32) (buffer : VirtAddr) (length : Nat)
  | seek (fd : Int32) (position : UInt32)
  | tell (fd : Int32)
  | close (fd : Int32)
  | mmap (fd : Int32) (address : VirtAddr)
  | munmap (mapping : Int32)
  | chdir (dir : Scratch)
  | mkdir (dir : Scratch)
  | readdir (fd : Int32) (name : VirtAddr)
  | isdir (fd : Int32)
  | inumber (fd : Int32)

/-- A call and its argument words, with zeros for those that it does not take. -/
structure RawCall where
  call : Call
  first : UInt32 := 0
  second : UInt32 := 0
  third : UInt32 := 0
  deriving DecidableEq

def RawCall.args (c : RawCall) : List UInt32 := [c.first, c.second, c.third].take c.call.arity

/-- The form of a call and its arguments in diagnostics. -/
def RawCall.text (c : RawCall) : String :=
  c.call.name ++ "([" ++ ", ".intercalate (c.args.map toString) ++ "])"

/-- The user address that an argument word names. -/
def wordAddress (w : UInt32) : VirtAddr := .ofNat w.toNat

/-- An answer that may meet a defect or kill the process. -/
abbrev TrapChecked := ExceptT TrapError Checked

/-- A fault kills the process. -/
def TrapChecked.ofFault {α : Type} (answer : Except Fault α) : TrapChecked α :=
  ExceptT.mk (.ok (answer.mapError .badAddress))

def TrapChecked.ofCopy {α : Type} (answer : Checked (Except Fault α)) : TrapChecked α := do
  .ofFault (← ExceptT.lift answer)

namespace UserMemory

variable (m : UserMemory)

def readArg (sp : VirtAddr) (slot : Nat) : TrapChecked UInt32 := do
  match sp.add? (wordSize * (slot + 1)) with
  | none => throw (.badAddress .overflow)
  | some va => .ofCopy (m.readWord va)

def readArgs (sp : VirtAddr) (count : Nat) : TrapChecked (List UInt32) :=
  (List.range count).mapM (m.readArg sp)

def readCall (sp : VirtAddr) : TrapChecked RawCall := do
  let _ ← TrapChecked.ofFault (m.translate sp)
  let number ← TrapChecked.ofCopy (m.readWord sp)
  match Call.ofNumber? number with
  | none => throw (.unknownCall number)
  | some call =>
    let args ← m.readArgs sp call.arity
    return ⟨call, args.getD 0 0, args.getD 1 0, args.getD 2 0⟩

/-- Copies the text that an argument word points to into a scratch page. -/
def readText (arg : UInt32) : TrapChecked Scratch := do
  let filled ← ExceptT.lift (m.copyText (wordAddress arg) Scratch.blank.bytes)
  let _ ← TrapChecked.ofFault filled.result
  match Scratch.ofBytes? filled.bytes with
  | some scratch => return scratch
  | none => ExceptT.lift (.error (.sliceOutOfRange filled.bytes.length pageSize))

end UserMemory

namespace Request

/-- Checks what the argument words of a call point to. -/
def ofCall (m : UserMemory) (c : RawCall) : TrapChecked Request := do
  let fd := c.first.toInt32
  match c.call with
  | .halt => return .halt
  | .exit => return .exit c.first.toInt32
  | .exec => return .exec (← m.readText c.first)
  | .wait => return .wait ⟨c.first⟩
  | .create => return .create (← m.readText c.first) c.second
  | .remove => return .remove (← m.readText c.first)
  | .open => return .open (← m.readText c.first)
  | .filesize => return .filesize fd
  | .read =>
    let (buffer, length) := (wordAddress c.second, c.third.toNat)
    TrapChecked.ofFault (m.checkWritable buffer length)
    return .read fd buffer length
  | .write =>
    let (buffer, length) := (wordAddress c.second, c.third.toNat)
    TrapChecked.ofFault (m.checkReadable buffer length)
    return .write fd buffer length
  | .seek => return .seek fd c.second
  | .tell => return .tell fd
  | .close => return .close fd
  | .mmap => return .mmap fd (wordAddress c.second)
  | .munmap => return .munmap fd
  | .chdir => return .chdir (← m.readText c.first)
  | .mkdir => return .mkdir (← m.readText c.first)
  | .readdir =>
    let name := wordAddress c.second
    TrapChecked.ofFault (m.checkWritable name (longestEntryName + 1))
    return .readdir fd name
  | .isdir => return .isdir fd
  | .inumber => return .inumber fd

def call : Request → Call
  | halt => .halt
  | exit _ => .exit
  | exec _ => .exec
  | wait _ => .wait
  | create _ _ => .create
  | remove _ => .remove
  | .open _ => .open
  | filesize _ => .filesize
  | read _ _ _ => .read
  | write _ _ _ => .write
  | seek _ _ => .seek
  | tell _ => .tell
  | close _ => .close
  | mmap _ _ => .mmap
  | munmap _ => .munmap
  | chdir _ => .chdir
  | mkdir _ => .mkdir
  | readdir _ _ => .readdir
  | isdir _ => .isdir
  | inumber _ => .inumber

/-- The arguments of a request, by name, in the form that diagnostics give them. -/
def fields : Request → List (String × String)
  | halt => []
  | exit status => [("status", toString status)]
  | exec command => [("cmd_line", command.diagnostic)]
  | wait child => [("child", child.diagnostic)]
  | create name size => [("name", name.diagnostic), ("initial_size", toString size)]
  | remove name => [("name", name.diagnostic)]
  | .open name => [("name", name.diagnostic)]
  | filesize fd => [("fd", toString fd)]
  | read fd buffer length | write fd buffer length =>
    [("fd", toString fd), ("buf", buffer.diagnostic), ("len", toString length)]
  | seek fd position => [("fd", toString fd), ("pos", toString position)]
  | tell fd => [("fd", toString fd)]
  | close fd => [("fd", toString fd)]
  | mmap fd address => [("fd", toString fd), ("addr", address.diagnostic)]
  | munmap mapping => [("mapping", toString mapping)]
  | chdir dir => [("dir", dir.diagnostic)]
  | mkdir dir => [("dir", dir.diagnostic)]
  | readdir fd name => [("fd", toString fd), ("name", name.diagnostic)]
  | isdir fd => [("fd", toString fd)]
  | inumber fd => [("fd", toString fd)]

def diagnostic (r : Request) : String :=
  match r.fields with
  | [] => r.call.diagnostic
  | fields =>
    r.call.diagnostic ++ " \x7b " ++
      ", ".intercalate (fields.map fun (name, value) => name ++ ": " ++ value) ++ " \x7d"

end Request

end TeachingKernel
