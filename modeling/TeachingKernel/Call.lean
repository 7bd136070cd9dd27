import TeachingKernel.Bytes

/-!
# System calls

The calls that a user program can make, their numbers, their names and how many argument words each
takes. A program lays the number and the arguments out on its stack, one word each, from the stack
pointer upwards.

Main statement: a number and its call determine each other.
-/

namespace TeachingKernel

inductive Call where
  | halt
  | exit
  | exec
  | wait
  | create
  | remove
  | open
  | filesize
  | read
  | write
  | seek
  | tell
  | close
  | mmap
  | munmap
  | chdir
  | mkdir
  | readdir
  | isdir
  | inumber
  deriving DecidableEq, Repr

namespace Call

def all : List Call :=
  [halt, exit, exec, wait, create, remove, .open, filesize, read, write, seek, tell, close, mmap,
    munmap, chdir, mkdir, readdir, isdir, inumber]

/-- The number under which programs ask for the call: its place in the order. -/
def number (c : Call) : UInt32 := UInt32.ofNat (all.idxOf c)

def ofNumber? (n : UInt32) : Option Call := all[n.toNat]?

def arity : Call → Nat
  | halt => 0
  | read | write => 3
  | create | seek | mmap | readdir => 2
  | _ => 1

def name : Call → String
  | halt => "halt"
  | exit => "exit"
  | exec => "exec"
  | wait => "wait"
  | create => "create"
  | remove => "remove"
  | .open => "open"
  | filesize => "filesize"
  | read => "read"
  | write => "write"
  | seek => "seek"
  | tell => "tell"
  | close => "close"
  | mmap => "mmap"
  | munmap => "munmap"
  | chdir => "chdir"
  | mkdir => "mkdir"
  | readdir => "readdir"
  | isdir => "isdir"
  | inumber => "inumber"

def diagnostic (c : Call) : String := c.name.capitalize

def ofName? (name : String) : Option Call := all.find? (·.name = name)

theorem ofNumber?_number (c : Call) : ofNumber? c.number = some c := by
  cases c <;> rfl

/-- What a program lays out on its stack for a call: the number and the arguments. -/
def stackImage (c : Call) (args : List UInt32) : Bytes := (c.number :: args).flatMap wordBytes

end Call

end TeachingKernel
