import TeachingKernel.Host

/-!
# A scripted host

A host that decides by the command line what becomes of a process. A command that begins with
`none` starts nothing. One that begins with `ok` starts a process that loads, and `ok pid=` may be
followed by the identifier that the process shall have. Any other starts a process that does not
load. Identifiers that the command does not give are counted upwards from 100. The status of a
process is twice its identifier.
-/

namespace TeachingKernel

structure ScriptedHost where
  /-- The identifier of the next process whose command gives none. -/
  next : UInt32 := 100
  /-- The processes that count as loaded. -/
  loaded : List Pid := []
  deriving DecidableEq, Inhabited

namespace ScriptedHost

def digit? (c : Char) : Option Nat := if c.isDigit then some (c.toNat - '0'.toNat) else none

def decimal? (digits : List Char) : Option Nat :=
  digits.foldlM (fun n c => (digit? c).map (10 * n + ·)) 0

/-- Reads an identifier: at least one decimal digit, perhaps after a plus sign, and no more than 32
bits. -/
def readPid? (chars : List Char) : Option Pid :=
  let digits := match chars with
    | '+' :: rest => rest
    | _ => chars
  if digits.isEmpty then none
  else (decimal? digits).bind fun n => if n < UInt32.size then some ⟨UInt32.ofNat n⟩ else none

/-- The identifier that a command gives its process. -/
def requestedPid? (command : List Char) : Option Pid :=
  let mark := "ok pid=".toList
  if mark.isPrefixOf command then readPid? (command.drop mark.length) else none

variable (h : ScriptedHost)

def execute (command : String) : Option Pid × ScriptedHost :=
  let chars := command.toList
  if "none".toList.isPrefixOf chars then (none, h)
  else
    let (child, h) := match requestedPid? chars with
      | some child => (child, h)
      | none => (⟨h.next⟩, { h with next := h.next + 1 })
    if "ok".toList.isPrefixOf chars then (some child, { h with loaded := h.loaded.insert child })
    else (some child, h)

instance : Host ScriptedHost where
  execute h _ command := h.execute command
  waitLoaded h child := (h.loaded.contains child, h)
  wait h _ child := (child.toInt32 * 2, h)
  exited h _ _ := h
  powerOff h := h

end ScriptedHost

end TeachingKernel
