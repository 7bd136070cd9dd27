import TeachingKernel.PagePool
import TeachingKernel.CircularList
import TeachingKernel.UseBits

/-!
# The ledger of lent frames

Every frame that is lent to user processes has a loan: the frame, its holders in the order in
which they came, the epoch of its last use that was seen, and whether it is a victim chosen
earlier and not used since. The loans form a ring. A frame goes back to the pool in the same step
in which its last holder lets go of it.

An epoch is a count of the frames lent and the ticks passed.
-/

namespace TeachingKernel

inductive Policy where
  /-- The first frame that was not used since the hand last came by. -/
  | clock
  /-- The first such frame that is clean and was not used for more than `window` epochs, or else
  as for `clock`. -/
  | workingSet (window : Nat)
  deriving DecidableEq

namespace Policy

/-- The window of the working-set policy where none is given. -/
def defaultWindow : Nat := 64

instance : Inhabited Policy := ⟨clock⟩

def diagnostic : Policy → String
  | clock => "Clock"
  | workingSet window => "WsClock \x7b window: " ++ toString window ++ " \x7d"

end Policy

structure Loan where
  frame : PhysAddr
  holders : List Holder
  /-- The epoch of the last use that was seen. -/
  lastUsed : Nat
  /-- Chosen as a victim and not seen used since. -/
  chosen : Bool := false
  deriving DecidableEq, Inhabited

structure LedgerStats where
  lent : Nat := 0
  returned : Nat := 0
  victimScans : Nat := 0
  deriving DecidableEq, Inhabited

inductive Release where
  /-- The frame is not lent. -/
  | untracked
  /-- The frame is lent, but not to the one who lets go. -/
  | notReferenced
  /-- So many other holders remain. -/
  | shared (remaining : Nat)
  /-- The last holder let go and the frame went back to the pool. -/
  | freed
  deriving DecidableEq

inductive FrameError where
  /-- The pool is empty; the victim, if there is any loan, would have to be written out. -/
  | outOfFrames (victim : Option PhysAddr)
  /-- There is no memory to keep the loan in. -/
  | noMemory
  /-- The process already holds a frame at the address. -/
  | duplicateReference (holder : Holder)
  /-- The frame is not lent. -/
  | notTracked (frame : PhysAddr)
  deriving DecidableEq

namespace FrameError

def victimDiagnostic : Option PhysAddr → String
  | none => "None"
  | some frame => "Some(" ++ frame.diagnostic ++ ")"

def message : FrameError → String
  | outOfFrames victim => "out of frames (victim: " ++ victimDiagnostic victim ++ ")"
  | noMemory => "no memory for frame bookkeeping"
  | duplicateReference h => h.pid.text ++ " already maps a frame at " ++ h.vaddr.text
  | notTracked frame => "frame " ++ frame.text ++ " is not tracked"

def diagnostic : FrameError → String
  | outOfFrames victim => "OutOfFrames \x7b victim: " ++ victimDiagnostic victim ++ " \x7d"
  | noMemory => "NoMemory"
  | duplicateReference h =>
    "DuplicateReference \x7b pid: " ++ h.pid.diagnostic ++ ", vaddr: " ++ h.vaddr.diagnostic ++
      " \x7d"
  | notTracked frame => "NotTracked(" ++ frame.diagnostic ++ ")"

end FrameError

structure FrameLedger where
  pool : PagePool
  loans : CircularList Loan := {}
  policy : Policy := .clock
  epoch : Nat := 0
  stats : LedgerStats := {}

namespace FrameLedger

def fresh (pool : PagePool) (policy : Policy) : FrameLedger := { pool, policy }

variable (l : FrameLedger)

def size : Nat := l.loans.size

def isEmpty : Bool := l.loans.isEmpty

/-- The loans in circular order from the hand. -/
def toList : Checked (List Loan) := l.loans.toList

def slot? (frame : PhysAddr) : Checked (Option Nat) := l.loans.find? (·.frame = frame)

/-- The slot of the loan that a holder holds. -/
def slotHeld? (h : Holder) : Checked (Option Nat) := l.loans.find? (h ∈ ·.holders)

def loan? (frame : PhysAddr) : Checked (Option Loan) := do
  return (← l.toList).find? (·.frame = frame)

def contains (frame : PhysAddr) : Checked Bool := do return (← l.slot? frame).isSome

/-- How many holders a frame has, if it is lent. -/
def holderCount? (frame : PhysAddr) : Checked (Option Nat) := do
  return (← l.loan? frame).map (·.holders.length)

def handFrame? : Checked (Option PhysAddr) := do
  return (← l.loans.handValue?).map (·.frame)

def advance (ticks : Nat) : FrameLedger := { l with epoch := l.epoch + ticks }

/-- Enters the loan of a frame that the pool just handed out. -/
def enter (frame : PhysAddr) (h : Holder) : Checked FrameLedger := do
  let epoch := l.epoch + 1
  let loans ← l.loans.insert { frame, holders := [h], lastUsed := epoch }
  return { l with loans, epoch, stats := { l.stats with lent := l.stats.lent + 1 } }

def share (frame : PhysAddr) (h : Holder) : Checked (Except FrameError FrameLedger) := do
  if (← l.slotHeld? h).isSome then return .error (.duplicateReference h)
  match ← l.slot? frame with
  | none => return .error (.notTracked frame)
  | some slot =>
    let loans ← l.loans.modify slot fun loan => { loan with holders := loan.holders ++ [h] }
    return .ok { l with loans }

/-- Ends a loan and gives its frame back to the pool; answers with the frame. -/
def close (slot : Nat) : Checked (PhysAddr × FrameLedger) := do
  let (loan, loans) ← l.loans.remove slot
  let pool ← l.pool.release loan.frame
  return (loan.frame,
    { l with pool, loans, stats := { l.stats with returned := l.stats.returned + 1 } })

/-- Takes the first holder that passes the test off a loan, and ends the loan if it was the last
one. -/
def letGo (slot : Nat) (test : Holder → Bool) : Checked (Release × FrameLedger) := do
  let holders := (← l.loans.node slot).value.holders
  if !holders.any test then return (.notReferenced, l)
  let rest := holders.eraseP test
  let loans ← l.loans.modify slot fun loan => { loan with holders := rest }
  let l := { l with loans }
  if rest.isEmpty then return (.freed, (← l.close slot).2)
  else return (.shared rest.length, l)

/-- Takes the first holder that passes the test off a frame. -/
def releaseWhere (frame : PhysAddr) (test : Holder → Bool) : Checked (Release × FrameLedger) := do
  match ← l.slot? frame with
  | none => return (.untracked, l)
  | some slot => l.letGo slot test

/-- A process lets go of a frame, at the first of the addresses where it holds it. -/
def release (pid : Pid) (frame : PhysAddr) : Checked (Release × FrameLedger) :=
  l.releaseWhere frame (·.pid = pid)

/-- A process lets go of a frame at one address. -/
def releaseMapping (h : Holder) (frame : PhysAddr) : Checked (Release × FrameLedger) :=
  l.releaseWhere frame (· = h)

/-- Takes a process off the loans in the given slots; answers with the frames that went back to
the pool. -/
def releaseSlots (pid : Pid) : List Nat → FrameLedger → Checked (List PhysAddr × FrameLedger)
  | [], l => return ([], l)
  | slot :: slots, l => do
    let loans ← l.loans.modify slot fun loan =>
      { loan with holders := loan.holders.filter (·.pid ≠ pid) }
    let l := { l with loans }
    if (← loans.node slot).value.holders.isEmpty then
      let (frame, l) ← l.close slot
      let (frames, l) ← releaseSlots pid slots l
      return (frame :: frames, l)
    else releaseSlots pid slots l

/-- A process lets go of all its frames; answers with those that went back to the pool, in the
order of the ring. -/
def releaseAll (pid : Pid) : Checked (List PhysAddr × FrameLedger) := do
  let held := (← l.loans.entries).filter fun (_, loan) => loan.holders.any (·.pid = pid)
  releaseSlots pid (held.map (·.1)) l

end FrameLedger

end TeachingKernel
