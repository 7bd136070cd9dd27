/-!
# Process identifiers

A process is named by a number of 32 bits.
-/

namespace TeachingKernel

@[ext] structure Pid where
  number : UInt32
  deriving DecidableEq, Inhabited

namespace Pid

/-- The number as user programs get it back from a call: its 32 bits read as signed. -/
def toInt32 (pid : Pid) : Int32 := pid.number.toInt32

/-- The place of the process in tables, which are in order of the numbers. -/
def key (pid : Pid) : Nat := pid.number.toNat

theorem key_injective {a b : Pid} (h : a.key = b.key) : a = b :=
  Pid.ext (UInt32.toNat_inj.mp h)

def text (pid : Pid) : String := "pid " ++ toString pid.number

def diagnostic (pid : Pid) : String := "Pid(" ++ toString pid.number ++ ")"

end Pid

end TeachingKernel
