/-!
# Page flags

What a page table entry says about its page. As a number the flags are the low bits of an x86
entry.
-/

namespace TeachingKernel

structure PageFlags where
  /-- The entry maps a frame. -/
  present : Bool := false
  /-- User programs may write through the entry. -/
  writable : Bool := false
  /-- User programs may use the entry. -/
  user : Bool := false
  /-- The page was read or written since the flag was last cleared. -/
  accessed : Bool := false
  /-- The page was written. -/
  dirty : Bool := false
  deriving DecidableEq, Inhabited

namespace PageFlags

def fresh (writable : Bool) : PageFlags := { present := true, user := true, writable }

/-- Each flag with its number and its name, in ascending order of the numbers. -/
def table (f : PageFlags) : List (Bool × UInt32 × String) :=
  [(f.present, 1, "PRESENT"), (f.writable, 2, "WRITABLE"), (f.user, 4, "USER"),
    (f.accessed, 32, "ACCESSED"), (f.dirty, 64, "DIRTY")]

def bits (f : PageFlags) : UInt32 :=
  f.table.foldl (fun n (isSet, bit, _) => if isSet then n ||| bit else n) 0

/-- The flags that a number stands for; bits that belong to no flag are dropped. -/
def ofBits (n : UInt32) : PageFlags where
  present := n &&& 1 != 0
  writable := n &&& 2 != 0
  user := n &&& 4 != 0
  accessed := n &&& 32 != 0
  dirty := n &&& 64 != 0

def text (f : PageFlags) : String :=
  let names := f.table.filterMap fun (isSet, _, name) => if isSet then some name else none
  if names.isEmpty then "PageFlags(0x0)"
  else "PageFlags(" ++ " | ".intercalate names ++ ")"

end PageFlags

end TeachingKernel
