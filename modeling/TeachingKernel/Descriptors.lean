/-!
# Descriptors

The open files of one process, each under a descriptor. Descriptors are counted upwards and never
handed out again; 0 and 1 stand for the console and are never handed out at all.
-/

namespace TeachingKernel

def consoleInput : Int32 := 0

def consoleOutput : Int32 := 1

/-- The open files of a process, in the order in which they were opened. -/
structure Descriptors (φ : Type) where
  /-- The last descriptor that was handed out. -/
  last : Int32 := consoleOutput
  files : List (Int32 × φ) := []
  deriving DecidableEq

namespace Descriptors

variable {φ : Type} (d : Descriptors φ)

def empty : Descriptors φ := {}

instance : Inhabited (Descriptors φ) := ⟨empty⟩

/-- Puts a file under the next descriptor; none if the descriptors are used up. -/
def install? (file : φ) : Option (Int32 × Descriptors φ) :=
  if d.last = Int32.maxValue then none
  else
    let fd := d.last + 1
    some (fd, { last := fd, files := d.files ++ [(fd, file)] })

def get? (fd : Int32) : Option φ := d.files.lookup fd

def modify (fd : Int32) (f : φ → φ) : Descriptors φ :=
  { d with files := d.files.map fun (k, file) => if k = fd then (k, f file) else (k, file) }

def remove? (fd : Int32) : Option (φ × Descriptors φ) :=
  (d.get? fd).map fun file => (file, { d with files := d.files.eraseP (·.1 = fd) })

/-- No file is left open; the descriptors stay used up. -/
def drained : Descriptors φ := { d with files := [] }

def size : Nat := d.files.length

def isEmpty : Bool := d.files.isEmpty

end Descriptors

end TeachingKernel
