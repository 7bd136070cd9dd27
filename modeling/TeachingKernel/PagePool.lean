import TeachingKernel.Bitmap
import TeachingKernel.Page

/-!
# The page pool

A pool is a row of frames that starts at an aligned physical address. It hands frames out, always
the lowest that is free and always zeroed, and takes them back. A bitmap tells which frames are
handed out, and a counter beside it tells how many are not.

To give back what was not handed out is a defect.

Main statements: what a pool hands out was free and is zeroed, and nothing else changes.
-/

namespace TeachingKernel

structure PagePool where
  base : PhysAddr
  total : Nat
  /-- The frames that are handed out. -/
  taken : Bitmap total
  /-- How many frames are not handed out. -/
  free : Nat
  pages : Vector Page total

namespace PagePool

def fresh (base : PhysAddr) (total : Nat) : PagePool where
  base := base
  total := total
  taken := .empty
  free := total
  pages := Vector.replicate _ Page.zero

/-- A fresh pool at a given address, which must be aligned. -/
def create (base : PhysAddr) (total : Nat) : Checked PagePool :=
  if base.isAligned then .ok (fresh base total) else .error (.unalignedPool base)

def user (total : Nat) : PagePool := fresh (.ofNat poolBase) total

variable (p : PagePool)

/-- The frame of the pool that contains the address. -/
def frame? (a : PhysAddr) : Option (Fin p.total) :=
  if p.base.toNat ≤ a.toNat then
    let frame := (a.toNat - p.base.toNat) / pageSize
    if h : frame < p.total then some ⟨frame, h⟩ else none
  else none

def frameAddress (frame : Fin p.total) : PhysAddr := p.base.offset (frame.val * pageSize)

/-- The address lies in a frame that is handed out. -/
def inUse (a : PhysAddr) : Bool := (p.frame? a).any p.taken.contains

/-- The lowest frame that is not handed out. -/
def lowestFree? : Option (Fin p.total) :=
  (List.finRange p.total).find? fun frame => !p.taken.contains frame

def handOut (frame : Fin p.total) : PagePool :=
  { p with
    taken := p.taken.insert frame
    free := p.free - 1
    pages := p.pages.set frame Page.zero }

def takeBack (frame : Fin p.total) : PagePool :=
  { p with taken := p.taken.erase frame, free := p.free + 1 }

/-- Hands out the lowest free frame, zeroed. The counter decides whether there is one. -/
def acquire : Option (PhysAddr × PagePool) :=
  if p.free = 0 then none
  else p.lowestFree?.map fun frame => (p.frameAddress frame, p.handOut frame)

def release (a : PhysAddr) : Checked PagePool :=
  if !a.isAligned then .error (.unalignedRelease a)
  else match p.frame? a with
    | none => .error (.foreignRelease a)
    | some frame =>
      if p.taken.contains frame then .ok (p.takeBack frame) else .error (.doubleRelease a)

def page? (a : PhysAddr) : Option Page := (p.frame? a).map fun frame => p.pages[frame]

/-- A byte's place among the frames of a pool: a frame and a position in it. -/
structure Place (total : Nat) where
  frame : Fin total
  position : Nat
  position_lt : position < pageSize
  deriving DecidableEq

/-- The bytes from a place to the end of its page. -/
def bytesFrom (place : Place p.total) : Bytes := p.pages[place.frame].bytesFrom place.position

/-- Stores bytes from `start` on in a frame, which must have room for them. -/
def store (frame : Fin p.total) (start : Nat) (src : Bytes) : Checked PagePool := do
  let page ← p.pages[frame].overwrite start src
  return { p with pages := p.pages.set frame page }

/-- Stores bytes in the page that contains the address, from `start` on; nothing if the pool has
no such page. -/
def write? (a : PhysAddr) (start : Nat) (src : Bytes) : Checked (Option PagePool) :=
  match p.frame? a with
  | none => .ok none
  | some frame => some <$> p.store frame start src

theorem length_bytesFrom (place : Place p.total) :
    (p.bytesFrom place).length = pageSize - place.position := by
  simp [bytesFrom, Page.bytesFrom, Page.length_bytes]

/-- The lowest free frame is free, and the frames below it are not. -/
theorem lowestFree?_eq_some_iff {frame : Fin p.total} :
    p.lowestFree? = some frame ↔
      p.taken.contains frame = false ∧ ∀ lower < frame, p.taken.contains lower = true := by
  rw [lowestFree?, List.find?_eq_some_iff_getElem]
  constructor
  · rintro ⟨hf, i, hi, hget, hlow⟩
    refine ⟨by simpa using hf, fun lower hl => ?_⟩
    have hi' : i = frame.val := by simpa using congrArg Fin.val hget
    have := hlow lower.val (by omega)
    simpa using this
  · rintro ⟨hf, hlow⟩
    refine ⟨by simpa using hf, frame.val, by simp, by simp, fun i hi => ?_⟩
    have := hlow ⟨i, Nat.lt_trans hi frame.isLt⟩ hi
    simpa using this

theorem lowestFree?_eq_none_iff :
    p.lowestFree? = none ↔ ∀ frame, p.taken.contains frame = true := by
  simp [lowestFree?, List.find?_eq_none]

end PagePool

end TeachingKernel
