import TeachingKernel.UserMemory

/-!
# Copying across the boundary

Copies into the kernel land in a destination of fixed length and keep what was copied before a
fault. Copies out of the kernel check that the whole range may be written before the first byte is
stored.
-/

namespace TeachingKernel

structure Filled (α : Type) where
  bytes : Bytes
  result : Except Fault α

namespace UserMemory

variable (m : UserMemory)

def spans (va : VirtAddr) (length : Nat) : List (Except Fault Bytes) :=
  (Spans.ofRange m va length).toList

def checkReadable (va : VirtAddr) (length : Nat) : Except Fault Unit :=
  (m.spans va length).forM fun span => span.map fun _ => ()

/-- Every page of the range has an entry that is writable. -/
def checkWritable (va : VirtAddr) (length : Nat) : Except Fault Unit :=
  if length = 0 then .ok ()
  else if va.isKernel then .error (.kernelAddress va)
  else match m.table.entryAt? va with
    | none => .error (.unmapped va)
    | some e =>
      if !e.flags.writable then .error (.readOnly va)
      else
        let rest := length - min va.bytesToPageEnd length
        if rest = 0 then .ok ()
        else match va.add? va.bytesToPageEnd with
          | none => .error .overflow
          | some next => checkWritable next rest
termination_by length
decreasing_by
  have := va.bytesToPageEnd_pos
  omega

/-- Copies spans into the destination, one behind the other, from position `copied` on. -/
def fill : List (Except Fault Bytes) → Nat → Bytes → Checked (Filled Unit)
  | [], _, dst => return ⟨dst, .ok ()⟩
  | .error fault :: _, _, dst => return ⟨dst, .error fault⟩
  | .ok span :: rest, copied, dst => do
    fill rest (copied + span.length) (← dst.overwrite copied span)

def copyIn (va : VirtAddr) (dst : Bytes) : Checked (Filled Unit) :=
  fill (m.spans va dst.length) 0 dst

def readWord (va : VirtAddr) : Checked (Except Fault UInt32) := do
  let filled ← m.copyIn va (List.replicate wordSize 0)
  return filled.result.map fun _ => filled.bytes.word

/-- Copies spans up to the first zero byte, and writes a zero behind what was copied so far. -/
def fillText : List (Except Fault Bytes) → Nat → Bytes → Checked (Filled Nat)
  | [], copied, dst => do return ⟨← dst.overwrite copied [0], .ok copied⟩
  | .error fault :: _, _, dst => return ⟨dst, .error fault⟩
  | .ok span :: rest, copied, dst => do
    let piece := span.takeWhile (· ≠ 0)
    let copied' := copied + piece.length
    let dst ← (← dst.overwrite copied piece).overwrite copied' [0]
    if piece.length < span.length then return ⟨dst, .ok copied'⟩
    else fillText rest copied' dst

/-- Copies the text at `va`, which a zero byte ends, into the destination; answers with its
length. A text that leaves no room for the zero byte is cut. -/
def copyText (va : VirtAddr) (dst : Bytes) : Checked (Filled Nat) :=
  match dst.length with
  | 0 => return ⟨dst, .ok 0⟩
  | limit + 1 => fillText (m.spans va limit) 0 dst

/-- Stores bytes from `va` on, page by page; answers with the pool as it is afterwards. -/
def storeFrom (m : UserMemory) (va : VirtAddr) (src : Bytes) :
    Checked (Except Fault Unit × PagePool) :=
  if src.length = 0 then return (.ok (), m.pool)
  else match m.locateWritable va with
    | .error fault => return (.error fault, m.pool)
    | .ok place => do
      let count := min (pageSize - place.position) src.length
      let pool ← m.pool.store place.frame place.position (← src.slice 0 count)
      if src.length - count = 0 then return (.ok (), pool)
      else match va.add? count with
        | none => return (.error .overflow, pool)
        | some next => storeFrom { m with pool } next (src.drop count)
termination_by src.length
decreasing_by
  have := place.position_lt
  simp only [List.length_drop]
  omega

/-- Stores bytes from `va` on, if the whole range is writable. -/
def copyOut (va : VirtAddr) (src : Bytes) : Checked (Except Fault Unit × PagePool) :=
  match m.checkWritable va src.length with
  | .error fault => return (.error fault, m.pool)
  | .ok () => m.storeFrom va src

end UserMemory

end TeachingKernel
