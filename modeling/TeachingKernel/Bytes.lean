import TeachingKernel.Defect

/-!
# Byte sequences

Pieces of byte sequences, and the 32-bit words they spell, lowest byte first.

Main statements: a sequence keeps its length when part of it is overwritten, and the four bytes
of a word spell that word.
-/

namespace TeachingKernel

abbrev Bytes := List UInt8

namespace Bytes

/-- The `count` bytes from `start` on, all of which must exist. -/
def slice (bytes : Bytes) (start count : Nat) : Checked Bytes :=
  if start + count ≤ bytes.length then .ok ((bytes.drop start).take count)
  else .error (.sliceOutOfRange (start + count) bytes.length)

/-- Replaces the bytes from `start` on by `src`, for which there must be room. -/
def overwrite (dst : Bytes) (start : Nat) (src : Bytes) : Checked Bytes :=
  if start + src.length ≤ dst.length then
    .ok (dst.take start ++ (src ++ dst.drop (start + src.length)))
  else .error (.sliceOutOfRange (start + src.length) dst.length)

/-- The first `count` bytes, which exist. -/
def front (bytes : Bytes) (count : Nat) (_ : count ≤ bytes.length) : Bytes := bytes.take count

@[simp] theorem front_eq_take (bytes : Bytes) (count : Nat) (h : count ≤ bytes.length) :
    bytes.front count h = bytes.take count := rfl

theorem slice_zero {bytes : Bytes} {count : Nat} (h : count ≤ bytes.length) :
    bytes.slice 0 count = .ok (bytes.front count h) := by
  rw [slice, if_pos ((Nat.zero_add count).symm ▸ h)]
  rfl

theorem length_of_slice {bytes piece : Bytes} {start count : Nat}
    (h : bytes.slice start count = .ok piece) : piece.length = count := by
  unfold slice at h
  split at h
  · cases h
    simp only [List.length_take, List.length_drop]
    omega
  · contradiction

theorem length_of_overwrite {dst src out : Bytes} {start : Nat}
    (h : dst.overwrite start src = .ok out) : out.length = dst.length := by
  unfold overwrite at h
  split at h
  · cases h
    simp only [List.length_append, List.length_take, List.length_drop]
    omega
  · contradiction

end Bytes

def wordSize : Nat := 4

def wordBytes (w : UInt32) : Bytes :=
  [w.toNat, w.toNat / 256, w.toNat / 65536, w.toNat / 16777216].map UInt8.ofNat

/-- The number that a sequence of bytes spells, lowest byte first. -/
def Bytes.number (bytes : Bytes) : Nat := bytes.foldr (fun b n => b.toNat + 256 * n) 0

/-- The word that a sequence of bytes spells, lowest byte first, higher bits dropped. -/
def Bytes.word (bytes : Bytes) : UInt32 := UInt32.ofNat bytes.number

@[simp] theorem length_wordBytes (w : UInt32) : (wordBytes w).length = wordSize := rfl

/-- The four bytes of a word spell that word. -/
@[simp] theorem word_wordBytes (w : UInt32) : (wordBytes w).word = w := by
  apply UInt32.toNat_inj.mp
  have := w.toNat_lt
  simp only [wordBytes, Bytes.word, Bytes.number, List.map_cons, List.map_nil, List.foldr_cons,
    List.foldr_nil, UInt8.toNat_ofNat', UInt32.toNat_ofNat']
  omega

end TeachingKernel
