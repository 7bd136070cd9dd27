import TeachingKernel.Bytes

/-!
# The file system

The file system that the kernel uses lies outside of it. Files are found by name and used through
handles of type `η`; what an operation changes, the state `φ` of the file system shows.

To read is to lend the file a buffer. What the file leaves in it is up to the file, and so is the
count that it answers with; but a buffer keeps its length. A file system is well behaved if no count
goes beyond the buffer.
-/

namespace TeachingKernel

class FileSystem (φ : Type) (η : outParam Type) where
  /-- Creates a file of so many bytes; whether it could. -/
  createFile : φ → String → UInt32 → Bool × φ
  /-- Opens a file, if there is one of that name. -/
  openFile : φ → String → Option η × φ
  /-- Removes a name; whether it could. -/
  removeFile : φ → String → Bool × φ
  length : φ → η → UInt32
  /-- Reads into a buffer from the handle's position on, and moves the position; the buffer, and how
  many bytes at its front were read. -/
  read : φ → η → Bytes → (Bytes × Nat) × φ
  length_read (fs : φ) (handle : η) (buffer : Bytes) :
    (read fs handle buffer).1.1.length = buffer.length
  /-- Writes bytes from the handle's position on, and moves the position; how many it took. -/
  write : φ → η → Bytes → Nat × φ
  seek : φ → η → UInt32 → φ
  /-- The handle's position. -/
  tell : φ → η → UInt32
  /-- Ends the use of a handle. -/
  close : φ → η → φ

/-- No count goes beyond the buffer. -/
class LawfulFileSystem (φ : Type) {η : outParam Type} [FileSystem φ η] : Prop where
  read_le (fs : φ) (handle : η) (buffer : Bytes) :
    (FileSystem.read fs handle buffer).1.2 ≤ buffer.length
  write_le (fs : φ) (handle : η) (bytes : Bytes) :
    (FileSystem.write fs handle bytes).1 ≤ bytes.length

end TeachingKernel
