import TeachingKernel.FileSystem

/-!
# A file system in memory

Names lead to contents, and handles lead to contents too, so a file whose name was removed lives
on for those who opened it. Every handle has a position of its own. A file may also have a mere
length and no contents: it reads as so many bytes of one value and takes no byte.

Main statement: it counts no more bytes than its buffers hold.
-/

namespace TeachingKernel

inductive FileBody where
  | bytes (contents : Array UInt8)
  /-- A length without contents. -/
  | hollow (length : Nat)
  deriving DecidableEq, Inhabited

namespace FileBody

/-- The value at which a file without contents reads. -/
def filler : UInt8 := 118

def length : FileBody → Nat
  | bytes contents => contents.size
  | hollow length => length

/-- At most `count` bytes from `start` on. -/
def read (body : FileBody) (start count : Nat) : Bytes :=
  match body with
  | bytes contents => (contents.extract start (start + count)).toList
  | hollow length => List.replicate (min count (length - start)) filler

/-- Writes bytes from `start` on, after zeros if the file ends before. -/
def write (body : FileBody) (start : Nat) (src : Bytes) : FileBody :=
  match body with
  | hollow length => hollow length
  | bytes contents =>
    if src.isEmpty then bytes contents
    else
      let stop := start + src.length
      let room := contents ++ Array.replicate (stop - contents.size) 0
      bytes (room.extract 0 start ++ src.toArray ++ room.extract stop room.size)

theorem length_read_le (body : FileBody) (start count : Nat) :
    (body.read start count).length ≤ count := by
  cases body <;> simp only [read, Array.length_toList, Array.size_extract, List.length_replicate]
  all_goals omega

end FileBody

structure FileHandle where
  number : Nat
  /-- The name under which the file was opened. -/
  name : String
  deriving DecidableEq, Inhabited

structure FileUse where
  file : Nat
  position : Nat
  deriving DecidableEq, Inhabited

structure MemoryFileSystem where
  /-- The names and the numbers of their files. -/
  names : List (String × Nat) := []
  bodies : Array FileBody := #[]
  /-- The handles in use, by number. -/
  uses : List (Nat × FileUse) := []
  nextHandle : Nat := 0
  /-- No file grows beyond so many bytes. -/
  maxFile : Nat := 1048576
  /-- The most bytes that one read gives. -/
  readLimit : Option Nat := none
  /-- The most bytes that one write takes. -/
  writeLimit : Option Nat := none
  deriving DecidableEq

namespace MemoryFileSystem

variable (fs : MemoryFileSystem)

def capped (limit : Option Nat) (count : Nat) : Nat :=
  match limit with
  | none => count
  | some limit => min limit count

def put (name : String) (body : FileBody) : MemoryFileSystem :=
  { fs with
    names := fs.names.filter (·.1 ≠ name) ++ [(name, fs.bodies.size)]
    bodies := fs.bodies.push body }

def use (handle : FileHandle) : FileUse := (fs.uses.lookup handle.number).getD default

def body (handle : FileHandle) : FileBody := fs.bodies.getD (fs.use handle).file default

def move (handle : FileHandle) (position : Nat) : MemoryFileSystem :=
  { fs with
    uses := fs.uses.map fun (n, u) =>
      if n = handle.number then (n, { u with position }) else (n, u) }

def createFile (name : String) (size : UInt32) : Bool × MemoryFileSystem :=
  if name.isEmpty || (fs.names.lookup name).isSome || fs.maxFile < size.toNat then (false, fs)
  else (true, fs.put name (.bytes (Array.replicate size.toNat 0)))

def openFile (name : String) : Option FileHandle × MemoryFileSystem :=
  match fs.names.lookup name with
  | none => (none, fs)
  | some file =>
    (some ⟨fs.nextHandle, name⟩,
      { fs with
        uses := fs.uses ++ [(fs.nextHandle, ⟨file, 0⟩)]
        nextHandle := fs.nextHandle + 1 })

def removeFile (name : String) : Bool × MemoryFileSystem :=
  match fs.names.lookup name with
  | none => (false, fs)
  | some _ => (true, { fs with names := fs.names.filter (·.1 ≠ name) })

/-- Puts what is read at the front of the buffer, and leaves the rest of it as it is. -/
def read (handle : FileHandle) (buffer : Bytes) : (Bytes × Nat) × MemoryFileSystem :=
  let start := (fs.use handle).position
  let bytes := (fs.body handle).read start (capped fs.readLimit buffer.length)
  ((bytes ++ buffer.drop bytes.length, bytes.length), fs.move handle (start + bytes.length))

/-- How many of `count` bytes a file takes at a position. -/
def accepted (body : FileBody) (position count : Nat) : Nat :=
  match body with
  | .hollow _ => 0
  | .bytes _ => min (capped fs.writeLimit count) (fs.maxFile - position)

def write (handle : FileHandle) (bytes : Bytes) : Nat × MemoryFileSystem :=
  let u := fs.use handle
  let body := fs.body handle
  let count := fs.accepted body u.position bytes.length
  let bodies := fs.bodies.setIfInBounds u.file (body.write u.position (bytes.take count))
  (count, { fs with bodies }.move handle (u.position + count))

def close (handle : FileHandle) : MemoryFileSystem :=
  { fs with uses := fs.uses.filter (·.1 ≠ handle.number) }

theorem capped_le (limit : Option Nat) (count : Nat) : capped limit count ≤ count := by
  cases limit <;> simp only [capped] <;> omega

theorem length_read_le (handle : FileHandle) (buffer : Bytes) :
    (fs.read handle buffer).1.2 ≤ buffer.length :=
  Nat.le_trans (FileBody.length_read_le ..) (capped_le ..)

instance : FileSystem MemoryFileSystem FileHandle where
  createFile := createFile
  openFile := openFile
  removeFile := removeFile
  length fs handle := UInt32.ofNat (fs.body handle).length
  read := read
  length_read fs handle buffer := by
    have := fs.length_read_le handle buffer
    simp only [read, List.length_append, List.length_drop] at this ⊢
    omega
  write := write
  seek fs handle position := fs.move handle position.toNat
  tell fs handle := UInt32.ofNat (fs.use handle).position
  close := close

instance : LawfulFileSystem MemoryFileSystem where
  read_le := length_read_le
  write_le fs handle bytes := by
    have := capped_le fs.writeLimit bytes.length
    simp only [FileSystem.write, write, accepted]
    split <;> omega

def toList : List (String × FileBody) :=
  fs.names.map fun (name, file) => (name, fs.bodies.getD file default)

end MemoryFileSystem

end TeachingKernel
