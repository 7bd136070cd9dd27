import TeachingKernel.Bytes

/-!
# The console

A device that takes bytes out and gives bytes in, one at a time. The plainest console keeps its
output and serves input that was queued.
-/

namespace TeachingKernel

class Console (χ : Type) where
  putBytes : χ → Bytes → χ
  /-- The next byte of input, if there is one. A console that takes no input has none. -/
  getByte : χ → Option UInt8 × χ := fun console => (none, console)

structure BufferConsole where
  output : Bytes := []
  input : Bytes := []
  /-- The queued input is served. -/
  isListening : Bool := true
  deriving DecidableEq, Inhabited

namespace BufferConsole

variable (c : BufferConsole)

def pushInput (bytes : Bytes) : BufferConsole := { c with input := c.input ++ bytes }

def cleared : BufferConsole := { c with output := [] }

instance : Console BufferConsole where
  putBytes c bytes := { c with output := c.output ++ bytes }
  getByte c :=
    match c.isListening, c.input with
    | true, byte :: rest => (some byte, { c with input := rest })
    | _, _ => (none, c)

def print (text : String) : BufferConsole :=
  Console.putBytes c text.toUTF8.data.toList

end BufferConsole

end TeachingKernel
