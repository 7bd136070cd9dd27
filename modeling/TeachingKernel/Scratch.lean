import TeachingKernel.Page

/-!
# Scratch pages

A page of kernel memory that a text from a user program is copied to before anything looks at it,
and through which the data of a transfer go, chunk by chunk. It is blank when it is taken.
-/

namespace TeachingKernel

structure Scratch where
  page : Page

namespace Scratch

def blank : Scratch := ⟨Page.zero⟩

instance : Inhabited Scratch := ⟨blank⟩

variable (s : Scratch)

def bytes : Bytes := s.page.bytes

def ofBytes? (bytes : Bytes) : Option Scratch := (Page.ofBytes? bytes).map Scratch.mk

def overwrite (start : Nat) (src : Bytes) : Checked Scratch := do
  return ⟨← s.page.overwrite start src⟩

/-- The bytes before the first zero byte, or all. -/
def textBytes : Bytes := s.bytes.takeWhile (· ≠ 0)

/-- The text before the first zero byte, if it is valid UTF-8. -/
def text? : Option String := String.fromUTF8? ⟨s.textBytes.toArray⟩

def diagnostic (_ : Scratch) : String := s!"ScratchPage({pageSize} bytes)"

end Scratch

end TeachingKernel
