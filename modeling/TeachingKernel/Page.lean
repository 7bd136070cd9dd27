import TeachingKernel.Bytes

/-!
# Pages

The contents of one page of memory: a byte sequence as long as a page.
-/

namespace TeachingKernel

@[ext] structure Page where
  bytes : Bytes
  length_bytes : bytes.length = pageSize
  deriving DecidableEq

namespace Page

def zero : Page := ⟨List.replicate pageSize 0, List.length_replicate⟩

instance : Inhabited Page := ⟨zero⟩

/-- The page with exactly these bytes, if there are as many as a page has. -/
def ofBytes? (bytes : Bytes) : Option Page :=
  if h : bytes.length = pageSize then some ⟨bytes, h⟩ else none

def bytesFrom (page : Page) (start : Nat) : Bytes := page.bytes.drop start

/-- Replaces the bytes from `start` on by `src`, for which there must be room in the page. -/
def overwrite (page : Page) (start : Nat) (src : Bytes) : Checked Page :=
  match h : page.bytes.overwrite start src with
  | .error d => .error d
  | .ok bytes => .ok ⟨bytes, (Bytes.length_of_overwrite h).trans page.length_bytes⟩

theorem bytes_of_overwrite {page out : Page} {start : Nat} {src : Bytes}
    (h : page.overwrite start src = .ok out) :
    page.bytes.overwrite start src = .ok out.bytes := by
  unfold overwrite at h
  split at h
  · contradiction
  · rename_i hb
    cases h
    exact hb

end Page

end TeachingKernel
