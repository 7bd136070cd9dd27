import TeachingKernel.Address
import TeachingKernel.Page

/-!
# Private memory

The memory of a process as the process itself sees it: a partial map from the numbers of its pages
to their bytes, each page writable or not. Frames play no part here.

Main statement: to store two pieces one behind the other is to store them at once.
-/

namespace TeachingKernel

@[ext] structure UserPage where
  bytes : Fin pageSize → UInt8
  writable : Bool

namespace UserPage

def zero (writable : Bool) : UserPage := ⟨fun _ => 0, writable⟩

/-- The page of this number after bytes were stored from the address `start` on, as far as they fall
into it. -/
def store (page : UserPage) (number start : Nat) (src : Bytes) : UserPage :=
  { page with
    bytes := fun i =>
      if start ≤ number * pageSize + i then src.getD (number * pageSize + i - start) (page.bytes i)
      else page.bytes i }

theorem store_nil (page : UserPage) (number start : Nat) : page.store number start [] = page := by
  ext i
  · simp [store]
  · rfl

theorem store_store (page : UserPage) (number start : Nat) (xs ys : Bytes) :
    (page.store number start xs).store number (start + xs.length) ys =
      page.store number start (xs ++ ys) := by
  ext i
  · simp only [store, List.getD_eq_getElem?_getD]
    by_cases hs : start ≤ number * pageSize + i
    · by_cases hx : start + xs.length ≤ number * pageSize + i
      · have hlen : xs.length ≤ number * pageSize + i - start := by omega
        have hsub : number * pageSize + i - (start + xs.length) =
            number * pageSize + i - start - xs.length := by omega
        rw [if_pos hx, if_pos hs, if_pos hs, List.getElem?_append_right hlen,
          List.getElem?_eq_none hlen, hsub]
        rfl
      · have hlen : number * pageSize + i - start < xs.length := by omega
        rw [if_neg hx, if_pos hs, if_pos hs, List.getElem?_append_left hlen]
    · have hx : ¬ start + xs.length ≤ number * pageSize + i := by omega
      rw [if_neg hx, if_neg hs, if_neg hs]
  · rfl

end UserPage

/-- The memory of one process, by the numbers of its pages. -/
def PrivateMemory : Type := Nat → Option UserPage

namespace PrivateMemory

def empty : PrivateMemory := fun _ => none

instance : Inhabited PrivateMemory := ⟨empty⟩

variable (m : PrivateMemory)

def byte? (n : Nat) : Option UInt8 :=
  (m (n / pageSize)).map fun page => page.bytes ⟨n % pageSize, Nat.mod_lt _ pageSize_pos⟩

def bytes? (m : PrivateMemory) (n : Nat) : Nat → Option Bytes
  | 0 => some []
  | count + 1 => do return (← m.byte? n) :: (← m.bytes? (n + 1) count)

def word? (n : Nat) : Option UInt32 := (m.bytes? n wordSize).map Bytes.word

def isWritable (n : Nat) : Bool := (m (n / pageSize)).any (·.writable)

def set (number : Nat) (page : Option UserPage) : PrivateMemory :=
  fun n => if n = number then page else m n

/-- The memory after bytes were stored from the address `start` on. -/
def store (start : Nat) (src : Bytes) : PrivateMemory :=
  fun number => (m number).map fun page => page.store number start src

theorem store_nil (start : Nat) : m.store start [] = m := by
  funext number
  simp [store, UserPage.store_nil]

/-- Two pieces that are stored one behind the other. -/
theorem store_store (start : Nat) (xs ys : Bytes) :
    (m.store start xs).store (start + xs.length) ys = m.store start (xs ++ ys) := by
  funext number
  simp only [store, Option.map_map, Function.comp_def, UserPage.store_store]

theorem bytes?_eq_none_iff {n count : Nat} :
    m.bytes? n count = none ↔ ∃ i < count, m.byte? (n + i) = none := by
  induction count generalizing n with
  | zero => simp [bytes?]
  | succ count ih =>
    cases hb : m.byte? n with
    | none =>
      simp only [bytes?, hb, Option.bind_eq_bind, Option.bind_none, true_iff]
      exact ⟨0, Nat.succ_pos count, hb⟩
    | some byte =>
      simp only [bytes?, hb, Option.bind_eq_bind, Option.bind_some, Option.pure_def,
        Option.bind_eq_none_iff, reduceCtorEq, imp_false, ← Option.eq_none_iff_forall_ne_some]
      rw [ih]
      constructor
      · rintro ⟨i, hi, h⟩
        exact ⟨i + 1, by omega, by rwa [Nat.add_right_comm] at h⟩
      · rintro ⟨i, hi, h⟩
        cases i with
        | zero =>
          rw [Nat.add_zero, hb] at h
          contradiction
        | succ i => exact ⟨i, by omega, by rwa [Nat.add_right_comm]⟩

/-- A range is read byte by byte. -/
theorem bytes?_eq_some {n : Nat} {bytes : Bytes}
    (h : ∀ i < bytes.length, m.byte? (n + i) = bytes[i]?) :
    m.bytes? n bytes.length = some bytes := by
  induction bytes generalizing n with
  | nil => rfl
  | cons byte bytes ih =>
    have hfirst : m.byte? n = some byte := h 0 (Nat.succ_pos _)
    have hrest : m.bytes? (n + 1) bytes.length = some bytes := ih fun i hi => by
      rw [Nat.add_right_comm]
      exact h (i + 1) (Nat.succ_lt_succ hi)
    simp [bytes?, hfirst, hrest]

theorem of_bytes?_eq_some {m : PrivateMemory} {n count : Nat} {bytes : Bytes}
    (h : m.bytes? n count = some bytes) :
    bytes.length = count ∧ ∀ i < count, m.byte? (n + i) = bytes[i]? := by
  induction count generalizing n bytes with
  | zero =>
    cases h
    exact ⟨rfl, fun i hi => absurd hi (Nat.not_lt_zero i)⟩
  | succ count ih =>
    obtain ⟨byte, hbyte, h⟩ := Option.bind_eq_some_iff.mp h
    obtain ⟨rest, hrest, h⟩ := Option.bind_eq_some_iff.mp h
    obtain rfl := Option.some.inj h
    obtain ⟨hlength, hbytes⟩ := ih hrest
    refine ⟨congrArg (· + 1) hlength, fun i hi => ?_⟩
    cases i with
    | zero => exact hbyte
    | succ i =>
      have := hbytes i (by omega)
      rwa [Nat.add_right_comm] at this

/-- A part of a range that is there. -/
theorem bytes?_of_part {m : PrivateMemory} {n start count : Nat} {bytes : Bytes}
    (h : m.bytes? n bytes.length = some bytes) (hroom : start + count ≤ bytes.length) :
    m.bytes? (n + start) count = some ((bytes.drop start).take count) := by
  have hlength : ((bytes.drop start).take count).length = count := by
    rw [List.length_take, List.length_drop]
    omega
  have hpart : m.bytes? (n + start) ((bytes.drop start).take count).length =
      some ((bytes.drop start).take count) := m.bytes?_eq_some fun i hi => by
    rw [Nat.add_assoc, (of_bytes?_eq_some h).2 _ (by omega), List.getElem?_take_of_lt (by omega),
      List.getElem?_drop]
  rwa [hlength] at hpart

/-- A range is there if each of its bytes is. -/
theorem exists_bytes? {m : PrivateMemory} {n count : Nat}
    (h : ∀ i < count, (m.byte? (n + i)).isSome = true) :
    ∃ bytes, m.bytes? n count = some bytes := by
  refine Option.ne_none_iff_exists'.mp fun hnone => ?_
  obtain ⟨i, hi, hbyte⟩ := m.bytes?_eq_none_iff.mp hnone
  have hsome := h i hi
  rw [hbyte] at hsome
  contradiction

theorem word?_eq_none_iff {n : Nat} :
    m.word? n = none ↔ ∃ i < wordSize, m.byte? (n + i) = none := by
  rw [word?, Option.map_eq_none_iff, bytes?_eq_none_iff]

/-- Stores make no page writable, and none read-only. -/
theorem isWritable_store (start : Nat) (src : Bytes) (n : Nat) :
    (m.store start src).isWritable n = m.isWritable n := by
  simp only [isWritable, store]
  cases m (n / pageSize) with
  | none => rfl
  | some page => rfl

/-- A page is writable as a whole. -/
theorem isWritable_add {m : PrivateMemory} {va : VirtAddr} {i : Nat} (hi : i < va.bytesToPageEnd) :
    m.isWritable (va.toNat + i) = m.isWritable va.toNat := by
  have hnumber : (va.toNat + i) / pageSize = va.toNat / pageSize := by
    simp only [Address.bytesToPageEnd, Address.pageOffset, pageSize] at hi ⊢
    omega
  rw [isWritable, isWritable, hnumber]

/-- A range that begins in a writable page is writable if what is left of it behind a piece of the
page is. -/
theorem isWritable_of_rest {m : PrivateMemory} {va next : VirtAddr} {count rest : Nat}
    (hcount : count ≤ va.bytesToPageEnd) (hnext : va.add? count = some next)
    (hfirst : m.isWritable va.toNat = true)
    (hrest : ∀ i < rest, m.isWritable (next.toNat + i) = true) {i : Nat} (hi : i < count + rest) :
    m.isWritable (va.toNat + i) = true := by
  by_cases hin : i < count
  · rw [isWritable_add (Nat.lt_of_lt_of_le hin hcount), hfirst]
  · have := hrest (i - count) (by omega)
    rwa [Address.toNat_of_add? hnext, Nat.add_assoc, Nat.add_sub_cancel' (by omega)] at this

/-- The bytes of a stored piece are read back, and all others are as they were. -/
theorem byte?_store (start : Nat) (src : Bytes) (n : Nat) :
    (m.store start src).byte? n =
      (m.byte? n).map fun byte => if start ≤ n then src.getD (n - start) byte else byte := by
  have hn : n / pageSize * pageSize + n % pageSize = n := Nat.div_add_mod' n pageSize
  simp only [byte?, store, Option.map_map, Function.comp_def, UserPage.store, hn]

theorem isSome_byte?_of_isWritable {m : PrivateMemory} {n : Nat} (h : m.isWritable n = true) :
    (m.byte? n).isSome = true := by
  obtain ⟨page, hpage, _⟩ := (Option.any_eq_true _ _).mp h
  rw [byte?, hpage]
  rfl

/-- What was stored where the memory is writable is there. -/
theorem bytes?_store {m : PrivateMemory} {start : Nat} {src : Bytes}
    (hw : ∀ i < src.length, m.isWritable (start + i) = true) :
    (m.store start src).bytes? start src.length = some src := by
  refine bytes?_eq_some _ fun i hi => ?_
  obtain ⟨byte, hbyte⟩ := Option.isSome_iff_exists.mp (isSome_byte?_of_isWritable (hw i hi))
  rw [byte?_store, hbyte, Option.map_some, if_pos (Nat.le_add_right _ _), Nat.add_sub_cancel_left,
    List.getD_eq_getElem?_getD, List.getElem?_eq_getElem hi]
  rfl

/-- Outside of what was stored nothing changes. -/
theorem byte?_store_of_outside {m : PrivateMemory} {start n : Nat} {src : Bytes}
    (h : n < start ∨ start + src.length ≤ n) : (m.store start src).byte? n = m.byte? n := by
  rw [byte?_store]
  cases m.byte? n with
  | none => rfl
  | some byte =>
    rw [Option.map_some]
    rcases h with hlt | hge
    · rw [if_neg (Nat.not_le.mpr hlt)]
    · rw [if_pos (by omega), List.getD_eq_getElem?_getD, List.getElem?_eq_none (by omega)]
      rfl

inductive Stored (m : PrivateMemory) : PrivateMemory → Prop
  | refl : Stored m m
  | store {m' : PrivateMemory} {start : Nat} {src : Bytes} (h : Stored m m')
      (hw : ∀ i < src.length, m.isWritable (start + i) = true) : Stored m (m'.store start src)

variable {m}

theorem Stored.isWritable_eq {m' : PrivateMemory} (h : m.Stored m') (n : Nat) :
    m'.isWritable n = m.isWritable n := by
  induction h with
  | refl => rfl
  | store _ _ ih => rw [isWritable_store, ih]

/-- Stores make no byte appear, and none disappear. -/
theorem Stored.isSome_byte?_eq {m' : PrivateMemory} (h : m.Stored m') (n : Nat) :
    (m'.byte? n).isSome = (m.byte? n).isSome := by
  induction h with
  | refl => rfl
  | store _ _ ih => rw [byte?_store, Option.isSome_map, ih]

theorem Stored.trans {m' m'' : PrivateMemory} (h : m.Stored m') (h' : m'.Stored m'') :
    m.Stored m'' := by
  induction h' with
  | refl => exact h
  | store _ hw ih =>
    apply Stored.store ih
    intro i hi
    rw [← h.isWritable_eq]
    exact hw i hi

end PrivateMemory

end TeachingKernel
