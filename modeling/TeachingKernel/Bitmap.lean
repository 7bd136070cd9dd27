/-!
# Bitmaps

A set of numbers below a bound, packed eight to the byte: one bit per number, set for the members.

Main statements: membership after a number was put in or taken out.
-/

namespace TeachingKernel

structure Bitmap (n : Nat) where
  bytes : Vector UInt8 ((n + 7) / 8)
  deriving DecidableEq

namespace Bitmap

variable {n : Nat}

def empty : Bitmap n := ⟨Vector.replicate _ 0⟩

/-- The byte that holds the bit of a number. -/
def byte (i : Fin n) : Fin ((n + 7) / 8) := ⟨i.val / 8, by omega⟩

/-- The byte in which only the bit of a number is set. -/
def mask (i : Fin n) : UInt8 := UInt8.ofNat (1 <<< (i.val % 8))

variable (b : Bitmap n) (i j : Fin n)

def contains : Bool := b.bytes[byte i].toNat.testBit (i.val % 8)

def insert : Bitmap n := ⟨b.bytes.set (byte i) (b.bytes[byte i] ||| mask i)⟩

def erase : Bitmap n := ⟨b.bytes.set (byte i) (b.bytes[byte i] &&& ~~~mask i)⟩

theorem toNat_mask : (mask i).toNat = 1 <<< (i.val % 8) := by
  have : 2 ^ (i.val % 8) < 2 ^ 8 := Nat.pow_lt_pow_right (by decide) (Nat.mod_lt _ (by decide))
  rw [mask, UInt8.toNat_ofNat', Nat.one_shiftLeft]
  exact Nat.mod_eq_of_lt this

theorem testBit_or_mask (x : UInt8) (k : Nat) :
    (x ||| mask i).toNat.testBit k = (x.toNat.testBit k || decide (i.val % 8 = k)) := by
  rw [UInt8.toNat_or, Nat.testBit_or, toNat_mask, Nat.one_shiftLeft, Nat.testBit_two_pow]

theorem testBit_and_not_mask (x : UInt8) {k : Nat} (hk : k < 8) :
    (x &&& ~~~mask i).toNat.testBit k = (x.toNat.testBit k && !decide (i.val % 8 = k)) := by
  have : 2 ^ (i.val % 8) < 2 ^ 8 := Nat.pow_lt_pow_right (by decide) (Nat.mod_lt _ (by decide))
  rw [UInt8.toNat_and, Nat.testBit_and, UInt8.toNat_not, toNat_mask, Nat.one_shiftLeft,
    show UInt8.size - 1 - 2 ^ (i.val % 8) = 2 ^ 8 - (2 ^ (i.val % 8) + 1) by simp [UInt8.size],
    Nat.testBit_two_pow_sub_succ this, Nat.testBit_two_pow]
  simp [hk]

/-- Two numbers with one byte and one bit are the same. -/
theorem eq_of_byte_eq {i j : Fin n} (hb : byte i = byte j) (hm : i.val % 8 = j.val % 8) :
    i = j := by
  have hd : i.val / 8 = j.val / 8 := congrArg Fin.val hb
  have := Nat.div_add_mod i.val 8
  have := Nat.div_add_mod j.val 8
  apply Fin.ext
  omega

theorem getElem_set_fin (v : Vector UInt8 n) (x : UInt8) :
    (v.set i x)[j] = if i = j then x else v[j] := by
  simp only [Fin.getElem_fin, Vector.getElem_set, Fin.val_inj]

@[simp] theorem contains_empty : (empty : Bitmap n).contains i = false := by
  simp [contains, empty]

@[simp] theorem contains_insert : (b.insert i).contains j = (b.contains j || decide (i = j)) := by
  simp only [contains, insert, getElem_set_fin]
  split
  · rename_i hb
    simp only [hb, testBit_or_mask]
    congr 1
    exact decide_eq_decide.mpr ⟨eq_of_byte_eq hb, fun h => by rw [h]⟩
  · rename_i hb
    have : i ≠ j := fun h => hb (congrArg byte h)
    simp [this]

@[simp] theorem contains_erase : (b.erase i).contains j = (b.contains j && !decide (i = j)) := by
  simp only [contains, erase, getElem_set_fin]
  split
  · rename_i hb
    simp only [hb, testBit_and_not_mask _ _ (Nat.mod_lt _ (show 0 < 8 by decide))]
    congr 2
    exact decide_eq_decide.mpr ⟨eq_of_byte_eq hb, fun h => by rw [h]⟩
  · rename_i hb
    have : i ≠ j := fun h => hb (congrArg byte h)
    simp [this]

end Bitmap

end TeachingKernel
