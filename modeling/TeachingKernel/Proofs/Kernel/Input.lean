import TeachingKernel.Proofs.Kernel.Devices
import TeachingKernel.Proofs.Memory.Bytes

/-!
# Console input

A console gives one byte at a time. To fill a chunk from it is to take its next bytes, as many as
the chunk has room for or as there are, and to put them into the chunk one behind the other.

Main statement: a chunk is filled with the next bytes of input, and what is behind them stays as it
was.
-/

namespace TeachingKernel

section Console

variable {χ : Type} [Console χ]

/-- The next bytes of input, at most so many and as many as there are. -/
def Console.takeBytes : χ → Nat → Bytes × χ
  | c, 0 => ([], c)
  | c, n + 1 =>
    match Console.getByte c with
    | (none, c) => ([], c)
    | (some byte, c) =>
      let (bytes, c) := takeBytes c n
      (byte :: bytes, c)

/-- What is asked of a console to take so many bytes: each byte that there is, and if these are
fewer once more, in vain. -/
def inputUses {η : Type} (n : Nat) (bytes : Bytes) : List (DeviceUse η) :=
  bytes.map (fun byte => .getByte (some byte)) ++ if bytes.length < n then [.getByte none] else []

theorem inputUses_cons {η : Type} (n : Nat) (byte : UInt8) (bytes : Bytes) :
    (inputUses (n + 1) (byte :: bytes) : List (DeviceUse η)) =
      .getByte (some byte) :: inputUses n bytes := by
  simp only [inputUses, List.map_cons, List.cons_append, List.length_cons,
    Nat.add_lt_add_iff_right]

theorem Console.takeBytes_of_none {c c₁ : χ} (h : getByte c = (none, c₁)) (n : Nat) :
    takeBytes c (n + 1) = ([], c₁) := by
  rw [takeBytes, h]

theorem Console.takeBytes_of_some {c c₁ : χ} {byte : UInt8} (h : getByte c = (some byte, c₁))
    (n : Nat) :
    takeBytes c (n + 1) = (byte :: (takeBytes c₁ n).1, (takeBytes c₁ n).2) := by
  rw [takeBytes, h]

theorem Console.length_takeBytes_le (c : χ) (n : Nat) : (takeBytes c n).1.length ≤ n := by
  induction n generalizing c with
  | zero => exact Nat.le_refl 0
  | succ n ih =>
    rcases hbyte : getByte c with ⟨_ | byte, c₁⟩
    · rw [takeBytes_of_none hbyte]
      exact Nat.zero_le _
    · rw [takeBytes_of_some hbyte]
      exact Nat.succ_le_succ (ih c₁)

theorem Console.length_le_of_takeBytes {c c' : χ} {n : Nat} {bytes : Bytes}
    (h : takeBytes c n = (bytes, c')) : bytes.length ≤ n := by
  have := length_takeBytes_le c n
  rwa [h] at this

/-- To take bytes is to take some of them and then the others, unless the input ends before. -/
theorem Console.takeBytes_add (c : χ) (n k : Nat) :
    takeBytes c (n + k) =
      if (takeBytes c n).1.length < n then takeBytes c n
      else ((takeBytes c n).1 ++ (takeBytes (takeBytes c n).2 k).1,
        (takeBytes (takeBytes c n).2 k).2) := by
  induction n generalizing c with
  | zero =>
    rw [Nat.zero_add, if_neg (Nat.not_lt_zero _)]
    rfl
  | succ n ih =>
    rw [Nat.succ_add]
    rcases hbyte : getByte c with ⟨_ | byte, c₁⟩
    · rw [takeBytes_of_none hbyte, takeBytes_of_none hbyte]
      exact (if_pos (Nat.zero_lt_succ n)).symm
    · simp only [takeBytes_of_some hbyte, ih c₁, List.length_cons, Nat.add_lt_add_iff_right]
      split <;> rfl

/-- A console that serves a queue hands out its front and keeps the rest. -/
theorem Console.takeBytes_of_queue {queue : χ → Bytes}
    (hqueue : ∀ c, (getByte c).1 = (queue c).head? ∧ queue (getByte c).2 = (queue c).tail)
    (c : χ) (n : Nat) :
    (takeBytes c n).1 = (queue c).take n ∧ queue (takeBytes c n).2 = (queue c).drop n := by
  induction n generalizing c with
  | zero => exact ⟨rfl, rfl⟩
  | succ n ih =>
    obtain ⟨hhead, htail⟩ := hqueue c
    rcases hbyte : getByte c with ⟨_ | byte, c₁⟩
    · rw [hbyte] at hhead htail
      have hnil : queue c = [] := List.head?_eq_none_iff.mp hhead.symm
      rw [hnil] at htail ⊢
      rw [takeBytes_of_none hbyte]
      exact ⟨rfl, htail⟩
    · rw [hbyte] at hhead htail
      obtain ⟨rest, hcons⟩ := List.head?_eq_some_iff.mp hhead.symm
      obtain ⟨hfront, hrest⟩ := ih c₁
      rw [htail, hcons, List.tail_cons] at hfront hrest
      rw [takeBytes_of_some hbyte, hcons]
      exact ⟨congrArg (byte :: ·) hfront, hrest⟩

def BufferConsole.queue (c : BufferConsole) : Bytes := if c.isListening then c.input else []

theorem BufferConsole.getByte_queue (c : BufferConsole) :
    (Console.getByte c).1 = c.queue.head? ∧ (Console.getByte c).2.queue = c.queue.tail := by
  obtain ⟨output, input, isListening⟩ := c
  cases isListening with
  | false => exact ⟨rfl, rfl⟩
  | true => cases input <;> exact ⟨rfl, rfl⟩

end Console

namespace Kernel

open KernelM

variable {φ η χ ω : Type} [Console χ]

theorem leads_getByte (k : Kernel φ η χ ω) :
    (Terminal.getByte : KernelM φ η χ ω _).Leads k (Console.getByte k.console).1
      { k with console := (Console.getByte k.console).2 }
      [.getByte (Console.getByte k.console).1] := ⟨_, rfl, rfl⟩

/-- What is in front of the place where the next byte goes stays, and what is behind it gives way to
the next bytes of input, as far as these go. -/
theorem leads_fill (k : Kernel φ η χ ω) (front back : Bytes) {count : Nat}
    (hcount : front.length + back.length = count) {bytes : Bytes} {c : χ}
    (hbytes : Console.takeBytes k.console back.length = (bytes, c)) :
    (Terminal.fill count (front ++ back) front.length).Leads k
      (front ++ (bytes ++ back.drop bytes.length), front.length + bytes.length)
      { k with console := c } (inputUses back.length bytes) := by
  induction back generalizing k front bytes c with
  | nil =>
    cases hbytes
    have hfull : ¬ front.length < count := Nat.not_lt.mpr (Nat.le_of_eq hcount.symm)
    rw [Terminal.fill, if_neg hfull]
    exact leads_pure _
  | cons old back ih =>
    have hbyte := leads_getByte k
    rw [List.length_cons] at hcount hbytes
    rw [Terminal.fill, if_pos (by omega)]
    rcases hget : Console.getByte k.console with ⟨_ | byte, c₁⟩
    · rw [hget] at hbyte
      rw [Console.takeBytes_of_none hget] at hbytes
      cases hbytes
      exact hbyte.bind (leads_pure _)
    · rw [hget] at hbyte
      obtain ⟨rest, c₂, hrest⟩ : ∃ rest c₂, Console.takeBytes c₁ back.length = (rest, c₂) :=
        ⟨_, _, rfl⟩
      simp only [Console.takeBytes_of_some hget, hrest, Prod.mk.injEq] at hbytes
      obtain ⟨rfl, rfl⟩ := hbytes
      have hstore : (front ++ old :: back).overwrite front.length [byte] =
          .ok (front ++ [byte] ++ back) := by
        have hroom : [byte].length ≤ (old :: back).length := Nat.succ_le_succ (Nat.zero_le _)
        rw [Bytes.overwrite_append hroom, List.append_assoc]
        rfl
      have hgoes := ih { k with console := c₁ } (front ++ [byte])
        (by rw [List.length_append, List.length_singleton]; omega) hrest
      rw [List.length_append, List.length_singleton, List.append_assoc _ [byte] (_ ++ _),
        Nat.add_right_comm] at hgoes
      simp only [List.length_cons, inputUses_cons]
      exact hbyte.bind ((leads_ofChecked hstore).bind hgoes)

/-- A chunk is filled from its front on. -/
theorem leads_fill_chunk (k : Kernel φ η χ ω) (chunk : Bytes) {bytes : Bytes} {c : χ}
    (hbytes : Console.takeBytes k.console chunk.length = (bytes, c)) :
    (Terminal.fill chunk.length chunk 0).Leads k
      (bytes ++ chunk.drop bytes.length, bytes.length) { k with console := c }
      (inputUses chunk.length bytes) := by
  have hfill := leads_fill k [] chunk (Nat.zero_add _) hbytes
  rwa [List.length_nil, Nat.zero_add] at hfill

end Kernel

end TeachingKernel
