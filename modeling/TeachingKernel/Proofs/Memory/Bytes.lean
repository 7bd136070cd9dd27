import TeachingKernel.Page

/-!
# Overwriting

What it means for a byte sequence, and for a page, that a piece of it was overwritten, byte by byte.
-/

namespace TeachingKernel

namespace Bytes

variable {dst src out : Bytes} {start : Nat}

theorem exists_overwrite (h : start + src.length ≤ dst.length) :
    ∃ out, dst.overwrite start src = .ok out := by
  refine ⟨dst.take start ++ (src ++ dst.drop (start + src.length)), ?_⟩
  rw [overwrite, if_pos h]

/-- A piece that is written right behind a front. -/
theorem overwrite_append {front back : Bytes} (h : src.length ≤ back.length) :
    (front ++ back).overwrite front.length src = .ok (front ++ (src ++ back.drop src.length)) := by
  have hroom : front.length + src.length ≤ (front ++ back).length := by
    rw [List.length_append]
    omega
  rw [overwrite, if_pos hroom, List.take_left, List.drop_length_add_append]

theorem overwrite_zero (h : src.length ≤ dst.length) :
    dst.overwrite 0 src = .ok (src ++ dst.drop src.length) := @overwrite_append src [] dst h

/-- The piece that was written, and the rest as it was. -/
theorem getElem?_of_overwrite (h : dst.overwrite start src = .ok out) (i : Nat) :
    out[i]? = if start ≤ i ∧ i < start + src.length then src[i - start]? else dst[i]? := by
  unfold overwrite at h
  split at h
  · rename_i hroom
    cases h
    have htake : (dst.take start).length = start := by
      rw [List.length_take]
      omega
    by_cases hs : start ≤ i
    · rw [List.getElem?_append_right (by omega), htake]
      by_cases hi : i < start + src.length
      · rw [if_pos ⟨hs, hi⟩, List.getElem?_append_left (by omega)]
      · rw [if_neg (fun hc => hi hc.2), List.getElem?_append_right (by omega), List.getElem?_drop]
        congr 1
        omega
    · rw [if_neg (fun hc => hs hc.1), List.getElem?_append_left (by omega),
        List.getElem?_take_of_lt (by omega)]
  · contradiction

/-- No byte before the first zero byte is zero. -/
theorem getElem?_of_lt_text {bytes : Bytes} {i : Nat}
    (hi : i < (bytes.takeWhile (· ≠ 0)).length) : ∃ byte, bytes[i]? = some byte ∧ byte ≠ 0 := by
  induction bytes generalizing i with
  | nil => exact absurd hi (Nat.not_lt_zero _)
  | cons byte bytes ih =>
    by_cases hz : byte = 0
    · simp [hz] at hi
    · cases i with
      | zero => exact ⟨byte, rfl, hz⟩
      | succ i =>
        simp only [ne_eq, hz, not_false_eq_true, decide_true, List.takeWhile_cons_of_pos,
          List.length_cons, Nat.add_lt_add_iff_right] at hi
        exact ih hi

/-- What ends a text is a zero byte. -/
theorem getElem?_length_text {bytes : Bytes}
    (h : (bytes.takeWhile (· ≠ 0)).length < bytes.length) :
    bytes[(bytes.takeWhile (· ≠ 0)).length]? = some 0 := by
  induction bytes with
  | nil => exact absurd h (Nat.not_lt_zero _)
  | cons byte bytes ih =>
    by_cases hz : byte = 0
    · simp [hz]
    · simp only [ne_eq, hz, not_false_eq_true, decide_true, List.takeWhile_cons_of_pos,
        List.length_cons, Nat.add_lt_add_iff_right] at h ⊢
      exact ih h

end Bytes

def Page.byte (page : Page) (i : Fin pageSize) : UInt8 :=
  page.bytes.get (Fin.cast page.length_bytes.symm i)

theorem Page.getElem?_bytes (page : Page) (i : Fin pageSize) :
    page.bytes[i.val]? = some (page.byte i) := by
  have hi : i.val < page.bytes.length := page.length_bytes.symm ▸ i.isLt
  rw [List.getElem?_eq_getElem hi]
  rfl

theorem Page.ofFn_byte (page : Page) : List.ofFn page.byte = page.bytes := by
  apply List.ext_getElem?
  intro i
  rw [List.getElem?_ofFn]
  split
  · rename_i hi
    exact (page.getElem?_bytes ⟨i, hi⟩).symm
  · rename_i hi
    rw [List.getElem?_eq_none (by rw [page.length_bytes]; omega)]

theorem Page.byte_zero : Page.zero.byte = fun _ => 0 := by
  funext i
  have h := Page.zero.getElem?_bytes i
  rw [Page.zero, List.getElem?_replicate_of_lt i.isLt] at h
  exact (Option.some.inj h).symm

theorem Page.exists_overwrite (page : Page) {start : Nat} {src : Bytes}
    (h : start + src.length ≤ pageSize) : ∃ out, page.overwrite start src = .ok out := by
  have hroom : start + src.length ≤ page.bytes.length := page.length_bytes.symm ▸ h
  obtain ⟨bytes, hb⟩ := Bytes.exists_overwrite hroom
  unfold overwrite
  split
  · rename_i hc
    rw [hb] at hc
    contradiction
  · exact ⟨_, rfl⟩

theorem Page.byte_of_overwrite {page out : Page} {start : Nat} {src : Bytes}
    (h : page.overwrite start src = .ok out) (i : Fin pageSize) :
    out.byte i = if start ≤ i then src.getD (i - start) (page.byte i) else page.byte i := by
  have hb := Bytes.getElem?_of_overwrite (Page.bytes_of_overwrite h) i.val
  rw [out.getElem?_bytes, page.getElem?_bytes] at hb
  by_cases hs : start ≤ i.val
  · rw [if_pos hs, List.getD_eq_getElem?_getD]
    by_cases hi : i.val < start + src.length
    · rw [if_pos ⟨hs, hi⟩] at hb
      rw [← hb]
      rfl
    · rw [if_neg fun hc => hi hc.2] at hb
      rw [List.getElem?_eq_none (by omega)]
      exact Option.some.inj hb
  · rw [if_neg fun hc => hs hc.1] at hb
    rw [if_neg hs]
    exact Option.some.inj hb

end TeachingKernel
