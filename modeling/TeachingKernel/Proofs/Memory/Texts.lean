import Mathlib.Data.List.TakeWhile
import TeachingKernel.Proofs.Memory.Bytewise

/-!
# Texts, byte by byte

What it is to read a text one byte after the other: up to the zero byte that ends it, up to the
bound, or up to the first byte that cannot be read. The kernel copies a text page by page and ends
it anew after every page; what it leaves in the destination is told by this reading, and nothing
behind the place where the reading stops makes a difference.

Main statement: `text_copied_bytewise`.
-/

namespace TeachingKernel

namespace UserMemory

/-! ## The reading of a text -/

-- Where the reading of a text stops, and what it is answered: at the zero byte that ends the text,
-- at the bound, or at a byte that cannot be read.
inductive TextStop (m : UserMemory) (va : VirtAddr) (limit : Nat) : Nat → Except Fault Nat → Prop
  | zero {n : Nat} (hlt : n < limit) (h : m.byteFrom va n = .ok 0) : TextStop m va limit n (.ok n)
  | bound : TextStop m va limit limit (.ok limit)
  | fault {n : Nat} {fault : Fault} (hlt : n < limit) (h : m.byteFrom va n = .error fault) :
      TextStop m va limit n (.error fault)

/-- To read a text from an address on, cut after so many bytes, gives these bytes, none of them
zero, and this answer. -/
structure ReadsText (m : UserMemory) (va : VirtAddr) (limit : Nat) (text : Bytes)
    (answer : Except Fault Nat) : Prop where
  byte : ∀ (i : Nat) (hi : i < text.length), m.byteFrom va i = .ok text[i]
  ne_zero : ∀ byte ∈ text, byte ≠ 0
  stop : m.TextStop va limit text.length answer

variable {m m' : UserMemory} {va next : VirtAddr} {limit n : Nat} {text text' piece : Bytes}
  {answer answer' : Except Fault Nat}

namespace TextStop

theorem le (h : m.TextStop va limit n answer) : n ≤ limit := by
  cases h with
  | zero hlt | fault hlt => exact Nat.le_of_lt hlt
  | bound => exact Nat.le_refl _

/-- A byte that is read where the reading stops is the zero byte. -/
theorem eq_zero (h : m.TextStop va limit n answer) (hlt : n < limit) {byte : UInt8}
    (hbyte : m.byteFrom va n = .ok byte) : byte = 0 := by
  cases h with
  | zero _ hz => exact Except.ok.inj (hbyte.symm.trans hz)
  | bound => exact absurd hlt (Nat.lt_irrefl _)
  | fault _ hf => cases hbyte.symm.trans hf

theorem unique (h : m.TextStop va limit n answer) (h' : m.TextStop va limit n answer') :
    answer = answer' := by
  cases h with
  | zero hlt hz =>
    cases h' with
    | zero => rfl
    | bound => rfl
    | fault _ hf => cases hz.symm.trans hf
  | bound =>
    cases h' with
    | zero => rfl
    | bound => rfl
    | fault hlt => exact absurd hlt (Nat.lt_irrefl _)
  | fault hlt hf =>
    cases h' with
    | zero _ hz => cases hz.symm.trans hf
    | bound => exact absurd hlt (Nat.lt_irrefl _)
    | fault _ hf' => exact congrArg _ (Except.error.inj (hf.symm.trans hf'))

theorem congr (h : m.TextStop va limit n answer)
    (hagree : n < limit → m'.byteFrom va n = m.byteFrom va n) :
    m'.TextStop va limit n answer := by
  cases h with
  | zero hlt hz => exact .zero hlt ((hagree hlt).trans hz)
  | bound => exact .bound
  | fault hlt hf => exact .fault hlt ((hagree hlt).trans hf)

/-- The bytes on the way to where the reading goes on count. -/
theorem shift {k : Nat} (hle : k ≤ limit) (hnext : va.add? k = some next)
    (h : m.TextStop next (limit - k) n answer) :
    m.TextStop va limit (k + n) (answer.map (k + ·)) := by
  cases h with
  | zero hlt hz => exact .zero (by omega) ((m.byteFrom_add hnext n).trans hz)
  | bound =>
    rw [Except.map, Nat.add_sub_cancel' hle]
    exact .bound
  | fault hlt hf => exact .fault (by omega) ((m.byteFrom_add hnext n).trans hf)

end TextStop

namespace ReadsText

/-- Where one reading stops, no other goes on. -/
theorem length_le (h : m.ReadsText va limit text answer)
    (h' : m.ReadsText va limit text' answer') : text'.length ≤ text.length := by
  apply Nat.le_of_not_lt
  intro hlt
  exact h'.ne_zero _ (List.getElem_mem hlt)
    (h.stop.eq_zero (Nat.lt_of_lt_of_le hlt h'.stop.le) (h'.byte _ hlt))

/-- A text is read in one way only. -/
theorem unique (h : m.ReadsText va limit text answer) (h' : m.ReadsText va limit text' answer') :
    text = text' ∧ answer = answer' := by
  have hlength : text.length = text'.length := Nat.le_antisymm (h'.length_le h) (h.length_le h')
  have htext : text = text' := by
    apply List.ext_getElem hlength
    intro i hi hi'
    exact Except.ok.inj ((h.byte i hi).symm.trans (h'.byte i hi'))
  subst htext
  exact ⟨rfl, h.stop.unique h'.stop⟩

/-- Only the bytes up to the place where the reading stops matter. -/
theorem congr (h : m.ReadsText va limit text answer)
    (hagree : ∀ i ≤ text.length, i < limit → m'.byteFrom va i = m.byteFrom va i) :
    m'.ReadsText va limit text answer where
  byte i hi := by
    rw [hagree i (Nat.le_of_lt hi) (Nat.lt_of_lt_of_le hi h.stop.le), h.byte i hi]
  ne_zero := h.ne_zero
  stop := h.stop.congr (hagree _ (Nat.le_refl _))

/-- A text that stops at once. -/
theorem nil (h : m.TextStop va limit 0 answer) : m.ReadsText va limit [] answer where
  byte _ hi := absurd hi (Nat.not_lt_zero _)
  ne_zero _ hmem := absurd hmem List.not_mem_nil
  stop := h

/-- A text that ends inside a piece. -/
theorem of_zero (hle : piece.length ≤ limit)
    (hbyte : ∀ (i : Nat) (hi : i < piece.length), m.byteFrom va i = .ok piece[i])
    (hshort : (piece.takeWhile (· ≠ 0)).length < piece.length) :
    m.ReadsText va limit (piece.takeWhile (· ≠ 0)) (.ok (piece.takeWhile (· ≠ 0)).length) where
  byte i hi := by
    rw [hbyte i (by omega), (List.takeWhile_prefix _).getElem hi]
  ne_zero byte hmem := by simpa using List.mem_takeWhile_imp hmem
  stop := by
    refine .zero (by omega) ?_
    have hz := Bytes.getElem?_length_text hshort
    rw [List.getElem?_eq_getElem hshort] at hz
    rw [hbyte _ hshort, Option.some.inj hz]

/-- A text that goes on behind a piece. -/
theorem of_piece (hle : piece.length ≤ limit)
    (hbyte : ∀ (i : Nat) (hi : i < piece.length), m.byteFrom va i = .ok piece[i])
    (hzero : ∀ byte ∈ piece, byte ≠ 0) (hnext : va.add? piece.length = some next)
    (h : m.ReadsText next (limit - piece.length) text answer) :
    m.ReadsText va limit (piece ++ text) (answer.map (piece.length + ·)) where
  byte := byteFrom_append hbyte hnext h.byte
  ne_zero byte hmem := (List.mem_append.mp hmem).elim (hzero byte) (h.ne_zero byte)
  stop := by
    rw [List.length_append]
    exact h.stop.shift hle hnext

end ReadsText

/-! ## The copy -/

/-- A destination with a text at its start and a zero byte behind it. It stays as it was where not
even one byte could be read. -/
def written (text : Bytes) (answer : Except Fault Nat) (dst : Bytes) : Bytes :=
  if text = [] ∧ answer.isOk = false then dst else text ++ 0 :: dst.drop (text.length + 1)

/-- What was copied is ended by a zero byte, which the next piece replaces. -/
theorem written_append (hpiece : piece ≠ []) (back : Bytes) :
    written (piece ++ text) (answer.map (piece.length + ·)) back =
      piece ++ written text answer (0 :: back.drop (piece.length + 1)) := by
  have hne : ¬ (piece ++ text = [] ∧ (answer.map (piece.length + ·)).isOk = false) :=
    fun h => hpiece (List.append_eq_nil_iff.mp h.1).1
  rw [written, if_neg hne, List.append_assoc, written]
  split
  · rename_i h
    rw [h.1, List.nil_append, List.append_nil]
  · rw [List.drop_succ_cons, List.drop_drop, List.length_append, Nat.add_right_comm]

/-- A piece of a text, and the zero byte behind it. -/
theorem overwrite_text (front : Bytes) {back : Bytes} (h : text.length < back.length) :
    ∃ dst, (front ++ back).overwrite front.length text = .ok dst ∧
      dst.overwrite (front.length + text.length) [0] =
        .ok (front ++ (text ++ 0 :: back.drop (text.length + 1))) := by
  refine ⟨_, Bytes.overwrite_append (Nat.le_of_lt h), ?_⟩
  have hroom : [(0 : UInt8)].length ≤ (back.drop text.length).length := by
    rw [List.length_drop, List.length_singleton]
    omega
  rw [← List.append_assoc, ← List.length_append, Bytes.overwrite_append hroom, List.drop_drop,
    List.append_assoc]
  rfl

/-- A piece with a zero byte in it is the last. -/
theorem fillText_of_zero {front back : Bytes} {rest : List (Except Fault Bytes)}
    (hroom : piece.length < back.length)
    (hshort : (piece.takeWhile (· ≠ 0)).length < piece.length) :
    fillText (.ok piece :: rest) front.length (front ++ back) =
      .ok ⟨front ++ written (piece.takeWhile (· ≠ 0)) (.ok (piece.takeWhile (· ≠ 0)).length) back,
        .ok (front.length + (piece.takeWhile (· ≠ 0)).length)⟩ := by
  obtain ⟨dst, hcopy, hend⟩ := overwrite_text front (Nat.lt_trans hshort hroom)
  rw [written, if_neg (by simp [Except.isOk, Except.toBool])]
  simp only [fillText, hcopy, hend, bind, Except.bind, pure, Except.pure, if_pos hshort]

/-- Behind a piece without a zero byte the text goes on. -/
theorem fillText_of_piece {front back : Bytes} {rest : List (Except Fault Bytes)}
    (hroom : piece.length < back.length) (hall : piece.takeWhile (· ≠ 0) = piece) :
    fillText (.ok piece :: rest) front.length (front ++ back) =
      fillText rest (front ++ piece).length
        ((front ++ piece) ++ 0 :: back.drop (piece.length + 1)) := by
  obtain ⟨dst, hcopy, hend⟩ := overwrite_text front hroom
  simp only [fillText, hall, hcopy, hend, bind, Except.bind, Nat.lt_irrefl, if_false,
    List.length_append, List.append_assoc]

/-- A text is copied from the pieces of a walk as it is read byte by byte. -/
theorem Walk.fillText {pieces : List Bytes} {fault : Option Fault}
    (h : m.Walk va limit pieces fault) (front : Bytes) {back : Bytes}
    (hroom : limit < back.length) :
    ∃ text answer, m.ReadsText va limit text answer ∧ answer ≠ .error .overflow ∧
      UserMemory.fillText (items pieces fault) front.length (front ++ back) =
        .ok ⟨front ++ written text answer back, answer.map (front.length + ·)⟩ := by
  induction h generalizing front back with
  | @nil va =>
    refine ⟨[], .ok 0, .nil .bound, by simp, ?_⟩
    have hend : (front ++ back).overwrite front.length [0] = .ok (front ++ 0 :: back.drop 1) :=
      Bytes.overwrite_append hroom
    simp only [UserMemory.fillText, items, List.map_nil, Option.toList_none, List.append_nil, hend,
      bind, Except.bind, pure, Except.pure]
    rfl
  | @fault va limit fault hpos h =>
    refine ⟨[], .error fault, .nil (.fault hpos ?_), ?_, rfl⟩
    · exact (m.byteFrom_zero va).trans h
    · rintro ⟨rfl⟩
      exact m.byteAt_ne_overflow va h
  | @piece va next limit piece pieces fault hpos hle hpage hbyte hnext _ ih =>
    have hroom' : piece.length < back.length := Nat.lt_of_le_of_lt hle hroom
    rw [items_cons]
    by_cases hshort : (piece.takeWhile (· ≠ 0)).length < piece.length
    · exact ⟨_, _, .of_zero hle hbyte hshort, by simp, fillText_of_zero hroom' hshort⟩
    · have hall : piece.takeWhile (· ≠ 0) = piece :=
        (List.takeWhile_prefix _).eq_of_length_le (Nat.le_of_not_lt hshort)
      have hzero : ∀ byte ∈ piece, byte ≠ 0 := by
        simpa using List.takeWhile_eq_self_iff.mp hall
      have hrest : limit - piece.length < (0 :: back.drop (piece.length + 1)).length := by
        rw [List.length_cons, List.length_drop]
        omega
      obtain ⟨text, answer, hreads, hover, hfill⟩ := ih (front ++ piece) hrest
      refine ⟨piece ++ text, answer.map (piece.length + ·),
        hreads.of_piece hle hbyte hzero hnext, ?_, ?_⟩
      · cases answer with
        | error f => exact hover
        | ok count => simp [Except.map]
      · rw [fillText_of_piece hroom' hall, hfill,
          written_append (List.ne_nil_of_length_pos hpos), List.append_assoc, List.length_append]
        cases answer with
        | error f => rfl
        | ok count => simp only [Except.map, Nat.add_assoc]

/-- To copy a text is to read it byte by byte. -/
theorem copyText_bytewise (hw : m.WholeFrames) (va : VirtAddr) {dst : Bytes}
    (hlength : dst.length = limit + 1) :
    ∃ text answer, m.ReadsText va limit text answer ∧ answer ≠ .error .overflow ∧
      m.copyText va dst = .ok ⟨written text answer dst, answer⟩ := by
  obtain ⟨pieces, fault, hspans, hwalk⟩ := exists_walk hw va limit
  obtain ⟨text, answer, hreads, hover, hfill⟩ :=
    hwalk.fillText [] (Nat.lt_of_lt_of_eq (Nat.lt_succ_self limit) hlength.symm)
  refine ⟨text, answer, hreads, hover, ?_⟩
  have hanswer : answer.map (([] : Bytes).length + ·) = answer := by
    cases answer with
    | error f => rfl
    | ok count => exact congrArg Except.ok (Nat.zero_add count)
  rw [hanswer, ← hspans] at hfill
  unfold copyText
  split
  · omega
  · rename_i limit' hlength'
    obtain rfl : limit' = limit := by omega
    exact hfill

/-- A text is copied as it is read byte by byte: up to the zero byte that ends it, or up to the
bound, which leaves room for the zero byte in the destination, or up to the first byte that cannot
be read. The destination begins with the bytes that were read and a zero byte, and stays as it was
behind them. What lies behind the place where the reading stops is without effect, and without a
destination nothing is read. -/
theorem text_copied_bytewise (m : UserMemory) (ht : m.table.Built) (va : VirtAddr) :
    m.copyText va [] = .ok ⟨[], .ok 0⟩ ∧
      ∀ (dst : Bytes) (limit : Nat), dst.length = limit + 1 →
        ∃ text answer, m.ReadsText va limit text answer ∧ answer ≠ .error .overflow ∧
          m.copyText va dst = .ok ⟨written text answer dst, answer⟩ ∧
          ∀ m' : UserMemory, m'.table.Built →
            (∀ i ≤ text.length, i < limit → m'.byteFrom va i = m.byteFrom va i) →
            m'.copyText va dst = m.copyText va dst := by
  refine ⟨rfl, fun dst limit hlength => ?_⟩
  obtain ⟨text, answer, hreads, hover, hcopy⟩ :=
    copyText_bytewise (ht.wholeFrames m.pool) va hlength
  refine ⟨text, answer, hreads, hover, hcopy, fun m' ht' hagree => ?_⟩
  obtain ⟨text', answer', hreads', -, hcopy'⟩ :=
    copyText_bytewise (ht'.wholeFrames m'.pool) va hlength
  obtain ⟨rfl, rfl⟩ := (hreads.congr hagree).unique hreads'
  rw [hcopy, hcopy']

set_option synthInstance.maxSize 512 in
/-- Two bytes stand at the end of a page, and the next page has no frame. A copy with room for four
bytes ends with the fault of the third, and the zero byte stands behind the two. -/
theorem text_copied_bytewise_of_missing_page :
    ∃ t pool, PageTable.empty.map (.ofNat 0x1000) (.ofNat poolBase) true = .ok t ∧ t.Built ∧
      (⟨t, .user 1⟩ : UserMemory).copyOut (.ofNat 0x1ffe) [104, 105] = .ok (.ok (), pool) ∧
      (⟨t, pool⟩ : UserMemory).ReadsText (.ofNat 0x1ffe) 4 [104, 105]
        (.error (.unmapped (.ofNat 0x2000))) ∧
      (⟨t, pool⟩ : UserMemory).copyText (.ofNat 0x1ffe) [1, 2, 3, 4, 5] =
        .ok ⟨[104, 105, 0, 4, 5], .error (.unmapped (.ofNat 0x2000))⟩ := by
  -- the bytes of the reading, computed at once
  have hbytes : (do
      let t ← PageTable.empty.map (.ofNat 0x1000) (.ofNat poolBase) true
      return ((⟨t, .user 1⟩ : UserMemory).copyOut (.ofNat 0x1ffe) [104, 105]).map
        fun out : Except Fault Unit × PagePool =>
          (out.1, (⟨t, out.2⟩ : UserMemory).byteFrom (.ofNat 0x1ffe) 0,
            (⟨t, out.2⟩ : UserMemory).byteFrom (.ofNat 0x1ffe) 1,
            (⟨t, out.2⟩ : UserMemory).byteFrom (.ofNat 0x1ffe) 2)) =
      .ok (.ok (.ok (), .ok 104, .ok 105, .error (.unmapped (.ofNat 0x2000)))) := by
    decide +kernel
  cases hmap : PageTable.empty.map (.ofNat 0x1000) (.ofNat poolBase) true with
  | error error =>
    rw [hmap] at hbytes
    cases hbytes
  | ok t =>
    have ht : t.Built := .map .empty hmap
    simp only [hmap, bind, Except.bind, pure, Except.pure, Except.ok.injEq] at hbytes
    cases hcopy : (⟨t, .user 1⟩ : UserMemory).copyOut (.ofNat 0x1ffe) [104, 105] with
    | error defect =>
      rw [hcopy] at hbytes
      cases hbytes
    | ok out =>
      obtain ⟨result, pool⟩ := out
      simp only [hcopy, Except.map, Except.ok.injEq, Prod.mk.injEq] at hbytes
      obtain ⟨rfl, hfirst, hsecond, hthird⟩ := hbytes
      have hreads : (⟨t, pool⟩ : UserMemory).ReadsText (.ofNat 0x1ffe) 4 [104, 105]
          (.error (.unmapped (.ofNat 0x2000))) :=
        { byte := by
            rintro (_ | _ | i) hi
            · exact hfirst
            · exact hsecond
            · exact absurd hi (by simp)
          ne_zero := by simp
          stop := .fault (by simp) hthird }
      obtain ⟨text, answer, hreads', -, htext, -⟩ :=
        (text_copied_bytewise ⟨t, pool⟩ ht (.ofNat 0x1ffe)).2 [1, 2, 3, 4, 5] 4 rfl
      obtain ⟨rfl, rfl⟩ := hreads.unique hreads'
      exact ⟨t, pool, rfl, ht, hcopy, hreads, htext⟩

end UserMemory

end TeachingKernel
