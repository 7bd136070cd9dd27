import TeachingKernel.Proofs.Memory.Contents

/-!
# Reading user memory

A range is read span by span. What comes of it is the same as to read it byte by byte: a copy
succeeds exactly if every byte of the range is there, and then it is these bytes; a text is read
exactly if no byte is missing before its end. All of it is decided by the contents of the memory.
-/

namespace TeachingKernel

/-- Pieces of a memory, one behind the other: a range up to its end, or up to the first byte that is
missing. -/
inductive PrivateMemory.Covers (m : PrivateMemory) :
    Nat → Nat → List (Except Fault Bytes) → Prop
  | nil {n : Nat} : Covers m n 0 []
  | fault {n count : Nat} {fault : Fault} (hpos : 0 < count) (hf : fault ≠ .overflow)
      (h : m.byte? n = none) : Covers m n count [.error fault]
  | span {n count : Nat} {span : Bytes} {spans : List (Except Fault Bytes)}
      (hle : span.length ≤ count) (hspan : ∀ i < span.length, m.byte? (n + i) = span[i]?)
      (h : Covers m (n + span.length) (count - span.length) spans) :
      Covers m n count (.ok span :: spans)

/-! ## Spans -/

namespace UserMemory

variable {m m' : UserMemory} {va : VirtAddr} {count : Nat}

theorem spans_zero (va : VirtAddr) : m.spans va 0 = [] := Spans.toList_of_next?_none rfl

theorem spans_of_error (hpos : 0 < count) {fault : Fault} (h : m.translate va = .error fault) :
    m.spans va count = [.error fault] := by
  have hn : (Spans.ofRange m va count).next? = some (.error fault, ⟨m, some va, 0⟩) := by
    simp only [Spans.next?, Spans.ofRange, h, if_neg (Nat.ne_of_gt hpos)]
  rw [spans, Spans.toList_of_next?_some hn, Spans.toList_of_next?_none rfl]

/-- No span reaches the end of the address space, so the next one begins at an address. -/
theorem spans_of_ok (hw : m.WholeFrames) (hpos : 0 < count) {bytes : Bytes}
    (h : m.translate va = .ok bytes) :
    ∃ next, va.add? (min bytes.length count) = some next ∧
      m.spans va count =
        .ok (bytes.take (min bytes.length count)) ::
          m.spans next (count - min bytes.length count) := by
  have huser := toNat_lt_userTop hw h
  have hlength : bytes.length ≤ pageSize := by
    rcases translate_cases hw va with ⟨herror, _⟩ | ⟨bytes', hok, hlength, _⟩
    · rw [h] at herror
      contradiction
    · obtain rfl : bytes = bytes' := Except.ok.inj (h.symm.trans hok)
      rw [hlength]
      exact Nat.sub_le _ _
  have hbound : va.toNat + min bytes.length count < addressBound := by
    simp only [userTop, pageSize, addressBound] at huser hlength ⊢
    omega
  have hnext : va.add? (min bytes.length count) = some ⟨_, hbound⟩ := by
    rw [Address.add?, dif_pos hbound]
  refine ⟨_, hnext, ?_⟩
  apply Spans.toList_of_next?_some
  simp only [Spans.next?, Spans.ofRange, h, if_neg (Nat.ne_of_gt hpos), hnext, Bytes.front_eq_take]

/-- The spans of a range are pieces of the contents. -/
theorem covers_spans (hw : m.WholeFrames) (va : VirtAddr) (count : Nat) :
    m.contents.Covers va.toNat count (m.spans va count) := by
  induction count using Nat.strongRecOn generalizing va with
  | ind count ih =>
    rcases Nat.eq_zero_or_pos count with rfl | hpos
    · rw [spans_zero]
      exact .nil
    · rcases translate_cases hw va with ⟨ht, hbyte⟩ | ⟨bytes, ht, hlength, hbytes⟩
      · rw [spans_of_error hpos ht]
        exact .fault hpos (Fault.missing_ne_overflow va) hbyte
      · obtain ⟨next, hnext, hspans⟩ := spans_of_ok hw hpos ht
        have hpage := va.bytesToPageEnd_pos
        have htake : (bytes.take (min bytes.length count)).length = min bytes.length count := by
          rw [List.length_take]
          omega
        have hrest := ih (count - min bytes.length count) (by omega) next
        rw [hspans]
        refine .span (by omega) ?_ ?_
        · intro i hi
          rw [hbytes i (by omega), List.getElem?_take_of_lt (by omega)]
        · rw [htake, ← Address.toNat_of_add? hnext]
          exact hrest

theorem translate_congr (hw : m.WholeFrames) (hw' : m'.WholeFrames)
    (h : m.contents = m'.contents) (va : VirtAddr) : m.translate va = m'.translate va := by
  rw [translate_eq hw, translate_eq hw', h]

/-- The spans of a range are decided by the contents. -/
theorem spans_congr (hw : m.WholeFrames) (hw' : m'.WholeFrames) (h : m.contents = m'.contents)
    (va : VirtAddr) (count : Nat) : m.spans va count = m'.spans va count := by
  induction count using Nat.strongRecOn generalizing va with
  | ind count ih =>
    rcases Nat.eq_zero_or_pos count with rfl | hpos
    · rw [spans_zero, spans_zero]
    · have ht := translate_congr hw hw' h va
      rcases translate_cases hw va with ⟨herror, _⟩ | ⟨bytes, hok, hlength, _⟩
      · rw [spans_of_error hpos herror, spans_of_error hpos (ht ▸ herror)]
      · obtain ⟨next, hnext, hspans⟩ := spans_of_ok hw hpos hok
        obtain ⟨next', hnext', hspans'⟩ := spans_of_ok hw' hpos (ht ▸ hok)
        obtain rfl : next = next' := Option.some.inj (hnext.symm.trans hnext')
        have hpage := va.bytesToPageEnd_pos
        rw [hspans, hspans', ih _ (by omega)]

end UserMemory

/-! ## Copies -/

/-- A destination was filled, from position `copied` on, with the `count` bytes from the address `n`
on, if all of them are there. -/
structure FilledFrom (m : PrivateMemory) (n count copied : Nat) (dst : Bytes)
    (filled : Filled Unit) : Prop where
  length_eq : filled.bytes.length = dst.length
  kept : ∀ j < copied, filled.bytes[j]? = dst[j]?
  ok_iff : filled.result = .ok () ↔ ∀ i < count, (m.byte? (n + i)).isSome = true
  bytes_eq : filled.result = .ok () → ∀ i < count, filled.bytes[copied + i]? = m.byte? (n + i)
  no_overflow : filled.result ≠ .error .overflow

namespace FilledFrom

variable {m : PrivateMemory} {n count copied : Nat} {dst : Bytes}

theorem nothing : FilledFrom m n 0 copied dst ⟨dst, .ok ()⟩ where
  length_eq := rfl
  kept _ _ := rfl
  ok_iff := by simp
  bytes_eq _ i hi := absurd hi (Nat.not_lt_zero i)
  no_overflow := nofun

/-- A fault ends the copy: the byte where it was to go on is missing. -/
theorem fault {fault : Fault} (hpos : 0 < count) (hf : fault ≠ .overflow)
    (h : m.byte? n = none) : FilledFrom m n count copied dst ⟨dst, .error fault⟩ where
  length_eq := rfl
  kept _ _ := rfl
  ok_iff := by
    constructor
    · intro hc
      contradiction
    · intro hall
      have := hall 0 hpos
      rw [Nat.add_zero, h] at this
      contradiction
  bytes_eq hc := by contradiction
  no_overflow hc := hf (Except.error.inj hc)

/-- A span and what comes after it. -/
theorem span {dst' span : Bytes} {filled : Filled Unit} (ho : dst.overwrite copied span = .ok dst')
    (hle : span.length ≤ count) (hspan : ∀ i < span.length, m.byte? (n + i) = span[i]?)
    (h : FilledFrom m (n + span.length) (count - span.length) (copied + span.length) dst' filled) :
    FilledFrom m n count copied dst filled where
  length_eq := h.length_eq.trans (Bytes.length_of_overwrite ho)
  kept j hj := by
    rw [h.kept j (by omega), Bytes.getElem?_of_overwrite ho, if_neg (by omega)]
  ok_iff := by
    rw [h.ok_iff]
    constructor
    · intro hall i hi
      by_cases hs : i < span.length
      · rw [hspan i hs, List.getElem?_eq_getElem hs]
        rfl
      · have := hall (i - span.length) (by omega)
        rwa [show n + span.length + (i - span.length) = n + i by omega] at this
    · intro hall i hi
      rw [show n + span.length + i = n + (span.length + i) by omega]
      exact hall (span.length + i) (by omega)
  bytes_eq hok i hi := by
    by_cases hs : i < span.length
    · rw [h.kept (copied + i) (by omega), Bytes.getElem?_of_overwrite ho, if_pos (by omega),
        hspan i hs]
      congr 1
      omega
    · have := h.bytes_eq hok (i - span.length) (by omega)
      rwa [show copied + span.length + (i - span.length) = copied + i by omega,
        show n + span.length + (i - span.length) = n + i by omega] at this
  no_overflow := h.no_overflow

end FilledFrom

/-- To fill a destination with the pieces of a range is to read the range byte by byte. -/
theorem PrivateMemory.Covers.exists_fill {m : PrivateMemory} {n count copied : Nat}
    {spans : List (Except Fault Bytes)} {dst : Bytes} (h : m.Covers n count spans)
    (hlen : copied + count = dst.length) :
    ∃ filled, UserMemory.fill spans copied dst = .ok filled ∧
      FilledFrom m n count copied dst filled := by
  induction h generalizing copied dst with
  | nil => exact ⟨_, rfl, .nothing⟩
  | fault hpos hf h => exact ⟨_, rfl, .fault hpos hf h⟩
  | @span n count span spans hle hspan _ ih =>
    have hroom : copied + span.length ≤ dst.length := by omega
    obtain ⟨dst', ho⟩ := Bytes.exists_overwrite hroom
    have hlen' : copied + span.length + (count - span.length) = dst'.length := by
      rw [Bytes.length_of_overwrite ho]
      omega
    obtain ⟨filled, hfill, hfilled⟩ := ih hlen'
    refine ⟨filled, ?_, .span ho hle hspan hfilled⟩
    simp only [UserMemory.fill, ho, bind, Except.bind]
    exact hfill

/-- A range passes exactly if each of its bytes is there. -/
theorem PrivateMemory.Covers.forM_eq_ok_iff {m : PrivateMemory} {n count : Nat}
    {spans : List (Except Fault Bytes)} (h : m.Covers n count spans) :
    spans.forM (fun span => span.map fun _ => ()) ≠ .error .overflow ∧
      (spans.forM (fun span => span.map fun _ => ()) = .ok () ↔
        ∀ i < count, (m.byte? (n + i)).isSome = true) := by
  induction h with
  | nil => simp [pure, Except.pure]
  | fault hpos hf h =>
    refine ⟨fun hc => hf (Except.error.inj hc), nofun, fun hall => ?_⟩
    have := hall 0 hpos
    rw [Nat.add_zero, h] at this
    contradiction
  | @span n count span spans hle hspan _ ih =>
    refine ⟨ih.1, ih.2.trans ?_⟩
    constructor
    · intro hall i hi
      by_cases hs : i < span.length
      · rw [hspan i hs, List.getElem?_eq_getElem hs]
        rfl
      · have := hall (i - span.length) (by omega)
        rwa [Nat.add_assoc, Nat.add_sub_cancel' (by omega)] at this
    · intro hall i hi
      rw [Nat.add_assoc]
      exact hall _ (by omega)

/-! ## Texts -/

/-- The text at an address, cut after so many bytes, cannot be read: a byte is missing before the
zero byte that would end it. -/
def PrivateMemory.LacksText (m : PrivateMemory) (n limit : Nat) : Prop :=
  ∃ i < limit, m.byte? (n + i) = none ∧ ∀ j < i, m.byte? (n + j) ≠ some 0

namespace PrivateMemory

variable {m : PrivateMemory} {n limit count : Nat}

theorem lacksText_of_missing (hpos : 0 < limit) (h : m.byte? n = none) : m.LacksText n limit :=
  ⟨0, hpos, h, fun _ hj => absurd hj (Nat.not_lt_zero _)⟩

theorem not_lacksText_zero : ¬ m.LacksText n 0 := fun ⟨_, hi, _⟩ => Nat.not_lt_zero _ hi

/-- After a zero byte nothing can be missing. -/
theorem not_lacksText_of_zero {i : Nat} (hz : m.byte? (n + i) = some 0)
    (hall : ∀ j < i, (m.byte? (n + j)).isSome = true) : ¬ m.LacksText n limit := by
  rintro ⟨l, _, hmissing, hbefore⟩
  rcases Nat.lt_trichotomy l i with hl | rfl | hl
  · have := hall l hl
    rw [hmissing] at this
    contradiction
  · rw [hz] at hmissing
    contradiction
  · exact hbefore i hl hz

/-- Bytes that are there and do not end the text can be skipped. -/
theorem lacksText_skip (hle : count ≤ limit)
    (hall : ∀ i < count, ∃ byte, m.byte? (n + i) = some byte ∧ byte ≠ 0) :
    m.LacksText n limit ↔ m.LacksText (n + count) (limit - count) := by
  constructor
  · rintro ⟨i, hi, hmissing, hbefore⟩
    have hge : count ≤ i := by
      apply Nat.le_of_not_lt
      intro hlt
      obtain ⟨_, hbyte, _⟩ := hall i hlt
      rw [hbyte] at hmissing
      contradiction
    refine ⟨i - count, by omega, ?_, fun j hj => ?_⟩
    · rwa [Nat.add_assoc, Nat.add_sub_cancel' hge]
    · rw [Nat.add_assoc]
      exact hbefore _ (by omega)
  · rintro ⟨i, hi, hmissing, hbefore⟩
    refine ⟨count + i, by omega, by rwa [← Nat.add_assoc], fun j hj => ?_⟩
    by_cases hlt : j < count
    · obtain ⟨byte, hbyte, hne⟩ := hall j hlt
      rw [hbyte]
      simpa using hne
    · have := hbefore (j - count) (by omega)
      rwa [Nat.add_assoc, Nat.add_sub_cancel' (by omega)] at this

/-- A text is read from the pieces of a range exactly if no byte is missing before its end. -/
theorem Covers.exists_fillText {spans : List (Except Fault Bytes)} {copied : Nat} {dst : Bytes}
    (h : m.Covers n count spans) (hroom : copied + count < dst.length) :
    ∃ filled, UserMemory.fillText spans copied dst = .ok filled ∧
      filled.bytes.length = dst.length ∧ filled.result ≠ .error .overflow ∧
      ((∃ fault, filled.result = .error fault) ↔ m.LacksText n count) := by
  induction h generalizing copied dst with
  | nil =>
    have hroom' : copied + [(0 : UInt8)].length ≤ dst.length := hroom
    obtain ⟨dst', ho⟩ := Bytes.exists_overwrite hroom'
    refine ⟨⟨dst', .ok copied⟩, ?_, Bytes.length_of_overwrite ho, nofun, ?_⟩
    · simp only [UserMemory.fillText, ho, bind, Except.bind, pure, Except.pure]
    · simp [not_lacksText_zero]
  | @fault _ _ fault hpos hf h =>
    refine ⟨⟨dst, .error fault⟩, rfl, rfl, fun hc => hf (Except.error.inj hc), ?_⟩
    exact ⟨fun _ => lacksText_of_missing hpos h, fun _ => ⟨_, rfl⟩⟩
  | @span n count span spans hle hspan _ ih =>
    -- the piece of the span before its first zero byte
    obtain ⟨piece, hpiece⟩ : ∃ piece, span.takeWhile (· ≠ 0) = piece := ⟨_, rfl⟩
    have hlength : piece.length ≤ span.length := hpiece ▸ (List.takeWhile_prefix _).length_le
    have hbytes : ∀ i < piece.length, ∃ byte, m.byte? (n + i) = some byte ∧ byte ≠ 0 := by
      intro i hi
      rw [hspan i (by omega)]
      exact Bytes.getElem?_of_lt_text (hpiece ▸ hi)
    have hroom₁ : copied + piece.length ≤ dst.length := by omega
    obtain ⟨dst₁, ho₁⟩ := Bytes.exists_overwrite hroom₁
    have hlen₁ := Bytes.length_of_overwrite ho₁
    have hroom₂ : copied + piece.length + [(0 : UInt8)].length ≤ dst₁.length := by
      rw [List.length_singleton]
      omega
    obtain ⟨dst₂, ho₂⟩ := Bytes.exists_overwrite hroom₂
    have hlen₂ := Bytes.length_of_overwrite ho₂
    by_cases hshort : piece.length < span.length
    · have hzero : m.byte? (n + piece.length) = some 0 := by
        rw [hspan _ hshort, ← hpiece]
        exact Bytes.getElem?_length_text (hpiece ▸ hshort)
      refine ⟨⟨dst₂, .ok (copied + piece.length)⟩, ?_, hlen₂.trans hlen₁, nofun, ?_⟩
      · simp only [UserMemory.fillText, hpiece, ho₁, ho₂, bind, Except.bind, pure, Except.pure,
          if_pos hshort]
      · have hlacks : ¬ m.LacksText n count := not_lacksText_of_zero hzero fun i hi => by
          obtain ⟨_, hbyte, _⟩ := hbytes i hi
          rw [hbyte]
          rfl
        simp [hlacks]
    · have hall : piece.length = span.length := by omega
      obtain ⟨filled, hfill, hlen, hover, hiff⟩ :=
        ih (show copied + piece.length + (count - span.length) < dst₂.length by omega)
      refine ⟨filled, ?_, hlen.trans (hlen₂.trans hlen₁), hover, ?_⟩
      · simp only [UserMemory.fillText, hpiece, ho₁, ho₂, bind, Except.bind, if_neg hshort]
        exact hfill
      · rw [hiff, lacksText_skip hle (by rwa [← hall])]

end PrivateMemory

namespace UserMemory

variable {m : UserMemory}

/-- To copy a range in is to read it byte by byte. -/
theorem copyIn_spec (hw : m.WholeFrames) (va : VirtAddr) (dst : Bytes) :
    ∃ filled, m.copyIn va dst = .ok filled ∧
      FilledFrom m.contents va.toNat dst.length 0 dst filled :=
  (covers_spans hw va dst.length).exists_fill (Nat.zero_add _)

/-- Bytes that are there are copied in. -/
theorem copyIn_of_bytes? (hw : m.WholeFrames) {va : VirtAddr} {bytes dst : Bytes}
    (h : m.contents.bytes? va.toNat dst.length = some bytes) :
    m.copyIn va dst = .ok ⟨bytes, .ok ()⟩ := by
  obtain ⟨hlength, hbytes⟩ := PrivateMemory.of_bytes?_eq_some h
  obtain ⟨⟨out, result⟩, hrun, hfilled⟩ := copyIn_spec hw va dst
  obtain rfl : result = .ok () := hfilled.ok_iff.mpr fun i hi => by
    rw [hbytes i hi, List.getElem?_eq_getElem (by omega)]
    rfl
  have hout : out = bytes := by
    refine List.ext_getElem? fun i => ?_
    by_cases hi : i < dst.length
    · rw [← hbytes i hi, ← hfilled.bytes_eq rfl i hi, Nat.zero_add]
    · have hlength' : out.length = dst.length := hfilled.length_eq
      rw [List.getElem?_eq_none (by omega), List.getElem?_eq_none (by omega)]
  rw [hrun, hout]

/-- To read a word is to read its bytes. -/
theorem readWord_spec (hw : m.WholeFrames) (va : VirtAddr) :
    ∃ answer, m.readWord va = .ok answer ∧ answer ≠ .error .overflow ∧
      answer.toOption = m.contents.word? va.toNat := by
  obtain ⟨filled, hrun, hfilled⟩ := copyIn_spec hw va (List.replicate wordSize 0)
  have hiff := hfilled.ok_iff
  have hlength := hfilled.length_eq
  rw [List.length_replicate] at hiff hlength
  refine ⟨_, by simp only [readWord, hrun, bind, Except.bind, pure, Except.pure]; rfl, ?_⟩
  cases hr : filled.result with
  | error fault =>
    have hf : fault ≠ .overflow := fun hc => hfilled.no_overflow (hr.trans (congrArg _ hc))
    refine ⟨fun hc => hf (Except.error.inj hc), ?_⟩
    have hmissing : ¬ ∀ i < wordSize, (m.contents.byte? (va.toNat + i)).isSome = true :=
      fun hall => by simp [hiff.mpr hall] at hr
    have hnone : m.contents.word? va.toNat = none := by
      rw [PrivateMemory.word?_eq_none_iff]
      simpa using hmissing
    rw [hnone]
    rfl
  | ok _ =>
    have hbytes := hfilled.bytes_eq hr
    rw [List.length_replicate] at hbytes
    have hword : m.contents.bytes? va.toNat filled.bytes.length = some filled.bytes :=
      m.contents.bytes?_eq_some fun i hi => by
        rw [← hbytes i (by omega), Nat.zero_add]
    rw [hlength] at hword
    refine ⟨nofun, ?_⟩
    rw [PrivateMemory.word?, hword]
    rfl

/-- A range is readable exactly if each of its bytes is there. -/
theorem checkReadable_spec (hw : m.WholeFrames) (va : VirtAddr) (length : Nat) :
    m.checkReadable va length ≠ .error .overflow ∧
      (m.checkReadable va length = .ok () ↔
        ∀ i < length, (m.contents.byte? (va.toNat + i)).isSome = true) :=
  (covers_spans hw va length).forM_eq_ok_iff

/-- A text is copied exactly if no byte of it is missing. -/
theorem copyText_spec (hw : m.WholeFrames) (va : VirtAddr) {dst : Bytes} {limit : Nat}
    (hlen : dst.length = limit + 1) :
    ∃ filled, m.copyText va dst = .ok filled ∧ filled.bytes.length = dst.length ∧
      filled.result ≠ .error .overflow ∧
      ((∃ fault, filled.result = .error fault) ↔ m.contents.LacksText va.toNat limit) := by
  have hroom : 0 + limit < dst.length := by omega
  unfold copyText
  split
  · omega
  · rename_i limit' hlen'
    obtain rfl : limit' = limit := by omega
    exact (covers_spans hw va limit').exists_fillText hroom

end UserMemory

end TeachingKernel
