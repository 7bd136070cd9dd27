import TeachingKernel.Proofs.Memory.Faults
import TeachingKernel.Proofs.Memory.Reading

/-!
# Byte by byte

What it is to read a user range one byte after the other: the bytes up to the end of the range, or
up to the first byte that cannot be read, and the fault of this byte. The kernel reads page by page,
and all that it answers is told by this reading: the spans are the pieces of it, and the last is its
fault; a check and a copy end with this fault; a copy leaves in its destination what was read.

Main statement: `range_read_bytewise`.
-/

namespace TeachingKernel

inductive PageTable.Built : PageTable → Prop
  | empty : Built .empty
  | map {t u : PageTable} {va : VirtAddr} {frame : PhysAddr} {writable : Bool} (ht : Built t)
      (h : t.map va frame writable = .ok u) : Built u
  | unmap {t u : PageTable} {va : VirtAddr} {frame : PhysAddr} (ht : Built t)
      (h : t.unmap va = .ok (frame, u)) : Built u
  | touch {t : PageTable} (va : VirtAddr) (write : Bool) (ht : Built t) : Built (t.touch va write)
  | clearAccessed {t : PageTable} (va : VirtAddr) (ht : Built t) : Built (t.clearAccessed va)

/-- A page table maps pages to whole frames. -/
theorem PageTable.Built.wholeFrames {t : PageTable} (ht : t.Built) (pool : PagePool) :
    UserMemory.WholeFrames ⟨t, pool⟩ := by
  induction ht with
  | empty =>
    intro va frame writable h
    simp at h
  | map _ hmap ih =>
    intro x frame writable h
    rw [mapping?_of_map hmap] at h
    split at h
    · obtain ⟨rfl, -⟩ := Prod.mk.inj (Option.some.inj h)
      exact (of_map_eq_ok hmap).2.2.1
    · exact ih x frame writable h
  | unmap _ hunmap ih =>
    intro x frame writable h
    rw [mapping?_of_unmap hunmap] at h
    split at h
    · contradiction
    · exact ih x frame writable h
  | touch va write _ ih =>
    intro x frame writable h
    exact ih x frame writable (by simpa using h)
  | clearAccessed va _ ih =>
    intro x frame writable h
    exact ih x frame writable (by simpa using h)

namespace UserMemory

/-! ## One byte -/

/-- The byte at a user address, by way of its page. -/
def byteAt (m : UserMemory) (va : VirtAddr) : Except Fault UInt8 :=
  if va.isKernel then .error (.kernelAddress va)
  else match (m.table.entryAt? va).bind fun e => m.pool.page? e.frame with
    | none => .error (.unmapped va)
    | some page => .ok (page.byte ⟨va.pageOffset, va.pageOffset_lt⟩)

def byteFrom (m : UserMemory) (va : VirtAddr) (i : Nat) : Except Fault UInt8 :=
  match va.add? i with
  | none => .error .overflow
  | some x => m.byteAt x

variable {m : UserMemory} {va next : VirtAddr} {n : Nat} {fault : Option Fault}
  {bytes piece : Bytes} {pieces : List Bytes}

/-- The byte at an address is a byte of the contents. -/
theorem byteAt_eq (m : UserMemory) (va : VirtAddr) :
    m.byteAt va = (m.contents.byte? va.toNat).elim (.error (.missing va)) .ok := by
  by_cases hu : va.isUser = true
  · rw [PrivateMemory.byte?, ← Address.pageNumber, contents_pageNumber m hu, PageTable.mapping?]
    simp only [byteAt, Fault.missing, Address.isKernel, hu, Bool.not_true, Bool.false_eq_true,
      if_false]
    cases m.table.entryAt? va with
    | none => rfl
    | some e =>
      simp only [Option.bind_some, Option.map_some]
      cases m.pool.page? e.frame <;> rfl
  · have hle : userTop ≤ va.toNat := by simpa [Address.isUser] using hu
    rw [m.byte?_of_userTop_le hle]
    simp [byteAt, Fault.missing, Address.isKernel, hu]

theorem byteFrom_zero (m : UserMemory) (va : VirtAddr) : m.byteFrom va 0 = m.byteAt va := by
  have hnext : va.add? 0 = some va := dif_pos va.toNat_lt
  rw [byteFrom, hnext]

/-- To go on from an address on the way. -/
theorem byteFrom_add (m : UserMemory) {k : Nat} (h : va.add? k = some next) (i : Nat) :
    m.byteFrom va (k + i) = m.byteFrom next i := by
  rw [byteFrom, byteFrom, Address.add?_add h]

/-- Bytes that are read, and bytes that are read behind them. -/
theorem byteFrom_append {rest : Bytes}
    (hpiece : ∀ (i : Nat) (hi : i < piece.length), m.byteFrom va i = .ok piece[i])
    (hnext : va.add? piece.length = some next)
    (hrest : ∀ (i : Nat) (hi : i < rest.length), m.byteFrom next i = .ok rest[i])
    (i : Nat) (hi : i < (piece ++ rest).length) : m.byteFrom va i = .ok (piece ++ rest)[i] := by
  by_cases hin : i < piece.length
  · rw [List.getElem_append_left hin, hpiece i hin]
  · have hi' : i - piece.length < rest.length := by
      rw [List.length_append] at hi
      omega
    rw [List.getElem_append_right (Nat.le_of_not_lt hin), ← hrest _ hi', ← m.byteFrom_add hnext,
      Nat.add_sub_cancel' (Nat.le_of_not_lt hin)]

theorem byteAt_ne_overflow (m : UserMemory) (va : VirtAddr) : m.byteAt va ≠ .error .overflow := by
  rw [byteAt_eq]
  cases m.contents.byte? va.toNat with
  | none => exact fun h => Fault.missing_ne_overflow va (Except.error.inj h)
  | some byte => simp

/-- A page is read to its end, or it cannot be read at its first byte. -/
theorem translate_bytewise (hw : m.WholeFrames) (va : VirtAddr) :
    (∃ fault, m.translate va = .error fault ∧ m.byteAt va = .error fault) ∨
      ∃ bytes, m.translate va = .ok bytes ∧ bytes.length = va.bytesToPageEnd ∧
        ∀ (i : Nat) (hi : i < bytes.length), m.byteFrom va i = .ok bytes[i] := by
  rcases translate_cases hw va with ⟨ht, hbyte⟩ | ⟨bytes, ht, hlength, hbytes⟩
  · left
    exact ⟨_, ht, by rw [byteAt_eq, hbyte]; rfl⟩
  · right
    refine ⟨bytes, ht, hlength, fun i hi => ?_⟩
    have hbound : va.toNat + i < addressBound := by
      have huser := toNat_lt_userTop hw ht
      have hpage : bytes.length ≤ pageSize := by
        rw [hlength]
        exact Nat.sub_le _ _
      simp only [userTop, pageSize, addressBound] at huser hpage ⊢
      omega
    have hnext : va.add? i = some ⟨va.toNat + i, hbound⟩ := by rw [Address.add?, dif_pos hbound]
    rw [byteFrom, hnext]
    simp only [byteAt_eq, hbytes i hi, List.getElem?_eq_getElem hi, Option.elim_some]

/-! ## A range -/

/-- To read so many bytes from an address on gives these bytes, and then, if there are fewer, this
fault. -/
structure Reads (m : UserMemory) (va : VirtAddr) (n : Nat) (bytes : Bytes) (fault : Option Fault) :
    Prop where
  length_le : bytes.length ≤ n
  byte : ∀ (i : Nat) (hi : i < bytes.length), m.byteFrom va i = .ok bytes[i]
  whole : fault = none → bytes.length = n
  stops : ∀ f, fault = some f → bytes.length < n ∧ m.byteFrom va bytes.length = .error f

-- A range is walked through in pieces that are not empty, each inside one page. The walk ends with
-- the range, or with the fault of the byte where it was to go on.
inductive Walk (m : UserMemory) : VirtAddr → Nat → List Bytes → Option Fault → Prop
  | nil {va : VirtAddr} : Walk m va 0 [] none
  | fault {va : VirtAddr} {n : Nat} {fault : Fault} (hpos : 0 < n)
      (h : m.byteAt va = .error fault) : Walk m va n [] (some fault)
  | piece {va next : VirtAddr} {n : Nat} {piece : Bytes} {pieces : List Bytes}
      {fault : Option Fault} (hpos : 0 < piece.length) (hle : piece.length ≤ n)
      (hpage : piece.length ≤ va.bytesToPageEnd)
      (hbyte : ∀ (i : Nat) (hi : i < piece.length), m.byteFrom va i = .ok piece[i])
      (hnext : va.add? piece.length = some next)
      (h : Walk m next (n - piece.length) pieces fault) : Walk m va n (piece :: pieces) fault

/-- The pieces of a walk, and its fault, as spans. -/
def items (pieces : List Bytes) (fault : Option Fault) : List (Except Fault Bytes) :=
  pieces.map .ok ++ fault.toList.map .error

/-- The spans of a range walk through it. -/
theorem exists_walk (hw : m.WholeFrames) (va : VirtAddr) (n : Nat) :
    ∃ pieces fault, m.spans va n = items pieces fault ∧ m.Walk va n pieces fault := by
  induction n using Nat.strongRecOn generalizing va with
  | ind n ih =>
    rcases Nat.eq_zero_or_pos n with rfl | hpos
    · exact ⟨[], none, spans_zero va, .nil⟩
    · rcases translate_bytewise hw va with ⟨fault, ht, hbyte⟩ | ⟨bytes, ht, hlength, hbytes⟩
      · exact ⟨[], some fault, spans_of_error hpos ht, .fault hpos hbyte⟩
      · obtain ⟨next, hnext, hspans⟩ := spans_of_ok hw hpos ht
        have hpage := va.bytesToPageEnd_pos
        obtain ⟨pieces, fault, hrest, hwalk⟩ := ih (n - min bytes.length n) (by omega) next
        have htake : (bytes.take (min bytes.length n)).length = min bytes.length n := by
          rw [List.length_take]
          omega
        rw [← htake] at hnext hwalk
        refine ⟨bytes.take (min bytes.length n) :: pieces, fault, ?_,
          .piece (by omega) (by omega) (by omega) (fun i hi => ?_) hnext hwalk⟩
        · rw [hspans, hrest]
          rfl
        · rw [hbytes i (by omega), List.getElem_take]

namespace Walk

/-- What is walked through is what is read byte by byte. -/
theorem reads (h : m.Walk va n pieces fault) : m.Reads va n pieces.flatten fault := by
  induction h with
  | nil => exact ⟨Nat.le_refl _, by simp, fun _ => rfl, by simp⟩
  | @fault va n fault hpos h =>
    refine ⟨Nat.zero_le _, by simp, by simp, fun f hf => ⟨hpos, ?_⟩⟩
    obtain rfl := Option.some.inj hf
    exact (m.byteFrom_zero va).trans h
  | @piece va next n piece pieces fault hpos hle hpage hbyte hnext _ ih =>
    have hlength : (piece :: pieces).flatten.length = piece.length + pieces.flatten.length := by
      rw [List.flatten_cons, List.length_append]
    refine ⟨?_, byteFrom_append hbyte hnext ih.byte, fun hf => ?_, fun f hf => ?_⟩
    · have := ih.length_le
      omega
    · have := ih.whole hf
      omega
    · obtain ⟨hlt, hstop⟩ := ih.stops f hf
      rw [hlength, m.byteFrom_add hnext]
      exact ⟨by omega, hstop⟩

theorem fault_ne_overflow (h : m.Walk va n pieces fault) : fault ≠ some .overflow := by
  induction h with
  | nil => simp
  | @fault va _ _ _ h =>
    rintro ⟨rfl⟩
    exact m.byteAt_ne_overflow va h
  | piece _ _ _ _ _ _ ih => exact ih

/-- No piece is empty, and each lies in one page. -/
theorem in_page (h : m.Walk va n pieces fault) {before after : List Bytes}
    (hsplit : pieces = before ++ piece :: after) :
    piece ≠ [] ∧ ∀ i < piece.length, (va.toNat + before.flatten.length + i) / pageSize =
      (va.toNat + before.flatten.length) / pageSize := by
  induction h generalizing before with
  | nil => simp at hsplit
  | fault => simp at hsplit
  | @piece va next n first pieces fault hpos hle hpage hbyte hnext _ ih =>
    cases before with
    | nil =>
      obtain ⟨rfl, -⟩ := List.cons.inj hsplit
      refine ⟨List.ne_nil_of_length_pos hpos, fun i hi => ?_⟩
      simp only [Address.bytesToPageEnd, Address.pageOffset, pageSize, List.flatten_nil,
        List.length_nil] at hpage ⊢
      omega
    | cons head before =>
      obtain ⟨rfl, hrest⟩ := List.cons.inj hsplit
      have := ih hrest
      rw [Address.toNat_of_add? hnext] at this
      rwa [List.flatten_cons, List.length_append, ← Nat.add_assoc]

end Walk

/-! ## What comes of the pieces -/

theorem items_cons (piece : Bytes) (pieces : List Bytes) (fault : Option Fault) :
    items (piece :: pieces) fault = .ok piece :: items pieces fault := rfl

theorem checkReadable_items (pieces : List Bytes) (fault : Option Fault) :
    ((items pieces fault).forM fun span => span.map fun _ => ()) = fault.elim (.ok ()) .error := by
  induction pieces with
  | nil => cases fault <;> rfl
  | cons piece pieces ih =>
    rw [← ih]
    rfl

/-- The pieces land one behind the other. -/
theorem fill_items {front back : Bytes} (hroom : pieces.flatten.length ≤ back.length) :
    fill (items pieces fault) front.length (front ++ back) =
      .ok ⟨front ++ (pieces.flatten ++ back.drop pieces.flatten.length),
        fault.elim (.ok ()) .error⟩ := by
  induction pieces generalizing front back with
  | nil => cases fault <;> rfl
  | cons piece pieces ih =>
    rw [List.flatten_cons, List.length_append] at hroom
    have hrest : pieces.flatten.length ≤ (back.drop piece.length).length := by
      rw [List.length_drop]
      omega
    rw [items_cons, fill, Bytes.overwrite_append (by omega), ← List.append_assoc front,
      ← List.length_append]
    refine (ih hrest).trans ?_
    rw [List.flatten_cons, List.length_append, List.drop_drop, List.append_assoc,
      List.append_assoc]

end UserMemory

namespace Spans

/-- What so many requests for the next span are answered. -/
def answers (s : Spans) : Nat → List (Option (Except Fault Bytes))
  | 0 => []
  | count + 1 => match s.next? with
    | none => none :: s.answers count
    | some (item, rest) => some item :: rest.answers count

/-- The spans are handed out one by one, and after the last there is never one again. -/
theorem answers_eq (s : Spans) (count : Nat) :
    s.answers count = (s.toList.map some ++ List.replicate count none).take count := by
  induction count generalizing s with
  | zero => rw [answers, List.take_zero]
  | succ count ih =>
    rw [answers]
    cases hnext : s.next? with
    | none =>
      have hnil := toList_of_next?_none hnext
      simp only [ih, hnil, List.map_nil, List.nil_append, List.replicate_succ,
        List.take_succ_cons]
    | some step =>
      obtain ⟨item, rest⟩ := step
      simp only [ih, toList_of_next?_some hnext, List.map_cons, List.cons_append,
        List.take_succ_cons, List.take_append, List.take_replicate]
      congr 3
      omega

end Spans

namespace UserMemory

variable {m : UserMemory}

/-- The number that four bytes spell, lowest byte first. -/
theorem word_four (b₀ b₁ b₂ b₃ : UInt8) : Bytes.word [b₀, b₁, b₂, b₃] =
    .ofNat (b₀.toNat + 0x100 * b₁.toNat + 0x10000 * b₂.toNat + 0x1000000 * b₃.toNat) := by
  simp only [Bytes.word, Bytes.number, List.foldr_cons, List.foldr_nil]
  congr 1
  omega

/-- To copy in is to read byte by byte, and what is not read stays as it was. -/
theorem copyIn_of_walk {va : VirtAddr} {pieces : List Bytes} {fault : Option Fault} {dst : Bytes}
    (hspans : m.spans va dst.length = items pieces fault)
    (hwalk : m.Walk va dst.length pieces fault) :
    m.copyIn va dst = .ok ⟨pieces.flatten ++ dst.drop pieces.flatten.length,
      fault.elim (.ok ()) .error⟩ := by
  have hfill : fill (items pieces fault) ([] : Bytes).length ([] ++ dst) = _ :=
    fill_items hwalk.reads.length_le
  rw [copyIn, hspans]
  exact hfill

theorem exists_four {bytes : Bytes} (h : bytes.length = wordSize) :
    ∃ b₀ b₁ b₂ b₃, bytes = [b₀, b₁, b₂, b₃] :=
  match bytes, h with
  | [b₀, b₁, b₂, b₃], _ => ⟨b₀, b₁, b₂, b₃, rfl⟩

/-- A word is read byte by byte. -/
theorem readWord_bytewise (hw : m.WholeFrames) (va : VirtAddr) :
    ∃ word fault, m.Reads va wordSize word fault ∧
      (∀ f, fault = some f → m.readWord va = .ok (.error f)) ∧
      (fault = none → ∃ b₀ b₁ b₂ b₃, word = [b₀, b₁, b₂, b₃] ∧ m.readWord va = .ok (.ok
        (.ofNat (b₀.toNat + 0x100 * b₁.toNat + 0x10000 * b₂.toNat + 0x1000000 * b₃.toNat)))) := by
  obtain ⟨pieces, fault, hspans, hwalk⟩ :=
    exists_walk hw va (List.replicate wordSize (0 : UInt8)).length
  have hreads := hwalk.reads
  have hcopy := copyIn_of_walk hspans hwalk
  rw [List.length_replicate] at hreads
  have hword : m.readWord va = .ok ((fault.elim (.ok ()) .error : Except Fault Unit).map fun _ =>
      Bytes.word (pieces.flatten ++
        (List.replicate wordSize (0 : UInt8)).drop pieces.flatten.length)) := by
    rw [readWord, hcopy]
    rfl
  refine ⟨_, fault, hreads, fun f hf => ?_, fun hf => ?_⟩
  · rw [hword, hf]
    rfl
  · obtain ⟨b₀, b₁, b₂, b₃, hfour⟩ := exists_four (hreads.whole hf)
    refine ⟨b₀, b₁, b₂, b₃, hfour, ?_⟩
    rw [hword, hf, hfour, ← word_four]
    rfl

/-- A range is read byte by byte. The check of a range and the copy of it end with the fault of the
first byte that cannot be read, if there is one, and the copy leaves the bytes before it. The spans
are pieces of these bytes, each inside one page, and behind the last of them is the fault, and then
nothing any more. A word is what its four bytes spell. -/
theorem range_read_bytewise (m : UserMemory) (ht : m.table.Built) (va : VirtAddr) (n : Nat) :
    ∃ pieces fault, m.Reads va n pieces.flatten fault ∧ fault ≠ some .overflow ∧
      m.checkReadable va n = fault.elim (.ok ()) .error ∧
      (∀ dst : Bytes, dst.length = n → m.copyIn va dst =
        .ok ⟨pieces.flatten ++ dst.drop pieces.flatten.length, fault.elim (.ok ()) .error⟩) ∧
      m.spans va n = pieces.map .ok ++ fault.toList.map .error ∧
      (∀ before piece after, pieces = before ++ piece :: after → piece ≠ [] ∧
        ∀ i < piece.length, (va.toNat + before.flatten.length + i) / pageSize =
          (va.toNat + before.flatten.length) / pageSize) ∧
      (∀ count, (Spans.ofRange m va n).answers count =
        ((m.spans va n).map some ++ List.replicate count none).take count) ∧
      ∃ word wordFault, m.Reads va wordSize word wordFault ∧
        (∀ f, wordFault = some f → m.readWord va = .ok (.error f)) ∧
        (wordFault = none → ∃ b₀ b₁ b₂ b₃, word = [b₀, b₁, b₂, b₃] ∧ m.readWord va = .ok (.ok
          (.ofNat (b₀.toNat + 0x100 * b₁.toNat + 0x10000 * b₂.toNat + 0x1000000 * b₃.toNat)))) := by
  have hw := ht.wholeFrames m.pool
  obtain ⟨pieces, fault, hspans, hwalk⟩ := exists_walk hw va n
  refine ⟨pieces, fault, hwalk.reads, hwalk.fault_ne_overflow, ?_, ?_, hspans,
    fun _ _ _ => hwalk.in_page, (Spans.ofRange m va n).answers_eq, readWord_bytewise hw va⟩
  · rw [checkReadable, hspans, checkReadable_items]
  · rintro dst rfl
    exact copyIn_of_walk hspans hwalk

set_option synthInstance.maxSize 512 in
/-- Four bytes are copied in across the border of two pages, of which the second has no frame. The
first two are read, and the others stay as they were. -/
theorem range_read_bytewise_of_missing_page :
    ∃ t, PageTable.empty.map (.ofNat 0x1000) (.ofNat poolBase) false = .ok t ∧ t.Built ∧
      ∃ pieces : List Bytes, (⟨t, .user 1⟩ : UserMemory).Reads (.ofNat 0x1ffe) 4 pieces.flatten
          (some (.unmapped (.ofNat 0x2000))) ∧
        (⟨t, .user 1⟩ : UserMemory).spans (.ofNat 0x1ffe) 4 =
          pieces.map .ok ++ [.error (.unmapped (.ofNat 0x2000))] ∧
        (⟨t, .user 1⟩ : UserMemory).checkReadable (.ofNat 0x1ffe) 4 =
          .error (.unmapped (.ofNat 0x2000)) ∧
        (⟨t, .user 1⟩ : UserMemory).copyIn (.ofNat 0x1ffe) [1, 2, 3, 4] =
          .ok ⟨[0, 0, 3, 4], .error (.unmapped (.ofNat 0x2000))⟩ := by
  -- the copy, computed at once
  have hanswer : (do
      let t ← PageTable.empty.map (.ofNat 0x1000) (.ofNat poolBase) false
      return ((⟨t, .user 1⟩ : UserMemory).copyIn (.ofNat 0x1ffe) [1, 2, 3, 4]).map
        fun filled : Filled Unit => (filled.bytes, filled.result)) =
      .ok (.ok ([0, 0, 3, 4], .error (.unmapped (.ofNat 0x2000)))) := by
    decide +kernel
  cases hmap : PageTable.empty.map (.ofNat 0x1000) (.ofNat poolBase) false with
  | error error =>
    rw [hmap] at hanswer
    cases hanswer
  | ok t =>
    have ht : t.Built := .map .empty hmap
    obtain ⟨pieces, fault, hreads, -, hcheck, hcopy, hspans, -⟩ :=
      range_read_bytewise ⟨t, .user 1⟩ ht (.ofNat 0x1ffe) 4
    have hcopy := hcopy [1, 2, 3, 4] rfl
    simp only [hmap, hcopy, bind, Except.bind, pure, Except.pure, Except.map, Except.ok.injEq,
      Prod.mk.injEq] at hanswer
    obtain ⟨hbytes, hresult⟩ := hanswer
    obtain rfl : fault = some (.unmapped (.ofNat 0x2000)) := by
      cases fault with
      | none => cases hresult
      | some f => exact congrArg some (Except.error.inj hresult)
    rw [hbytes] at hcopy
    exact ⟨t, rfl, ht, pieces, hreads, hspans, hcheck, hcopy⟩

end UserMemory

end TeachingKernel
