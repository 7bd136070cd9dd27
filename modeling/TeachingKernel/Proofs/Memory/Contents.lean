import TeachingKernel.Proofs.Kernel.Layout
import TeachingKernel.Proofs.Memory.Bytes
import TeachingKernel.Proofs.Memory.Private
import TeachingKernel.UserMemory.Copy

/-!
# The contents of user memory

What a page table and a pool amount to is a private memory. To copy from user memory reads it byte
by byte, and succeeds exactly if every byte of the range is there.
-/

namespace TeachingKernel

namespace Address

variable {s : Space}

/-- An address in a whole frame belongs to this frame. -/
theorem toNat_offset {a : Address s} (ha : a.isAligned = true) {n : Nat} (hn : n < pageSize) :
    (a.offset n).toNat = a.toNat + n := by
  have hlt := a.toNat_lt
  simp only [isAligned, pageOffset, beq_iff_eq, pageSize, addressBound] at ha hn hlt
  simp only [offset, ofNat, addressBound]
  omega

theorem pageStart_offset {a : Address s} (ha : a.isAligned = true) {n : Nat} (hn : n < pageSize) :
    (a.offset n).pageStart = a := by
  ext
  have ho := toNat_offset ha hn
  simp only [isAligned, pageOffset, beq_iff_eq, pageSize] at ha hn
  simp only [pageStart, pageOffset, ho, pageSize]
  omega

theorem pageOffset_offset {a : Address s} (ha : a.isAligned = true) {n : Nat} (hn : n < pageSize) :
    (a.offset n).pageOffset = n := by
  have ho := toNat_offset ha hn
  simp only [isAligned, pageOffset, beq_iff_eq, pageSize] at ha hn
  simp only [pageOffset, ho, pageSize]
  omega

theorem pageNumber_ofPageNumber {number : Nat} (h : number * pageSize < addressBound) :
    (ofPageNumber number : Address s).pageNumber = number := by
  change number * pageSize % addressBound / pageSize = number
  rw [Nat.mod_eq_of_lt h, Nat.mul_div_cancel _ pageSize_pos]

end Address

/-- What user pages amount to, given the frame behind each of them and the pages in the frames. -/
def PrivateMemory.ofPages (mapping? : VirtAddr → Option (PhysAddr × Bool))
    (page? : PhysAddr → Option Page) : PrivateMemory := fun number =>
  if number * pageSize < userTop then
    (mapping? (.ofPageNumber number)).bind fun (frame, writable) =>
      (page? frame).map fun page => ⟨page.byte, writable⟩
  else none

theorem PrivateMemory.ofPages_pageNumber {mapping? : VirtAddr → Option (PhysAddr × Bool)}
    {page? : PhysAddr → Option Page} {va : VirtAddr} (hu : va.isUser = true)
    (hm : ∀ x : VirtAddr, x.pageNumber = va.pageNumber → mapping? x = mapping? va) :
    ofPages mapping? page? va.pageNumber = (mapping? va).bind fun (frame, writable) =>
      (page? frame).map fun page => ⟨page.byte, writable⟩ := by
  have hbound : va.pageNumber * pageSize < addressBound :=
    Nat.lt_of_le_of_lt (Nat.div_mul_le_self _ _) va.toNat_lt
  rw [ofPages, if_pos (Address.isUser_iff.mp hu), hm _ (Address.pageNumber_ofPageNumber hbound)]

/-- There is no page above the user addresses. -/
theorem PrivateMemory.ofPages_of_userTop_le {mapping? : VirtAddr → Option (PhysAddr × Bool)}
    {page? : PhysAddr → Option Page} {n : Nat} (h : userTop ≤ n) :
    ofPages mapping? page? (n / pageSize) = none := by
  rw [ofPages, if_neg]
  simp only [userTop, pageSize] at h ⊢
  omega

def Fault.missing (va : VirtAddr) : Fault :=
  if va.isKernel then .kernelAddress va else .unmapped va

theorem Fault.missing_ne_overflow (va : VirtAddr) : missing va ≠ .overflow := by
  unfold missing
  split <;> exact nofun

namespace UserMemory

variable (m : UserMemory) {va : VirtAddr}

/-- The private memory that the pages of a process and the frames behind them amount to. -/
def contents : PrivateMemory := .ofPages m.table.mapping? m.pool.page?

theorem contents_pageNumber (hu : va.isUser = true) :
    m.contents va.pageNumber = (m.table.mapping? va).bind fun (frame, writable) =>
      (m.pool.page? frame).map fun page => ⟨page.byte, writable⟩ :=
  PrivateMemory.ofPages_pageNumber hu fun _ h => m.table.mapping?_congr h

theorem contents_of_userTop_le {n : Nat} (h : userTop ≤ n) : m.contents (n / pageSize) = none :=
  PrivateMemory.ofPages_of_userTop_le h

theorem byte?_of_userTop_le {n : Nat} (h : userTop ≤ n) : m.contents.byte? n = none := by
  rw [PrivateMemory.byte?, m.contents_of_userTop_le h]
  rfl

theorem isWritable_of_userTop_le {n : Nat} (h : userTop ≤ n) :
    m.contents.isWritable n = false := by
  rw [PrivateMemory.isWritable, m.contents_of_userTop_le h]
  rfl

/-- Pages are mapped to whole frames. -/
def WholeFrames : Prop :=
  ∀ va frame writable, m.table.mapping? va = some (frame, writable) → frame.isAligned = true

variable {m}

/-! ## Looking up -/

/-- Where the bytes of a page are found. -/
theorem locate_of_contents (hw : m.WholeFrames) {page : UserPage}
    (h : m.contents va.pageNumber = some page) :
    ∃ i, m.locate va = .ok ⟨i, va.pageOffset, va.pageOffset_lt⟩ ∧
      page.bytes = m.pool.pages[i].byte := by
  by_cases hu : va.isUser = true
  · rw [contents_pageNumber m hu, Option.bind_eq_some_iff] at h
    obtain ⟨⟨frame, writable⟩, hm, hpage⟩ := h
    obtain ⟨p, hp, rfl⟩ := Option.map_eq_some_iff.mp hpage
    obtain ⟨i, hi, rfl⟩ := Option.map_eq_some_iff.mp hp
    refine ⟨i, ?_, rfl⟩
    have ha := hw va frame writable hm
    obtain ⟨e, he, hf⟩ := Option.map_eq_some_iff.mp hm
    obtain rfl : e.frame = frame := congrArg Prod.fst hf
    simp only [locate, Address.isKernel, hu, Bool.not_true, Bool.false_eq_true, if_false,
      PageTable.translate?, he, Option.map_some, Address.pageStart_offset ha va.pageOffset_lt,
      Address.pageOffset_offset ha va.pageOffset_lt, hi]
  · have hle : userTop ≤ va.toNat := by simpa [Address.isUser] using hu
    rw [Address.pageNumber, m.contents_of_userTop_le hle] at h
    contradiction

/-- Where there is no page a fault is found. -/
theorem locate_of_contents_none (hw : m.WholeFrames) (h : m.contents va.pageNumber = none) :
    m.locate va = .error (.missing va) := by
  by_cases hu : va.isUser = true
  · rw [contents_pageNumber m hu, Option.bind_eq_none_iff] at h
    simp only [locate, Fault.missing, Address.isKernel, hu, Bool.not_true, Bool.false_eq_true,
      if_false, PageTable.translate?]
    cases he : m.table.entryAt? va with
    | none => rfl
    | some e =>
      have hm : m.table.mapping? va = some (e.frame, e.flags.writable) := by
        rw [PageTable.mapping?, he]
        rfl
      have hframe := h _ hm
      simp only [PagePool.page?, Option.map_eq_none_iff] at hframe
      have ha := hw va _ _ hm
      simp only [Option.map_some, Address.pageStart_offset ha va.pageOffset_lt, hframe]
  · simp [locate, Fault.missing, Address.isKernel, hu]

/-- What is found at an address is decided by the contents. -/
theorem translate_eq (hw : m.WholeFrames) (va : VirtAddr) :
    m.translate va = match m.contents va.pageNumber with
      | none => .error (.missing va)
      | some page => .ok ((List.ofFn page.bytes).drop va.pageOffset) := by
  cases h : m.contents va.pageNumber with
  | none =>
    simp only [translate, locate_of_contents_none hw h, bind, Except.bind]
  | some page =>
    obtain ⟨i, hl, hbytes⟩ := locate_of_contents hw h
    simp only [translate, hl, bind, Except.bind, pure, Except.pure, PagePool.bytesFrom,
      Page.bytesFrom, hbytes, Page.ofFn_byte]

/-- The bytes up to the end of the page, or a fault if there is no page. -/
theorem translate_cases (hw : m.WholeFrames) (va : VirtAddr) :
    m.translate va = .error (.missing va) ∧ m.contents.byte? va.toNat = none ∨
      ∃ bytes, m.translate va = .ok bytes ∧ bytes.length = va.bytesToPageEnd ∧
        ∀ i < bytes.length, m.contents.byte? (va.toNat + i) = bytes[i]? := by
  rw [translate_eq hw]
  cases h : m.contents va.pageNumber with
  | none =>
    left
    refine ⟨rfl, ?_⟩
    rw [PrivateMemory.byte?, ← Address.pageNumber, h]
    rfl
  | some page =>
    right
    refine ⟨_, rfl, ?_, ?_⟩
    · rw [List.length_drop, List.length_ofFn]
      rfl
    · intro j hj
      rw [List.length_drop, List.length_ofFn] at hj
      have hnumber : (va.toNat + j) / pageSize = va.pageNumber := by
        simp only [Address.pageNumber, Address.pageOffset, pageSize] at hj ⊢
        omega
      have hposition : (va.toNat + j) % pageSize = va.pageOffset + j := by
        simp only [Address.pageOffset, pageSize] at hj ⊢
        omega
      rw [PrivateMemory.byte?, hnumber, h, List.getElem?_drop, List.getElem?_ofFn,
        dif_pos (by omega)]
      simp only [hposition, Option.map_some]

/-- Only user addresses are looked up. -/
theorem toNat_lt_userTop (hw : m.WholeFrames) {bytes : Bytes} (h : m.translate va = .ok bytes) :
    va.toNat < userTop := by
  apply Nat.lt_of_not_le
  intro hle
  rw [translate_eq hw, Address.pageNumber, m.contents_of_userTop_le hle] at h
  contradiction

end UserMemory

end TeachingKernel
