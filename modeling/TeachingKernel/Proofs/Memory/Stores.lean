import TeachingKernel.Proofs.Memory.Bytewise

/-!
# Stores byte by byte

What it is to store bytes one after the other: each goes to the physical address that the page table
translates its user address to, and of several stores to one physical address the last one stays.
The kernel stores page by page, and the pool that it leaves is the one that these stores leave. What
it checks before is decided byte by byte as well: the first address that cannot be written refuses.

Main statement: `copyOut_bytewise`.
-/

namespace TeachingKernel

/-- Behind each address come the other addresses of its page. -/
theorem Address.exists_add?_in_page {s : Space} {a : Address s} {i : Nat}
    (h : a.pageOffset + i < pageSize) :
    ∃ x, a.add? i = some x ∧ x.pageNumber = a.pageNumber ∧ x.pageOffset = a.pageOffset + i := by
  have hlt := a.toNat_lt
  have hbound : a.toNat + i < addressBound := by
    simp only [pageOffset, pageSize, addressBound] at h hlt ⊢
    omega
  refine ⟨⟨a.toNat + i, hbound⟩, dif_pos hbound, ?_, ?_⟩ <;>
  · simp only [pageNumber, pageOffset, pageSize] at h ⊢
    omega

/-! ## One byte of a pool -/

def Page.setByte (page : Page) (i : Fin pageSize) (byte : UInt8) : Page :=
  ⟨page.bytes.set i byte, by rw [List.length_set, page.length_bytes]⟩

theorem Page.byte_setByte (page : Page) (i j : Fin pageSize) (byte : UInt8) :
    (page.setByte i byte).byte j = if j = i then byte else page.byte j := by
  have hi : i.val < page.bytes.length := page.length_bytes.symm ▸ i.isLt
  have h := (page.setByte i byte).getElem?_bytes j
  simp only [setByte, List.getElem?_set, hi, if_true, page.getElem?_bytes] at h
  split at h
  · rename_i hij
    rw [if_pos (Fin.ext hij.symm)]
    exact (Option.some.inj h).symm
  · rename_i hij
    rw [if_neg fun hc => hij (congrArg Fin.val hc.symm)]
    exact (Option.some.inj h).symm

theorem Page.ext_byte {page page' : Page} (h : ∀ i, page.byte i = page'.byte i) : page = page' := by
  apply Page.ext
  rw [← page.ofFn_byte, ← page'.ofFn_byte, funext h]

@[simp] theorem Page.overwrite_nil (page : Page) {start : Nat} (h : start ≤ pageSize) :
    page.overwrite start [] = .ok page := by
  obtain ⟨out, hout⟩ : ∃ out, page.overwrite start [] = .ok out := page.exists_overwrite h
  rw [hout]
  refine congrArg Except.ok (Page.ext_byte fun i => ?_)
  rw [Page.byte_of_overwrite hout, List.getD_nil, ite_self]

/-- To overwrite is to set the first byte and to overwrite the others behind it. -/
theorem Page.overwrite_cons (page : Page) {start : Nat} {byte : UInt8} {rest : Bytes}
    (h : start < pageSize) (hroom : start + 1 + rest.length ≤ pageSize) :
    page.overwrite start (byte :: rest) =
      (page.setByte ⟨start, h⟩ byte).overwrite (start + 1) rest := by
  have hroom' : start + (byte :: rest).length ≤ pageSize := by
    rw [List.length_cons]
    omega
  obtain ⟨out, hout⟩ := page.exists_overwrite hroom'
  obtain ⟨out', hout'⟩ := (page.setByte ⟨start, h⟩ byte).exists_overwrite hroom
  rw [hout, hout']
  refine congrArg Except.ok (Page.ext_byte fun i => ?_)
  rw [Page.byte_of_overwrite hout, Page.byte_of_overwrite hout', Page.byte_setByte]
  rcases Nat.lt_trichotomy i.val start with hlt | heq | hgt
  · rw [if_neg (by omega), if_neg (by omega), if_neg fun hc => absurd (congrArg Fin.val hc) hlt.ne]
  · rw [if_pos heq.ge, if_neg (by omega), if_pos (Fin.ext heq), heq, Nat.sub_self,
      List.getD_cons_zero]
  · obtain ⟨k, hk⟩ : ∃ k, i.val = start + 1 + k := ⟨i.val - (start + 1), by omega⟩
    rw [if_pos hgt.le, if_pos (by omega), if_neg fun hc => absurd (congrArg Fin.val hc) hgt.ne',
      hk, Nat.add_sub_cancel_left, show start + 1 + k - start = k + 1 by omega,
      List.getD_cons_succ]

namespace PagePool

def byte? (p : PagePool) (a : PhysAddr) : Option UInt8 :=
  (p.page? a.pageStart).map (·.byte ⟨a.pageOffset, a.pageOffset_lt⟩)

def setByteAt {total : Nat} (pages : Vector Page total) (i : Fin total) (position : Fin pageSize)
    (byte : UInt8) : Vector Page total :=
  pages.set i ((pages.get i).setByte position byte) i.isLt

/-- The pool with another byte at a physical address, which must lie in one of its frames. -/
def storeByte? (p : PagePool) (a : PhysAddr) (byte : UInt8) : Option PagePool :=
  (p.frame? a.pageStart).map fun i =>
    { p with pages := setByteAt p.pages i ⟨a.pageOffset, a.pageOffset_lt⟩ byte }

variable {p q : PagePool} {a b : PhysAddr} {byte : UInt8}

theorem sameUse_of_storeByte? (h : p.storeByte? a byte = some q) : p.SameUse q := by
  obtain ⟨i, -, rfl⟩ := Option.map_eq_some_iff.mp h
  exact ⟨_, rfl⟩

/-- Two pages do not lie in one frame. -/
theorem pageStart_eq_of_frame? {i : Fin p.total} (ha : p.frame? a.pageStart = some i)
    (hb : p.frame? b.pageStart = some i) : a.pageStart = b.pageStart := by
  have hframe : ∀ {c : PhysAddr}, p.frame? c.pageStart = some i →
      p.base.toNat ≤ c.pageStart.toNat ∧
        (c.pageStart.toNat - p.base.toNat) / pageSize = i.val := by
    intro c h
    unfold frame? at h
    split at h
    · rename_i hle
      simp only [Option.dite_none_right_eq_some, Option.some.injEq] at h
      obtain ⟨_, rfl⟩ := h
      exact ⟨hle, rfl⟩
    · contradiction
  have hfa := hframe ha
  have hfb := hframe hb
  ext
  rw [Address.toNat_pageStart] at hfa hfb ⊢
  rw [Address.toNat_pageStart]
  simp only [pageSize] at hfa hfb ⊢
  omega

/-- The byte that was stored, and the others as they were. -/
theorem byte?_of_storeByte? (h : p.storeByte? a byte = some q) (b : PhysAddr) :
    q.byte? b = if b = a then some byte else p.byte? b := by
  obtain ⟨i, hi, rfl⟩ := Option.map_eq_some_iff.mp h
  have hget : p.pages.get i = p.pages[i] := rfl
  rw [byte?, setByteAt, hget, page?_set]
  by_cases hframe : p.frame? b.pageStart = some i
  · have hstart := pageStart_eq_of_frame? hframe hi
    rw [if_pos hframe, Option.map_some, Page.byte_setByte, byte?, page?, hframe, Option.map_some,
      Option.map_some]
    by_cases hba : b = a
    · rw [if_pos hba, if_pos (by subst hba; rfl)]
    · -- the two addresses lie in one page, so their offsets differ
      have hoffset : b.pageOffset ≠ a.pageOffset := by
        intro hc
        apply hba
        ext
        rw [← b.toNat_pageStart_add_pageOffset, ← a.toNat_pageStart_add_pageOffset, hstart, hc]
      rw [if_neg hba, if_neg fun hc => hoffset (congrArg Fin.val hc)]
  · have hba : b ≠ a := by
      rintro rfl
      exact hframe hi
    rw [if_neg hframe, if_neg hba, byte?]

/-- To store in a frame is to store the first byte and then the others behind it. -/
theorem store_cons (p : PagePool) (i : Fin p.total) {start : Nat} {rest : Bytes}
    (h : start < pageSize) (hroom : start + 1 + rest.length ≤ pageSize) :
    p.store i start (byte :: rest) =
      store { p with pages := setByteAt p.pages i ⟨start, h⟩ byte } i (start + 1) rest := by
  obtain ⟨page, hpage⟩ := (p.pages[i].setByte ⟨start, h⟩ byte).exists_overwrite hroom
  have hset : (p.pages.set i (p.pages[i].setByte ⟨start, h⟩ byte))[i] =
      p.pages[i].setByte ⟨start, h⟩ byte := Vector.getElem_set_self i.isLt
  have hget : p.pages.get i = p.pages[i] := rfl
  simp only [store, setByteAt, hget, Page.overwrite_cons _ h hroom, hset, hpage, bind, Except.bind,
    pure, Except.pure, Vector.set_set]

end PagePool

/-! ## Byte by byte -/

/-- The physical address that the user address `i` bytes behind `va` translates to. -/
def PageTable.physicalFrom? (t : PageTable) (va : VirtAddr) (i : Nat) : Option PhysAddr :=
  (va.add? i).bind t.translate?

/-- The address `i` bytes behind `va` is a user address on a page that is mapped writable. -/
def PageTable.Allows (t : PageTable) (va : VirtAddr) (i : Nat) : Prop :=
  ∃ x, va.add? i = some x ∧ x.isUser = true ∧ t.isWritable x = true

inductive PageTable.Refuses (t : PageTable) (va : VirtAddr) : Fault → Prop
  | kernel (hkernel : va.isKernel = true) : Refuses t va (.kernelAddress va)
  | unmapped (huser : va.isUser = true) (hnone : t.entryAt? va = none) : Refuses t va (.unmapped va)
  | readOnly {e : PageEntry} (huser : va.isUser = true) (he : t.entryAt? va = some e)
      (hflag : e.flags.writable = false) : Refuses t va (.readOnly va)

/-- The pages of so many bytes from `va` on are mapped to frames that differ from page to page. -/
def PageTable.FramesDiffer (t : PageTable) (va : VirtAddr) (n : Nat) : Prop :=
  ∀ i < n, ∀ j < n, ∀ x y e f, va.add? i = some x → va.add? j = some y →
    t.entryAt? x = some e → t.entryAt? y = some f → e.frame = f.frame → x.pageNumber = y.pageNumber

/-- Stores bytes one after the other, the first of them at what the address `i` bytes behind `va`
translates to. -/
def PageTable.storeEach (t : PageTable) (va : VirtAddr) : Nat → Bytes → PagePool → Option PagePool
  | _, [], p => some p
  | i, byte :: rest, p => do
    let a ← t.physicalFrom? va i
    t.storeEach va (i + 1) rest (← p.storeByte? a byte)

namespace PageTable

variable {t : PageTable} {va next : VirtAddr} {src : Bytes} {p q : PagePool} {i : Nat}

theorem of_storeEach_cons {byte : UInt8} (h : t.storeEach va i (byte :: src) p = some q) :
    ∃ a p', t.physicalFrom? va i = some a ∧ p.storeByte? a byte = some p' ∧
      t.storeEach va (i + 1) src p' = some q := by
  obtain ⟨a, ha, h⟩ := Option.bind_eq_some_iff.mp h
  obtain ⟨p', hp', h⟩ := Option.bind_eq_some_iff.mp h
  exact ⟨a, p', ha, hp', h⟩

theorem storeEach_append (piece rest : Bytes) (i : Nat) (p : PagePool) :
    t.storeEach va i (piece ++ rest) p =
      (t.storeEach va i piece p).bind (t.storeEach va (i + piece.length) rest) := by
  induction piece generalizing i p with
  | nil => rfl
  | cons byte piece ih =>
    simp only [List.cons_append, storeEach, ih, List.length_cons, Nat.add_assoc,
      Nat.add_comm 1 piece.length, bind, Option.bind_assoc]

/-- To go on from an address on the way. -/
theorem storeEach_add {k : Nat} (h : va.add? k = some next) (src : Bytes) (i : Nat) (p : PagePool) :
    t.storeEach va (k + i) src p = t.storeEach next i src p := by
  induction src generalizing i p with
  | nil => rfl
  | cons byte src ih =>
    have hplace : t.physicalFrom? va (k + i) = t.physicalFrom? next i := by
      rw [physicalFrom?, physicalFrom?, Address.add?_add h]
    simp only [storeEach, hplace, Nat.add_assoc, ih]

theorem sameUse_of_storeEach (h : t.storeEach va i src p = some q) : p.SameUse q := by
  induction src generalizing i p with
  | nil =>
    cases h
    exact .refl _
  | cons byte src ih =>
    obtain ⟨a, p', -, hstore, hrest⟩ := of_storeEach_cons h
    exact (PagePool.sameUse_of_storeByte? hstore).trans (ih hrest)

/-- No other byte is changed. -/
theorem byte?_of_storeEach_of_forall_ne {a : PhysAddr} (h : t.storeEach va i src p = some q)
    (hne : ∀ j < src.length, t.physicalFrom? va (i + j) ≠ some a) : q.byte? a = p.byte? a := by
  induction src generalizing i p with
  | nil =>
    cases h
    rfl
  | cons byte src ih =>
    obtain ⟨b, p', hplace, hstore, hrest⟩ := of_storeEach_cons h
    have hab : a ≠ b := by
      rintro rfl
      exact hne 0 (Nat.zero_lt_succ _) hplace
    have hrest := ih hrest fun j hj => by
      rw [Nat.add_assoc, Nat.add_comm 1 j]
      exact hne (j + 1) (Nat.succ_lt_succ hj)
    rw [hrest, PagePool.byte?_of_storeByte? hstore, if_neg hab]

/-- The last store to an address is what stays there. -/
theorem byte?_of_storeEach_of_last {a : PhysAddr} {j : Nat} (h : t.storeEach va i src p = some q)
    (hj : j < src.length) (hplace : t.physicalFrom? va (i + j) = some a)
    (hlast : ∀ k < src.length, j < k → t.physicalFrom? va (i + k) ≠ some a) :
    q.byte? a = some src[j] := by
  induction src generalizing i j p with
  | nil => exact absurd hj (Nat.not_lt_zero j)
  | cons byte src ih =>
    obtain ⟨b, p', hb, hstore, hrest⟩ := of_storeEach_cons h
    have hshift : ∀ k, i + (k + 1) = i + 1 + k := fun k => by omega
    cases j with
    | zero =>
      obtain rfl : a = b := Option.some.inj (hplace.symm.trans hb)
      have hkept := byte?_of_storeEach_of_forall_ne hrest fun k hk => by
        rw [← hshift]
        exact hlast (k + 1) (Nat.succ_lt_succ hk) (Nat.zero_lt_succ k)
      rw [hkept, PagePool.byte?_of_storeByte? hstore, if_pos rfl, List.getElem_cons_zero]
    | succ j =>
      rw [List.getElem_cons_succ]
      refine ih hrest (Nat.lt_of_succ_lt_succ hj) (by rw [← hshift]; exact hplace)
        fun k hk hjk => ?_
      rw [← hshift]
      exact hlast (k + 1) (Nat.succ_lt_succ hk) (Nat.succ_lt_succ hjk)

end PageTable

namespace UserMemory

variable {m : UserMemory} {va : VirtAddr} {src : Bytes} {q : PagePool}

/-! ## The check -/

/-- What the page table allows is what it promises. -/
theorem promise_isWritable_iff (m : UserMemory) (va : VirtAddr) (i : Nat) :
    m.promise.isWritable (va.toNat + i) = true ↔ m.table.Allows va i := by
  constructor
  · intro h
    have hlt : va.toNat + i < userTop := by
      apply Nat.lt_of_not_le
      intro hle
      rw [promise_isWritable_of_userTop_le hle] at h
      contradiction
    have hbound : va.toNat + i < addressBound := by
      simp only [userTop, addressBound] at hlt ⊢
      omega
    have hx : va.add? i = some ⟨va.toNat + i, hbound⟩ := dif_pos hbound
    have hu : (⟨va.toNat + i, hbound⟩ : VirtAddr).isUser = true := decide_eq_true hlt
    exact ⟨_, hx, hu, (promise_isWritable hu).symm.trans h⟩
  · rintro ⟨x, hx, hu, hw⟩
    rw [← Address.toNat_of_add? hx, promise_isWritable hu]
    exact hw

theorem checkWritable_eq_ok_iff_allows (m : UserMemory) (va : VirtAddr) (n : Nat) :
    m.checkWritable va n = .ok () ↔ ∀ i < n, m.table.Allows va i := by
  simp only [checkWritable_eq_ok_iff_promise, promise_isWritable_iff]

/-- A page that cannot be written refuses at its first byte. -/
theorem refuses_of_no_promise {n : Nat} (hpos : 0 < n)
    (hw : m.promise.isWritable va.toNat = false) :
    ∃ fault, m.table.Refuses va fault ∧ m.checkWritable va n = .error fault := by
  rw [checkWritable, if_neg (Nat.ne_of_gt hpos)]
  by_cases hu : va.isUser = true
  · rw [promise_isWritable hu] at hw
    simp only [Address.isKernel, hu, Bool.not_true, Bool.false_eq_true, if_false]
    cases he : m.table.entryAt? va with
    | none => exact ⟨_, .unmapped hu he, rfl⟩
    | some e =>
      rw [he, Option.any_some] at hw
      simp only [hw, Bool.not_false, if_true]
      exact ⟨_, .readOnly hu he hw, rfl⟩
  · have hkernel : va.isKernel = true := by simp [Address.isKernel, hu]
    simp only [hkernel, if_true]
    exact ⟨_, .kernel hkernel, rfl⟩

/-- A range is refused for the first of its addresses that cannot be written. -/
theorem refuses_of_checkWritable {n : Nat} {fault : Fault}
    (h : m.checkWritable va n = .error fault) :
    ∃ i < n, ∃ x, va.add? i = some x ∧ m.table.Refuses x fault ∧
      ∀ j < i, m.table.Allows va j := by
  induction n using Nat.strongRecOn generalizing va with
  | ind n ih =>
    rcases Nat.eq_zero_or_pos n with rfl | hpos
    · rw [checkWritable_zero] at h
      contradiction
    cases hw : m.promise.isWritable va.toNat with
    | false =>
      obtain ⟨fault', hrefuses, hcheck⟩ := refuses_of_no_promise hpos hw
      obtain rfl : fault' = fault := Except.error.inj (hcheck.symm.trans h)
      exact ⟨0, hpos, va, dif_pos va.toNat_lt, hrefuses, fun j hj => absurd hj (Nat.not_lt_zero j)⟩
    | true =>
      obtain ⟨next, hnext, hcheck⟩ := checkWritable_of_promise hpos hw
      have hpage := va.bytesToPageEnd_pos
      obtain ⟨i, hi, x, hx, hrefuses, hbefore⟩ := ih _ (by omega) (hcheck.symm.trans h)
      refine ⟨va.bytesToPageEnd + i, by omega, x, (Address.add?_add hnext i).trans hx, hrefuses,
        fun j hj => ?_⟩
      rw [← promise_isWritable_iff]
      refine PrivateMemory.isWritable_of_rest (Nat.le_refl _) hnext hw (fun k hk => ?_) hj
      rw [promise_isWritable_iff]
      exact hbefore k (by omega)

/-! ## The copy -/

/-- The addresses of a page translate to the addresses of its frame. -/
theorem physicalFrom?_in_page {t : PageTable} {e : PageEntry} (he : t.entryAt? va = some e)
    {i : Nat} (hin : va.pageOffset + i < pageSize) :
    t.physicalFrom? va i = some (e.frame.offset (va.pageOffset + i)) := by
  obtain ⟨x, hx, hnumber, hoffset⟩ := Address.exists_add?_in_page hin
  rw [PageTable.physicalFrom?, hx, Option.bind_some, PageTable.translate?, PageTable.entryAt?,
    hnumber, ← PageTable.entryAt?, he, Option.map_some, hoffset]

/-- Where a page has no frame of the pool behind it nothing is stored. -/
theorem storeEach_of_lacksFrame {t : PageTable} {p : PagePool} {e : PageEntry}
    (he : t.entryAt? va = some e) (halign : e.frame.isAligned = true)
    (hframe : p.frame? e.frame = none) (hpos : 0 < src.length) :
    t.storeEach va 0 src p = none := by
  obtain ⟨byte, rest, rfl⟩ := List.exists_cons_of_length_pos hpos
  have hin : va.pageOffset + 0 < pageSize := va.pageOffset_lt
  simp only [PageTable.storeEach, physicalFrom?_in_page he hin, PagePool.storeByte?,
    Address.pageStart_offset halign hin, hframe, bind, Option.map_none, Option.bind_some,
    Option.bind_none]

/-- Bytes that stay in one page are stored there at once. -/
theorem storeEach_page {t : PageTable} {p : PagePool} {e : PageEntry} {frame : Fin p.total}
    (he : t.entryAt? va = some e) (halign : e.frame.isAligned = true)
    (hframe : p.frame? e.frame = some frame) {i : Nat}
    (hroom : va.pageOffset + i + src.length ≤ pageSize) :
    t.storeEach va i src p = (p.store frame (va.pageOffset + i) src).toOption := by
  induction src generalizing i p with
  | nil =>
    rw [PagePool.store, Page.overwrite_nil _ (show va.pageOffset + i ≤ pageSize from hroom)]
    change some p = some { p with pages := p.pages.set frame p.pages[frame] }
    rw [Fin.getElem_fin, Vector.set_getElem_self]
  | cons byte rest ih =>
    rw [List.length_cons] at hroom
    have hin : va.pageOffset + i < pageSize := by omega
    have hplace := physicalFrom?_in_page he hin
    have hstart := Address.pageStart_offset halign hin
    have hoffset := Address.pageOffset_offset halign hin
    rw [PagePool.store_cons p frame hin (by omega)]
    simp only [PageTable.storeEach, hplace, PagePool.storeByte?, hstart, hframe, hoffset, bind,
      Option.map_some, Option.bind_some]
    have hframe' (pages : Vector Page p.total) :
        PagePool.frame? { p with pages } e.frame = some frame := hframe
    exact ih (hframe' (PagePool.setByteAt p.pages frame ⟨va.pageOffset + i, hin⟩ byte))
      (show va.pageOffset + (i + 1) + rest.length ≤ pageSize by omega)

/-- Bytes that the page table allows to be stored are stored exactly if they are stored one by
one, and the pool is the same. -/
theorem storeFrom_eq_ok_iff (hw : m.WholeFrames) (hallow : ∀ i < src.length, m.table.Allows va i) :
    m.storeFrom va src = .ok (.ok (), q) ↔ m.table.storeEach va 0 src m.pool = some q := by
  induction hn : src.length using Nat.strongRecOn generalizing m va src with
  | ind length ih =>
    rcases Nat.eq_zero_or_pos src.length with hz | hpos
    · obtain rfl : src = [] := List.length_eq_zero_iff.mp hz
      simp [PageTable.storeEach]
    obtain ⟨x, hx, hu, hwritable⟩ := hallow 0 hpos
    obtain rfl : va = x := Option.some.inj ((dif_pos va.toNat_lt).symm.trans hx)
    obtain ⟨e, he, hflag⟩ := (Option.any_eq_true _ _).mp hwritable
    have hm : m.table.mapping? va = some (e.frame, true) := by
      rw [PageTable.mapping?, he, Option.map_some, hflag]
    have halign : e.frame.isAligned = true := hw va e.frame true hm
    cases hframe : m.pool.frame? e.frame with
    | none =>
      have hnone : m.table.storeEach va 0 src m.pool = none :=
        storeEach_of_lacksFrame he halign hframe hpos
      rw [storeFrom_of_lacksFrame hu ⟨e.frame, hm, hframe⟩ hpos, hnone]
      simp
    | some frame =>
      obtain ⟨piece, rest, next, rfl, hpiece, hroom, hend, hnext⟩ := exists_piece hu hpos
      obtain ⟨page, -, hstore⟩ := m.pool.exists_store frame hroom
      have hlength : (piece ++ rest).length = piece.length + rest.length := List.length_append
      have hfirst : m.table.storeEach va 0 piece m.pool =
          some { m.pool with pages := m.pool.pages.set frame page } := by
        rw [storeEach_page he halign hframe hroom, Nat.add_zero, hstore]
        rfl
      have hallow' : ∀ i < rest.length, m.table.Allows next i := by
        intro i hi
        obtain ⟨y, hy, huser⟩ := hallow (piece.length + i) (by omega)
        exact ⟨y, (Address.add?_add hnext i).symm.trans hy, huser⟩
      rw [storeFrom_piece hu hm hframe hpiece hroom hend hnext hstore, PageTable.storeEach_append,
        hfirst, Option.bind_some, Nat.zero_add, ← Nat.add_zero piece.length,
        PageTable.storeEach_add hnext]
      -- the rest goes to the memory that has the piece in it already
      have hw' : ({ m with pool := { m.pool with pages := m.pool.pages.set frame page } } :
          UserMemory).WholeFrames := hw
      exact ih rest.length (by omega) hw' hallow' rfl

/-- To copy out is to check each address and then to store each byte. -/
theorem copyOut_eq_ok_iff (hw : m.WholeFrames) :
    m.copyOut va src = .ok (.ok (), q) ↔
      (∀ i < src.length, m.table.Allows va i) ∧ m.table.storeEach va 0 src m.pool = some q := by
  have hpass := checkWritable_eq_ok_iff_allows m va src.length
  unfold copyOut
  cases hcheck : m.checkWritable va src.length with
  | error fault =>
    constructor
    · intro h
      cases h
    · rintro ⟨hallow, -⟩
      rw [hpass.mpr hallow] at hcheck
      contradiction
  | ok _ =>
    have hallow := hpass.mp hcheck
    simp only [storeFrom_eq_ok_iff hw hallow, iff_and_self]
    exact fun _ => hallow

/-! ## Reading back -/

/-- What an address reads is the byte at the physical address that it translates to. -/
theorem byteFrom_eq_ok (hw : m.WholeFrames) {i : Nat} {a : PhysAddr} {byte : UInt8}
    (hallow : m.table.Allows va i) (ha : m.table.physicalFrom? va i = some a)
    (hbyte : m.pool.byte? a = some byte) : m.byteFrom va i = .ok byte := by
  obtain ⟨x, hx, hu, -⟩ := hallow
  rw [PageTable.physicalFrom?, hx, Option.bind_some] at ha
  obtain ⟨e, he, rfl⟩ := Option.map_eq_some_iff.mp ha
  have hm : m.table.mapping? x = some (e.frame, e.flags.writable) := by
    rw [PageTable.mapping?, he]
    rfl
  have halign := hw x _ _ hm
  simp only [PagePool.byte?, Address.pageStart_offset halign x.pageOffset_lt,
    Address.pageOffset_offset halign x.pageOffset_lt] at hbyte
  obtain ⟨page, hpage, rfl⟩ := Option.map_eq_some_iff.mp hbyte
  simp only [byteFrom, hx, byteAt, Address.isKernel, hu, Bool.not_true, Bool.false_eq_true,
    if_false, he, Option.bind_some, hpage]

/-- Bytes that can all be read are what a copy of them gives. -/
theorem copyIn_of_byteFrom (hw : m.WholeFrames)
    (h : ∀ (i : Nat) (hi : i < src.length), m.byteFrom va i = .ok src[i]) {dst : Bytes}
    (hlength : dst.length = src.length) : m.copyIn va dst = .ok ⟨src, .ok ()⟩ := by
  obtain ⟨pieces, fault, hspans, hwalk⟩ := exists_walk hw va dst.length
  have hreads := hwalk.reads
  cases fault with
  | some f =>
    obtain ⟨hlt, hstop⟩ := hreads.stops f rfl
    rw [h _ (hlength ▸ hlt)] at hstop
    contradiction
  | none =>
    have hall := hreads.whole rfl
    have hbytes : pieces.flatten = src := by
      refine List.ext_getElem (hall.trans hlength) fun i hi hi' => ?_
      exact Except.ok.inj ((hreads.byte i hi).symm.trans (h i hi'))
    rw [copyIn_of_walk hspans hwalk, hbytes, List.drop_of_length_le hlength.le,
      List.append_nil]
    rfl

/-- If no two pages of a range share a frame, no two of its addresses share a byte. -/
theorem physicalFrom?_inj (hw : m.WholeFrames) {n i j : Nat} {a : PhysAddr}
    (hdiffer : m.table.FramesDiffer va n) (hi : i < n) (hj : j < n)
    (hia : m.table.physicalFrom? va i = some a) (hja : m.table.physicalFrom? va j = some a) :
    i = j := by
  obtain ⟨x, hx, hxa⟩ := Option.bind_eq_some_iff.mp hia
  obtain ⟨y, hy, hya⟩ := Option.bind_eq_some_iff.mp hja
  obtain ⟨e, he, rfl⟩ := Option.map_eq_some_iff.mp hxa
  obtain ⟨f, hf, hsame⟩ := Option.map_eq_some_iff.mp hya
  have halign : ∀ {z : VirtAddr} {g : PageEntry}, m.table.entryAt? z = some g →
      g.frame.isAligned = true := by
    intro z g hg
    refine hw z g.frame g.flags.writable ?_
    rw [PageTable.mapping?, hg]
    rfl
  have hframe := congrArg Address.pageStart hsame
  have hoffset := congrArg Address.pageOffset hsame
  rw [Address.pageStart_offset (halign hf) y.pageOffset_lt,
    Address.pageStart_offset (halign he) x.pageOffset_lt] at hframe
  rw [Address.pageOffset_offset (halign hf) y.pageOffset_lt,
    Address.pageOffset_offset (halign he) x.pageOffset_lt] at hoffset
  have hnumber := hdiffer i hi j hj x y e f hx hy he hf hframe.symm
  have hxi := Address.toNat_of_add? hx
  have hyj := Address.toNat_of_add? hy
  simp only [Address.pageNumber, Address.pageOffset, pageSize] at hnumber hoffset
  omega

/-- Bytes that were stored in frames that differ are read back. -/
theorem copyIn_of_storeEach (hw : m.WholeFrames)
    (hallow : ∀ i < src.length, m.table.Allows va i)
    (hstore : m.table.storeEach va 0 src m.pool = some q)
    (hdiffer : m.table.FramesDiffer va src.length) {dst : Bytes}
    (hlength : dst.length = src.length) :
    ({ m with pool := q } : UserMemory).copyIn va dst = .ok ⟨src, .ok ()⟩ := by
  have hw' : ({ m with pool := q } : UserMemory).WholeFrames := hw
  refine copyIn_of_byteFrom hw' (fun i hi => ?_) hlength
  obtain ⟨x, hx, hu, hwritable⟩ := hallow i hi
  obtain ⟨e, he, -⟩ := (Option.any_eq_true _ _).mp hwritable
  have hplace : m.table.physicalFrom? va i = some (e.frame.offset x.pageOffset) := by
    rw [PageTable.physicalFrom?, hx, Option.bind_some, PageTable.translate?, he]
    rfl
  refine byteFrom_eq_ok hw' (hallow i hi) hplace ?_
  refine PageTable.byte?_of_storeEach_of_last hstore hi (by rw [Nat.zero_add]; exact hplace)
    fun j hj hij hc => ?_
  rw [Nat.zero_add] at hc
  exact Nat.ne_of_lt hij (physicalFrom?_inj hw hdiffer hi hj hplace hc)

/-- To copy out is to store byte by byte. A copy passes exactly if every address of the range is a
user address on a writable page and each of its bytes can be stored, one after the other; the pool
is the one that these stores leave. They hand out no frame and take none back, they change no other
byte, and the last of them to a byte stays. So if the frames of the range differ from page to page
the bytes are read back. What is checked before passes exactly if every address can be written, and
otherwise tells why the first that cannot refuses. -/
theorem copyOut_bytewise (m : UserMemory) (ht : m.table.Built) (va : VirtAddr) (src : Bytes) :
    (∀ q, m.copyOut va src = .ok (.ok (), q) ↔
      (∀ i < src.length, m.table.Allows va i) ∧ m.table.storeEach va 0 src m.pool = some q) ∧
    (∀ q, m.copyOut va src = .ok (.ok (), q) →
      m.pool.SameUse q ∧
      (∀ a, (∀ i < src.length, m.table.physicalFrom? va i ≠ some a) →
        q.byte? a = m.pool.byte? a) ∧
      (∀ a i (hi : i < src.length), m.table.physicalFrom? va i = some a →
        (∀ j < src.length, i < j → m.table.physicalFrom? va j ≠ some a) →
        q.byte? a = some src[i]) ∧
      (m.table.FramesDiffer va src.length → ∀ dst : Bytes, dst.length = src.length →
        ({ m with pool := q } : UserMemory).copyIn va dst = .ok ⟨src, .ok ()⟩)) ∧
    ∀ n, (m.checkWritable va n = .ok () ↔ ∀ i < n, m.table.Allows va i) ∧
      ∀ fault, m.checkWritable va n = .error fault → fault ≠ .overflow ∧
        ∃ i < n, ∃ x, va.add? i = some x ∧ m.table.Refuses x fault ∧
          ∀ j < i, m.table.Allows va j := by
  have hw := ht.wholeFrames m.pool
  refine ⟨fun q => copyOut_eq_ok_iff hw, fun q hrun => ?_, fun n =>
    ⟨checkWritable_eq_ok_iff_allows m va n, fun fault hfault =>
      ⟨fun hc => checkWritable_ne_overflow m va n (hc ▸ hfault),
        refuses_of_checkWritable hfault⟩⟩⟩
  obtain ⟨hallow, hstore⟩ := (copyOut_eq_ok_iff hw).mp hrun
  refine ⟨PageTable.sameUse_of_storeEach hstore, fun a hne => ?_, fun a i hi hplace hlast => ?_,
    fun hdiffer dst hlength => copyIn_of_storeEach hw hallow hstore hdiffer hlength⟩
  · exact PageTable.byte?_of_storeEach_of_forall_ne hstore fun j hj => by
      rw [Nat.zero_add]
      exact hne j hj
  · refine PageTable.byte?_of_storeEach_of_last hstore hi (by rw [Nat.zero_add]; exact hplace)
      fun j hj hij => ?_
    rw [Nat.zero_add]
    exact hlast j hj hij

set_option synthInstance.maxSize 512 in
/-- One byte more than a page has is copied out to two pages that share a frame. The last byte goes
over the first one, and the second one stays. -/
theorem copyOut_bytewise_of_shared_frame :
    ∃ (t t' : PageTable) (q : PagePool),
      PageTable.empty.map (.ofNat 0x1000) (.ofNat poolBase) true = .ok t ∧
      t.map (.ofNat 0x2000) (.ofNat poolBase) true = .ok t' ∧ t'.Built ∧
      (⟨t', .user 1⟩ : UserMemory).copyOut (.ofNat 0x1000) (List.replicate pageSize 1 ++ [2]) =
        .ok (.ok (), q) ∧
      t'.storeEach (.ofNat 0x1000) 0 (List.replicate pageSize 1 ++ [2]) (.user 1) = some q ∧
      q.byte? (.ofNat poolBase) = some 2 ∧ q.byte? (.ofNat (poolBase + 1)) = some 1 := by
  -- what is copied, and the two bytes afterwards, computed at once
  have hanswers : (do
      let t ← PageTable.empty.map (.ofNat 0x1000) (.ofNat poolBase) true
      let t' ← t.map (.ofNat 0x2000) (.ofNat poolBase) true
      return ((⟨t', .user 1⟩ : UserMemory).copyOut (.ofNat 0x1000)
        (List.replicate pageSize 1 ++ [2])).map fun out : Except Fault Unit × PagePool =>
          (out.1, out.2.byte? (.ofNat poolBase), out.2.byte? (.ofNat (poolBase + 1)))) =
        .ok (.ok (.ok (), some 2, some 1)) := by
    decide +kernel
  cases hfirst : PageTable.empty.map (.ofNat 0x1000) (.ofNat poolBase) true with
  | error error =>
    rw [hfirst] at hanswers
    cases hanswers
  | ok t =>
    cases hsecond : t.map (.ofNat 0x2000) (.ofNat poolBase) true with
    | error error =>
      simp only [hfirst, hsecond, bind, Except.bind] at hanswers
      cases hanswers
    | ok t' =>
      have ht : t'.Built := .map (.map .empty hfirst) hsecond
      simp only [hfirst, hsecond, bind, Except.bind, pure, Except.pure, Except.ok.injEq] at hanswers
      cases hrun : (⟨t', .user 1⟩ : UserMemory).copyOut (.ofNat 0x1000)
          (List.replicate pageSize 1 ++ [2]) with
      | error d =>
        rw [hrun] at hanswers
        cases hanswers
      | ok out =>
        obtain ⟨answer, q⟩ := out
        simp only [hrun, Except.map, Except.ok.injEq, Prod.mk.injEq] at hanswers
        obtain ⟨rfl, hover, hnext⟩ := hanswers
        obtain ⟨hiff, -, -⟩ := copyOut_bytewise ⟨t', .user 1⟩ ht (.ofNat 0x1000)
          (List.replicate pageSize 1 ++ [2])
        exact ⟨t, t', q, rfl, hsecond, ht, hrun, ((hiff q).mp hrun).2, hover, hnext⟩

end UserMemory

end TeachingKernel
