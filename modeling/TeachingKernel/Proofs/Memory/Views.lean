import TeachingKernel.Proofs.Memory.Stores
import TeachingKernel.Proofs.PageTable.History

/-!
# Views of user memory

A view is what one page holds from a user address on. To read it is found by way of the physical
address, and to write it by way of the entry of the page. Both ways lead to the same bytes of the
same frame, since pages are mapped to whole frames. A byte that is stored in a view is seen in every
view that shows it, from whatever page of whatever table, and no other byte is changed.

Main statement: `views_agree`.
-/

namespace TeachingKernel

namespace PageTable

def after (changes : List Change) : PageTable := (history changes .empty).2

/-- A view from `va` on, with another byte wherever it shows the one at a physical address. -/
def showing (t : PageTable) (va : VirtAddr) (a : PhysAddr) (byte : UInt8) (view : Bytes) : Bytes :=
  view.mapIdx fun i old => if t.physicalFrom? va i = some a then byte else old

variable {t : PageTable} {va : VirtAddr} {e : PageEntry} {i : Nat}

theorem sound_after (changes : List Change) : (after changes).Sound := by
  obtain ⟨events, u, hrun, hsound, -⟩ := told_history sound_empty told_empty changes
  rw [after, hrun]
  exact hsound

theorem Sound.isUser (h : t.Sound) (he : t.entryAt? va = some e) : va.isUser = true := by
  have hle := (h.entry he).1
  have hva := va.toNat_pageStart_add_pageOffset
  have hoffset := va.pageOffset_lt
  exact decide_eq_true (by omega)

theorem physicalFrom?_zero (t : PageTable) (va : VirtAddr) :
    t.physicalFrom? va 0 = t.translate? va := by
  have hnext : va.add? 0 = some va := dif_pos va.toNat_lt
  rw [physicalFrom?, hnext, Option.bind_some]

/-- What an index of a view stands for: a physical address in the frame of the page. -/
theorem Sound.physicalFrom? (h : t.Sound) (he : t.entryAt? va = some e)
    (hi : i < va.bytesToPageEnd) :
    ∃ a, t.physicalFrom? va i = some a ∧ a.pageStart = e.frame ∧
      a.pageOffset = va.pageOffset + i := by
  have hin : va.pageOffset + i < pageSize := by
    rw [Address.bytesToPageEnd] at hi
    omega
  have halign := (h.entry he).2.1
  exact ⟨_, UserMemory.physicalFrom?_in_page he hin, Address.pageStart_offset halign hin,
    Address.pageOffset_offset halign hin⟩

end PageTable

namespace PagePool

theorem byte_setByteAt {total : Nat} (pages : Vector Page total) (frame i : Fin total)
    (position k : Fin pageSize) (byte : UInt8) :
    ((setByteAt pages frame position byte).get i).byte k =
      if i = frame ∧ k = position then byte else (pages.get i).byte k := by
  have hget : (setByteAt pages frame position byte).get i =
      if frame.val = i.val then (pages.get frame).setByte position byte else pages.get i :=
    Vector.getElem_set _ i.isLt
  rw [hget]
  by_cases hi : i = frame
  · rw [if_pos (congrArg Fin.val hi.symm), Page.byte_setByte]
    simp [hi]
  · rw [if_neg fun hc => hi (Fin.ext hc.symm), if_neg fun hc => hi hc.1]

structure Seen (p : PagePool) (pages : Vector Page p.total) (a : PhysAddr) (byte : UInt8) :
    Prop where
  /-- It is in the frame of this address, and no other byte of any frame is changed. -/
  bytes : ∀ (i : Fin p.total) (k : Fin pageSize), (pages.get i).byte k =
    if p.frame? a.pageStart = some i ∧ k.val = a.pageOffset then byte else (p.pages.get i).byte k
  /-- It is read at each user address that stands for it, whatever the page and the table. -/
  read : ∀ changes va, (PageTable.after changes).translate? va = some a →
    ∃ rest, UserMemory.translate ⟨.after changes, { p with pages }⟩ va = .ok (byte :: rest)
  /-- Each view shows it wherever it showed the byte before, and else what it showed. -/
  views : ∀ changes va, UserMemory.translate ⟨.after changes, { p with pages }⟩ va =
    (UserMemory.translate ⟨.after changes, p⟩ va).map ((PageTable.after changes).showing va a byte)

end PagePool

namespace UserMemory

variable {m : UserMemory} {va : VirtAddr} {view : Bytes} {place : m.Place}

/-! ## Two ways to a place -/

/-- To read, a mapped page is found at its frame. -/
theorem locate_eq_ok_iff (hs : m.table.Sound) : m.locate va = .ok place ↔
    ∃ e, m.table.entryAt? va = some e ∧ m.pool.frame? e.frame = some place.frame ∧
      place.position = va.pageOffset := by
  cases he : m.table.entryAt? va with
  | none =>
    by_cases hu : va.isUser = true <;>
      simp [locate, Address.isKernel, hu, PageTable.translate?, he]
  | some e =>
    have hu := hs.isUser he
    have halign := (hs.entry he).2.1
    simp only [locate, Address.isKernel, hu, Bool.not_true, Bool.false_eq_true, if_false,
      PageTable.translate?, he, Option.map_some, Address.pageStart_offset halign va.pageOffset_lt,
      Address.pageOffset_offset halign va.pageOffset_lt]
    obtain ⟨frame, position, hposition⟩ := place
    cases hi : m.pool.frame? e.frame with
    | none => simp [hi]
    | some i => simp [hi, eq_comm]

/-- To write, it is found there as well, if it is writable. -/
theorem locateWritable_eq_ok_iff (hs : m.table.Sound) : m.locateWritable va = .ok place ↔
    m.locate va = .ok place ∧ m.table.isWritable va = true := by
  rw [locate_eq_ok_iff hs]
  cases he : m.table.entryAt? va with
  | none => by_cases hu : va.isUser = true <;> simp [locateWritable, Address.isKernel, hu, he]
  | some e =>
    have hu := hs.isUser he
    simp only [locateWritable, Address.isKernel, hu, Bool.not_true, Bool.false_eq_true, if_false,
      he, PageTable.isWritable, Option.any_some]
    cases hw : e.flags.writable with
    | false => simp
    | true =>
      obtain ⟨frame, position, hposition⟩ := place
      cases hi : m.pool.frame? e.frame with
      | none => simp [hi]
      | some i => simp [hi, eq_comm]

/-- A view is what is found at a place, or the reason why there is none. -/
theorem translate_eq_map (m : UserMemory) (va : VirtAddr) :
    m.translate va = (m.locate va).map m.pool.bytesFrom := by
  unfold translate
  cases m.locate va <;> rfl

theorem translateWritable_eq_map (m : UserMemory) (va : VirtAddr) :
    m.translateWritable va = (m.locateWritable va).map m.pool.bytesFrom := by
  unfold translateWritable
  cases m.locateWritable va <;> rfl

theorem translate_eq_ok_iff : m.translate va = .ok view ↔
    ∃ place, m.locate va = .ok place ∧ m.pool.bytesFrom place = view := by
  rw [translate_eq_map]
  cases m.locate va <;> simp [Except.map]

/-- The bytes that can be replaced are those that can be read, if the page is writable. -/
theorem translateWritable_eq_ok_iff (hs : m.table.Sound) :
    m.translateWritable va = .ok view ↔
      m.translate va = .ok view ∧ m.table.isWritable va = true := by
  have hplace : m.translateWritable va = .ok view ↔
      ∃ place, m.locateWritable va = .ok place ∧ m.pool.bytesFrom place = view := by
    rw [translateWritable_eq_map]
    cases m.locateWritable va <;> simp [Except.map]
  rw [hplace, translate_eq_ok_iff]
  simp only [locateWritable_eq_ok_iff hs]
  constructor
  · rintro ⟨place, ⟨hlocate, hw⟩, hview⟩
    exact ⟨⟨place, hlocate, hview⟩, hw⟩
  · rintro ⟨⟨place, hlocate, hview⟩, hw⟩
    exact ⟨place, ⟨hlocate, hw⟩, hview⟩

/-- Who refuses kernel addresses first, and later gives other reasons, refuses no others as such. -/
theorem kernelAddress_iff {α : Type} {rest : Except Fault α} {x : VirtAddr}
    (hrest : rest ≠ .error (.kernelAddress x)) :
    (if va.isKernel then .error (.kernelAddress va) else rest) = .error (.kernelAddress x) ↔
      x = va ∧ userTop ≤ va.toNat := by
  by_cases hu : va.isUser = true
  · have hlt : ¬ userTop ≤ va.toNat := Nat.not_le_of_lt (of_decide_eq_true hu)
    have hkernel : va.isKernel = false := by rw [Address.isKernel, hu]; rfl
    rw [hkernel, if_neg Bool.false_ne_true]
    exact ⟨fun h => absurd h hrest, fun h => absurd h.2 hlt⟩
  · have hle : userTop ≤ va.toNat := by simpa [Address.isUser] using hu
    have hkernel : va.isKernel = true := by simp [Address.isKernel, hu]
    rw [if_pos hkernel, Except.error.injEq, Fault.kernelAddress.injEq, eq_comm, and_iff_left hle]

theorem translate_eq_kernelAddress_iff {x : VirtAddr} :
    m.translate va = .error (.kernelAddress x) ↔ x = va ∧ userTop ≤ va.toNat := by
  have hplace : m.locate va = .error (.kernelAddress x) ↔ x = va ∧ userTop ≤ va.toNat := by
    refine kernelAddress_iff ?_
    split
    · simp
    · split <;> simp
  rw [← hplace, translate_eq_map]
  cases m.locate va <;> simp [Except.map]

theorem translateWritable_eq_kernelAddress_iff {x : VirtAddr} :
    m.translateWritable va = .error (.kernelAddress x) ↔ x = va ∧ userTop ≤ va.toNat := by
  have hplace : m.locateWritable va = .error (.kernelAddress x) ↔
      x = va ∧ userTop ≤ va.toNat := by
    refine kernelAddress_iff ?_
    split
    · simp
    · split
      · simp
      · split <;> simp
  rw [← hplace, translateWritable_eq_map]
  cases m.locateWritable va <;> simp [Except.map]

/-! ## What a view shows -/

/-- A view reaches to the end of its page, and each index shows the byte at the physical address
that it stands for. -/
theorem view_of_translate (hs : m.table.Sound) (h : m.translate va = .ok view) :
    view.length = va.bytesToPageEnd ∧ ∀ i < va.bytesToPageEnd, ∃ a,
      m.table.physicalFrom? va i = some a ∧ view[i]? = m.pool.byte? a := by
  obtain ⟨place, hlocate, rfl⟩ := translate_eq_ok_iff.mp h
  obtain ⟨e, he, hframe, hposition⟩ := (locate_eq_ok_iff hs).mp hlocate
  refine ⟨by rw [PagePool.length_bytesFrom, hposition]; rfl, fun i hi => ?_⟩
  obtain ⟨a, ha, hstart, hoffset⟩ := hs.physicalFrom? he hi
  refine ⟨a, ha, ?_⟩
  rw [PagePool.byte?, PagePool.page?, hstart, hframe, Option.map_some, Option.map_some,
    ← Page.getElem?_bytes, PagePool.bytesFrom, Page.bytesFrom, List.getElem?_drop, hposition,
    ← hoffset]

/-! ## A byte that is stored -/

/-- Where a byte is kept does not depend on the bytes. -/
theorem locate_pages (t : PageTable) (p : PagePool) (pages : Vector Page p.total)
    (va : VirtAddr) : locate ⟨t, { p with pages }⟩ va = locate ⟨t, p⟩ va := by
  have hframe (a : PhysAddr) : PagePool.frame? { p with pages } a = p.frame? a := rfl
  simp only [locate, hframe]
  cases t.translate? va with
  | none => rfl
  | some a =>
    dsimp only
    cases p.frame? a.pageStart <;> rfl

section

variable {p q : PagePool} {t : PageTable} {a : PhysAddr} {byte : UInt8}

/-- After a byte was stored, each view shows it wherever it showed the byte before. -/
theorem translate_of_storeByte? (hs : t.Sound) (h : p.storeByte? a byte = some q) (va : VirtAddr) :
    translate ⟨t, q⟩ va = (translate ⟨t, p⟩ va).map (t.showing va a byte) := by
  obtain ⟨pages, rfl⟩ := PagePool.sameUse_of_storeByte? h
  have hplace := locate_pages t p pages va
  cases hlocate : locate ⟨t, p⟩ va with
  | error fault =>
    rw [translate_eq_map, translate_eq_map, hlocate, hplace.trans hlocate]
    rfl
  | ok place =>
    have hview : translate ⟨t, p⟩ va = .ok (p.bytesFrom place) :=
      translate_eq_ok_iff.mpr ⟨place, hlocate, rfl⟩
    have hview' : translate ⟨t, { p with pages }⟩ va =
        .ok (PagePool.bytesFrom { p with pages } place) :=
      translate_eq_ok_iff.mpr ⟨place, hplace.trans hlocate, rfl⟩
    obtain ⟨hlength, hshows⟩ := view_of_translate hs hview
    obtain ⟨hlength', hshows'⟩ := view_of_translate hs hview'
    rw [hview, hview']
    refine congrArg Except.ok (List.ext_getElem? fun i => ?_)
    rw [PageTable.showing, List.getElem?_mapIdx]
    by_cases hi : i < va.bytesToPageEnd
    · obtain ⟨b, hb, hold⟩ := hshows i hi
      obtain ⟨b', hb', hnew⟩ := hshows' i hi
      obtain rfl : b = b' := Option.some.inj (hb.symm.trans hb')
      rw [List.getElem?_eq_getElem (hlength ▸ hi)] at hold
      rw [hnew, PagePool.byte?_of_storeByte? h, ← hold, hb, List.getElem?_eq_getElem (hlength ▸ hi),
        Option.map_some]
      simp only [Option.some.injEq]
      split <;> rfl
    · rw [List.getElem?_eq_none (by omega), List.getElem?_eq_none (by omega), Option.map_none]

/-- The byte is read at each address that stands for it. -/
theorem translate_cons_of_storeByte? (hs : t.Sound) (h : p.storeByte? a byte = some q)
    (ha : t.translate? va = some a) : ∃ rest, translate ⟨t, q⟩ va = .ok (byte :: rest) := by
  obtain ⟨i, hi, -⟩ := Option.map_eq_some_iff.mp h
  obtain ⟨e, he, rfl⟩ := Option.map_eq_some_iff.mp ha
  rw [Address.pageStart_offset (hs.entry he).2.1 va.pageOffset_lt] at hi
  have hlocate : locate ⟨t, p⟩ va = .ok ⟨i, va.pageOffset, va.pageOffset_lt⟩ :=
    (locate_eq_ok_iff hs).mpr ⟨e, he, hi, rfl⟩
  have hview := translate_eq_ok_iff.mpr ⟨_, hlocate, rfl⟩
  have hlength := (view_of_translate hs hview).1
  obtain ⟨old, rest, hcons⟩ := List.exists_cons_of_length_pos (hlength ▸ va.bytesToPageEnd_pos)
  rw [translate_of_storeByte? hs h, hview, hcons]
  simp only [Except.map, PageTable.showing, List.mapIdx_cons, PageTable.physicalFrom?_zero, ha,
    if_true]
  exact ⟨_, rfl⟩

theorem seen_of_storeByte? {pages : Vector Page p.total}
    (h : p.storeByte? a byte = some { p with pages }) : p.Seen pages a byte where
  bytes i k := by
    obtain ⟨frame, hframe, hpages⟩ := Option.map_eq_some_iff.mp h
    obtain rfl : _ = pages := by simpa using hpages
    rw [PagePool.byte_setByteAt, hframe]
    simp only [Option.some.injEq, Fin.ext_iff, eq_comm]
  read changes va ha := translate_cons_of_storeByte? (PageTable.sound_after changes) h ha
  views changes va := translate_of_storeByte? (PageTable.sound_after changes) h va

end

/-- In the view itself the byte is set at its index. -/
theorem showing_eq_set (hs : m.table.Sound) (hview : m.translate va = .ok view) {j : Nat}
    (hj : j < va.bytesToPageEnd) {a : PhysAddr} (ha : m.table.physicalFrom? va j = some a)
    (byte : UInt8) : m.table.showing va a byte view = view.set j byte := by
  have hlength := (view_of_translate hs hview).1
  obtain ⟨place, hlocate, -⟩ := translate_eq_ok_iff.mp hview
  obtain ⟨e, he, -⟩ := (locate_eq_ok_iff hs).mp hlocate
  obtain ⟨_, hb, -, hoffset⟩ := hs.physicalFrom? he hj
  obtain rfl := Option.some.inj (ha.symm.trans hb)
  refine List.ext_getElem? fun i => ?_
  rw [PageTable.showing, List.getElem?_mapIdx, List.getElem?_set]
  by_cases hi : i < va.bytesToPageEnd
  · obtain ⟨b, hb, -, hoffset'⟩ := hs.physicalFrom? he hi
    rw [hb, List.getElem?_eq_getElem (hlength ▸ hi), Option.map_some]
    by_cases hij : j = i
    · subst hij
      rw [if_pos (hb.symm.trans ha), if_pos rfl, if_pos (hlength.symm ▸ hi)]
    · have hne : some b ≠ some a := by
        intro hc
        rw [Option.some.inj hc, hoffset] at hoffset'
        exact hij (Nat.add_left_cancel hoffset')
      rw [if_neg hij, if_neg hne]
  · rw [List.getElem?_eq_none (by omega), if_neg (by omega), Option.map_none]

/-- To store at an index of a view is to store at the physical address that it stands for. -/
theorem exists_store_at (hs : m.table.Sound) (h : m.locateWritable va = .ok place) {j : Nat}
    (hj : j < va.bytesToPageEnd) (byte : UInt8) :
    ∃ a pages, m.table.physicalFrom? va j = some a ∧
      m.pool.frame? a.pageStart = some place.frame ∧ a.pageOffset = place.position + j ∧
      m.pool.store place.frame (place.position + j) [byte] = .ok { m.pool with pages } ∧
      m.pool.storeByte? a byte = some { m.pool with pages } := by
  obtain ⟨hlocate, -⟩ := (locateWritable_eq_ok_iff hs).mp h
  obtain ⟨e, he, hframe, hposition⟩ := (locate_eq_ok_iff hs).mp hlocate
  obtain ⟨a, ha, hstart, hoffset⟩ := hs.physicalFrom? he hj
  rw [← hposition] at hoffset
  have hin : place.position + j < pageSize := hoffset ▸ a.pageOffset_lt
  have hstored : m.pool.frame? a.pageStart = some place.frame := hstart ▸ hframe
  have hbyte : m.pool.storeByte? a byte = some { m.pool with
      pages := PagePool.setByteAt m.pool.pages place.frame ⟨place.position + j, hin⟩ byte } := by
    rw [PagePool.storeByte?, hstored, Option.map_some]
    simp only [hoffset]
  refine ⟨a, _, ha, hstored, hoffset, ?_, hbyte⟩
  -- bytes that stay in a page are stored at once as they are stored one by one, and here is one
  have hroom : va.pageOffset + j + [byte].length ≤ pageSize := hposition ▸ hin
  have hpage := storeEach_page he (hs.entry he).2.1 hframe hroom
  rw [← hposition] at hpage
  cases hstore : m.pool.store place.frame (place.position + j) [byte] with
  | error d => simp [PageTable.storeEach, ha, hbyte, hstore, Except.toOption] at hpage
  | ok q => simpa [PageTable.storeEach, ha, hbyte, hstore, Except.toOption, eq_comm] using hpage

/-- The two ways to look a user address up agree, whatever was asked of the page table and whatever
the pool. An address can be written exactly if it can be read and its page is writable. Then both
ways lead to the same place: the frame of the page, at the offset of the address, so that the bytes
are the same, up to the end of the page. A byte can be stored at each index of the view. It is kept
at the physical address that the index stands for, where the view shows it and every other view of
the pool that stands for this address, and no other byte is changed. Kernel addresses, and no
others, are refused as such both ways. -/
theorem views_agree (changes : List PageTable.Change) (pool : PagePool) (va : VirtAddr) :
    let t := PageTable.after changes
    let m : UserMemory := ⟨t, pool⟩
    (∀ view, m.translateWritable va = .ok view ↔
      m.translate va = .ok view ∧ t.isWritable va = true) ∧
    (∀ place, m.locateWritable va = .ok place ↔
      m.locate va = .ok place ∧ t.isWritable va = true) ∧
    (∀ view, m.translate va = .ok view → view.length = va.bytesToPageEnd ∧
      ∃ e place, t.entryAt? va = some e ∧ pool.frame? e.frame = some place.frame ∧
        place.position = va.pageOffset ∧ m.locate va = .ok place ∧ pool.bytesFrom place = view) ∧
    (∀ place, m.locateWritable va = .ok place → ∀ j < va.bytesToPageEnd, ∀ byte,
      ∃ a view pages, t.physicalFrom? va j = some a ∧
        pool.frame? a.pageStart = some place.frame ∧ a.pageOffset = place.position + j ∧
        pool.store place.frame (place.position + j) [byte] = .ok { pool with pages } ∧
        m.translateWritable va = .ok view ∧
        translateWritable ⟨t, { pool with pages }⟩ va = .ok (view.set j byte) ∧
        pool.Seen pages a byte) ∧
    ∀ x, (m.translate va = .error (.kernelAddress x) ↔ x = va ∧ userTop ≤ va.toNat) ∧
      (m.translateWritable va = .error (.kernelAddress x) ↔ x = va ∧ userTop ≤ va.toNat) := by
  intro t m
  have hs : t.Sound := PageTable.sound_after changes
  refine ⟨fun view => translateWritable_eq_ok_iff hs, fun place => locateWritable_eq_ok_iff hs,
    fun view hview => ⟨(view_of_translate hs hview).1, ?_⟩, fun place hplace j hj byte => ?_,
    fun x => ⟨translate_eq_kernelAddress_iff, translateWritable_eq_kernelAddress_iff⟩⟩
  · obtain ⟨place, hlocate, hbytes⟩ := translate_eq_ok_iff.mp hview
    obtain ⟨e, he, hframe, hposition⟩ := (locate_eq_ok_iff hs).mp hlocate
    exact ⟨e, place, he, hframe, hposition, hlocate, hbytes⟩
  · obtain ⟨hlocate, hw⟩ := (locateWritable_eq_ok_iff hs).mp hplace
    have hview : m.translate va = .ok (pool.bytesFrom place) :=
      translate_eq_ok_iff.mpr ⟨place, hlocate, rfl⟩
    obtain ⟨a, pages, ha, hframe, hoffset, hstore, hbyte⟩ := exists_store_at hs hplace hj byte
    have hafter : translate ⟨t, { pool with pages }⟩ va =
        .ok ((pool.bytesFrom place).set j byte) := by
      rw [translate_of_storeByte? hs hbyte, hview, ← showing_eq_set hs hview hj ha byte]
      rfl
    exact ⟨a, _, pages, ha, hframe, hoffset, hstore,
      (translateWritable_eq_ok_iff hs).mpr ⟨hview, hw⟩,
      (translateWritable_eq_ok_iff hs).mpr ⟨hafter, hw⟩, seen_of_storeByte? hbyte⟩

/-- Two processes share a frame, which only one of them may write. What it stores, in the middle of
its page, the other reads. -/
theorem views_agree_of_shared_frame :
    ∃ pages rest,
      locateWritable ⟨.after [.map (.ofNat 0x1000) (.ofNat poolBase) true], .user 1⟩
        (.ofNat 0x1001) = .ok ⟨⟨0, by decide⟩, 1, by decide⟩ ∧
      (PagePool.user 1).store ⟨0, by decide⟩ 4 [7] = .ok { PagePool.user 1 with pages } ∧
      translate ⟨.after [.clear, .map (.ofNat 0x5000) (.ofNat poolBase) false],
        { PagePool.user 1 with pages }⟩ (.ofNat 0x5004) = .ok (7 :: rest) := by
  have hplace : locateWritable ⟨.after [.map (.ofNat 0x1000) (.ofNat poolBase) true], .user 1⟩
      (.ofNat 0x1001) = .ok ⟨⟨0, by decide⟩, 1, by decide⟩ := by
    decide +kernel
  have hplaces : (PageTable.after [.map (.ofNat 0x1000) (.ofNat poolBase) true]).physicalFrom?
        (.ofNat 0x1001) 3 = some (.ofNat (poolBase + 4)) ∧
      (PageTable.after [.clear, .map (.ofNat 0x5000) (.ofNat poolBase) false]).translate?
        (.ofNat 0x5004) = some (.ofNat (poolBase + 4)) := by
    decide +kernel
  obtain ⟨-, -, -, hstores, -⟩ := views_agree [.map (.ofNat 0x1000) (.ofNat poolBase) true]
    (.user 1) (.ofNat 0x1001)
  obtain ⟨a, view, pages, ha, -, -, hstore, -, -, hseen⟩ := hstores _ hplace 3 (by decide) 7
  obtain rfl := Option.some.inj (hplaces.1.symm.trans ha)
  obtain ⟨rest, hread⟩ := hseen.read _ _ hplaces.2
  exact ⟨pages, rest, hplace, hstore, hread⟩

end UserMemory

end TeachingKernel
