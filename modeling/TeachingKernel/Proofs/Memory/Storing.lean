import TeachingKernel.Proofs.Memory.Contents
import TeachingKernel.Proofs.Pool

/-!
# Storing in user memory

A store goes page by page. If no two pages of the memory share a frame, what comes of it is the
private memory with the bytes stored in it, and the frames that the memory does not use are left
alone. The range is checked before, and if it does not pass nothing is stored.
-/

namespace TeachingKernel

/-- Behind each user address the address space goes on to the end of the page. -/
theorem Address.exists_add? {va : VirtAddr} {n : Nat} (hu : va.isUser = true)
    (hn : n ≤ va.bytesToPageEnd) : ∃ next, va.add? n = some next := by
  have huser : va.toNat < userTop := by simpa [isUser] using hu
  have hbound : va.toNat + n < addressBound := by
    simp only [bytesToPageEnd, userTop, pageSize, addressBound] at *
    omega
  exact ⟨_, dif_pos hbound⟩

/-- A piece that lies in one page changes no other page. -/
theorem UserPage.store_of_ne {page : UserPage} {number : Nat} {va : VirtAddr} {src : Bytes}
    (hroom : va.pageOffset + src.length ≤ pageSize) (hn : number ≠ va.pageNumber) :
    page.store number va.toNat src = page := by
  ext i
  · simp only [store, List.getD_eq_getElem?_getD]
    split
    · have hi := i.isLt
      have hout : src.length ≤ number * pageSize + i - va.toNat := by
        simp only [Address.pageOffset, Address.pageNumber, pageSize] at *
        omega
      rw [List.getElem?_eq_none hout]
      rfl
    · rfl
  · rfl

/-- A piece that lies in one page changes this page from its offset on. -/
theorem UserPage.bytes_store {page : UserPage} {va : VirtAddr} {src : Bytes} (i : Fin pageSize) :
    (page.store va.pageNumber va.toNat src).bytes i =
      if va.pageOffset ≤ i then src.getD (i - va.pageOffset) (page.bytes i) else page.bytes i := by
  have hva : va.pageNumber * pageSize + va.pageOffset = va.toNat :=
    Nat.div_add_mod' va.toNat pageSize
  simp only [store]
  by_cases hi : va.pageOffset ≤ i.val
  · rw [if_pos hi, if_pos (by omega)]
    congr 1
    omega
  · rw [if_neg hi, if_neg (by omega)]

namespace UserMemory

variable {m : UserMemory} {va : VirtAddr} {src : Bytes} {q : PagePool}

/-- No two pages have the same frame behind them. -/
def Separate (m : UserMemory) : Prop :=
  ∀ va x f g w w', m.table.mapping? va = some (f, w) → m.table.mapping? x = some (g, w') →
    ∀ i, m.pool.frame? f = some i → m.pool.frame? g = some i → x.pageNumber = va.pageNumber

/-- A store into one page. -/
theorem contents_store (hs : m.Separate) {frame : PhysAddr} {w : Bool} {i : Fin m.pool.total}
    {page : Page} (hm : m.table.mapping? va = some (frame, w)) (hi : m.pool.frame? frame = some i)
    (hroom : va.pageOffset + src.length ≤ pageSize)
    (hp : m.pool.pages[i].overwrite va.pageOffset src = .ok page) :
    ({ m with pool := { m.pool with pages := m.pool.pages.set i page } } : UserMemory).contents =
      m.contents.store va.toNat src := by
  funext number
  simp only [contents, PrivateMemory.ofPages, PrivateMemory.store]
  split
  · rename_i hlt
    have hbound : number * pageSize < addressBound := by
      simp only [userTop, addressBound] at hlt ⊢
      omega
    have hnumber : (Address.ofPageNumber number : VirtAddr).pageNumber = number :=
      Address.pageNumber_ofPageNumber hbound
    cases hx : m.table.mapping? (.ofPageNumber number) with
    | none => rfl
    | some mapping =>
      obtain ⟨g, w'⟩ := mapping
      simp only [Option.bind_some]
      rw [PagePool.page?_set]
      by_cases hg : m.pool.frame? g = some i
      · have hva : number = va.pageNumber := by
          rw [← hnumber]
          exact hs _ _ _ _ _ _ hm hx i hi hg
        rw [if_pos hg, PagePool.page?, hg]
        simp only [Option.map_some, Option.some.injEq]
        refine UserPage.ext (funext fun j => ?_) rfl
        rw [hva, UserPage.bytes_store]
        exact Page.byte_of_overwrite hp j
      · have hva : number ≠ va.pageNumber := by
          intro hc
          have hsame := m.table.mapping?_congr (hnumber.trans hc)
          rw [hx, hm] at hsame
          cases hsame
          exact hg hi
        rw [if_neg hg]
        cases m.pool.page? g with
        | none => rfl
        | some page' => simp [UserPage.store_of_ne hroom hva]
  · rfl

/-- What makes an address writable: a user page with a frame of the pool. -/
theorem of_isWritable (h : m.contents.isWritable va.toNat = true) :
    va.isUser = true ∧ ∃ frame i, m.table.mapping? va = some (frame, true) ∧
      m.pool.frame? frame = some i := by
  by_cases hu : va.isUser = true
  · refine ⟨hu, ?_⟩
    rw [PrivateMemory.isWritable, ← Address.pageNumber, contents_pageNumber m hu,
      Option.any_eq_true] at h
    obtain ⟨page, hpage, hw⟩ := h
    obtain ⟨⟨frame, writable⟩, hm, hp⟩ := Option.bind_eq_some_iff.mp hpage
    obtain ⟨p, hframe, rfl⟩ := Option.map_eq_some_iff.mp hp
    obtain ⟨i, hi, _⟩ := Option.map_eq_some_iff.mp hframe
    obtain rfl : writable = true := hw
    exact ⟨frame, i, hm, hi⟩
  · have hle : userTop ≤ va.toNat := by simpa [Address.isUser] using hu
    rw [m.isWritable_of_userTop_le hle] at h
    contradiction

theorem locateWritable_of_mapping {frame : PhysAddr} {i : Fin m.pool.total}
    (hu : va.isUser = true) (hm : m.table.mapping? va = some (frame, true))
    (hi : m.pool.frame? frame = some i) :
    m.locateWritable va = .ok ⟨i, va.pageOffset, va.pageOffset_lt⟩ := by
  obtain ⟨e, he, hf⟩ := Option.map_eq_some_iff.mp hm
  obtain ⟨rfl, hw⟩ := Prod.mk.inj hf
  simp only [locateWritable, Address.isKernel, hu, Bool.not_true, Bool.false_eq_true, if_false, he,
    hw, hi]

/-! ## Storing -/

@[simp] theorem storeFrom_nil (m : UserMemory) (va : VirtAddr) :
    m.storeFrom va [] = .ok (.ok (), m.pool) := by
  rw [storeFrom, if_pos List.length_nil]
  rfl

/-- A piece that ends where the bytes or their page ends is stored, and the rest behind it. -/
theorem storeFrom_piece {frame : PhysAddr} {i : Fin m.pool.total} {next : VirtAddr}
    {piece rest : Bytes} (hu : va.isUser = true) (hm : m.table.mapping? va = some (frame, true))
    (hi : m.pool.frame? frame = some i) (hpos : 0 < piece.length)
    (hroom : va.pageOffset + piece.length ≤ pageSize)
    (hend : rest = [] ∨ va.pageOffset + piece.length = pageSize)
    (hnext : va.add? piece.length = some next)
    (hstore : m.pool.store i va.pageOffset piece = .ok q) :
    m.storeFrom va (piece ++ rest) = ({ m with pool := q } : UserMemory).storeFrom next rest := by
  have hlength : (piece ++ rest).length = piece.length + rest.length := List.length_append
  have hcount : min (pageSize - va.pageOffset) (piece ++ rest).length = piece.length := by
    rcases hend with rfl | hend
    · rw [List.append_nil]
      omega
    · omega
  have hslice : (piece ++ rest).slice 0 piece.length = .ok piece := by
    rw [Bytes.slice, if_pos (by omega), List.drop_zero, List.take_left]
  rw [storeFrom, if_neg (by omega)]
  simp only [locateWritable_of_mapping hu hm hi, hcount, hslice, hstore, bind, Except.bind]
  by_cases hrest : rest.length = 0
  · rw [if_pos (by omega), List.length_eq_zero_iff.mp hrest, storeFrom_nil]
    rfl
  · rw [if_neg (by omega), hnext]
    simp only [List.drop_left]

/-- Bytes that are to be stored begin with a piece that ends where they or their page ends. -/
theorem exists_piece (hu : va.isUser = true) (hpos : 0 < src.length) :
    ∃ piece rest next, src = piece ++ rest ∧ 0 < piece.length ∧
      va.pageOffset + piece.length ≤ pageSize ∧
      (rest = [] ∨ va.pageOffset + piece.length = pageSize) ∧
      va.add? piece.length = some next := by
  have hpage : va.bytesToPageEnd = pageSize - va.pageOffset := rfl
  have hend := va.bytesToPageEnd_pos
  have hlength : (src.take va.bytesToPageEnd).length = min va.bytesToPageEnd src.length :=
    List.length_take
  obtain ⟨next, hnext⟩ := Address.exists_add? hu (hlength ▸ Nat.min_le_left _ _)
  refine ⟨src.take va.bytesToPageEnd, src.drop va.bytesToPageEnd, next,
    (List.take_append_drop _ _).symm, by omega, by omega, ?_, hnext⟩
  by_cases hfits : src.length ≤ va.bytesToPageEnd
  · exact .inl (List.drop_of_length_le hfits)
  · right
    omega

/-- Bytes that are stored in a writable range are in the memory afterwards, and the frames that the
memory does not use are as they were. -/
theorem storeFrom_spec (hs : m.Separate)
    (hw : ∀ i < src.length, m.contents.isWritable (va.toNat + i) = true) :
    ∃ q, m.storeFrom va src = .ok (.ok (), q) ∧ m.pool.SameUse q ∧
      ({ m with pool := q } : UserMemory).contents = m.contents.store va.toNat src ∧
      ∀ a, (∀ x f w, m.table.mapping? x = some (f, w) →
        ∀ i, m.pool.frame? f = some i → m.pool.frame? a ≠ some i) → q.page? a = m.pool.page? a := by
  induction hn : src.length using Nat.strongRecOn generalizing m va src with
  | ind length ih =>
    rcases Nat.eq_zero_or_pos src.length with hz | hpos
    · obtain rfl : src = [] := List.length_eq_zero_iff.mp hz
      exact ⟨m.pool, storeFrom_nil m va, .refl _, (m.contents.store_nil _).symm, fun _ _ => rfl⟩
    · obtain ⟨hu, frame, i, hm, hi⟩ := of_isWritable (hw 0 hpos)
      obtain ⟨piece, rest, next, rfl, hpiece, hroom, hend, hnext⟩ := exists_piece hu hpos
      obtain ⟨page, hp, hstore⟩ := m.pool.exists_store i hroom
      have hlength : (piece ++ rest).length = piece.length + rest.length := List.length_append
      have hcontents := contents_store hs hm hi hroom hp
      have hs' : ({ m with pool := { m.pool with pages := m.pool.pages.set i page } } :
          UserMemory).Separate := hs
      have hw' : ∀ j < rest.length,
          ({ m with pool := { m.pool with pages := m.pool.pages.set i page } } :
            UserMemory).contents.isWritable (next.toNat + j) = true := by
        intro j hj
        rw [hcontents, PrivateMemory.isWritable_store, Address.toNat_of_add? hnext, Nat.add_assoc]
        exact hw (piece.length + j) (by omega)
      obtain ⟨q, hrun, huse, hq, hsame⟩ := ih rest.length (by omega) hs' hw' rfl
      rw [storeFrom_piece hu hm hi hpiece hroom hend hnext hstore]
      refine ⟨q, hrun, .trans ⟨_, rfl⟩ huse, ?_, fun a ha => ?_⟩
      · rw [hcontents, Address.toNat_of_add? hnext, PrivateMemory.store_store] at hq
        exact hq
      · rw [hsame a ha, PagePool.page?_set, if_neg (ha va frame true hm i hi)]

/-! ## Checking before -/

/-- Every page has a frame of the pool behind it. -/
def Backed (m : UserMemory) : Prop :=
  ∀ va f w, m.table.mapping? va = some (f, w) → ∃ i, m.pool.frame? f = some i

/-- The entry of a page shows in the contents. -/
theorem entryAt?_eq (hb : m.Backed) (hu : va.isUser = true) :
    (m.table.entryAt? va).map (·.flags.writable) =
      (m.contents va.pageNumber).map (·.writable) := by
  rw [contents_pageNumber m hu]
  cases he : m.table.entryAt? va with
  | none => simp [PageTable.mapping?, he]
  | some e =>
    have hm : m.table.mapping? va = some (e.frame, e.flags.writable) := by
      rw [PageTable.mapping?, he]
      rfl
    obtain ⟨i, hi⟩ := hb _ _ _ hm
    simp [hm, PagePool.page?, hi]

/-- What the page table promises: the same pages, as if each of them had a frame of the pool. -/
def promise (m : UserMemory) : PrivateMemory := .ofPages m.table.mapping? fun _ => some .zero

theorem promise_isWritable (hu : va.isUser = true) :
    m.promise.isWritable va.toNat = (m.table.entryAt? va).any (·.flags.writable) := by
  rw [PrivateMemory.isWritable, ← Address.pageNumber, promise,
    PrivateMemory.ofPages_pageNumber hu fun _ h => m.table.mapping?_congr h, PageTable.mapping?]
  cases m.table.entryAt? va <;> rfl

theorem promise_isWritable_of_userTop_le {n : Nat} (h : userTop ≤ n) :
    m.promise.isWritable n = false := by
  rw [PrivateMemory.isWritable, promise, PrivateMemory.ofPages_of_userTop_le h]
  rfl

/-- The promise is kept if there is a frame behind every page. -/
theorem promise_isWritable_of_backed (hb : m.Backed) (n : Nat) :
    m.promise.isWritable n = m.contents.isWritable n := by
  rw [PrivateMemory.isWritable, PrivateMemory.isWritable, promise, contents,
    PrivateMemory.ofPages, PrivateMemory.ofPages]
  split
  · cases hm : m.table.mapping? (.ofPageNumber (n / pageSize)) with
    | none => rfl
    | some mapping =>
      obtain ⟨i, hi⟩ := hb _ mapping.1 mapping.2 hm
      simp only [Option.bind_some, PagePool.page?, hi, Option.map_some, Option.any_some]
  · rfl

/-- What it takes to promise that an address is writable: a user page with a writable entry. -/
theorem of_promise_isWritable (h : m.promise.isWritable va.toNat = true) :
    va.isUser = true ∧ ∃ e, m.table.entryAt? va = some e ∧ e.flags.writable = true := by
  by_cases hu : va.isUser = true
  · rw [promise_isWritable hu, Option.any_eq_true] at h
    exact ⟨hu, h⟩
  · have hle : userTop ≤ va.toNat := by simpa [Address.isUser] using hu
    rw [promise_isWritable_of_userTop_le hle] at h
    contradiction

@[simp] theorem checkWritable_zero (m : UserMemory) (va : VirtAddr) :
    m.checkWritable va 0 = .ok () := by
  rw [checkWritable, if_pos rfl]

/-- A page that is promised to be writable passes, and the check goes on behind it. -/
theorem checkWritable_of_promise {length : Nat} (hpos : 0 < length)
    (hw : m.promise.isWritable va.toNat = true) :
    ∃ next, va.add? va.bytesToPageEnd = some next ∧
      m.checkWritable va length = m.checkWritable next (length - va.bytesToPageEnd) := by
  obtain ⟨hu, e, he, hflag⟩ := of_promise_isWritable hw
  obtain ⟨next, hnext⟩ := Address.exists_add? hu (Nat.le_refl _)
  have hleft : length - min va.bytesToPageEnd length = length - va.bytesToPageEnd := by omega
  refine ⟨next, hnext, ?_⟩
  rw [checkWritable, if_neg (by omega)]
  simp only [Address.isKernel, hu, Bool.not_true, Bool.false_eq_true, if_false, he, hflag, hleft,
    hnext]
  split
  · rename_i hz
    rw [hz, checkWritable_zero]
  · rfl

/-- Any other page faults, but never because the range leaves the address space. -/
theorem checkWritable_of_no_promise {length : Nat} (hpos : 0 < length)
    (hw : m.promise.isWritable va.toNat = false) :
    ∃ fault, m.checkWritable va length = .error fault ∧ fault ≠ .overflow := by
  rw [checkWritable, if_neg (by omega)]
  by_cases hu : va.isUser = true
  · rw [promise_isWritable hu] at hw
    simp only [Address.isKernel, hu, Bool.not_true, Bool.false_eq_true, if_false]
    cases he : m.table.entryAt? va with
    | none => exact ⟨_, rfl, by simp⟩
    | some e =>
      rw [he, Option.any_some] at hw
      simp only [hw, Bool.not_false, if_true]
      exact ⟨_, rfl, by simp⟩
  · simp only [Address.isKernel, hu, Bool.not_false, if_true]
    exact ⟨_, rfl, by simp⟩

/-- A range passes exactly if each of its addresses is promised to be writable. -/
theorem checkWritable_eq_ok_iff_promise (m : UserMemory) (va : VirtAddr) (length : Nat) :
    m.checkWritable va length = .ok () ↔
      ∀ i < length, m.promise.isWritable (va.toNat + i) = true := by
  induction length using Nat.strongRecOn generalizing va with
  | ind length ih =>
    rcases Nat.eq_zero_or_pos length with rfl | hpos
    · simp
    cases hw : m.promise.isWritable va.toNat with
    | false =>
      obtain ⟨fault, hfault, _⟩ := checkWritable_of_no_promise hpos hw
      rw [hfault]
      constructor
      · intro hc
        contradiction
      · intro hall
        have := hall 0 hpos
        rw [Nat.add_zero, hw] at this
        contradiction
    | true =>
      obtain ⟨next, hnext, hcheck⟩ := checkWritable_of_promise hpos hw
      have hpage := va.bytesToPageEnd_pos
      rw [hcheck, ih _ (by omega)]
      constructor
      · intro hall i hi
        exact PrivateMemory.isWritable_of_rest (Nat.le_refl _) hnext hw hall (by omega)
      · intro hall i hi
        rw [Address.toNat_of_add? hnext, Nat.add_assoc]
        exact hall _ (by omega)

/-- If there is a frame behind every page, a range passes exactly if each of its addresses is
writable. -/
theorem checkWritable_eq_ok_iff (hb : m.Backed) (va : VirtAddr) (length : Nat) :
    m.checkWritable va length = .ok () ↔
      ∀ i < length, m.contents.isWritable (va.toNat + i) = true := by
  simp only [checkWritable_eq_ok_iff_promise, promise_isWritable_of_backed hb]

/-- To check a range never leaves the address space: it ends with the user addresses at the latest.
-/
theorem checkWritable_ne_overflow (m : UserMemory) (va : VirtAddr) (length : Nat) :
    m.checkWritable va length ≠ .error .overflow := by
  induction length using Nat.strongRecOn generalizing va with
  | ind length ih =>
    rcases Nat.eq_zero_or_pos length with rfl | hpos
    · simp
    cases hw : m.promise.isWritable va.toNat with
    | false =>
      obtain ⟨fault, hfault, hne⟩ := checkWritable_of_no_promise hpos hw
      rw [hfault]
      exact fun hc => hne (Except.error.inj hc)
    | true =>
      obtain ⟨next, _, hcheck⟩ := checkWritable_of_promise hpos hw
      have hpage := va.bytesToPageEnd_pos
      rw [hcheck]
      exact ih _ (by omega) next

/-- To copy out either stores all bytes, if the range is writable, or nothing. -/
theorem copyOut_spec (hs : m.Separate) (hb : m.Backed) (va : VirtAddr) (src : Bytes) :
    ((∀ i < src.length, m.contents.isWritable (va.toNat + i) = true) ∧
      ∃ q, m.copyOut va src = .ok (.ok (), q) ∧ m.pool.SameUse q ∧
        ({ m with pool := q } : UserMemory).contents = m.contents.store va.toNat src ∧
        ∀ a, (∀ x f w, m.table.mapping? x = some (f, w) →
          ∀ i, m.pool.frame? f = some i → m.pool.frame? a ≠ some i) → q.page? a = m.pool.page? a) ∨
      (¬ ∀ i < src.length, m.contents.isWritable (va.toNat + i) = true) ∧
        ∃ fault, m.copyOut va src = .ok (.error fault, m.pool) := by
  have hcheck := checkWritable_eq_ok_iff hb va src.length
  cases hc : m.checkWritable va src.length with
  | ok _ =>
    left
    have hw := hcheck.mp hc
    refine ⟨hw, ?_⟩
    simp only [copyOut, hc]
    exact storeFrom_spec hs hw
  | error fault =>
    right
    refine ⟨fun hw => ?_, fault, by simp only [copyOut, hc, pure, Except.pure]⟩
    rw [hcheck.mpr hw] at hc
    contradiction

/-- Whatever the memory looks like, a store hands no frame out and takes none back. -/
theorem sameUse_of_storeFrom {answer : Except Fault Unit}
    (h : m.storeFrom va src = .ok (answer, q)) : m.pool.SameUse q := by
  induction hn : src.length using Nat.strongRecOn generalizing m va src with
  | ind length ih =>
    rw [storeFrom] at h
    split at h
    · cases h
      exact .refl _
    · split at h
      · cases h
        exact .refl _
      · rename_i hz place hplace
        have hposition := place.position_lt
        cases hslice : src.slice 0 (min (pageSize - place.position) src.length) with
        | error d =>
          simp only [hslice, bind, Except.bind] at h
          contradiction
        | ok chunk =>
          cases hstore : m.pool.store place.frame place.position chunk with
          | error d =>
            simp only [hslice, hstore, bind, Except.bind] at h
            contradiction
          | ok pool =>
            have huse := PagePool.sameUse_of_store hstore
            simp only [hslice, hstore, bind, Except.bind] at h
            split at h
            · cases h
              exact huse
            · split at h
              · cases h
                exact huse
              · have hdrop : (src.drop (min (pageSize - place.position) src.length)).length <
                    length := by
                  rw [List.length_drop]
                  omega
                exact huse.trans (ih _ hdrop h rfl)

theorem sameUse_of_copyOut {answer : Except Fault Unit}
    (h : m.copyOut va src = .ok (answer, q)) : m.pool.SameUse q := by
  unfold copyOut at h
  split at h
  · cases h
    exact .refl _
  · exact sameUse_of_storeFrom h

end UserMemory

end TeachingKernel
