import TeachingKernel.Proofs.Memory.Storing

/-!
# Copies that fault

Before bytes are copied out the range is checked, and what the check goes by is the page table. The
store needs the frames too. So a range can pass whose pages are not all backed by frames of the
pool. The copy then breaks off at the first page without a frame, and what came before that page has
been stored. This is the only way in which a copy that faults changes the memory.
-/

namespace TeachingKernel

/-- Two steps that stay in the address space are one. -/
theorem Address.add?_add {s : Space} {a b : Address s} {n : Nat} (h : a.add? n = some b) (k : Nat) :
    a.add? (n + k) = b.add? k := by
  simp only [add?, toNat_of_add? h, Nat.add_assoc]

namespace UserMemory

variable {m : UserMemory} {va : VirtAddr} {src : Bytes} {q : PagePool}

/-- The page of the address is writable, but its frame is not one of the pool. -/
def LacksFrame (m : UserMemory) (va : VirtAddr) : Prop :=
  ∃ frame, m.table.mapping? va = some (frame, true) ∧ m.pool.frame? frame = none

/-! ## One page -/

/-- A writable page with a frame of the pool is writable. -/
theorem isWritable_of_mapping {frame : PhysAddr} {i : Fin m.pool.total} (hu : va.isUser = true)
    (hm : m.table.mapping? va = some (frame, true)) (hi : m.pool.frame? frame = some i) :
    m.contents.isWritable va.toNat = true := by
  rw [PrivateMemory.isWritable, ← Address.pageNumber, contents_pageNumber m hu, hm]
  simp only [Option.bind_some, PagePool.page?, hi, Option.map_some, Option.any_some]

theorem storeFrom_of_lacksFrame (hu : va.isUser = true) (hm : m.LacksFrame va)
    (hpos : 0 < src.length) : m.storeFrom va src = .ok (.error (.unmapped va), m.pool) := by
  obtain ⟨frame, hm, hnone⟩ := hm
  obtain ⟨e, he, hf⟩ := Option.map_eq_some_iff.mp hm
  obtain ⟨rfl, hw⟩ := Prod.mk.inj hf
  have hplace : m.locateWritable va = .error (.unmapped va) := by
    simp only [locateWritable, Address.isKernel, hu, Bool.not_true, Bool.false_eq_true, if_false,
      he, hw, hnone]
  rw [storeFrom, if_neg (Nat.ne_of_gt hpos), hplace]
  rfl

/-- Stores make no page writable, and none read-only, whatever frames the pages share. -/
theorem isWritable_of_sameUse (h : m.pool.SameUse q) (n : Nat) :
    ({ m with pool := q } : UserMemory).contents.isWritable n = m.contents.isWritable n := by
  obtain ⟨pages, rfl⟩ := h
  simp only [PrivateMemory.isWritable, contents, PrivateMemory.ofPages]
  split
  · cases m.table.mapping? (.ofPageNumber (n / pageSize)) with
    | none => rfl
    | some mapping =>
      simp only [Option.bind_some, PagePool.page?, PagePool.frame?]
      split
      · split <;> rfl
      · rfl
  · rfl

/-! ## All pages -/

/-- The beginning of the bytes, if it goes beyond their first piece, is stored the same way. -/
theorem storeFrom_take_piece {frame : PhysAddr} {i : Fin m.pool.total} {next : VirtAddr}
    {piece rest : Bytes} (hu : va.isUser = true) (hm : m.table.mapping? va = some (frame, true))
    (hi : m.pool.frame? frame = some i) (hpos : 0 < piece.length)
    (hroom : va.pageOffset + piece.length ≤ pageSize)
    (hend : rest = [] ∨ va.pageOffset + piece.length = pageSize)
    (hnext : va.add? piece.length = some next)
    (hstore : m.pool.store i va.pageOffset piece = .ok q) (n : Nat) :
    m.storeFrom va ((piece ++ rest).take (piece.length + n)) =
      ({ m with pool := q } : UserMemory).storeFrom next (rest.take n) := by
  have hend' : rest.take n = [] ∨ va.pageOffset + piece.length = pageSize := by
    rcases hend with rfl | hend
    · exact .inl List.take_nil
    · exact .inr hend
  rw [List.take_length_add_append, storeFrom_piece hu hm hi hpos hroom hend' hnext hstore]

/-- A range whose writing is promised is stored to its end, or up to the first page without a
frame. -/
theorem storeFrom_cases (hw : ∀ i < src.length, m.promise.isWritable (va.toNat + i) = true) :
    ((∀ i < src.length, m.contents.isWritable (va.toNat + i) = true) ∧
      ∃ q, m.storeFrom va src = .ok (.ok (), q)) ∨
    ∃ n x q, n < src.length ∧ va.add? n = some x ∧ m.LacksFrame x ∧
      (∀ i < n, m.contents.isWritable (va.toNat + i) = true) ∧
      m.storeFrom va src = .ok (.error (.unmapped x), q) ∧
      m.storeFrom va (src.take n) = .ok (.ok (), q) := by
  induction hn : src.length using Nat.strongRecOn generalizing m va src with
  | ind length ih =>
    rcases Nat.eq_zero_or_pos src.length with hz | hpos
    · obtain rfl : src = [] := List.length_eq_zero_iff.mp hz
      exact .inl ⟨fun i hi => absurd hi (by omega), m.pool, storeFrom_nil m va⟩
    · obtain ⟨hu, e, he, hflag⟩ := of_promise_isWritable (hw 0 hpos)
      have hm : m.table.mapping? va = some (e.frame, true) := by
        rw [PageTable.mapping?, he, Option.map_some, hflag]
      cases hframe : m.pool.frame? e.frame with
      | none =>
        have hlacks : m.LacksFrame va := ⟨e.frame, hm, hframe⟩
        refine .inr ⟨0, va, m.pool, by omega, dif_pos va.toNat_lt, hlacks,
          fun i hi => absurd hi (Nat.not_lt_zero i), storeFrom_of_lacksFrame hu hlacks hpos, ?_⟩
        rw [List.take_zero, storeFrom_nil]
      | some i =>
        obtain ⟨piece, rest, next, rfl, hpiece, hroom, hend, hnext⟩ := exists_piece hu hpos
        have hin : piece.length ≤ va.bytesToPageEnd := by
          rw [Address.bytesToPageEnd]
          omega
        obtain ⟨_, _, hstore⟩ := m.pool.exists_store i hroom
        obtain ⟨pages, hpages⟩ := PagePool.sameUse_of_store hstore
        rw [hpages] at hstore
        have hlength : (piece ++ rest).length = piece.length + rest.length := List.length_append
        have hfirst : m.contents.isWritable va.toNat = true := isWritable_of_mapping hu hm hframe
        have hsame : ∀ n, ({ m with pool := { m.pool with pages } } :
            UserMemory).contents.isWritable n = m.contents.isWritable n :=
          isWritable_of_sameUse ⟨pages, rfl⟩
        have hw' : ∀ j < rest.length, ({ m with pool := { m.pool with pages } } :
            UserMemory).promise.isWritable (next.toNat + j) = true := by
          intro j hj
          rw [Address.toNat_of_add? hnext, Nat.add_assoc]
          exact hw (piece.length + j) (by omega)
        -- the rest goes to the memory that has the piece in it already
        have hstep := storeFrom_piece hu hm hframe hpiece hroom hend hnext hstore
        have hrest := ih rest.length (by omega) hw' rfl
        simp only [hsame] at hrest
        rcases hrest with ⟨hall, q, hrun⟩ | ⟨n, x, q, hlt, hx, hlacks, hbefore, hrun, hprefix⟩
        · left
          refine ⟨fun j hj => ?_, q, hstep.trans hrun⟩
          exact PrivateMemory.isWritable_of_rest hin hnext hfirst hall (by omega)
        · right
          refine ⟨piece.length + n, x, q, by omega, ?_, hlacks, fun j hj => ?_, hstep.trans hrun,
            ?_⟩
          · rw [Address.add?_add hnext, hx]
          · exact PrivateMemory.isWritable_of_rest hin hnext hfirst hbefore hj
          · rw [storeFrom_take_piece hu hm hframe hpiece hroom hend hnext hstore, hprefix]

/-- If there is a frame behind every page, a copy that faults changes nothing, even if pages share
frames. -/
theorem pool_eq_of_fault (hb : m.Backed) {fault : Fault}
    (h : m.copyOut va src = .ok (.error fault, q)) : q = m.pool := by
  unfold copyOut at h
  split at h
  · cases h
    rfl
  · rename_i hpass
    have hpromise := (checkWritable_eq_ok_iff_promise m va src.length).mp hpass
    rcases storeFrom_cases hpromise with ⟨_, _, hrun⟩ | ⟨_, x, _, _, _, ⟨frame, hm, hnone⟩, _⟩
    · cases h.symm.trans hrun
    · obtain ⟨i, hi⟩ := hb x frame true hm
      cases hnone.symm.trans hi

/-- How a copy ends, whatever the memory looks like. A range that does not pass faults, and nothing
is stored. A range that passes is stored as a whole if each of its addresses is writable. Otherwise
there is a first address without a frame: there the copy faults, and exactly the bytes before it
have been stored. So a fault leaves the memory as it was if there is a frame behind every page. -/
theorem copyOut_outcome (m : UserMemory) (va : VirtAddr) (src : Bytes) :
    ((∃ fault, m.checkWritable va src.length = .error fault ∧
        m.copyOut va src = .ok (.error fault, m.pool)) ∨
      ((∀ i < src.length, m.contents.isWritable (va.toNat + i) = true) ∧
        ∃ q, m.copyOut va src = .ok (.ok (), q)) ∨
      ∃ n x q, n < src.length ∧ va.add? n = some x ∧ m.LacksFrame x ∧
        (∀ i < n, m.contents.isWritable (va.toNat + i) = true) ∧
        m.checkWritable va src.length = .ok () ∧
        m.copyOut va src = .ok (.error (.unmapped x), q) ∧
        m.copyOut va (src.take n) = .ok (.ok (), q) ∧
        (m.Separate → ({ m with pool := q } : UserMemory).contents =
          m.contents.store va.toNat (src.take n))) ∧
    (m.Backed → ∀ fault q, m.copyOut va src = .ok (.error fault, q) → q = m.pool) := by
  refine ⟨?_, fun hb fault q h => pool_eq_of_fault hb h⟩
  cases hc : m.checkWritable va src.length with
  | error fault => exact .inl ⟨fault, rfl, by simp only [copyOut, hc, pure, Except.pure]⟩
  | ok _ =>
    right
    have hpromise := (checkWritable_eq_ok_iff_promise m va src.length).mp hc
    have hcopy : m.copyOut va src = m.storeFrom va src := by simp only [copyOut, hc]
    rw [hcopy]
    rcases storeFrom_cases hpromise with hall | ⟨n, x, q, hlt, hx, hlacks, hw, hrun, hprefix⟩
    · exact .inl hall
    · right
      have htake : (src.take n).length = n := by
        rw [List.length_take]
        omega
      have hpass : m.checkWritable va (src.take n).length = .ok () := by
        rw [htake, checkWritable_eq_ok_iff_promise]
        exact fun i hi => hpromise i (by omega)
      refine ⟨n, x, q, hlt, hx, hlacks, hw, rfl, hrun, ?_, fun hs => ?_⟩
      · simp only [copyOut, hpass, hprefix]
      · obtain ⟨q', hrun', _, hcontents, _⟩ := storeFrom_spec hs (htake ▸ hw)
        cases hprefix.symm.trans hrun'
        exact hcontents

set_option synthInstance.maxSize 512 in
/-- Four bytes are copied out across the border of two pages. If there is no second page, the copy
faults and nothing is stored. If there is one whose frame is not one of the pool, the copy faults in
the same way, and the first two bytes are in the memory. -/
theorem copyOut_outcome_of_foreign_frame :
    ∃ (t t' : PageTable) (q : PagePool),
      PageTable.empty.map (.ofNat 0x1000) (.ofNat poolBase) true = .ok t ∧
      t.map (.ofNat 0x2000) (.ofNat 0) true = .ok t' ∧
      (⟨t, .user 1⟩ : UserMemory).Backed ∧
      (⟨t, .user 1⟩ : UserMemory).copyOut (.ofNat 0x1ffe) [1, 2, 3, 4] =
        .ok (.error (.unmapped (.ofNat 0x2000)), .user 1) ∧
      (⟨t', .user 1⟩ : UserMemory).Separate ∧
      (⟨t', .user 1⟩ : UserMemory).copyOut (.ofNat 0x1ffe) [1, 2, 3, 4] =
        .ok (.error (.unmapped (.ofNat 0x2000)), q) ∧
      (⟨t', .user 1⟩ : UserMemory).contents.byte? 0x1ffe = some 0 ∧
      (⟨t', q⟩ : UserMemory).contents.byte? 0x1ffe = some 1 := by
  -- the faults and the byte before, computed at once
  have hanswers : (do
      let t ← PageTable.empty.map (.ofNat 0x1000) (.ofNat poolBase) true
      let t' ← t.map (.ofNat 0x2000) (.ofNat 0) true
      let m : UserMemory := ⟨t', .user 1⟩
      return (m.contents.byte? 0x1ffe, m.checkWritable (.ofNat 0x1ffe) 4,
        ((⟨t, .user 1⟩ : UserMemory).copyOut (.ofNat 0x1ffe) [1, 2, 3, 4]).map Prod.fst,
        (m.copyOut (.ofNat 0x1ffe) [1, 2, 3, 4]).map Prod.fst)) =
      .ok (some 0, .ok (), .ok (.error (.unmapped (.ofNat 0x2000))),
        .ok (.error (.unmapped (.ofNat 0x2000)))) := by
    decide +kernel
  cases hfirst : PageTable.empty.map (.ofNat 0x1000) (.ofNat poolBase) true with
  | error error =>
    rw [hfirst] at hanswers
    cases hanswers
  | ok t =>
    cases hsecond : t.map (.ofNat 0x2000) (.ofNat 0) true with
    | error error =>
      simp only [hfirst, hsecond, bind, Except.bind] at hanswers
      cases hanswers
    | ok t' =>
      simp only [hfirst, hsecond, bind, Except.bind, pure, Except.pure, Except.ok.injEq,
        Prod.mk.injEq] at hanswers
      obtain ⟨hbyte, hpass, hrefused, hfault⟩ := hanswers
      have hown : (PagePool.user 1).frame? (.ofNat poolBase) = some ⟨0, Nat.one_pos⟩ := by decide
      have hforeign : (PagePool.user 1).frame? (.ofNat 0) = none := by decide
      have hb : (⟨t, .user 1⟩ : UserMemory).Backed := by
        intro va f w hva
        simp only [PageTable.mapping?_of_map hfirst, PageTable.mapping?_empty] at hva
        grind
      have hs : (⟨t', .user 1⟩ : UserMemory).Separate := by
        intro va x f g w w' hva hx i hf hg
        simp only [PageTable.mapping?_of_map hsecond, PageTable.mapping?_of_map hfirst,
          PageTable.mapping?_empty] at hva hx
        grind
      have huntouched : (⟨t, .user 1⟩ : UserMemory).copyOut (.ofNat 0x1ffe) [1, 2, 3, 4] =
          .ok (.error (.unmapped (.ofNat 0x2000)), .user 1) := by
        cases hrun : (⟨t, .user 1⟩ : UserMemory).copyOut (.ofNat 0x1ffe) [1, 2, 3, 4] with
        | error d =>
          rw [hrun] at hrefused
          cases hrefused
        | ok out =>
          obtain ⟨answer, q⟩ := out
          rw [hrun] at hrefused
          obtain rfl : answer = .error (.unmapped (.ofNat 0x2000)) := Except.ok.inj hrefused
          rw [(copyOut_outcome ⟨t, .user 1⟩ _ _).2 hb _ q hrun]
      rcases (copyOut_outcome ⟨t', .user 1⟩ (.ofNat 0x1ffe) [1, 2, 3, 4]).1 with
        ⟨_, hrefused, _⟩ | ⟨_, _, hrun⟩ | ⟨n, x, q, _, hx, _, _, _, hrun, _, hcontents⟩
      · cases hpass.symm.trans hrefused
      · rw [hrun] at hfault
        cases hfault
      · rw [hrun] at hfault
        obtain rfl : x = .ofNat 0x2000 := by
          simpa [Except.map] using hfault
        obtain rfl : n = 2 := by
          have := Address.toNat_of_add? hx
          simp only [Address.ofNat, addressBound] at this
          omega
        refine ⟨t, t', q, rfl, hsecond, hb, huntouched, hs, hrun, hbyte, ?_⟩
        have hstored := congrArg (PrivateMemory.byte? · 0x1ffe) (hcontents hs)
        simp only [PrivateMemory.byte?_store, hbyte] at hstored
        exact hstored

end UserMemory

end TeachingKernel
