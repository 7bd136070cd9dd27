import TeachingKernel.UserProcess

/-!
# Layouts

What matters of the processes for the frames they use: whether a process runs, and which frame is
behind which of its pages, writable or not. The marks of use and the open files are left aside.
-/

namespace TeachingKernel

namespace Address

/-- Two addresses of a page have the start of the page in common. -/
theorem pageStart_congr {s : Space} {a b : Address s} (h : a.pageNumber = b.pageNumber) :
    a.pageStart = b.pageStart := by
  ext
  rw [toNat_pageStart, toNat_pageStart, h]

/-- The user addresses are the pages below `userTop`. -/
theorem isUser_iff {va : VirtAddr} :
    va.isUser = true ↔ va.pageNumber * pageSize < userTop := by
  rw [isUser, decide_eq_true_eq]
  simp only [pageNumber, pageSize, userTop]
  omega

end Address

namespace PageTable

variable (t : PageTable) {u : PageTable} {va x : VirtAddr} {frame : PhysAddr} {writable : Bool}

/-- The frame behind the page that contains the address, and whether the page is writable. -/
def mapping? (va : VirtAddr) : Option (PhysAddr × Bool) :=
  (t.entryAt? va).map fun e => (e.frame, e.flags.writable)

theorem mapping?_congr (h : x.pageNumber = va.pageNumber) : t.mapping? x = t.mapping? va := by
  rw [mapping?, mapping?, entryAt?, entryAt?, h]

@[simp] theorem mapping?_empty (va : VirtAddr) : empty.mapping? va = none := by
  simp [mapping?]

theorem isMapped_eq_isSome (va : VirtAddr) : t.isMapped va = (t.mapping? va).isSome := by
  rw [isMapped, mapping?, Option.isSome_map]

/-- To touch a page leaves its frame. -/
@[simp] theorem mapping?_touch (va : VirtAddr) (write : Bool) (x : VirtAddr) :
    (t.touch va write).mapping? x = t.mapping? x := by
  rw [touch, mapping?, mapping?, entryAt?_modify]
  split
  · rw [Option.map_map]
    rfl
  · rfl

@[simp] theorem mapping?_clearAccessed (va x : VirtAddr) :
    (t.clearAccessed va).mapping? x = t.mapping? x := by
  rw [clearAccessed, mapping?, mapping?, entryAt?_modify]
  split
  · rw [Option.map_map]
    rfl
  · rfl

variable {t}

theorem mapping?_of_map (h : t.map va frame writable = .ok u) (x : VirtAddr) :
    u.mapping? x =
      if x.pageNumber = va.pageNumber then some (frame, writable) else t.mapping? x := by
  rw [mapping?, entryAt?_of_map h]
  split
  · rfl
  · rfl

/-- Only a user page that has no frame yet is mapped, and only to a whole frame. -/
theorem of_map_eq_ok (h : t.map va frame writable = .ok u) :
    va.isUser = true ∧ va.isAligned = true ∧ frame.isAligned = true ∧ t.mapping? va = none := by
  unfold map at h
  split at h
  · contradiction
  · rename_i huser
    split at h
    · contradiction
    · rename_i haligned
      split at h
      · contradiction
      · rename_i hfree
        rw [isMapped_eq_isSome, Option.not_isSome_iff_eq_none] at hfree
        simp only [Bool.or_eq_true, Bool.not_eq_true', not_or, Bool.not_eq_false] at haligned
        exact ⟨by simpa [Address.isKernel] using huser, haligned.1, haligned.2, hfree⟩

theorem mapping?_of_unmap (h : t.unmap va = .ok (frame, u)) (x : VirtAddr) :
    u.mapping? x = if x.pageNumber = va.pageNumber then none else t.mapping? x := by
  rw [mapping?, entryAt?_of_unmap h]
  split
  · rfl
  · rfl

/-- What is unmapped was mapped. -/
theorem of_unmap_eq_ok (h : t.unmap va = .ok (frame, u)) :
    ∃ writable, t.mapping? va = some (frame, writable) := by
  unfold unmap at h
  split at h
  · contradiction
  · rename_i e he
    cases h
    exact ⟨e.flags.writable, by rw [mapping?, he]; rfl⟩

theorem of_unmap_eq_error {error : MappingError} (h : t.unmap va = .error error) :
    t.mapping? va = none := by
  unfold unmap at h
  split at h
  · rename_i he
    rw [mapping?, he]
    rfl
  · contradiction

end PageTable

namespace Processes

variable {φ : Type} (ps : Processes φ) {ps' : Processes φ} {pid q : Pid} {va : VirtAddr}

def state? (pid : Pid) : Option ProcessState := (ps.get? pid).map (·.state)

def mapping? (pid : Pid) (va : VirtAddr) : Option (PhysAddr × Bool) :=
  (ps.get? pid).bind (·.pageTable.mapping? va)

theorem mapping?_congr {x : VirtAddr} (h : x.pageNumber = va.pageNumber) :
    ps.mapping? pid x = ps.mapping? pid va := by
  rw [mapping?, mapping?]
  congr 1
  funext p
  exact p.pageTable.mapping?_congr h

theorem running?_isSome_iff : (ps.running? pid).isSome = true ↔ ps.state? pid = some .running := by
  rw [running?, state?]
  cases ps.get? pid with
  | none => simp
  | some p => simp [Option.isSome_filter, UserProcess.isRunning]

theorem running?_eq_none_iff : ps.running? pid = none ↔ ps.state? pid ≠ some .running := by
  rw [ne_eq, ← ps.running?_isSome_iff, Option.not_isSome_iff_eq_none]

variable {ps}

theorem mapping?_of_get? {p : UserProcess φ} (h : ps.get? pid = some p) (va : VirtAddr) :
    ps.mapping? pid va = p.pageTable.mapping? va := by
  rw [mapping?, h]
  rfl

/-! ## Changes that keep the layout -/

structure SameLayout (ps ps' : Processes φ) : Prop where
  next_eq : ps'.next = ps.next
  state_eq : ∀ pid, ps'.state? pid = ps.state? pid
  mapping_eq : ∀ pid va, ps'.mapping? pid va = ps.mapping? pid va

theorem SameLayout.refl (ps : Processes φ) : ps.SameLayout ps := ⟨rfl, fun _ => rfl, fun _ _ => rfl⟩

theorem SameLayout.trans {ps'' : Processes φ} (h : ps.SameLayout ps') (h' : ps'.SameLayout ps'') :
    ps.SameLayout ps'' where
  next_eq := h'.next_eq.trans h.next_eq
  state_eq pid := (h'.state_eq pid).trans (h.state_eq pid)
  mapping_eq pid va := (h'.mapping_eq pid va).trans (h.mapping_eq pid va)

/-- The same processes run. -/
theorem SameLayout.running?_isSome_eq (h : ps.SameLayout ps') (pid : Pid) :
    (ps'.running? pid).isSome = (ps.running? pid).isSome := by
  rw [Bool.eq_iff_iff, running?_isSome_iff, running?_isSome_iff, h.state_eq]

theorem sameLayout_modify (pid : Pid) {f : UserProcess φ → UserProcess φ}
    (hs : ∀ p, (f p).state = p.state)
    (hm : ∀ p va, (f p).pageTable.mapping? va = p.pageTable.mapping? va) :
    ps.SameLayout (ps.modify pid f) where
  next_eq := rfl
  state_eq q := by
    rw [state?, state?, get?_modify]
    split
    · rw [Option.map_map]
      congr 1
      funext p
      exact hs p
    · rfl
  mapping_eq q va := by
    rw [mapping?, mapping?, get?_modify]
    split
    · rw [Option.bind_map]
      congr 1
      funext p
      exact hm p va
    · rfl

theorem sameLayout_clearAccessed (ps : Processes φ) (h : Holder) :
    ps.SameLayout (UseBits.clearAccessed ps h) :=
  sameLayout_modify h.pid (fun _ => rfl) fun p va => p.pageTable.mapping?_clearAccessed h.vaddr va

/-! ## Changes of the layout -/

@[simp] theorem state?_setTable (table : PageTable) :
    (ps.modify pid ({ · with pageTable := table })).state? q = ps.state? q := by
  rw [state?, state?, get?_modify]
  split
  · rw [Option.map_map]
    rfl
  · rfl

theorem mapping?_setTable {p : UserProcess φ} (h : ps.get? pid = some p) (table : PageTable) :
    (ps.modify pid ({ · with pageTable := table })).mapping? q va =
      if q = pid then table.mapping? va else ps.mapping? q va := by
  rw [mapping?, mapping?, get?_modify]
  split
  · rename_i hq
    rw [hq, h]
    rfl
  · rfl

structure Maps (ps ps' : Processes φ) (h : Holder) (frame : PhysAddr) (writable : Bool) : Prop where
  isUser : h.vaddr.isUser = true
  isAligned : h.vaddr.isAligned = true
  free : ps.mapping? h.pid h.vaddr = none
  next_eq : ps'.next = ps.next
  state_eq : ∀ q, ps'.state? q = ps.state? q
  mapping_eq : ∀ q x, ps'.mapping? q x =
    if q = h.pid ∧ x.pageNumber = h.vaddr.pageNumber then some (frame, writable)
    else ps.mapping? q x

theorem maps_setTable {p : UserProcess φ} {table : PageTable} {frame : PhysAddr} {writable : Bool}
    (hp : ps.get? pid = some p) (hm : p.pageTable.map va frame writable = .ok table) :
    ps.Maps (ps.modify pid ({ · with pageTable := table })) ⟨pid, va⟩ frame writable where
  isUser := (PageTable.of_map_eq_ok hm).1
  isAligned := (PageTable.of_map_eq_ok hm).2.1
  free := (mapping?_of_get? hp va).trans (PageTable.of_map_eq_ok hm).2.2.2
  next_eq := rfl
  state_eq _ := state?_setTable table
  mapping_eq q x := by
    rw [mapping?_setTable hp, PageTable.mapping?_of_map hm, ← mapping?_of_get? hp x]
    by_cases hq : q = pid
    · simp [hq]
    · simp [hq]

theorem Maps.of_sameLayout {ps'' : Processes φ} {h : Holder} {frame : PhysAddr} {writable : Bool}
    (hm : ps'.Maps ps'' h frame writable) (hs : ps.SameLayout ps') :
    ps.Maps ps'' h frame writable where
  isUser := hm.isUser
  isAligned := hm.isAligned
  free := (hs.mapping_eq h.pid h.vaddr).symm.trans hm.free
  next_eq := hm.next_eq.trans hs.next_eq
  state_eq q := (hm.state_eq q).trans (hs.state_eq q)
  mapping_eq q x := by
    rw [hm.mapping_eq, hs.mapping_eq]

structure Unmaps (ps ps' : Processes φ) (h : Holder) (frame : PhysAddr) : Prop where
  mapped : ∃ writable, ps.mapping? h.pid h.vaddr = some (frame, writable)
  next_eq : ps'.next = ps.next
  state_eq : ∀ q, ps'.state? q = ps.state? q
  mapping_eq : ∀ q x, ps'.mapping? q x =
    if q = h.pid ∧ x.pageNumber = h.vaddr.pageNumber then none else ps.mapping? q x

theorem unmaps_setTable {p : UserProcess φ} {table : PageTable} {frame : PhysAddr}
    (hp : ps.get? pid = some p) (hm : p.pageTable.unmap va = .ok (frame, table)) :
    ps.Unmaps (ps.modify pid ({ · with pageTable := table })) ⟨pid, va⟩ frame where
  mapped := by
    rw [mapping?_of_get? hp]
    exact PageTable.of_unmap_eq_ok hm
  next_eq := rfl
  state_eq _ := state?_setTable table
  mapping_eq q x := by
    rw [mapping?_setTable hp, PageTable.mapping?_of_unmap hm, ← mapping?_of_get? hp x]
    by_cases hq : q = pid
    · simp [hq]
    · simp [hq]

theorem state?_exit (status : Int32) :
    (ps.modify pid (·.exit status)).state? q =
      if q = pid then (ps.state? q).map fun _ => .exited status else ps.state? q := by
  rw [state?, state?, get?_modify]
  split
  · rw [Option.map_map, Option.map_map]
    rfl
  · rfl

theorem mapping?_exit (status : Int32) :
    (ps.modify pid (·.exit status)).mapping? q va = if q = pid then none else ps.mapping? q va := by
  rw [mapping?, mapping?, get?_modify]
  split
  · cases ps.get? q with
    | none => rfl
    | some p => exact PageTable.mapping?_empty va
  · rfl

theorem state?_forget : (ps.forget pid).state? q = if q = pid then none else ps.state? q := by
  rw [state?, state?, get?_forget]
  split
  · rfl
  · rfl

theorem mapping?_forget :
    (ps.forget pid).mapping? q va = if q = pid then none else ps.mapping? q va := by
  rw [mapping?, mapping?, get?_forget]
  split
  · rfl
  · rfl

/-- A process that is entered has the next number and no page. -/
theorem of_spawn_eq_ok {name : String} (h : ps.spawn name = .ok (pid, ps')) :
    pid.key = ps.next.toNat ∧ ps'.next.toNat = ps.next.toNat + 1 ∧
      ∀ q, ps'.get? q = if q = pid then some { pid, name } else ps.get? q := by
  unfold spawn at h
  split at h
  · contradiction
  · rename_i hnext
    cases h
    refine ⟨rfl, ?_, fun q => ?_⟩
    · have hlt := ps.next.toNat_lt
      have hne : ps.next.toNat + 1 ≠ 2 ^ 32 := by
        intro hc
        apply hnext
        apply UInt32.toNat_inj.mp
        simp [UInt32.toNat_add, hc]
      rw [UInt32.toNat_add]
      simp only [UInt32.reduceToNat]
      omega
    · simp only [get?, Std.ExtTreeMap.getElem?_insert, Std.LawfulEqCmp.compare_eq_iff_eq]
      by_cases hq : q = ⟨ps.next⟩
      · simp [hq]
      · have : Pid.key ⟨ps.next⟩ ≠ q.key := fun e => hq (Pid.key_injective e).symm
        simp [hq, this]

theorem state?_of_spawn {name : String} (h : ps.spawn name = .ok (pid, ps')) :
    ps'.state? q = if q = pid then some .running else ps.state? q := by
  rw [state?, state?, (of_spawn_eq_ok h).2.2]
  split
  · rfl
  · rfl

theorem mapping?_of_spawn {name : String} (h : ps.spawn name = .ok (pid, ps')) :
    ps'.mapping? q va = if q = pid then none else ps.mapping? q va := by
  rw [mapping?, mapping?, (of_spawn_eq_ok h).2.2]
  split
  · exact PageTable.mapping?_empty va
  · rfl

end Processes

end TeachingKernel
