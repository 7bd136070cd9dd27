import Mathlib.Data.Fintype.Card
import TeachingKernel.PagePool
import TeachingKernel.Proofs.Memory.Bytes

/-!
# The pool counts and finds its frames

A sound pool lies inside the address space, and its counter agrees with its bitmap. Then the address
of a frame and the frame of an address determine each other, a frame is handed out exactly if the
counter is not zero, and what was handed out can be taken back.
-/

namespace TeachingKernel

namespace Bitmap

variable {n : Nat} (b : Bitmap n) (i : Fin n)

def members : Finset (Fin n) := Finset.univ.filter (b.contains · = true)

@[simp] theorem mem_members : i ∈ b.members ↔ b.contains i = true := by simp [members]

theorem members_insert : (b.insert i).members = Insert.insert i b.members := by
  ext j
  simp only [mem_members, Finset.mem_insert, contains_insert, Bool.or_eq_true, decide_eq_true_eq]
  constructor
  · rintro (hj | hj)
    · exact .inr hj
    · exact .inl hj.symm
  · rintro (hj | hj)
    · exact .inr hj.symm
    · exact .inl hj

theorem members_erase : (b.erase i).members = b.members.erase i := by
  ext j
  simp only [mem_members, Finset.mem_erase, contains_erase, Bool.and_eq_true, Bool.not_eq_true',
    decide_eq_false_iff_not]
  constructor
  · rintro ⟨hj, hne⟩
    exact ⟨fun hc => hne hc.symm, hj⟩
  · rintro ⟨hne, hj⟩
    exact ⟨hj, fun hc => hne hc.symm⟩

end Bitmap

/-- An aligned address is the start of its page. -/
theorem Address.pageStart_of_isAligned {s : Space} {a : Address s} (h : a.isAligned = true) :
    a.pageStart = a := by
  simp only [isAligned, beq_iff_eq] at h
  ext
  simp [pageStart, h]

namespace PagePool

/-- The pool is a row of whole frames inside the address space, and it counts the free ones. -/
structure Sound (p : PagePool) : Prop where
  aligned : p.base.isAligned = true
  fits : p.base.toNat + p.total * pageSize ≤ addressBound
  count : p.free + p.taken.members.card = p.total

variable {p q : PagePool}

theorem sound_fresh {base : PhysAddr} {total : Nat} (ha : base.isAligned = true)
    (hf : base.toNat + total * pageSize ≤ addressBound) : (fresh base total).Sound where
  aligned := ha
  fits := hf
  count := by simp [fresh, Bitmap.members]

/-! ## Frames and their addresses -/

theorem toNat_frameAddress (h : p.Sound) (frame : Fin p.total) :
    (p.frameAddress frame).toNat = p.base.toNat + frame.val * pageSize := by
  have hf := h.fits
  have hlt := frame.isLt
  have hm : (frame.val + 1) * pageSize ≤ p.total * pageSize := Nat.mul_le_mul_right _ hlt
  have hp := pageSize_pos
  simp only [frameAddress, Address.offset, Address.ofNat]
  apply Nat.mod_eq_of_lt
  rw [Nat.add_mul] at hm
  omega

/-- A frame ends where addresses do, or before. -/
theorem frameAddress_add_pageSize_le (h : p.Sound) (frame : Fin p.total) :
    (p.frameAddress frame).toNat + pageSize ≤ addressBound := by
  have hend : (frame.val + 1) * pageSize ≤ p.total * pageSize := Nat.mul_le_mul_right _ frame.isLt
  have hfits := h.fits
  rw [toNat_frameAddress h]
  rw [Nat.succ_mul] at hend
  omega

theorem base_eq (h : p.Sound) : p.base.toNat = pageSize * p.base.pageNumber := by
  have ha := h.aligned
  simp only [Address.isAligned, beq_iff_eq] at ha
  have := p.base.toNat_pageStart_add_pageOffset
  rw [ha, Address.toNat_pageStart] at this
  omega

/-- A frame contains exactly the addresses whose page starts at the frame's address. -/
theorem frame?_eq_some_iff (h : p.Sound) {a : PhysAddr} {frame : Fin p.total} :
    p.frame? a = some frame ↔ a.pageStart = p.frameAddress frame := by
  have hb := base_eq h
  rw [Address.ext_iff, toNat_frameAddress h, Address.toNat_pageStart, Address.pageNumber]
  unfold frame?
  obtain ⟨f, hf⟩ := frame
  constructor
  · intro he
    split at he
    · simp only [Option.dite_none_right_eq_some, Option.some.injEq, Fin.mk.injEq] at he
      obtain ⟨_, he⟩ := he
      simp only [pageSize] at *
      omega
    · contradiction
  · intro he
    have hle : p.base.toNat ≤ a.toNat := by
      simp only [pageSize] at *
      omega
    have hdiv : (a.toNat - p.base.toNat) / pageSize = f := by
      simp only [pageSize] at *
      omega
    simp only [if_pos hle, hdiv, dif_pos hf]

theorem pageOffset_frameAddress (h : p.Sound) (frame : Fin p.total) :
    (p.frameAddress frame).pageOffset = 0 := by
  rw [Address.pageOffset, toNat_frameAddress h, base_eq h]
  simp only [pageSize]
  omega

theorem isAligned_frameAddress (h : p.Sound) (frame : Fin p.total) :
    (p.frameAddress frame).isAligned = true := by
  simp [Address.isAligned, pageOffset_frameAddress h]

theorem pageStart_frameAddress (h : p.Sound) (frame : Fin p.total) :
    (p.frameAddress frame).pageStart = p.frameAddress frame :=
  Address.pageStart_of_isAligned (isAligned_frameAddress h frame)

@[simp] theorem frame?_frameAddress (h : p.Sound) (frame : Fin p.total) :
    p.frame? (p.frameAddress frame) = some frame :=
  (frame?_eq_some_iff h).mpr (pageStart_frameAddress h frame)

theorem frameAddress_injective (h : p.Sound) {i j : Fin p.total}
    (he : p.frameAddress i = p.frameAddress j) : i = j := by
  have := frame?_frameAddress h i
  rw [he, frame?_frameAddress h] at this
  exact (Option.some.inj this).symm

/-- The pages in use are those of the frames that are handed out. -/
theorem inUse_iff (h : p.Sound) {a : PhysAddr} :
    p.inUse a = true ↔
      ∃ frame, p.taken.contains frame = true ∧ a.pageStart = p.frameAddress frame := by
  simp only [inUse, Option.any_eq_true, frame?_eq_some_iff h]
  constructor
  · rintro ⟨frame, he, ht⟩
    exact ⟨frame, ht, he⟩
  · rintro ⟨frame, ht, he⟩
    exact ⟨frame, he, ht⟩

/-! ## Handing out and taking back -/

theorem sound_handOut (h : p.Sound) {frame : Fin p.total}
    (ht : p.taken.contains frame = false) : (p.handOut frame).Sound where
  aligned := h.aligned
  fits := h.fits
  count := by
    have hn : frame ∉ p.taken.members := by simp [ht]
    have hlt : p.taken.members.card < p.total := by
      have := Finset.card_lt_univ_of_notMem hn
      simpa using this
    have hc := h.count
    change p.free - 1 + (p.taken.insert frame).members.card = p.total
    rw [Bitmap.members_insert, Finset.card_insert_of_notMem hn]
    omega

theorem sound_takeBack (h : p.Sound) {frame : Fin p.total}
    (ht : p.taken.contains frame = true) : (p.takeBack frame).Sound where
  aligned := h.aligned
  fits := h.fits
  count := by
    have hm : frame ∈ p.taken.members := by simp [ht]
    have hpos : 0 < p.taken.members.card := Finset.card_pos.mpr ⟨frame, hm⟩
    have hc := h.count
    change p.free + 1 + (p.taken.erase frame).members.card = p.total
    rw [Bitmap.members_erase, Finset.card_erase_of_mem hm]
    omega

/-- No frame is free exactly if the counter says so. -/
theorem lowestFree?_eq_none_iff_free (h : p.Sound) : p.lowestFree? = none ↔ p.free = 0 := by
  have hc := h.count
  rw [lowestFree?_eq_none_iff]
  constructor
  · intro hall
    have : p.taken.members = Finset.univ := by
      ext i
      simp [hall i]
    rw [this] at hc
    simpa using hc
  · intro hz frame
    have huniv : p.taken.members = Finset.univ := by
      apply Finset.eq_univ_of_card
      rw [Fintype.card_fin]
      omega
    rw [← Bitmap.mem_members, huniv]
    exact Finset.mem_univ _

theorem acquire_eq_none_iff (h : p.Sound) : p.acquire = none ↔ p.free = 0 := by
  unfold acquire
  split
  · simp_all
  · rename_i hf
    simp [lowestFree?_eq_none_iff_free h, hf]

/-- What is handed out is the lowest frame that was free. -/
theorem lowestFree?_of_acquire {a : PhysAddr} (ha : p.acquire = some (a, q)) :
    ∃ frame, p.lowestFree? = some frame ∧ a = p.frameAddress frame ∧ q = p.handOut frame ∧
      p.free ≠ 0 := by
  unfold acquire at ha
  split at ha
  · contradiction
  · rename_i hf
    obtain ⟨frame, hl, he⟩ := Option.map_eq_some_iff.mp ha
    obtain ⟨rfl, rfl⟩ := Prod.mk.inj he
    exact ⟨frame, hl, rfl, rfl, hf⟩

/-- What is handed out is a frame that was free. -/
theorem acquire_eq_some {a : PhysAddr} (ha : p.acquire = some (a, q)) :
    ∃ frame, p.taken.contains frame = false ∧ a = p.frameAddress frame ∧ q = p.handOut frame ∧
      p.free = q.free + 1 := by
  obtain ⟨frame, hl, rfl, rfl, hf⟩ := lowestFree?_of_acquire ha
  refine ⟨frame, (p.lowestFree?_eq_some_iff.mp hl).1, rfl, rfl, ?_⟩
  change p.free = p.free - 1 + 1
  omega

/-- A frame that is handed out can be taken back. -/
theorem release_of_taken (h : p.Sound) {frame : Fin p.total}
    (ht : p.taken.contains frame = true) :
    p.release (p.frameAddress frame) = .ok (p.takeBack frame) := by
  simp only [release, isAligned_frameAddress h, frame?_frameAddress h, ht, Bool.not_true,
    Bool.false_eq_true, if_false, if_true]

/-! ## Contents -/

structure SamePages (p q : PagePool) : Prop where
  base_eq : q.base = p.base
  total_eq : q.total = p.total
  page_eq : ∀ a, q.page? a = p.page? a

theorem SamePages.refl (p : PagePool) : p.SamePages p := ⟨rfl, rfl, fun _ => rfl⟩

theorem SamePages.trans {r : PagePool} (h : p.SamePages q) (h' : q.SamePages r) :
    p.SamePages r where
  base_eq := h'.base_eq.trans h.base_eq
  total_eq := h'.total_eq.trans h.total_eq
  page_eq a := (h'.page_eq a).trans (h.page_eq a)

theorem samePages_takeBack (frame : Fin p.total) : p.SamePages (p.takeBack frame) :=
  ⟨rfl, rfl, fun _ => rfl⟩

/-- The same frames are handed out; their contents may differ. -/
def SameUse (p q : PagePool) : Prop := ∃ pages, q = { p with pages := pages }

theorem SameUse.refl (p : PagePool) : p.SameUse p := ⟨p.pages, rfl⟩

theorem SameUse.trans {r : PagePool} (h : p.SameUse q) (h' : q.SameUse r) : p.SameUse r := by
  obtain ⟨pages, rfl⟩ := h
  obtain ⟨pages', rfl⟩ := h'
  exact ⟨pages', rfl⟩

/-- A store that fits into the page replaces the page of one frame. -/
theorem exists_store (p : PagePool) (frame : Fin p.total) {start : Nat} {src : Bytes}
    (h : start + src.length ≤ pageSize) :
    ∃ page, p.pages[frame].overwrite start src = .ok page ∧
      p.store frame start src = .ok { p with pages := p.pages.set frame page } := by
  obtain ⟨page, hp⟩ := p.pages[frame].exists_overwrite h
  exact ⟨page, hp, by simp only [store, hp, bind, Except.bind, pure, Except.pure]⟩

theorem sameUse_of_store {frame : Fin p.total} {start : Nat} {src : Bytes}
    (h : p.store frame start src = .ok q) : p.SameUse q := by
  cases hp : p.pages[frame].overwrite start src with
  | error d =>
    simp only [store, hp, bind, Except.bind] at h
    contradiction
  | ok page =>
    simp only [store, hp, bind, Except.bind, pure, Except.pure, Except.ok.injEq] at h
    exact ⟨_, h.symm⟩

/-- One page is replaced, and no other frame is touched. -/
theorem page?_set (frame : Fin p.total) (page : Page) (a : PhysAddr) :
    page? { p with pages := p.pages.set frame page frame.isLt } a =
      if p.frame? a = some frame then some page else p.page? a := by
  change (p.frame? a).map (fun i : Fin p.total => (p.pages.set frame page)[i]) = _
  cases hf : p.frame? a with
  | none => simp [page?, hf]
  | some i =>
    by_cases hi : i = frame
    · subst hi
      simp
    · have hne : frame.val ≠ i.val := fun hc => hi (Fin.ext hc.symm)
      simp [page?, hf, hi, Vector.getElem_set_ne, hne]

/-- A frame that is handed out is zeroed, and no other frame is touched. -/
theorem page?_handOut (frame : Fin p.total) (a : PhysAddr) :
    (p.handOut frame).page? a = if p.frame? a = some frame then some Page.zero else p.page? a :=
  page?_set frame Page.zero a

end PagePool

end TeachingKernel
