import TeachingKernel.Proofs.Ledger.Keeps

/-!
# Who holds which frame

The loans of a ledger as a relation between frames and holders, and what the operations do to it. A
holder holds at most one frame.
-/

namespace TeachingKernel.FrameLedger

def Lends (es : List (Nat × Loan)) (frame : PhysAddr) (holder : Holder) : Prop :=
  ∃ e ∈ es, e.2.frame = frame ∧ holder ∈ e.2.holders

variable {l : FrameLedger} {es es' xs ys : List (Nat × Loan)} {slot : Nat} {loan : Loan}
  {frame f : PhysAddr} {holder g : Holder}

theorem not_lends_nil : ¬ Lends [] f g := by
  rintro ⟨e, he, _⟩
  contradiction

/-- To turn the ring changes nothing. -/
theorem lends_of_isRotated (h : (outline es').IsRotated (outline es)) :
    Lends es' f g ↔ Lends es f g := by
  have hiff : ∀ es, Lends es f g ↔ ∃ k ∈ outline es, k.2.1 = f ∧ g ∈ k.2.2 := by
    intro es
    simp [Lends, outline, Loan.terms]
  rw [hiff, hiff]
  constructor
  · rintro ⟨k, hk, hf⟩
    exact ⟨k, h.perm.subset hk, hf⟩
  · rintro ⟨k, hk, hf⟩
    exact ⟨k, h.perm.symm.subset hk, hf⟩

theorem lends_middle :
    Lends (xs ++ (slot, loan) :: ys) f g ↔
      (loan.frame = f ∧ g ∈ loan.holders) ∨ Lends (xs ++ ys) f g := by
  simp only [Lends, List.mem_append, List.mem_cons]
  constructor
  · rintro ⟨e, he | rfl | he, hf⟩
    · exact .inr ⟨e, .inl he, hf⟩
    · exact .inl hf
    · exact .inr ⟨e, .inr he, hf⟩
  · rintro (hf | ⟨e, he | he, hf⟩)
    · exact ⟨_, .inr (.inl rfl), hf⟩
    · exact ⟨e, .inl he, hf⟩
    · exact ⟨e, .inr (.inr he), hf⟩

theorem lends_enter {epoch : Nat} :
    Lends (es ++ [(slot, ⟨frame, [holder], epoch, false⟩)]) f g ↔
      Lends es f g ∨ f = frame ∧ g = holder := by
  rw [lends_middle, List.append_nil, List.mem_singleton]
  constructor
  · rintro (⟨rfl, rfl⟩ | h)
    · exact .inr ⟨rfl, rfl⟩
    · exact .inl h
  · rintro (h | ⟨rfl, rfl⟩)
    · exact .inr h
    · exact .inl ⟨rfl, rfl⟩

theorem lends_join :
    Lends (xs ++ (slot, { loan with holders := loan.holders ++ [holder] }) :: ys) f g ↔
      Lends (xs ++ (slot, loan) :: ys) f g ∨ f = loan.frame ∧ g = holder := by
  rw [lends_middle, lends_middle, List.mem_append, List.mem_singleton]
  constructor
  · rintro (⟨hf, hg | hg⟩ | h)
    · exact .inl (.inl ⟨hf, hg⟩)
    · exact .inr ⟨hf.symm, hg⟩
    · exact .inl (.inr h)
  · rintro ((⟨hf, hg⟩ | h) | ⟨hf, hg⟩)
    · exact .inl ⟨hf, .inl hg⟩
    · exact .inr h
    · exact .inl ⟨hf.symm, .inr hg⟩

/-- Whoever goes takes all its holdings along. -/
theorem lends_dismiss {pid : Pid} : Lends (dismiss pid es) f g ↔ Lends es f g ∧ g.pid ≠ pid := by
  constructor
  · rintro ⟨e', he', hf, hg⟩
    obtain ⟨e, he, rfl⟩ := List.mem_map.mp he'
    obtain ⟨hm, hp⟩ := List.mem_filter.mp hg
    exact ⟨⟨e, (List.mem_filter.mp he).1, hf, hm⟩, by simpa using hp⟩
  · rintro ⟨⟨e, he, hf, hg⟩, hp⟩
    have hkept : (!e.2.onlyHeldBy pid) = true := by
      rw [Bool.not_eq_true', Loan.onlyHeldBy, List.all_eq_false]
      exact ⟨g, hg, by simpa using hp⟩
    exact ⟨_, List.mem_map_of_mem (List.mem_filter.mpr ⟨he, hkept⟩), hf,
      List.mem_filter.mpr ⟨hg, by simpa using hp⟩⟩

/-! ## In a ledger that keeps its loans -/

namespace Keeps

/-- A frame that is lent is one of the pool that is handed out. -/
theorem taken_of_lends (h : l.Keeps es) (hl : Lends es f g) :
    ∃ i, l.pool.taken.contains i = true ∧ f = l.pool.frameAddress i := by
  obtain ⟨e, he, rfl, _⟩ := hl
  exact h.books.lent e.2 (List.mem_map_of_mem he)

theorem inUse_of_lends (h : l.Keeps es) (hl : Lends es f g) : l.pool.inUse f = true := by
  obtain ⟨i, hi, rfl⟩ := h.taken_of_lends hl
  exact (PagePool.inUse_iff h.books.sound).mpr
    ⟨i, hi, PagePool.pageStart_frameAddress h.books.sound i⟩

/-- A page is in use exactly if somebody holds it. -/
theorem inUse_iff_lends (h : l.Keeps es) {a : PhysAddr} :
    l.pool.inUse a = true ↔ ∃ g, Lends es a.pageStart g := by
  rw [h.books.inUse_iff]
  constructor
  · rintro ⟨loan, hm, hf⟩
    obtain ⟨e, he, rfl⟩ := List.mem_map.mp hm
    obtain ⟨g, hg⟩ := List.exists_mem_of_ne_nil _ (h.books.held e.2 hm)
    exact ⟨g, e, he, hf, hg⟩
  · rintro ⟨g, e, he, hf, _⟩
    exact ⟨e.2, List.mem_map_of_mem he, hf⟩

theorem pageStart_of_lends (h : l.Keeps es) (hl : Lends es f g) : f.pageStart = f := by
  obtain ⟨i, _, rfl⟩ := h.taken_of_lends hl
  exact PagePool.pageStart_frameAddress h.books.sound i

theorem exists_page_of_lends (h : l.Keeps es) (hl : Lends es f g) :
    ∃ page, l.pool.page? f = some page := by
  obtain ⟨i, _, rfl⟩ := h.taken_of_lends hl
  rw [PagePool.page?, PagePool.frame?_frameAddress h.books.sound]
  exact ⟨_, rfl⟩

/-- A frame that is not handed out is not lent. -/
theorem not_lends_of_free (h : l.Keeps es) {i : Fin l.pool.total}
    (hi : l.pool.taken.contains i = false) (g : Holder) :
    ¬ Lends es (l.pool.frameAddress i) g := by
  intro hl
  obtain ⟨j, hj, he⟩ := h.taken_of_lends hl
  obtain rfl := PagePool.frameAddress_injective h.books.sound he
  rw [hi] at hj
  contradiction

/-- To hand a frame out leaves those alone that are lent. -/
theorem page?_handOut_of_lends (h : l.Keeps es) {i : Fin l.pool.total}
    (hi : l.pool.taken.contains i = false) (hl : Lends es f g) :
    (l.pool.handOut i).page? f = l.pool.page? f := by
  rw [PagePool.page?_handOut, if_neg]
  intro hf
  apply h.not_lends_of_free hi g
  rw [← (PagePool.frame?_eq_some_iff h.books.sound).mp hf]
  obtain ⟨j, _, rfl⟩ := h.taken_of_lends hl
  rwa [PagePool.pageStart_frameAddress h.books.sound]

/-- Without a holder no frame is lent. -/
theorem free_eq_total (h : l.Keeps es) (hn : ∀ f g, ¬ Lends es f g) :
    l.pool.free = l.pool.total := by
  have hnil : es = [] := by
    apply List.eq_nil_iff_forall_not_mem.mpr
    intro e he
    obtain ⟨g, hg⟩ := List.exists_mem_of_ne_nil _ (h.books.held e.2 (List.mem_map_of_mem he))
    exact hn e.2.frame g ⟨e, he, rfl, hg⟩
  have := h.books.free_add_length
  rw [hnil] at this
  exact this

/-- There is one loan of a frame. -/
theorem not_lends_elsewhere (h : l.Keeps (xs ++ (slot, loan) :: ys)) (g : Holder) :
    ¬ Lends (xs ++ ys) loan.frame g := by
  rintro ⟨e, he, hf, _⟩
  have hb := h.books
  rw [List.map_append, List.map_cons] at hb
  apply hb.frame_not_elsewhere
  rw [← hf, ← List.map_append, List.map_map]
  exact List.mem_map.mpr ⟨e, he, rfl⟩

/-- A holder holds one frame. -/
theorem frame_eq_of_lends {f' : PhysAddr} (h : l.Keeps es) (hl : Lends es f g)
    (hl' : Lends es f' g) : f' = f := by
  obtain ⟨⟨slot, loan⟩, he, rfl, hg⟩ := hl
  obtain ⟨xs, ys, rfl⟩ := List.append_of_mem he
  rcases lends_middle.mp hl' with ⟨hf, _⟩ | ⟨e', he', _, hg'⟩
  · exact hf.symm
  · have hb := h.books
    rw [List.map_append, List.map_cons] at hb
    apply absurd _ (hb.holder_not_elsewhere hg)
    rw [← List.map_append, List.flatMap_map]
    exact List.mem_flatMap.mpr ⟨e', he', hg'⟩

theorem nodup_holders (h : l.Keeps (xs ++ (slot, loan) :: ys)) : loan.holders.Nodup := by
  have hb := h.books
  rw [List.map_append, List.map_cons] at hb
  exact (nodup_holders_middle.mp hb.holders_nodup).1

/-- To strike a holder out leaves the others. -/
theorem mem_eraseP_iff (h : l.Keeps (xs ++ (slot, loan) :: ys)) :
    g ∈ loan.holders.eraseP (· = holder) ↔ g ≠ holder ∧ g ∈ loan.holders := by
  have := h.nodup_holders.mem_erase_iff (a := g) (b := holder)
  rwa [List.erase_eq_eraseP'] at this

/-- To let go of a mapping ends what the holder has of the frame, and nothing else. -/
theorem releaseMapping (h : l.Keeps es) (holder : Holder) (frame : PhysAddr) :
    ∃ answer l' es', l.releaseMapping holder frame = .ok (answer, l') ∧ l'.Keeps es' ∧
      (∀ f g, Lends es' f g ↔ Lends es f g ∧ ¬ (f = frame ∧ g = holder)) ∧
      l'.policy = l.policy ∧ l.pool.SamePages l'.pool := by
  have hsame : ¬ Lends es frame holder →
      ∀ f g, Lends es f g ↔ Lends es f g ∧ ¬ (f = frame ∧ g = holder) := by
    intro hn f g
    constructor
    · intro hl
      exact ⟨hl, fun ⟨hf, hg⟩ => hn (hf ▸ hg ▸ hl)⟩
    · exact And.left
  rcases h.releaseWhere frame (· = holder) with ⟨hrun, hf⟩ | ⟨xs, slot, loan, ys, rfl, rfl, hrun⟩
  · refine ⟨_, l, es, hrun, h, hsame ?_, rfl, .refl _⟩
    rintro ⟨e, he, hc, _⟩
    exact hf e he hc
  · have hothers := h.not_lends_elsewhere
    have hleft : ∀ f g, (loan.frame = f ∧ g ∈ loan.holders.eraseP (· = holder)) ∨
        Lends (xs ++ ys) f g ↔
        Lends (xs ++ (slot, loan) :: ys) f g ∧ ¬ (f = loan.frame ∧ g = holder) := by
      intro f g
      rw [lends_middle, h.mem_eraseP_iff]
      constructor
      · rintro (⟨rfl, hne, hg⟩ | hl)
        · exact ⟨.inl ⟨rfl, hg⟩, fun hc => hne hc.2⟩
        · constructor
          · exact .inr hl
          · rintro ⟨rfl, rfl⟩
            exact hothers _ hl
      · rintro ⟨⟨rfl, hg⟩ | hl, hne⟩
        · exact .inl ⟨rfl, fun hc => hne ⟨rfl, hc⟩, hg⟩
        · exact .inr hl
    rcases h.letGo (· = holder) with ⟨hgo, hn⟩ |
      ⟨_, ⟨loans', _, hgo, hk⟩ | ⟨i, loans', hnil, _, hgo, hk⟩⟩
    · refine ⟨_, l, _, hrun.trans hgo, h, hsame ?_, rfl, .refl _⟩
      rw [lends_middle]
      rintro (⟨_, hg⟩ | hl)
      · simpa using hn holder hg
      · exact hothers _ hl
    · refine ⟨_, _, _, hrun.trans hgo, hk, ?_, rfl, .refl _⟩
      intro f g
      rw [lends_middle]
      exact hleft f g
    · refine ⟨_, _, _, hrun.trans hgo, hk, ?_, rfl, PagePool.samePages_takeBack i⟩
      intro f g
      rw [← hleft, hnil]
      simp

/-- What is answered to a holder that lets go of a frame that is lent: that it never had it, and
nothing has changed, or that the frame went back to the pool, or that it has other holders. -/
theorem releaseMapping_answer (h : l.Keeps es) {l' : FrameLedger} {release : Release}
    (hlent : Lends es frame g) (hrun : l.releaseMapping holder frame = .ok (release, l')) :
    ¬ Lends es frame holder ∧ release = .notReferenced ∧ l' = l ∨
      Lends es frame holder ∧
        (release = .freed ∧ (∀ g, Lends es frame g → g = holder) ∨
          ∃ n, release = .shared n ∧ ∃ g, g ≠ holder ∧ Lends es frame g) := by
  rcases h.releaseWhere frame (· = holder) with
    ⟨_, hf⟩ | ⟨xs, slot, loan, ys, rfl, rfl, hwhere⟩
  · obtain ⟨e, he, hc, _⟩ := hlent
    exact absurd hc (hf e he)
  · have hmem : ∀ g, Lends (xs ++ (slot, loan) :: ys) loan.frame g ↔ g ∈ loan.holders := by
      intro g
      rw [lends_middle, or_iff_left (h.not_lends_elsewhere g), and_iff_right rfl]
    simp only [hmem]
    have hgo := hwhere.symm.trans hrun
    rcases h.letGo (· = holder) with ⟨hgo', hn⟩ |
      ⟨⟨_, hheld, ht⟩, hcases⟩
    · cases hgo'.symm.trans hgo
      exact .inl ⟨fun hc => by simpa using hn holder hc, rfl, rfl⟩
    · obtain rfl := of_decide_eq_true ht
      refine .inr ⟨hheld, ?_⟩
      rcases hcases with ⟨loans', hne, hgo', _⟩ | ⟨i, loans', hnil, _, hgo', _⟩
      · cases hgo'.symm.trans hgo
        obtain ⟨other, hother⟩ := List.exists_mem_of_ne_nil _ hne
        exact .inr ⟨_, rfl, other, h.mem_eraseP_iff.mp hother⟩
      · cases hgo'.symm.trans hgo
        refine .inl ⟨rfl, fun g hg => ?_⟩
        by_contra hne
        have := h.mem_eraseP_iff.mpr ⟨hne, hg⟩
        rw [hnil] at this
        contradiction

end Keeps

end TeachingKernel.FrameLedger
