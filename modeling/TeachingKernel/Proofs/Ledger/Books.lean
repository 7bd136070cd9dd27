import TeachingKernel.Proofs.Ledger.Sweep
import TeachingKernel.Proofs.Pool

/-!
# The books of a ledger

The loans, the pool and the counters of a ledger balance: every frame that the pool handed out is
lent exactly once, every loan has a holder, no holder holds two loans, and the counters tell how
many loans there are. The ring in which the loans are kept plays no part here; the loans are a list,
in any order.
-/

namespace TeachingKernel

/-- No holder occurs twice exactly if none does in one loan, none does in the others, and the loan
has no holder in common with the others. -/
theorem nodup_holders_middle {xs ys : List Loan} {loan : Loan} :
    ((xs ++ loan :: ys).flatMap Loan.holders).Nodup ↔
      loan.holders.Nodup ∧ ((xs ++ ys).flatMap Loan.holders).Nodup ∧
        ∀ holder ∈ loan.holders, holder ∉ (xs ++ ys).flatMap Loan.holders := by
  have hp : ((xs ++ loan :: ys).flatMap Loan.holders).Perm
      ((loan :: (xs ++ ys)).flatMap Loan.holders) := List.perm_middle.flatMap_right Loan.holders
  rw [hp.nodup_iff, List.flatMap_cons, List.nodup_append]
  constructor
  · rintro ⟨hl, ho, hd⟩
    exact ⟨hl, ho, fun a ha hc => hd a ha a hc rfl⟩
  · rintro ⟨hl, ho, hd⟩
    exact ⟨hl, ho, fun a ha b hb hc => hd a ha (hc ▸ hb)⟩

structure Balanced (pool : PagePool) (stats : LedgerStats) (epoch : Nat) (loans : List Loan) :
    Prop where
  sound : pool.Sound
  held : ∀ loan ∈ loans, loan.holders ≠ []
  holders_nodup : (loans.flatMap Loan.holders).Nodup
  frames_nodup : (loans.map Loan.frame).Nodup
  lent : ∀ loan ∈ loans, ∃ i, pool.taken.contains i = true ∧ loan.frame = pool.frameAddress i
  tracked : ∀ i, pool.taken.contains i = true → ∃ loan ∈ loans, loan.frame = pool.frameAddress i
  balance : stats.lent = stats.returned + loans.length
  used : ∀ loan ∈ loans, loan.lastUsed ≤ epoch

namespace Balanced

variable {pool : PagePool} {stats : LedgerStats} {epoch : Nat} {loans xs ys : List Loan}
  {loan : Loan}

theorem fresh (h : pool.Sound) (he : pool.taken = .empty) : Balanced pool {} 0 [] where
  sound := h
  held := by simp
  holders_nodup := List.nodup_nil
  frames_nodup := List.nodup_nil
  lent := by simp
  tracked i hi := by simp [he] at hi
  balance := rfl
  used := by simp

/-- The books do not depend on the order of the loans, nor on when the frames were used. -/
theorem of_terms {loans' : List Loan} (h : Balanced pool stats epoch loans)
    (hp : (loans'.map Loan.terms).Perm (loans.map Loan.terms))
    (hu : ∀ loan ∈ loans', loan.lastUsed ≤ epoch) : Balanced pool stats epoch loans' := by
  have hmem : ∀ {loan' : Loan}, loan' ∈ loans' →
      ∃ loan ∈ loans, loan.frame = loan'.frame ∧ loan.holders = loan'.holders := by
    intro loan' hm
    have : loan'.terms ∈ loans.map Loan.terms := hp.subset (List.mem_map_of_mem hm)
    obtain ⟨loan, hl, ht⟩ := List.mem_map.mp this
    exact ⟨loan, hl, (Prod.mk.inj ht).1, (Prod.mk.inj ht).2⟩
  have hframes : (loans'.map Loan.frame).Perm (loans.map Loan.frame) := by
    simpa [List.map_map, Function.comp_def, Loan.terms] using hp.map Prod.fst
  have hholders : (loans'.flatMap Loan.holders).Perm (loans.flatMap Loan.holders) := by
    have := hp.flatMap_right Prod.snd
    simpa [List.flatMap_map, Loan.terms] using this
  constructor
  · exact h.sound
  · intro loan' hm
    obtain ⟨loan, hl, _, hh⟩ := hmem hm
    rw [← hh]
    exact h.held loan hl
  · exact hholders.nodup_iff.mpr h.holders_nodup
  · exact hframes.nodup_iff.mpr h.frames_nodup
  · intro loan' hm
    obtain ⟨loan, hl, hf, _⟩ := hmem hm
    rw [← hf]
    exact h.lent loan hl
  · intro i hi
    obtain ⟨loan, hl, hf⟩ := h.tracked i hi
    have : loan.frame ∈ loans'.map Loan.frame := hframes.symm.subset (List.mem_map_of_mem hl)
    obtain ⟨loan', hl', hf'⟩ := List.mem_map.mp this
    exact ⟨loan', hl', hf'.trans hf⟩
  · rw [h.balance]
    have := hp.length_eq
    simp only [List.length_map] at this
    omega
  · exact hu

/-- Time may pass. -/
theorem advance (h : Balanced pool stats epoch loans) {later : Nat} (hl : epoch ≤ later) :
    Balanced pool stats later loans :=
  { h with used := fun loan hm => Nat.le_trans (h.used loan hm) hl }

/-! ## One loan among others -/

theorem holder_not_elsewhere (h : Balanced pool stats epoch (xs ++ loan :: ys)) {holder : Holder}
    (hm : holder ∈ loan.holders) : holder ∉ (xs ++ ys).flatMap Loan.holders :=
  (nodup_holders_middle.mp h.holders_nodup).2.2 holder hm

theorem frame_not_elsewhere (h : Balanced pool stats epoch (xs ++ loan :: ys)) :
    loan.frame ∉ (xs ++ ys).map Loan.frame := by
  have hd := h.frames_nodup
  rw [List.map_append, List.map_cons, List.nodup_middle, List.nodup_cons, ← List.map_append] at hd
  exact hd.1

/-- The holders of one loan may change, as long as they are no holders of another loan. -/
theorem replace (h : Balanced pool stats epoch (xs ++ loan :: ys)) {holders : List Holder}
    (hne : holders ≠ []) (hd : holders.Nodup)
    (hdisj : ∀ holder ∈ holders, holder ∉ (xs ++ ys).flatMap Loan.holders) :
    Balanced pool stats epoch (xs ++ { loan with holders } :: ys) := by
  have hframes : (xs ++ { loan with holders } :: ys).map Loan.frame =
      (xs ++ loan :: ys).map Loan.frame := by simp
  have hmem : ∀ {loan' : Loan}, loan' ∈ xs ++ { loan with holders } :: ys →
      loan' = { loan with holders } ∨ loan' ∈ xs ++ loan :: ys := by
    intro loan' hm
    simp only [List.mem_append, List.mem_cons] at hm ⊢
    tauto
  have hself : loan ∈ xs ++ loan :: ys := by simp
  constructor
  · exact h.sound
  · intro loan' hm
    rcases hmem hm with rfl | hm
    · exact hne
    · exact h.held loan' hm
  · obtain ⟨_, hothers, _⟩ := nodup_holders_middle.mp h.holders_nodup
    exact nodup_holders_middle.mpr ⟨hd, hothers, hdisj⟩
  · rw [hframes]
    exact h.frames_nodup
  · intro loan' hm
    rcases hmem hm with rfl | hm
    · exact h.lent loan hself
    · exact h.lent loan' hm
  · intro i hi
    obtain ⟨loan', hm, hf⟩ := h.tracked i hi
    have : pool.frameAddress i ∈ (xs ++ { loan with holders } :: ys).map Loan.frame := by
      rw [hframes, ← hf]
      exact List.mem_map_of_mem hm
    obtain ⟨loan'', hm', hf'⟩ := List.mem_map.mp this
    exact ⟨loan'', hm', hf'⟩
  · simpa using h.balance
  · intro loan' hm
    rcases hmem hm with rfl | hm
    · exact h.used loan hself
    · exact h.used loan' hm

/-- A new holder joins. -/
theorem join (h : Balanced pool stats epoch (xs ++ loan :: ys)) {holder : Holder}
    (hn : holder ∉ (xs ++ loan :: ys).flatMap Loan.holders) :
    Balanced pool stats epoch (xs ++ { loan with holders := loan.holders ++ [holder] } :: ys) := by
  obtain ⟨hd, _, _⟩ := nodup_holders_middle.mp h.holders_nodup
  rw [(List.perm_middle.flatMap_right Loan.holders).mem_iff, List.flatMap_cons, List.mem_append,
    not_or] at hn
  apply h.replace (by simp)
  · rw [List.nodup_append]
    refine ⟨hd, by simp, ?_⟩
    intro a ha b hb hc
    simp only [List.mem_singleton] at hb
    exact hn.1 (hb ▸ hc ▸ ha)
  · intro a ha
    rcases List.mem_append.mp ha with ha | ha
    · exact h.holder_not_elsewhere ha
    · simp only [List.mem_singleton] at ha
      rw [ha]
      exact hn.2

/-- Some of the holders leave, but not all. -/
theorem thin (h : Balanced pool stats epoch (xs ++ loan :: ys)) {rest : List Holder}
    (hs : rest.Sublist loan.holders) (hne : rest ≠ []) :
    Balanced pool stats epoch (xs ++ { loan with holders := rest } :: ys) := by
  obtain ⟨hd, _, _⟩ := nodup_holders_middle.mp h.holders_nodup
  exact h.replace hne (hd.sublist hs) fun a ha => h.holder_not_elsewhere (hs.subset ha)

/-- A loan ends, and its frame goes back to the pool. -/
theorem close (h : Balanced pool stats epoch (xs ++ loan :: ys)) :
    ∃ i, pool.taken.contains i = true ∧ loan.frame = pool.frameAddress i ∧
      Balanced (pool.takeBack i) { stats with returned := stats.returned + 1 } epoch
        (xs ++ ys) := by
  have hsub : ∀ loan' ∈ xs ++ ys, loan' ∈ xs ++ loan :: ys := by
    intro loan' hm
    simp only [List.mem_append, List.mem_cons] at hm ⊢
    tauto
  obtain ⟨i, hi, hf⟩ := h.lent loan (by simp)
  refine ⟨i, hi, hf, ?_⟩
  constructor
  · exact PagePool.sound_takeBack h.sound hi
  · intro loan' hm
    exact h.held loan' (hsub loan' hm)
  · exact (nodup_holders_middle.mp h.holders_nodup).2.1
  · have hd := h.frames_nodup
    rw [List.map_append, List.map_cons, List.nodup_middle, List.nodup_cons,
      ← List.map_append] at hd
    exact hd.2
  · intro loan' hm
    obtain ⟨j, hj, hfj⟩ := h.lent loan' (hsub loan' hm)
    refine ⟨j, ?_, hfj⟩
    have hne : i ≠ j := by
      rintro rfl
      exact h.frame_not_elsewhere (hf ▸ hfj ▸ List.mem_map_of_mem hm)
    change (pool.taken.erase i).contains j = true
    simp [hj, hne]
  · intro (j : Fin pool.total) hj
    change (pool.taken.erase i).contains j = true at hj
    simp only [Bitmap.contains_erase, Bool.and_eq_true, Bool.not_eq_true',
      decide_eq_false_iff_not] at hj
    obtain ⟨loan', hm, hfj⟩ := h.tracked j hj.1
    refine ⟨loan', ?_, hfj⟩
    have hne : loan' ≠ loan := by
      rintro rfl
      exact hj.2 (PagePool.frameAddress_injective h.sound (hf.symm.trans hfj))
    simp only [List.mem_append, List.mem_cons] at hm ⊢
    tauto
  · have := h.balance
    simp only [List.length_append, List.length_cons] at this ⊢
    omega
  · intro loan' hm
    exact h.used loan' (hsub loan' hm)

/-- A page that is not handed out is no frame that is lent. -/
theorem frame_ne_of_free (h : Balanced pool stats epoch loans) {i : Fin pool.total}
    (hi : pool.taken.contains i = false) : ∀ loan ∈ loans, loan.frame ≠ pool.frameAddress i := by
  intro loan hm hc
  obtain ⟨j, hj, hf⟩ := h.lent loan hm
  rw [PagePool.frameAddress_injective h.sound (hf.symm.trans hc)] at hj
  simp [hi] at hj

/-- A frame that was free is lent to its first holder. -/
theorem enter (h : Balanced pool stats epoch loans) {i : Fin pool.total}
    (hi : pool.taken.contains i = false) {holder : Holder}
    (hn : holder ∉ loans.flatMap Loan.holders) :
    Balanced (pool.handOut i) { stats with lent := stats.lent + 1 } (epoch + 1)
      (loans ++
        [{ frame := pool.frameAddress i, holders := [holder], lastUsed := epoch + 1 }]) := by
  have hnew := h.frame_ne_of_free hi
  constructor
  · exact PagePool.sound_handOut h.sound hi
  · intro loan hm
    rcases List.mem_append.mp hm with hm | hm
    · exact h.held loan hm
    · simp only [List.mem_singleton] at hm
      simp [hm]
  · rw [List.flatMap_append, List.nodup_append]
    refine ⟨h.holders_nodup, by simp, ?_⟩
    intro a ha b hb hc
    simp only [List.flatMap_cons, List.flatMap_nil, List.append_nil, List.mem_singleton] at hb
    exact hn (hb ▸ hc ▸ ha)
  · rw [List.map_append, List.nodup_append]
    refine ⟨h.frames_nodup, by simp, ?_⟩
    intro a ha b hb hc
    simp only [List.map_cons, List.map_nil, List.mem_singleton] at hb
    obtain ⟨loan, hm, hf⟩ := List.mem_map.mp ha
    exact hnew loan hm (hf.trans (hc.trans hb))
  · intro loan hm
    rcases List.mem_append.mp hm with hm | hm
    · obtain ⟨j, hj, hf⟩ := h.lent loan hm
      refine ⟨j, ?_, hf⟩
      change (pool.taken.insert i).contains j = true
      simp [hj]
    · simp only [List.mem_singleton] at hm
      refine ⟨i, ?_, by rw [hm]; rfl⟩
      change (pool.taken.insert i).contains i = true
      simp
  · intro (j : Fin pool.total) hj
    change (pool.taken.insert i).contains j = true at hj
    simp only [Bitmap.contains_insert, Bool.or_eq_true, decide_eq_true_eq] at hj
    rcases hj with hj | rfl
    · obtain ⟨loan, hm, hf⟩ := h.tracked j hj
      exact ⟨loan, List.mem_append_left _ hm, hf⟩
    · exact ⟨_, List.mem_append_right _ (List.mem_singleton.mpr rfl), rfl⟩
  · have := h.balance
    simp only [List.length_append, List.length_singleton]
    omega
  · intro loan hm
    rcases List.mem_append.mp hm with hm | hm
    · have := h.used loan hm
      omega
    · simp only [List.mem_singleton] at hm
      simp [hm]

/-! ## Counting -/

/-- There are as many loans as frames that are handed out. -/
theorem card_taken (h : Balanced pool stats epoch loans) :
    pool.taken.members.card = loans.length := by
  have himage : (loans.map Loan.frame).toFinset =
      pool.taken.members.image fun i => pool.frameAddress i := by
    ext a
    simp only [List.mem_toFinset, List.mem_map, Finset.mem_image, Bitmap.mem_members]
    constructor
    · rintro ⟨loan, hm, rfl⟩
      obtain ⟨i, hi, hf⟩ := h.lent loan hm
      exact ⟨i, hi, hf.symm⟩
    · rintro ⟨i, hi, rfl⟩
      exact h.tracked i hi
  have hcard := congrArg Finset.card himage
  rw [List.toFinset_card_of_nodup h.frames_nodup, List.length_map,
    Finset.card_image_of_injective _ fun _ _ he =>
      PagePool.frameAddress_injective h.sound he] at hcard
  exact hcard.symm

theorem free_add_length (h : Balanced pool stats epoch loans) :
    pool.free + loans.length = pool.total := by
  rw [← h.card_taken]
  exact h.sound.count

/-- A page is in use exactly if its frame is lent. -/
theorem inUse_iff (h : Balanced pool stats epoch loans) {a : PhysAddr} :
    pool.inUse a = true ↔ ∃ loan ∈ loans, loan.frame = a.pageStart := by
  rw [PagePool.inUse_iff h.sound]
  constructor
  · rintro ⟨i, hi, ha⟩
    obtain ⟨loan, hm, hf⟩ := h.tracked i hi
    exact ⟨loan, hm, hf.trans ha.symm⟩
  · rintro ⟨loan, hm, hf⟩
    obtain ⟨i, hi, hfi⟩ := h.lent loan hm
    exact ⟨i, hi, hf.symm.trans hfi⟩

end Balanced

end TeachingKernel
