import Mathlib.Data.List.Find
import Mathlib.Data.List.TakeWhile
import TeachingKernel.Proofs.Ledger.Scan

/-!
# The choice of a victim

From the loans and the marks one reads off which loans the hand goes over, which of them it
refreshes, and at which one it stops. In the end the victim is the last of the ring.

Main statement: `Keeps.stopsAt`.
-/

namespace TeachingKernel

section Choice

variable {σ : Type} [UseBits σ] {bits : σ} {epoch : Nat} {loan : Loan} {scanned : List Loan}

/-- The loan after the hand went over some loans. -/
def Loan.after (loan : Loan) (scanned : List Loan) (epoch : Nat) (bits : σ) : Loan :=
  if loan ∈ scanned then loan.passed epoch bits else loan

@[simp] theorem Loan.frame_after : (loan.after scanned epoch bits).frame = loan.frame := by
  unfold after
  split <;> simp

/-- A loan stays chosen unless the hand went over it and found it used. -/
theorem Loan.chosen_after : (loan.after scanned epoch bits).chosen = true ↔
    loan.chosen = true ∧ ¬ (loan ∈ scanned ∧ loan.isHot bits = true) := by
  unfold after
  split
  · rename_i hm
    simp [chosen_passed, hm]
  · rename_i hm
    simp [hm]

/-- The first loan that the policy takes, or else the first that is open, or else the first that was
used, or else the one under the hand. -/
def Policy.choice? (policy : Policy) (epoch : Nat) (bits : σ) (loans : List Loan) : Option Loan :=
  (loans.find? (policy.takes epoch bits)).or ((loans.find? (·.isOpen bits)).or
    ((loans.find? (·.isHot bits)).or loans.head?))

theorem Policy.choice?_map_snd (policy : Policy) (es : List (Nat × Loan)) :
    policy.choice? epoch bits (es.map Prod.snd) =
      ((es.find? fun e => policy.takes epoch bits e.2).or
        (((es.find? fun e => e.2.isOpen bits).or (es.find? fun e => e.2.isHot bits)).or
          es.head?)).map Prod.snd := by
  simp [choice?, List.find?_map, Option.map_or, Option.or_assoc]

/-- The clock takes what it would fall back on. -/
theorem Policy.choice?_clock (loans : List Loan) : Policy.clock.choice? epoch bits loans =
    (loans.find? (·.isOpen bits)).or ((loans.find? (·.isHot bits)).or loans.head?) := by
  have htakes : (Policy.clock.takes epoch bits : Loan → Bool) = fun loan => loan.isOpen bits :=
    funext fun _ => takes_clock
  rw [choice?, htakes, ← Option.or_assoc, Option.or_self]

end Choice

namespace FrameLedger

variable {σ : Type} [UseBits σ] {bits bits' : σ} {policy : Policy} {epoch : Nat}
  {l l' : FrameLedger} {es es' : List (Nat × Loan)} {e : Nat × Loan} {loans : List Loan}

/-! ## What a choice does -/

/-- What it means that the hand went over some loans and a victim was chosen. The marks of the
scanned loans are cleared, and those that were used count as used now. The hand stands behind the
victim, and nothing else is changed. -/
structure StopsAt (l : FrameLedger) (loans : List Loan) (bits : σ) (scanned : List Loan)
    (victim : Loan) (l' : FrameLedger) (bits' : σ) : Prop where
  run : l.pickVictim bits = .ok (some victim.frame, l', bits')
  turned : ∃ pre post, loans = pre ++ victim :: post ∧
    l'.toList = .ok ((post ++ pre).map (·.after scanned l.epoch bits) ++
      [{ victim.after scanned l.epoch bits with chosen := true }]) ∧
    l'.handFrame? = .ok ((post ++ pre ++ [victim]).head?.map Loan.frame)
  accessed : ∀ k, UseBits.isAccessed bits' k =
    (UseBits.isAccessed bits k && decide (k ∉ scanned.flatMap Loan.holders))
  dirty : ∀ k, UseBits.isDirty bits' k = UseBits.isDirty bits k
  pool_eq : l'.pool = l.pool
  policy_eq : l'.policy = l.policy
  epoch_eq : l'.epoch = l.epoch
  stats_eq : l'.stats = { l.stats with victimScans := l.stats.victimScans + 1 }

variable [LawfulUseBits σ] [SparesDirt σ]

/-- The hand goes over the loans up to the first that the policy takes, and finds the one that is to
be chosen. -/
theorem sweep_finds (policy : Policy) (epoch : Nat) (bits : σ)
    (hnodup : ((e :: es).flatMap fun e => e.2.holders).Nodup) :
    ∃ scanned rest pre slot loan post, e :: es = scanned ++ rest ∧
      scanned = (e :: es).takeWhile (fun e => !policy.takes epoch bits e.2) ∧
      e :: es = pre ++ (slot, loan) :: post ∧
      policy.choice? epoch bits ((e :: es).map Prod.snd) = some loan ∧
      (sweep policy epoch (2 * (es.length + 1)) (e :: es) none bits).1.getD e.1 = slot ∧
      (sweep policy epoch (2 * (es.length + 1)) (e :: es) none bits).2.1.IsRotated
        (scanned.map (pass epoch bits) ++ rest) ∧
      (sweep policy epoch (2 * (es.length + 1)) (e :: es) none bits).2.2 = cooled bits scanned := by
  rw [Policy.choice?_map_snd, ← List.length_cons]
  cases hfind : (e :: es).find? fun e => policy.takes epoch bits e.2 with
  | some first =>
    obtain ⟨hfirst, pre, post, hsplit, hpre⟩ := List.find?_eq_some_iff_append.mp hfind
    rw [hsplit] at hnodup
    have hcount : pre.length < 2 * (e :: es).length := by
      rw [hsplit]
      simp
      omega
    have hsweep := sweep_of_taken hnodup (fun e he => by simpa using hpre e he) hfirst hcount
    rw [← hsplit] at hsweep
    refine ⟨pre, first :: post, pre, first.1, first.2, post, hsplit, ?_, hsplit, rfl, ?_⟩
    · rw [hsplit, List.takeWhile_append_of_pos hpre, List.takeWhile_cons_of_neg (by simp [hfirst]),
        List.append_nil]
    · rw [hsweep]
      refine ⟨rfl, ?_, rfl⟩
      rw [← List.cons_append]
      exact List.isRotated_append
  | none =>
    have hnone : ∀ e' ∈ e :: es, policy.takes epoch bits e'.2 = false := by
      simpa using List.find?_eq_none.mp hfind
    have hall : (e :: es).takeWhile (fun e => !policy.takes epoch bits e.2) = e :: es :=
      List.takeWhile_eq_self_iff.mpr fun e' he => by rw [hnone e' he, Bool.not_false]
    obtain ⟨n, hsweep⟩ := sweep_of_none_taken hnodup hnone
    obtain ⟨found, hfound⟩ : ∃ found, ((e :: es).find? fun e => e.2.isOpen bits).or
        ((e :: es).find? fun e => e.2.isHot bits) = found := ⟨_, rfl⟩
    rw [hfound] at hsweep ⊢
    have hmem : found.getD e ∈ e :: es := by
      cases found with
      | none => exact List.mem_cons_self
      | some first =>
        rcases Option.or_eq_some_iff.mp hfound with hf | ⟨-, hf⟩
        all_goals exact List.mem_of_find?_eq_some hf
    obtain ⟨pre, post, hsplit⟩ := List.append_of_mem hmem
    refine ⟨e :: es, [], pre, (found.getD e).1, (found.getD e).2, post, (List.append_nil _).symm,
      hall.symm, hsplit, ?_, ?_⟩
    · cases found <;> rfl
    · rw [hsweep, List.append_nil]
      exact ⟨by cases found <;> rfl, List.IsRotated.forall _ _, rfl⟩

omit [LawfulUseBits σ] [SparesDirt σ] in
/-- If the sweep turned the ring and changed the loans in their slots, the victim is what it found,
and in the end it is the last of the ring. -/
theorem Keeps.pickVictim_of_turned {pre post : List (Nat × Loan)} {slot : Nat} {loan : Loan}
    {f : Loan → Loan} (h : l.Keeps (e :: es)) (hf : ∀ loan, (f loan).frame = loan.frame)
    (hsplit : e :: es = pre ++ (slot, loan) :: post)
    (hslot : (sweep l.policy l.epoch (2 * (es.length + 1)) (e :: es) none bits).1.getD e.1 = slot)
    (hturned : (sweep l.policy l.epoch (2 * (es.length + 1)) (e :: es) none bits).2.1.IsRotated
      ((e :: es).map (Prod.map id f))) :
    ∃ loans', l.pickVictim bits = .ok (some loan.frame, l.scanned loans',
        (sweep l.policy l.epoch (2 * (es.length + 1)) (e :: es) none bits).2.2) ∧
      (l.scanned loans').Keeps
        ((post ++ pre).map (Prod.map id f) ++ [(slot, { f loan with chosen := true })]) := by
  obtain ⟨xs, slot', victim, ys, loans', hslot', hsweep, hrun, hr⟩ := pickVictim_eq h.ring bits
  obtain ⟨_, _, _, es', hpick⟩ := h.pickVictim bits
  have hpicked := hpick.run.symm.trans hrun
  simp only [Except.ok.injEq, Prod.mk.injEq] at hpicked
  obtain ⟨rfl, rfl, rfl⟩ := hpicked
  obtain rfl : es' = _ := Except.ok.inj (hpick.keeps.ring.entries.symm.trans hr.entries)
  obtain rfl : slot' = slot := hslot'.trans hslot
  -- where the victim stood before the sweep, and what stood around it
  have hturned' := hturned.symm
  rw [hsweep] at hturned'
  obtain ⟨A, B, hAB, haround⟩ := exists_append_of_isRotated hturned'
  rw [hsplit, List.map_append, List.map_cons] at hAB
  have hnodup : ((pre.map (Prod.map id f) ++ (slot', f loan) :: post.map (Prod.map id f)).map
      Prod.fst).Nodup := by
    have := h.ring.nodup
    rw [hsplit] at this
    simpa [Function.comp_def] using this
  obtain ⟨rfl, rfl, rfl⟩ := middle_inj hnodup hAB
  refine ⟨loans', ?_, ?_⟩
  · rw [hrun, hf]
  · rw [List.map_append, haround]
    exact hpick.keeps

theorem Keeps.loans_nodup (h : l.Keeps es) : (es.map Prod.snd).Nodup :=
  .of_map Loan.frame h.books.frames_nodup

/-- The victim, and what its choice does. -/
theorem Keeps.stopsAt (h : l.Keeps es) (hne : es ≠ []) (bits : σ) :
    ∃ victim l' bits' es', l'.Keeps es' ∧
      l.policy.choice? l.epoch bits (es.map Prod.snd) = some victim ∧
      StopsAt l (es.map Prod.snd) bits
        ((es.map Prod.snd).takeWhile fun loan => !l.policy.takes l.epoch bits loan) victim l'
        bits' := by
  obtain ⟨e, es, rfl⟩ := List.exists_cons_of_ne_nil hne
  have hholders : ((e :: es).flatMap fun e => e.2.holders).Nodup := by
    have := h.books.holders_nodup
    rwa [List.flatMap_map] at this
  obtain ⟨scanned, rest, pre, slot, loan, post, hrest, hscanned, hsplit, hchoice, hslot, hturned,
    hcooled⟩ := sweep_finds l.policy l.epoch bits hholders
  have hafter : scanned.map (pass l.epoch bits) ++ rest =
      (e :: es).map (Prod.map id fun loan => loan.after (scanned.map Prod.snd) l.epoch bits) := by
    have hnodup := h.loans_nodup
    rw [hrest, List.map_append, List.nodup_append] at hnodup
    rw [hrest, List.map_append]
    congr 1
    · exact List.map_congr_left fun e he => by
        rw [pass, Prod.map, Loan.after, if_pos (List.mem_map_of_mem he), id]
    · refine ((List.map_congr_left fun e he => ?_).trans (List.map_id rest)).symm
      rw [Prod.map, Loan.after, if_neg fun hm => hnodup.2.2 _ hm _ (List.mem_map_of_mem he) rfl]
      rfl
  rw [hafter] at hturned
  obtain ⟨loans', hrun, hk⟩ :=
    h.pickVictim_of_turned (fun _ => Loan.frame_after) hsplit hslot hturned
  have hscanned' : scanned.map Prod.snd =
      ((e :: es).map Prod.snd).takeWhile fun loan => !l.policy.takes l.epoch bits loan := by
    rw [hscanned, List.takeWhile_map]
    rfl
  rw [hcooled] at hrun
  refine ⟨loan, _, cooled bits scanned, _, hk, hchoice, ?_⟩
  rw [← hscanned']
  refine ⟨hrun, ⟨pre.map Prod.snd, post.map Prod.snd, ?_, ?_, ?_⟩, fun k => ?_,
    isDirty_cooled _ _, rfl, rfl, rfl, rfl⟩
  · rw [hsplit, List.map_append, List.map_cons]
  · rw [hk.toList]
    simp [Function.comp_def]
  · rw [hk.handFrame?, ← List.head?_map, ← List.head?_map]
    simp [entriesOf, Loan.entry, Function.comp_def]
  · rw [isAccessed_cooled, List.flatMap_map]

end FrameLedger

end TeachingKernel
