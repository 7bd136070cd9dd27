import TeachingKernel.Proofs.Ledger.Circle

/-!
# Refusals of a ledger

A ledger refuses what it is asked for a reason that can be read off its loans, whichever way its
hand points, and a refusal leaves it exactly as it was: its ring, its counters and its pool. Where
there is no frame left to lend, a victim was chosen and nothing else has happened.

Main statement: `refused_exactly_when`.
-/

namespace TeachingKernel

def Held (loans : List Loan) (h : Holder) : Prop := ∃ loan ∈ loans, h ∈ loan.holders

def Lent (loans : List Loan) (frame : PhysAddr) : Prop := ∃ loan ∈ loans, loan.frame = frame

namespace FrameLedger

variable {σ : Type} [UseBits σ]

/-- An operation is refused in this way exactly under the condition, and then it has changed
nothing. -/
def Refuses (l : FrameLedger) (op : Operation σ) (refusal : op.Answer) (condition : Prop) : Prop :=
  ∃ answer l', op.call l = .ok (answer, l') ∧ (answer = refusal ↔ condition) ∧
    (answer = refusal → l' = l)

variable {l l' : FrameLedger} {es : List (Nat × Loan)} {holder : Holder} {frame : PhysAddr}

/-! ## The reasons -/

theorem held_iff : Held (es.map Prod.snd) holder ↔ ∃ e ∈ es, holder ∈ e.2.holders := by
  simp only [Held, List.mem_map, exists_exists_and_eq_and]

theorem not_held_iff : ¬ Held (es.map Prod.snd) holder ↔ ∀ e ∈ es, holder ∉ e.2.holders := by
  simp only [held_iff, not_exists, not_and]

theorem lent_iff : Lent (es.map Prod.snd) frame ↔ ∃ e ∈ es, e.2.frame = frame := by
  simp only [Lent, List.mem_map, exists_exists_and_eq_and]

theorem not_lent_iff : ¬ Lent (es.map Prod.snd) frame ↔ ∀ e ∈ es, e.2.frame ≠ frame := by
  simp only [lent_iff, not_exists, not_and, ne_eq]

/-- While a frame is free the pool is not full. -/
theorem Keeps.not_full_of_free (h : l.Keeps es) {i : Fin l.pool.total}
    (hi : l.pool.taken.contains i = false) : ¬ l.pool.Full := by
  intro hfull
  have huse := hfull _ (PagePool.covers_frameAddress h.books.sound i)
  rw [PagePool.inUse_of_frame? (PagePool.frame?_frameAddress h.books.sound i), hi] at huse
  contradiction

/-! ## Each operation -/

/-- A frame is refused to who holds one at the address, and to everybody if the pool is full. -/
theorem Keeps.lend_refused (h : l.Keeps es) (holder : Holder) (bits : σ) :
    ∃ answer l' bits', l.lend holder bits = .ok (answer, l', bits') ∧
      (answer = .error (.duplicateReference holder) ↔ Held (es.map Prod.snd) holder) ∧
      (answer = .error (.duplicateReference holder) → l' = l ∧ bits' = bits) ∧
      ((∃ victim, answer = .error (.outOfFrames victim)) ↔
        ¬ Held (es.map Prod.snd) holder ∧ l.pool.Full) ∧
      ∀ victim, answer = .error (.outOfFrames victim) →
        l.pickVictim bits = .ok (victim, l', bits') := by
  rcases h.lend holder bits with ⟨hrun, hheld⟩ | ⟨i, slot, loans', hi, hn, hrun, _⟩ |
    ⟨victim, l', bits', es', hfree, hn, hpick, hrun⟩
  · rw [← held_iff] at hheld
    exact ⟨_, l, bits, hrun, iff_of_true rfl hheld, fun _ => ⟨rfl, rfl⟩,
      iff_of_false nofun fun hc => hc.1 hheld, nofun⟩
  · rw [← not_held_iff] at hn
    have hroom := h.not_full_of_free hi
    exact ⟨_, _, bits, hrun, iff_of_false nofun hn, nofun,
      iff_of_false nofun fun hc => hroom hc.2, nofun⟩
  · rw [← not_held_iff] at hn
    have hfull := (PagePool.full_iff_free h.books.sound).mpr hfree
    refine ⟨_, l', bits', hrun, iff_of_false nofun hn, nofun,
      iff_of_true ⟨victim, rfl⟩ ⟨hn, hfull⟩, ?_⟩
    rintro _ ⟨⟩
    exact hpick.run

/-- Sharing is refused to who holds a frame at the address, and where the frame is not lent. -/
theorem Keeps.share_refused (h : l.Keeps es) (frame : PhysAddr) (holder : Holder) :
    Refuses l (.share frame holder : Operation σ) (Except.error (.duplicateReference holder))
        (Held (es.map Prod.snd) holder) ∧
      Refuses l (.share frame holder : Operation σ) (Except.error (.notTracked frame))
        (¬ Held (es.map Prod.snd) holder ∧ ¬ Lent (es.map Prod.snd) frame) := by
  rcases h.share frame holder with ⟨hrun, hheld⟩ | ⟨hrun, hn, hf⟩ |
    ⟨xs, slot, loan, ys, loans', hes, hf, hn, hrun, _⟩
  · rw [← held_iff] at hheld
    have hcall := Operation.call_share_error (σ := σ) hrun
    exact ⟨⟨_, l, hcall, iff_of_true rfl hheld, fun _ => rfl⟩,
      _, l, hcall, iff_of_false nofun fun hc => hc.1 hheld, fun _ => rfl⟩
  · rw [← not_held_iff] at hn
    rw [← not_lent_iff] at hf
    have hcall := Operation.call_share_error (σ := σ) hrun
    exact ⟨⟨_, l, hcall, iff_of_false nofun hn, fun _ => rfl⟩,
      _, l, hcall, iff_of_true rfl ⟨hn, hf⟩, fun _ => rfl⟩
  · have hlent : Lent (es.map Prod.snd) frame :=
      lent_iff.mpr ⟨(slot, loan), hes ▸ List.mem_append_right _ List.mem_cons_self, hf⟩
    rw [← not_held_iff] at hn
    have hcall := Operation.call_share (σ := σ) hrun
    exact ⟨⟨_, _, hcall, iff_of_false nofun hn, nofun⟩,
      _, _, hcall, iff_of_false nofun fun hc => hc.2 hlent, nofun⟩

/-- To let go is refused where the frame is not lent, and to who does not hold it. -/
theorem Keeps.releaseWhere_refused (h : l.Keeps es) (frame : PhysAddr) (test : Holder → Bool) :
    ∃ answer l', l.releaseWhere frame test = .ok (answer, l') ∧
      (answer = .untracked ↔ ¬ Lent (es.map Prod.snd) frame) ∧
      (answer = .notReferenced ↔ ∃ loan ∈ es.map Prod.snd, loan.frame = frame ∧
        ∀ g ∈ loan.holders, test g = false) ∧
      (answer = .untracked ∨ answer = .notReferenced → l' = l) := by
  rcases h.releaseWhere frame test with ⟨hrun, hf⟩ | ⟨xs, slot, loan, ys, hes, hf, hrun⟩
  · rw [← not_lent_iff] at hf
    refine ⟨_, l, hrun, by simp [hf], ?_, fun _ => rfl⟩
    simp only [reduceCtorEq, false_iff]
    rintro ⟨loan, hm, hframe, -⟩
    exact hf ⟨loan, hm, hframe⟩
  · have hm : loan ∈ es.map Prod.snd := by
      rw [hes]
      exact List.mem_map_of_mem (List.mem_append_right _ List.mem_cons_self)
    have hlent : Lent (es.map Prod.snd) frame := ⟨loan, hm, hf⟩
    -- there is one loan of the frame
    have honly : (∃ loan ∈ es.map Prod.snd, loan.frame = frame ∧ ∀ g ∈ loan.holders,
        test g = false) ↔ ∀ g ∈ loan.holders, test g = false := by
      constructor
      · rintro ⟨other, hother, hframe, hn⟩
        rwa [List.inj_on_of_nodup_map h.books.frames_nodup hm hother (hf.trans hframe.symm)]
      · exact fun hn => ⟨loan, hm, hf, hn⟩
    rw [hes] at h
    simp only [honly]
    rcases h.letGo test with ⟨hgo, hn⟩ |
      ⟨⟨g, hg, ht⟩, ⟨loans', _, hgo, _⟩ | ⟨i, loans', _, _, hgo, _⟩⟩
    · exact ⟨_, l, hrun.trans hgo, iff_of_false nofun fun hc => hc hlent, iff_of_true rfl hn,
        fun _ => rfl⟩
    · have hgoes : ¬ ∀ g ∈ loan.holders, test g = false := fun hn => by simp [hn g hg] at ht
      exact ⟨_, _, hrun.trans hgo, iff_of_false nofun fun hc => hc hlent,
        iff_of_false nofun hgoes, nofun⟩
    · have hgoes : ¬ ∀ g ∈ loan.holders, test g = false := fun hn => by simp [hn g hg] at ht
      exact ⟨_, _, hrun.trans hgo, iff_of_false nofun fun hc => hc hlent,
        iff_of_false nofun hgoes, nofun⟩

/-- What each operation of a ledger refuses, and exactly when. Who holds a frame at an address is
lent no other there, and shares none; a frame that is not lent is neither shared nor let go of; and
nobody lets go of what he does not hold. Each of these refusals leaves the ledger, and the marks of
use, exactly as they were. Who holds no frame at the address is refused one if the pool is full, and
then a victim was chosen, and nothing else has happened. -/
theorem refused_exactly_when (hr : Reached σ l) :
    ∃ loans, l.toList = .ok loans ∧
      (∀ (holder : Holder) (bits : σ),
        ∃ answer l' bits', l.lend holder bits = .ok (answer, l', bits') ∧
          (answer = .error (.duplicateReference holder) ↔ Held loans holder) ∧
          (answer = .error (.duplicateReference holder) → l' = l ∧ bits' = bits) ∧
          ((∃ victim, answer = .error (.outOfFrames victim)) ↔
            ¬ Held loans holder ∧ l.pool.Full) ∧
          ∀ victim, answer = .error (.outOfFrames victim) →
            l.pickVictim bits = .ok (victim, l', bits')) ∧
      (∀ frame holder,
        Refuses l (.share frame holder : Operation σ) (Except.error (.duplicateReference holder))
          (Held loans holder) ∧
        Refuses l (.share frame holder : Operation σ) (Except.error (.notTracked frame))
          (¬ Held loans holder ∧ ¬ Lent loans frame)) ∧
      (∀ pid frame,
        Refuses l (.release pid frame : Operation σ) Release.untracked (¬ Lent loans frame) ∧
        Refuses l (.release pid frame : Operation σ) Release.notReferenced
          (∃ loan ∈ loans, loan.frame = frame ∧ ∀ g ∈ loan.holders, g.pid ≠ pid)) ∧
      ∀ holder frame,
        Refuses l (.releaseMapping holder frame : Operation σ) Release.untracked
          (¬ Lent loans frame) ∧
        Refuses l (.releaseMapping holder frame : Operation σ) Release.notReferenced
          (∃ loan ∈ loans, loan.frame = frame ∧ holder ∉ loan.holders) := by
  obtain ⟨es, h⟩ := hr.keeps
  refine ⟨es.map Prod.snd, h.toList, h.lend_refused, h.share_refused, fun pid frame => ?_,
    fun holder frame => ?_⟩
  · obtain ⟨answer, l', hrun, huntracked, hnot, hsame⟩ :=
      h.releaseWhere_refused frame (·.pid = pid)
    simp only [decide_eq_false_iff_not] at hnot
    exact ⟨⟨answer, l', hrun, huntracked, fun ha => hsame (.inl ha)⟩,
      answer, l', hrun, hnot, fun ha => hsame (.inr ha)⟩
  · obtain ⟨answer, l', hrun, huntracked, hnot, hsame⟩ :=
      h.releaseWhere_refused frame (· = holder)
    simp only [decide_eq_false_iff_not, List.forall_mem_ne'] at hnot
    exact ⟨⟨answer, l', hrun, huntracked, fun ha => hsame (.inl ha)⟩,
      answer, l', hrun, hnot, fun ha => hsame (.inr ha)⟩

/-- The only frame is lent, and then asked for at the same address by who has it, let go of by who
does not have it, and let go of in the wrong place. -/
theorem refused_exactly_when_of_one_frame :
    ∃ (l : FrameLedger) (loans : List Loan), Reached UseSets l ∧ l.toList = .ok loans ∧
      Held loans ⟨⟨1⟩, .ofNat 0x1000⟩ ∧ ¬ Lent loans (.ofNat 0) ∧
      (∃ l' bits', l.lend ⟨⟨1⟩, .ofNat 0x1000⟩ ({} : UseSets) =
        .ok (.error (.duplicateReference ⟨⟨1⟩, .ofNat 0x1000⟩), l', bits') ∧ l' = l) ∧
      (Operation.release ⟨2⟩ (.ofNat poolBase) : Operation UseSets).call l =
        .ok (Release.notReferenced, l) ∧
      (Operation.releaseMapping ⟨⟨1⟩, .ofNat 0x1000⟩ (.ofNat 0) : Operation UseSets).call l =
        .ok (Release.untracked, l) := by
  -- the loans, computed
  have hall : (do
      let l ← (Operation.lend ⟨⟨1⟩, .ofNat 0x1000⟩ ({} : UseSets)).perform
        (fresh (PagePool.user 1) .clock)
      l.toList) = .ok [⟨.ofNat poolBase, [⟨⟨1⟩, .ofNat 0x1000⟩], 1, false⟩] := by
    decide +kernel
  obtain ⟨l, hrun, hloans⟩ := Checked.bind_eq_ok.mp hall
  have hr : Reached UseSets l :=
    .perform (.fresh (rfl : PagePool.create (.ofNat poolBase) 1 = _) (by decide) .clock) _ hrun
  obtain ⟨loans, hlist, hlend, _, hrelease, hmapping⟩ := refused_exactly_when hr
  cases hloans.symm.trans hlist
  have hheld : Held [⟨.ofNat poolBase, [⟨⟨1⟩, .ofNat 0x1000⟩], 1, false⟩]
      ⟨⟨1⟩, .ofNat 0x1000⟩ := ⟨_, List.mem_singleton_self _, List.mem_singleton_self _⟩
  have hlent : ¬ Lent [⟨.ofNat poolBase, [⟨⟨1⟩, .ofNat 0x1000⟩], 1, false⟩] (.ofNat 0) := by
    unfold Lent
    decide
  refine ⟨l, _, hr, hlist, hheld, hlent, ?_, ?_, ?_⟩
  · obtain ⟨answer, l', bits', hanswer, hduplicate, hsame, _⟩ :=
      hlend ⟨⟨1⟩, .ofNat 0x1000⟩ {}
    obtain rfl := hduplicate.mpr hheld
    exact ⟨l', bits', hanswer, (hsame rfl).1⟩
  · obtain ⟨answer, l', hanswer, hnot, hsame⟩ := (hrelease ⟨2⟩ (.ofNat poolBase)).2
    obtain rfl := hnot.mpr ⟨_, List.mem_singleton_self _, rfl, by decide⟩
    rw [hanswer, hsame rfl]
  · obtain ⟨answer, l', hanswer, huntracked, hsame⟩ := (hmapping ⟨⟨1⟩, .ofNat 0x1000⟩ (.ofNat 0)).1
    obtain rfl := huntracked.mpr hlent
    rw [hanswer, hsame rfl]

end FrameLedger

end TeachingKernel
