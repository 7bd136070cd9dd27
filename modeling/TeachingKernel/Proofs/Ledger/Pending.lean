import TeachingKernel.Proofs.Ledger.Choice
import TeachingKernel.Proofs.Ledger.Fifo
import TeachingKernel.Proofs.Ledger.Lends

/-!
# Pending frames

A frame is pending if it was chosen as a victim and no scan saw it used since. What was asked of a
ledger, and which marks were cleared by it, tells which frames are pending, and this is what the
ledger goes by. So the next victim follows from the marks and the history. The working-set policy
differs from the clock only where it finds a frame to its taste.

Main statements: `clock_victim` and `workingSet_victim`.
-/

namespace TeachingKernel

variable {σ : Type} [UseBits σ]

structure Scan (σ : Type) where
  victim : Option PhysAddr
  before : σ
  after : σ

def Scan.saw (scan : Scan σ) (loan : Loan) : Bool :=
  loan.holders.any fun h => UseBits.isAccessed scan.before h && !UseBits.isAccessed scan.after h

/-- What is pending after a scan: what was pending before and was not seen used, and the victim. -/
def Scan.pending (scan : Scan σ) (loans : List Loan) (pending : List PhysAddr) : List PhysAddr :=
  scan.victim.toList ++
    pending.filter fun frame => !((loans.filter scan.saw).map Loan.frame).contains frame

/-- The frame was not used and is not pending. -/
def Loan.isAvailable (loan : Loan) (pending : List PhysAddr) (bits : σ) : Bool :=
  !loan.isHot bits && !pending.contains loan.frame

/-- The frame is available, clean, and was last used more than `window` epochs ago. -/
def Loan.isEligible (loan : Loan) (pending : List PhysAddr) (window epoch : Nat) (bits : σ) :
    Bool :=
  loan.isAvailable pending bits && (window < epoch - loan.lastUsed && !loan.isDirty bits)

namespace FrameLedger

/-! ## The history -/

def Operation.scan? : Operation σ → FrameLedger → Checked (Option (Scan σ))
  | lend holder before, l => do
    match ← l.lend holder before with
    | (.error (.outOfFrames victim), _, after) => return some { victim, before, after }
    | _ => return none
  | pickVictim before, l => do
    let (victim, _, after) ← l.pickVictim before
    return some { victim, before, after }
  | _, _ => return none

/-- What is pending after an operation, of the frames that are still lent. -/
def Operation.pending (op : Operation σ) (l : FrameLedger) (pending : List PhysAddr) :
    Checked (List PhysAddr) := do
  let loans ← l.toList
  let scan? ← op.scan? l
  let left ← (← op.perform l).toList
  return (scan?.elim pending (·.pending loans pending)).filter (left.map Loan.frame).contains

def pendingAfter : List (Operation σ) → FrameLedger → List PhysAddr → Checked (List PhysAddr)
  | [], _, pending => return pending
  | op :: ops, l, pending => do pendingAfter ops (← op.perform l) (← op.pending l pending)

variable {bits bits' : σ} {l l' : FrameLedger} {es es' : List (Nat × Loan)}
  {loans scanned : List Loan} {loan victim : Loan} {pending : List PhysAddr} {frame : PhysAddr}

/-- The pending frames are those of the loans that were chosen. -/
def Recalls (loans : List Loan) (pending : List PhysAddr) : Prop :=
  ∀ frame, frame ∈ pending ↔ ∃ loan ∈ loans, loan.frame = frame ∧ loan.chosen = true

theorem recalls_nil : Recalls [] [] := fun _ => by simp

theorem recalls_iff_choices :
    Recalls (es.map Prod.snd) pending ↔ ∀ frame, frame ∈ pending ↔ (frame, true) ∈ choices es := by
  refine forall_congr' fun frame => iff_congr .rfl ?_
  rw [choices, List.mem_map]
  constructor
  · rintro ⟨_, hm, rfl, hchosen⟩
    obtain ⟨e, he, rfl⟩ := List.mem_map.mp hm
    exact ⟨e, he, by rw [hchosen]⟩
  · rintro ⟨e, he, hc⟩
    obtain ⟨hf, hchosen⟩ := Prod.mk.inj hc
    exact ⟨e.2, List.mem_map_of_mem he, hf, hchosen⟩

theorem Recalls.chosen_iff (h : Recalls loans pending) (hnodup : (loans.map Loan.frame).Nodup)
    (hm : loan ∈ loans) : loan.chosen = true ↔ loan.frame ∈ pending := by
  rw [h]
  constructor
  · exact fun hchosen => ⟨loan, hm, rfl, hchosen⟩
  · rintro ⟨other, hother, hf, hchosen⟩
    obtain rfl := List.inj_on_of_nodup_map hnodup hother hm hf
    exact hchosen

/-- Loans end, and their frames are no longer pending. -/
theorem Recalls.of_sublist (h : Recalls (es.map Prod.snd) pending)
    (hnodup : ((choices es).map Prod.fst).Nodup) (hs : (choices es').Sublist (choices es)) :
    Recalls (es'.map Prod.snd) (pending.filter ((es'.map Prod.snd).map Loan.frame).contains) := by
  rw [recalls_iff_choices] at h ⊢
  intro frame
  rw [List.mem_filter, List.contains_iff_mem, h, ← map_fst_choices]
  constructor
  · rintro ⟨hchosen, hm⟩
    obtain ⟨⟨_, chosen⟩, hc, rfl⟩ := List.mem_map.mp hm
    rwa [List.inj_on_of_nodup_map hnodup hchosen (hs.subset hc) rfl]
  · exact fun hc => ⟨hs.subset hc, List.mem_map_of_mem hc⟩

/-- A frame that is lent is not pending. -/
theorem Recalls.of_append (h : Recalls (es.map Prod.snd) pending)
    (hs : choices es' = choices es ++ [(frame, false)]) :
    Recalls (es'.map Prod.snd) (pending.filter ((es'.map Prod.snd).map Loan.frame).contains) := by
  rw [recalls_iff_choices] at h ⊢
  intro f
  have hiff : (f, true) ∈ choices es' ↔ (f, true) ∈ choices es := by simp [hs]
  rw [List.mem_filter, List.contains_iff_mem, h, ← map_fst_choices, hiff]
  exact and_iff_left_of_imp fun hc => List.mem_map_of_mem (hiff.mpr hc)

/-- There is one loan that a holder holds. -/
theorem Keeps.loan_eq_of_holder {other : Loan} {holder : Holder} (h : l.Keeps es)
    (hm : loan ∈ es.map Prod.snd) (hother : other ∈ es.map Prod.snd) (hh : holder ∈ loan.holders)
    (hh' : holder ∈ other.holders) : loan = other := by
  have hlends : ∀ {loan : Loan}, loan ∈ es.map Prod.snd → holder ∈ loan.holders →
      Lends es loan.frame holder := fun hm hh => by
    obtain ⟨e, he, rfl⟩ := List.mem_map.mp hm
    exact ⟨e, he, rfl, hh⟩
  exact List.inj_on_of_nodup_map h.books.frames_nodup hm hother
    (h.frame_eq_of_lends (hlends hother hh') (hlends hm hh))

/-- A mark of a frame was cleared exactly if the hand went over it and it was used. -/
theorem StopsAt.saw_iff (hs : StopsAt l (es.map Prod.snd) bits scanned victim l' bits')
    (h : l.Keeps es) (hscanned : scanned ⊆ es.map Prod.snd) (hm : loan ∈ es.map Prod.snd)
    (chosen : Option PhysAddr) :
    Scan.saw ⟨chosen, bits, bits'⟩ loan = true ↔ loan ∈ scanned ∧ loan.isHot bits = true := by
  simp only [Scan.saw, Loan.isHot, List.any_eq_true, hs.accessed]
  constructor
  · rintro ⟨k, hk, hcleared⟩
    rw [Bool.and_eq_true, Bool.not_eq_true', Bool.and_eq_false_iff] at hcleared
    obtain ⟨hused, hcold | hpassed⟩ := hcleared
    · rw [hused] at hcold
      contradiction
    · obtain ⟨other, hother, hk'⟩ := List.mem_flatMap.mp (by simpa using hpassed)
      obtain rfl := h.loan_eq_of_holder hm (hscanned hother) hk hk'
      exact ⟨hother, k, hk, hused⟩
  · rintro ⟨hpassed, k, hk, hused⟩
    have hk' : k ∈ scanned.flatMap Loan.holders := List.mem_flatMap.mpr ⟨loan, hpassed, hk⟩
    exact ⟨k, hk, by simp [hused, hk']⟩

/-- The frames of which a mark was cleared. -/
theorem StopsAt.frame_saw_iff (hs : StopsAt l (es.map Prod.snd) bits scanned victim l' bits')
    (h : l.Keeps es) (hscanned : scanned ⊆ es.map Prod.snd) (hm : loan ∈ es.map Prod.snd)
    (chosen : Option PhysAddr) :
    loan.frame ∈ ((es.map Prod.snd).filter (Scan.saw ⟨chosen, bits, bits'⟩)).map Loan.frame ↔
      loan ∈ scanned ∧ loan.isHot bits = true := by
  rw [← hs.saw_iff h hscanned hm chosen, List.mem_map]
  constructor
  · rintro ⟨other, hother, hf⟩
    obtain ⟨hother, hseen⟩ := List.mem_filter.mp hother
    rwa [← List.inj_on_of_nodup_map h.books.frames_nodup hother hm hf]
  · exact fun hseen => ⟨loan, List.mem_filter.mpr ⟨hm, hseen⟩, rfl⟩

/-- A scan leaves pending what the ledger leaves chosen. -/
theorem StopsAt.recalls (hs : StopsAt l (es.map Prod.snd) bits scanned victim l' bits')
    (h : l.Keeps es) (hscanned : scanned ⊆ es.map Prod.snd) (hk : l'.Keeps es')
    (hr : Recalls (es.map Prod.snd) pending) :
    Recalls (es'.map Prod.snd)
      ((Scan.pending ⟨some victim.frame, bits, bits'⟩ (es.map Prod.snd) pending).filter
        ((es'.map Prod.snd).map Loan.frame).contains) := by
  obtain ⟨pre, post, hsplit, hl', -⟩ := hs.turned
  have hloans : es'.map Prod.snd = _ := Except.ok.inj (hk.toList.symm.trans hl')
  have hmem : ∀ {loan}, loan ∈ es.map Prod.snd ↔ loan ∈ post ++ pre ∨ loan = victim := by
    intro loan
    rw [hsplit, List.mem_append, List.mem_cons, List.mem_append]
    tauto
  intro frame
  rw [hloans, List.mem_filter, Scan.pending, Option.toList_some, List.singleton_append,
    List.mem_cons, List.mem_filter, hr, List.contains_iff_mem, Bool.not_eq_true',
    ← Bool.not_eq_true, List.contains_iff_mem]
  constructor
  · rintro ⟨rfl | ⟨⟨loan, hm, rfl, hchosen⟩, hunseen⟩, -⟩
    · exact ⟨_, List.mem_append_right _ (List.mem_singleton_self _), by simp, rfl⟩
    · rw [hs.frame_saw_iff h hscanned hm] at hunseen
      rcases hmem.mp hm with hm | rfl
      · exact ⟨_, List.mem_append_left _ (List.mem_map_of_mem hm), Loan.frame_after,
          Loan.chosen_after.mpr ⟨hchosen, hunseen⟩⟩
      · exact ⟨_, List.mem_append_right _ (List.mem_singleton_self _), by simp, rfl⟩
  · rintro ⟨_, hm, rfl, hchosen⟩
    refine ⟨?_, List.mem_map_of_mem hm⟩
    rcases List.mem_append.mp hm with hm | hm
    · obtain ⟨loan, hloan, rfl⟩ := List.mem_map.mp hm
      obtain ⟨hchosen, hunseen⟩ := Loan.chosen_after.mp hchosen
      have hloan' : loan ∈ es.map Prod.snd := hmem.mpr (.inl hloan)
      rw [← hs.frame_saw_iff h hscanned hloan' (some victim.frame)] at hunseen
      rw [Loan.frame_after]
      exact .inr ⟨⟨loan, hloan', rfl, hchosen⟩, hunseen⟩
    · rw [List.mem_singleton.mp hm]
      exact .inl (by simp)

/-- An operation makes a scan if it chooses a victim. If it chooses none, some loans may end, or one
begins at the end of the ring. -/
theorem Keeps.scan?_cases (h : l.Keeps es) (op : Operation σ) :
    (∃ l' es', op.perform l = .ok l' ∧ op.scan? l = .ok none ∧ l'.Keeps es' ∧
        ((choices es').Sublist (choices es) ∨
          ∃ frame, choices es' = choices es ++ [(frame, false)])) ∨
      ∃ scan l' es', op.perform l = .ok l' ∧ op.scan? l = .ok (some scan) ∧
        Picks l es scan.before scan.victim l' scan.after es' := by
  obtain ⟨answer, l₁, es₁, hcall, hk, hchoices⟩ := h.call_choices op
  have hperform : op.perform l = .ok l₁ := by
    rw [Operation.perform_eq_map_call, hcall]
    rfl
  have hquiet : op.scan? l = .ok none → op.Quiet answer →
      ∃ l' es', op.perform l = .ok l' ∧ op.scan? l = .ok none ∧ l'.Keeps es' ∧
        ((choices es').Sublist (choices es) ∨
          ∃ frame, choices es' = choices es ++ [(frame, false)]) := fun hscan hq =>
    ⟨l₁, es₁, hperform, hscan, hk, (hchoices hq).imp_right fun ⟨frame, _, hf⟩ => ⟨frame, hf⟩⟩
  cases op with
  | lend holder bits =>
    rcases h.lend holder bits with ⟨hrun, _⟩ | ⟨i, slot, loans', _, _, hrun, _⟩ |
      ⟨victim, l', bits', es', _, _, hpick, hrun⟩
    · cases (Operation.call_lend hrun).symm.trans hcall
      exact .inl (hquiet (Checked.bind_eq_ok.mpr ⟨_, hrun, rfl⟩) (by rintro _ ⟨⟩))
    · cases (Operation.call_lend hrun).symm.trans hcall
      exact .inl (hquiet (Checked.bind_eq_ok.mpr ⟨_, hrun, rfl⟩) (by rintro _ ⟨⟩))
    · cases (Operation.call_lend hrun).symm.trans hcall
      exact .inr ⟨⟨_, bits, bits'⟩, _, es', hperform,
        Checked.bind_eq_ok.mpr ⟨_, hrun, rfl⟩, hpick⟩
  | pickVictim bits =>
    obtain ⟨victim, l', bits', es', hpick⟩ := h.pickVictim bits
    cases (Operation.call_pickVictim hpick.run).symm.trans hcall
    exact .inr ⟨⟨_, bits, bits'⟩, _, es', hperform,
      Checked.bind_eq_ok.mpr ⟨_, hpick.run, rfl⟩, hpick⟩
  | share | release | releaseMapping | releaseAll | advance => exact .inl (hquiet rfl trivial)

/-- No operation changes the policy. -/
theorem Keeps.policy_eq_of_perform {op : Operation σ} (h : l.Keeps es)
    (hperform : op.perform l = .ok l') : l'.policy = l.policy := by
  rw [Operation.perform_eq_map_call] at hperform
  obtain ⟨answer, l₁, _, hcall, _⟩ := h.exists_call op
  rw [hcall] at hperform
  cases hperform
  -- under its own policy the ledger does the same, and is left under this policy
  have hsame := Operation.call_withPolicy l.policy hcall fun bits victim bits' _ hpick => by
    obtain ⟨_, _, _, _, hpicks⟩ := h.pickVictim bits
    cases hpicks.run.symm.trans hpick
    have hown : l₁.withPolicy l.policy = l₁ := by
      rw [← hpicks.policy_eq]
      rfl
    rw [hown]
    exact hpick
  exact congrArg (fun x => x.2.policy) (Except.ok.inj (hcall.symm.trans hsame))

variable [LawfulUseBits σ] [SparesDirt σ]

/-- One operation. -/
theorem Keeps.recalls_perform (h : l.Keeps es) (hr : Recalls (es.map Prod.snd) pending)
    (op : Operation σ) :
    ∃ l' es' pending', op.perform l = .ok l' ∧ l'.Keeps es' ∧
      op.pending l pending = .ok pending' ∧ Recalls (es'.map Prod.snd) pending' := by
  have hpending : ∀ {scan? : Option (Scan σ)} {l' es'}, op.perform l = .ok l' →
      op.scan? l = .ok scan? → l'.Keeps es' →
      op.pending l pending = .ok ((scan?.elim pending (·.pending (es.map Prod.snd) pending)).filter
        ((es'.map Prod.snd).map Loan.frame).contains) := fun hperform hscan hk =>
    Checked.bind_eq_ok.mpr ⟨_, h.toList, Checked.bind_eq_ok.mpr ⟨_, hscan,
      Checked.bind_eq_ok.mpr ⟨_, hperform, Checked.bind_eq_ok.mpr ⟨_, hk.toList, rfl⟩⟩⟩⟩
  rcases h.scan?_cases op with ⟨l', es', hperform, hscan, hk, hs | ⟨frame, hs⟩⟩ |
    ⟨⟨victim, bits, bits'⟩, l', es', hperform, hscan, hpick⟩
  · exact ⟨l', es', _, hperform, hk, hpending hperform hscan hk, hr.of_sublist h.nodup_choices hs⟩
  · exact ⟨l', es', _, hperform, hk, hpending hperform hscan hk, hr.of_append hs⟩
  · have hk := hpick.keeps
    refine ⟨l', es', _, hperform, hk, hpending hperform hscan hk, ?_⟩
    by_cases hne : es = []
    · subst hne
      obtain rfl : victim = none := hpick.eq_none_iff.mpr rfl
      obtain rfl : es' = [] := by simpa [outline] using hpick.isRotated
      intro frame
      simp
    · obtain ⟨chosen, _, _, _, _, _, hs⟩ := h.stopsAt hne bits
      cases hs.run.symm.trans hpick.run
      exact hs.recalls h (List.takeWhile_subset _) hk hr

/-- Any number of operations. -/
theorem Keeps.recalls_performAll (h : l.Keeps es) (hr : Recalls (es.map Prod.snd) pending)
    (ops : List (Operation σ)) :
    ∃ l' es' pending', FrameLedger.performAll ops l = .ok l' ∧ l'.Keeps es' ∧
      pendingAfter ops l pending = .ok pending' ∧ Recalls (es'.map Prod.snd) pending' ∧
      l'.policy = l.policy := by
  induction ops generalizing l es pending with
  | nil => exact ⟨l, es, pending, rfl, h, rfl, hr, rfl⟩
  | cons op ops ih =>
    obtain ⟨l₁, es₁, pending₁, hperform, hk, hpending, hr₁⟩ := h.recalls_perform hr op
    obtain ⟨l₂, es₂, pending₂, hrun, hk', hpending', hr₂, hpolicy⟩ := ih hk hr₁
    exact ⟨l₂, es₂, pending₂, Checked.bind_eq_ok.mpr ⟨l₁, hperform, hrun⟩, hk',
      Checked.bind_eq_ok.mpr ⟨l₁, hperform, Checked.bind_eq_ok.mpr ⟨pending₁, hpending, hpending'⟩⟩,
      hr₂, hpolicy.trans (h.policy_eq_of_perform hperform)⟩

/-! ## The next victim -/

theorem takeWhile_congr {p q : Loan → Bool} (h : ∀ loan ∈ loans, p loan = q loan) :
    loans.takeWhile p = loans.takeWhile q := by
  induction loans with
  | nil => rfl
  | cons loan loans ih =>
    rw [List.takeWhile_cons, List.takeWhile_cons, h loan List.mem_cons_self,
      ih fun other hm => h other (List.mem_cons_of_mem _ hm)]

omit [LawfulUseBits σ] [SparesDirt σ] in
theorem Recalls.isAvailable_eq (h : Recalls loans pending)
    (hnodup : (loans.map Loan.frame).Nodup) (hm : loan ∈ loans) :
    loan.isAvailable pending bits = loan.isOpen bits := by
  rw [Loan.isAvailable, Loan.isOpen, Bool.eq_iff_iff]
  simp [← h.chosen_iff hnodup hm]

/-- The clock chooses the first frame that was not used and is not pending. If there is none it
chooses the first that was used, or else the frame under the hand. Of the frames before the first
that is available the marks are cleared, or else of all. -/
theorem clock_victim {base : PhysAddr} {total : Nat} {pool : PagePool}
    (hp : PagePool.create base total = .ok pool)
    (hfits : base.toNat + total * pageSize ≤ addressBound) (ops : List (Operation σ)) :
    ∃ l loans pending, performAll ops (fresh pool .clock) = .ok l ∧ l.toList = .ok loans ∧
      pendingAfter ops (fresh pool .clock) [] = .ok pending ∧
      (∀ loan ∈ loans, loan.chosen = true ↔ loan.frame ∈ pending) ∧
      (loans ≠ [] → ∀ bits : σ, ∃ victim l' bits',
        (loans.find? (·.isAvailable pending bits)).or
          ((loans.find? (·.isHot bits)).or loans.head?) = some victim ∧
        StopsAt l loans bits (loans.takeWhile (!·.isAvailable pending bits)) victim l' bits') := by
  obtain ⟨hk, _⟩ := keeps_create hp hfits .clock
  obtain ⟨l, es, pending, hrun, hk', hpending, hr, hpolicy⟩ := hk.recalls_performAll recalls_nil ops
  have hclock : l.policy = .clock := hpolicy
  have hnodup := hk'.books.frames_nodup
  refine ⟨l, _, pending, hrun, hk'.toList, hpending, fun loan hm => hr.chosen_iff hnodup hm,
    fun hne bits => ?_⟩
  obtain ⟨victim, l', bits', _, _, hchoice, hs⟩ := hk'.stopsAt (by simpa using hne) bits
  rw [hclock] at hchoice hs
  refine ⟨victim, l', bits', ?_, ?_⟩
  · rw [← hchoice, Policy.choice?_clock,
      List.find?_congr fun loan hm => hr.isAvailable_eq hnodup hm]
  · rwa [takeWhile_congr fun loan hm => by rw [hr.isAvailable_eq hnodup hm, ← Policy.takes_clock]]

set_option synthInstance.maxSize 512 in
/-- Of three frames the first is pending and the second was used, by the second of its holders. The
third is chosen. -/
theorem clock_victim_of_three_frames :
    PagePool.create (.ofNat poolBase) 3 = .ok (PagePool.user 3) ∧
      (Address.ofNat poolBase : PhysAddr).toNat + 3 * pageSize ≤ addressBound ∧
      ∃ (l : FrameLedger) (loans : List Loan) (pending : List PhysAddr) (victim : Loan)
        (l' : FrameLedger) (bits' : UseSets),
        performAll [.lend ⟨⟨1⟩, .ofNat 0x1000⟩ ({} : UseSets), .lend ⟨⟨2⟩, .ofNat 0x1000⟩ {},
            .lend ⟨⟨3⟩, .ofNat 0x1000⟩ {}, .pickVictim {},
            .share (.ofNat (poolBase + pageSize)) ⟨⟨1⟩, .ofNat 0x2000⟩]
          (fresh (PagePool.user 3) .clock) = .ok l ∧
        l.toList = .ok loans ∧ pending = [.ofNat poolBase] ∧
        loans.map Loan.frame = [.ofNat (poolBase + pageSize), .ofNat (poolBase + 2 * pageSize),
          .ofNat poolBase] ∧
        victim.frame = .ofNat (poolBase + 2 * pageSize) ∧
        StopsAt l loans (UseSets.access {} ⟨⟨1⟩, .ofNat 0x2000⟩)
          (loans.takeWhile (!·.isAvailable pending (UseSets.access {} ⟨⟨1⟩, .ofNat 0x2000⟩))) victim
          l' bits' := by
  have hp : PagePool.create (.ofNat poolBase) 3 = .ok (PagePool.user 3) := rfl
  have hfits : (Address.ofNat poolBase : PhysAddr).toNat + 3 * pageSize ≤ addressBound := by decide
  obtain ⟨ops, hops⟩ : ∃ ops : List (Operation UseSets), ops =
      [.lend ⟨⟨1⟩, .ofNat 0x1000⟩ {}, .lend ⟨⟨2⟩, .ofNat 0x1000⟩ {},
        .lend ⟨⟨3⟩, .ofNat 0x1000⟩ {}, .pickVictim {},
        .share (.ofNat (poolBase + pageSize)) ⟨⟨1⟩, .ofNat 0x2000⟩] := ⟨_, rfl⟩
  -- the loans, what is pending and what is available, computed at once
  have hall : (do
      let l ← performAll ops (fresh (PagePool.user 3) .clock)
      let loans ← l.toList
      let pending ← pendingAfter ops (fresh (PagePool.user 3) .clock) []
      return (pending, loans.map Loan.frame,
        (loans.find? fun loan : Loan =>
          loan.isAvailable pending (UseSets.access {} ⟨⟨1⟩, .ofNat 0x2000⟩)).map Loan.frame)) =
      .ok ([.ofNat poolBase], [.ofNat (poolBase + pageSize), .ofNat (poolBase + 2 * pageSize),
        .ofNat poolBase], some (.ofNat (poolBase + 2 * pageSize))) := by
    rw [hops]
    decide +kernel
  obtain ⟨l, loans, pending, hrun, hl, hpending, -, hvictim⟩ := clock_victim hp hfits ops
  obtain ⟨_, hrun', hall⟩ := Checked.bind_eq_ok.mp hall
  cases hrun'.symm.trans hrun
  obtain ⟨_, hl', hall⟩ := Checked.bind_eq_ok.mp hall
  cases hl'.symm.trans hl
  obtain ⟨_, hpending', hall⟩ := Checked.bind_eq_ok.mp hall
  cases hpending'.symm.trans hpending
  simp only [pure, Except.pure, Except.ok.injEq, Prod.mk.injEq] at hall
  obtain ⟨rfl, hframes, havailable⟩ := hall
  obtain ⟨victim, l', bits', hchoice, hs⟩ :=
    hvictim (by rintro rfl; simp at hframes) (UseSets.access {} ⟨⟨1⟩, .ofNat 0x2000⟩)
  obtain ⟨first, hfirst, hframe⟩ := Option.map_eq_some_iff.mp havailable
  rw [hfirst, Option.some_or, Option.some_inj] at hchoice
  obtain rfl := hchoice
  exact ⟨hp, hfits, l, loans, _, first, l', bits', hops ▸ hrun, hl, rfl, hframes, hframe, hs⟩

/-- The working-set policy chooses the first frame that is eligible, and goes over those before it.
If there is none it goes over all frames and chooses the same as the clock. So a frame that is
dirty, or was used within the window, is not chosen as long as one is eligible. -/
theorem workingSet_victim {base : PhysAddr} {total : Nat} {pool : PagePool}
    (hp : PagePool.create base total = .ok pool)
    (hfits : base.toNat + total * pageSize ≤ addressBound) (window : Nat)
    (ops : List (Operation σ)) :
    ∃ l loans pending, performAll ops (fresh pool (.workingSet window)) = .ok l ∧
      l.toList = .ok loans ∧ pendingAfter ops (fresh pool (.workingSet window)) [] = .ok pending ∧
      (∀ loan ∈ loans, loan.chosen = true ↔ loan.frame ∈ pending) ∧
      (loans ≠ [] → ∀ bits : σ, ∃ victim l' bits',
        (loans.find? (·.isEligible pending window l.epoch bits) = some victim ∨
          loans.find? (·.isEligible pending window l.epoch bits) = none ∧
            ∃ l₁ bits₁, (l.withPolicy .clock).pickVictim bits =
              .ok (some victim.frame, l₁, bits₁)) ∧
        StopsAt l loans bits (loans.takeWhile (!·.isEligible pending window l.epoch bits)) victim l'
          bits' ∧
        ((∃ loan ∈ loans, loan.isEligible pending window l.epoch bits = true) →
          victim.isDirty bits = false ∧ window < l.epoch - victim.lastUsed)) := by
  obtain ⟨hk, _⟩ := keeps_create hp hfits (.workingSet window)
  obtain ⟨l, es, pending, hrun, hk', hpending, hr, hpolicy⟩ := hk.recalls_performAll recalls_nil ops
  have hws : l.policy = .workingSet window := hpolicy
  have hnodup := hk'.books.frames_nodup
  refine ⟨l, _, pending, hrun, hk'.toList, hpending, fun loan hm => hr.chosen_iff hnodup hm,
    fun hne bits => ?_⟩
  have hne' : es ≠ [] := by simpa using hne
  obtain ⟨victim, l', bits', _, _, hchoice, hs⟩ := hk'.stopsAt hne' bits
  have htakes : ∀ loan ∈ es.map Prod.snd, loan.isEligible pending window l.epoch bits =
      (Policy.workingSet window).takes l.epoch bits loan := fun loan hm => by
    rw [Loan.isEligible, hr.isAvailable_eq hnodup hm, Policy.takes_workingSet]
  rw [hws] at hchoice hs
  rw [takeWhile_congr fun loan hm => by rw [htakes loan hm]]
  have hvictim : (es.map Prod.snd).find? (·.isEligible pending window l.epoch bits) = some victim ∨
      (es.map Prod.snd).find? (·.isEligible pending window l.epoch bits) = none ∧
        ∃ l₁ bits₁, (l.withPolicy .clock).pickVictim bits =
          .ok (some victim.frame, l₁, bits₁) := by
    rw [Policy.choice?, ← List.find?_congr htakes] at hchoice
    cases hfind : (es.map Prod.snd).find? (·.isEligible pending window l.epoch bits) with
    | some first =>
      rw [hfind, Option.some_or] at hchoice
      exact .inl hchoice
    | none =>
      -- what is left of the choice is what the clock chooses
      rw [hfind, Option.none_or, ← Policy.choice?_clock] at hchoice
      have hclock : (l.withPolicy .clock).Keeps es := ⟨hk'.ring, hk'.books⟩
      obtain ⟨first, l₁, bits₁, _, _, hfirst, hs₁⟩ := hclock.stopsAt hne' bits
      cases hchoice.symm.trans hfirst
      exact .inr ⟨rfl, l₁, bits₁, hs₁.run⟩
  refine ⟨victim, l', bits', hvictim, hs, ?_⟩
  rintro ⟨loan, hm, heligible⟩
  rcases hvictim with hfind | ⟨hfind, -⟩
  · have htaken := List.find?_some hfind
    simp only [Loan.isEligible, Bool.and_eq_true, Bool.not_eq_true', decide_eq_true_eq] at htaken
    exact ⟨htaken.2.2, htaken.2.1⟩
  · exact absurd heligible (List.find?_eq_none.mp hfind loan hm)

set_option synthInstance.maxSize 512 in
/-- Of three frames that were not used for a while the first is dirty. The second is chosen. -/
theorem workingSet_victim_of_three_frames :
    PagePool.create (.ofNat poolBase) 3 = .ok (PagePool.user 3) ∧
      (Address.ofNat poolBase : PhysAddr).toNat + 3 * pageSize ≤ addressBound ∧
      ∃ (l : FrameLedger) (loans : List Loan) (pending : List PhysAddr) (victim : Loan)
        (l' : FrameLedger) (bits' : UseSets),
        performAll [.lend ⟨⟨1⟩, .ofNat 0x1000⟩ ({} : UseSets), .lend ⟨⟨2⟩, .ofNat 0x1000⟩ {},
            .lend ⟨⟨3⟩, .ofNat 0x1000⟩ {}, .advance 2]
          (fresh (PagePool.user 3) (.workingSet 2)) = .ok l ∧
        l.toList = .ok loans ∧ pending = [] ∧
        victim.frame = .ofNat (poolBase + pageSize) ∧
        StopsAt l loans (UseSets.soil {} ⟨⟨1⟩, .ofNat 0x1000⟩)
          (loans.takeWhile
            (!·.isEligible pending 2 l.epoch (UseSets.soil {} ⟨⟨1⟩, .ofNat 0x1000⟩))) victim
          l' bits' ∧
        victim.isDirty (UseSets.soil {} ⟨⟨1⟩, .ofNat 0x1000⟩) = false ∧
        2 < l.epoch - victim.lastUsed := by
  have hp : PagePool.create (.ofNat poolBase) 3 = .ok (PagePool.user 3) := rfl
  have hfits : (Address.ofNat poolBase : PhysAddr).toNat + 3 * pageSize ≤ addressBound := by decide
  obtain ⟨ops, hops⟩ : ∃ ops : List (Operation UseSets), ops =
      [.lend ⟨⟨1⟩, .ofNat 0x1000⟩ {}, .lend ⟨⟨2⟩, .ofNat 0x1000⟩ {},
        .lend ⟨⟨3⟩, .ofNat 0x1000⟩ {}, .advance 2] := ⟨_, rfl⟩
  -- what is pending and what is eligible, computed at once
  have hall : (do
      let l ← performAll ops (fresh (PagePool.user 3) (.workingSet 2))
      let loans ← l.toList
      let pending ← pendingAfter ops (fresh (PagePool.user 3) (.workingSet 2)) []
      return (pending, loans.map Loan.frame, (loans.find? fun loan : Loan =>
        loan.isEligible pending 2 l.epoch (UseSets.soil {} ⟨⟨1⟩, .ofNat 0x1000⟩)).map
          Loan.frame)) =
      .ok ([], [.ofNat poolBase, .ofNat (poolBase + pageSize), .ofNat (poolBase + 2 * pageSize)],
        some (.ofNat (poolBase + pageSize))) := by
    rw [hops]
    decide +kernel
  obtain ⟨l, loans, pending, hrun, hl, hpending, -, hvictim⟩ := workingSet_victim hp hfits 2 ops
  obtain ⟨_, hrun', hall⟩ := Checked.bind_eq_ok.mp hall
  cases hrun'.symm.trans hrun
  obtain ⟨_, hl', hall⟩ := Checked.bind_eq_ok.mp hall
  cases hl'.symm.trans hl
  obtain ⟨_, hpending', hall⟩ := Checked.bind_eq_ok.mp hall
  cases hpending'.symm.trans hpending
  simp only [pure, Except.pure, Except.ok.injEq, Prod.mk.injEq] at hall
  obtain ⟨rfl, hframes, heligible⟩ := hall
  obtain ⟨victim, l', bits', hchoice, hs, hclean⟩ :=
    hvictim (by rintro rfl; simp at hframes) (UseSets.soil {} ⟨⟨1⟩, .ofNat 0x1000⟩)
  obtain ⟨first, hfirst, hframe⟩ := Option.map_eq_some_iff.mp heligible
  rw [hfirst, Option.some_inj] at hchoice
  obtain rfl := hchoice.resolve_right (by simp)
  have htaken := List.find?_some hfirst
  exact ⟨hp, hfits, l, loans, _, first, l', bits', hops ▸ hrun, hl, rfl, hframe, hs,
    hclean ⟨first, List.mem_of_find?_eq_some hfirst, htaken⟩⟩

end FrameLedger

end TeachingKernel
